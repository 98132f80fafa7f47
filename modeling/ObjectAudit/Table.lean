/-
ObjectAudit/Table.lean

Tables that keep the order in which their keys were first written.  A key has at most
one entry, and a table carries the proof of that.  `insert` writes a value (a known key
keeps its place), `insertNew` lets the first value win, and `push` collects several values
under one key.
-/

namespace ObjectAudit

/-- A table from keys to values, in the order of first insertion. -/
structure Table (κ υ : Type) where
  entries : List (κ × υ) := []
  /-- Each key has one entry. -/
  nodup : (entries.map Prod.fst).Nodup := by exact List.nodup_nil
deriving DecidableEq, Repr

namespace Table

variable {κ υ : Type} [BEq κ]

def empty : Table κ υ := {}

def keys (t : Table κ υ) : List κ := t.entries.map Prod.fst

def values (t : Table κ υ) : List υ := t.entries.map Prod.snd

def get? (t : Table κ υ) (key : κ) : Option υ := t.entries.lookup key

def contains (t : Table κ υ) (key : κ) : Bool := (t.get? key).isSome

/-- Write a value into a list of entries, in place if the key is there. -/
def write (key : κ) (value : υ) : List (κ × υ) → List (κ × υ)
  | [] => [(key, value)]
  | entry :: rest =>
    if key == entry.1 then (entry.1, value) :: rest else entry :: write key value rest

/-! ### Keys after a write -/

theorem lookup_entry (key : κ) (entry : κ × υ) (rest : List (κ × υ)) :
    (entry :: rest).lookup key = if key == entry.1 then some entry.2 else rest.lookup key := by
  obtain ⟨key', value⟩ := entry
  rw [List.lookup_cons]
  cases key == key' <;> rfl

/-- A write changes no key, and adds its own behind the others if it is new. -/
theorem map_fst_write (key : κ) (value : υ) (entries : List (κ × υ)) :
    (write key value entries).map Prod.fst =
      if entries.lookup key = none then entries.map Prod.fst ++ [key]
      else entries.map Prod.fst := by
  induction entries with
  | nil => simp [write]
  | cons entry rest ih =>
    unfold write
    rw [lookup_entry]
    split
    · simp
    · rw [List.map_cons, ih]
      split <;> simp

variable [LawfulBEq κ]

theorem lookup_eq_none {key : κ} {entries : List (κ × υ)} :
    entries.lookup key = none ↔ key ∉ entries.map Prod.fst := by
  induction entries with
  | nil => simp
  | cons entry rest ih =>
    rw [lookup_entry, List.map_cons, List.mem_cons, not_or]
    split
    · next h => simp [eq_of_beq h]
    · next h => simpa [ih] using fun _ heq => h (beq_iff_eq.2 heq)

theorem nodup_write (key : κ) (value : υ) {entries : List (κ × υ)}
    (h : (entries.map Prod.fst).Nodup) : ((write key value entries).map Prod.fst).Nodup := by
  rw [map_fst_write]
  split
  · next hnone =>
    refine List.nodup_append.2 ⟨h, by simp, ?_⟩
    intro a ha b hb heq
    rw [List.mem_singleton.1 hb] at heq
    exact lookup_eq_none.1 hnone (heq ▸ ha)
  · exact h

/-! ### Writing -/

/-- Write a value; a known key keeps its place. -/
def insert (t : Table κ υ) (key : κ) (value : υ) : Table κ υ :=
  ⟨write key value t.entries, nodup_write key value t.nodup⟩

/-- Write a value unless the key has one. -/
def insertNew (t : Table κ υ) (key : κ) (value : υ) : Table κ υ :=
  if t.contains key then t else t.insert key value

/-- Append a value to those collected under a key. -/
def push {α : Type} (t : Table κ (List α)) (key : κ) (value : α) : Table κ (List α) :=
  t.insert key ((t.get? key).getD [] ++ [value])

/-- The table of a list of pairs: a later value replaces an earlier one. -/
def ofList (pairs : List (κ × υ)) : Table κ υ :=
  pairs.foldl (fun t pair => t.insert pair.1 pair.2) empty

/-- The table of a list of pairs in which the first value of a key wins. -/
def ofListNew (pairs : List (κ × υ)) : Table κ υ :=
  pairs.foldl (fun t pair => t.insertNew pair.1 pair.2) empty

/-- The table that collects, under each key, the values that go with it, in order. -/
def group {α : Type} (pairs : List (κ × α)) : Table κ (List α) :=
  pairs.foldl (fun t pair => t.push pair.1 pair.2) empty

/-! ### Look-ups after a write -/

theorem lookup_write (key key' : κ) (value : υ) (entries : List (κ × υ)) :
    (write key value entries).lookup key' =
      if key' == key then some value else entries.lookup key' := by
  induction entries with
  | nil => simp only [write, lookup_entry]
  | cons entry rest ih =>
    unfold write
    split
    · next h =>
      rw [eq_of_beq h, lookup_entry, lookup_entry]
      split <;> rfl
    · next h =>
      rw [lookup_entry, lookup_entry, ih]
      split
      · next h' =>
        split
        · next h'' => exact absurd (beq_iff_eq.2 (eq_of_beq h'' ▸ eq_of_beq h')) h
        · rfl
      · rfl

/-- A write is seen under its own key, and only there. -/
theorem get?_insert (t : Table κ υ) (key key' : κ) (value : υ) :
    (t.insert key value).get? key' = if key' == key then some value else t.get? key' :=
  lookup_write key key' value t.entries

/-- Writing a known key changes nothing; a new one is seen under its own key only. -/
theorem get?_insertNew (t : Table κ υ) (key key' : κ) (value : υ) :
    (t.insertNew key value).get? key' =
      if key' == key then some ((t.get? key).getD value) else t.get? key' := by
  unfold insertNew contains
  cases e : t.get? key with
  | some v =>
    simp only [Option.isSome_some, if_true, Option.getD_some]
    split
    · next h => rw [eq_of_beq h, e]
    · rfl
  | none =>
    simp only [Option.isSome_none, Bool.false_eq_true, if_false, Option.getD_none]
    exact get?_insert t key key' value

end Table

end ObjectAudit
