/-
ObjectAudit/Proofs/Tables.lean

What the tables built from a list of pairs hold.  Where the first value of a key wins, a
table answers like a search through the list (`get?_ofListNew`); where values are
collected, it answers with all that go with the key (`get?_group`), and lists them in the
order in which the keys first occur (`values_group`); where no key is repeated, a table is the
list itself (`entries_ofList`).  Entries and look-ups say the same (`get?_eq_some_iff`),
because each key has one entry.
-/
import ObjectAudit.Proofs.FirstOfEach
import ObjectAudit.Table

namespace ObjectAudit

namespace Table

variable {κ υ : Type} [BEq κ] [LawfulBEq κ]

/-! ### Entries and look-ups -/

omit [LawfulBEq κ] in
/-- Looking up a key among keyed values is searching for the first one with that key. -/
theorem lookup_map {α : Type} (key : α → κ) (value : α → υ) (l : List α) (k : κ) :
    (l.map fun a => (key a, value a)).lookup k = (l.find? fun a => k == key a).map value := by
  induction l with
  | nil => rfl
  | cons a rest ih =>
    rw [List.map_cons, lookup_entry, List.find?_cons, ih]
    cases k == key a <;> rfl

omit [LawfulBEq κ] in
theorem lookup_map_self {α : Type} (key : α → κ) (l : List α) (k : κ) :
    (l.map fun a => (key a, a)).lookup k = l.find? fun a => k == key a :=
  (lookup_map key id l k).trans (congrFun Option.map_id _)

/-- Where no key is repeated, looking up a key finds the value that goes with it. -/
theorem lookup_eq_some_iff {entries : List (κ × υ)} (h : (entries.map Prod.fst).Nodup)
    {key : κ} {value : υ} : entries.lookup key = some value ↔ (key, value) ∈ entries := by
  have hlookup := lookup_map Prod.fst Prod.snd entries key
  rw [List.map_id'] at hlookup
  simp only [BEq.comm (a := key)] at hlookup
  rw [hlookup, Option.map_eq_some_iff]
  simp only [find?_eq_some_iff_mem Prod.fst h]
  constructor
  · rintro ⟨⟨key', value'⟩, ⟨hmem, rfl⟩, rfl⟩
    exact hmem
  · intro hmem
    exact ⟨(key, value), ⟨hmem, rfl⟩, rfl⟩

/-- A table answers with exactly its entries. -/
theorem get?_eq_some_iff {t : Table κ υ} {key : κ} {value : υ} :
    t.get? key = some value ↔ (key, value) ∈ t.entries :=
  lookup_eq_some_iff t.nodup

omit [LawfulBEq κ] in
@[simp] theorem get?_empty (key : κ) : (empty : Table κ υ).get? key = none := rfl

/-! ### The first value wins -/

theorem get?_foldl_insertNew (pairs : List (κ × υ)) (t : Table κ υ) (key : κ) :
    (pairs.foldl (fun t pair => t.insertNew pair.1 pair.2) t).get? key =
      (t.get? key).or (pairs.lookup key) := by
  induction pairs generalizing t with
  | nil => simp
  | cons pair rest ih =>
    rw [List.foldl_cons, ih, get?_insertNew, lookup_entry]
    -- a value that is already there wins over the pair, and the pair over those behind it
    split
    · next h =>
      rw [← eq_of_beq h]
      cases t.get? key <;> rfl
    · rfl

/-- A table in which the first value wins answers with the first value. -/
@[simp] theorem get?_ofListNew (pairs : List (κ × υ)) (key : κ) :
    (ofListNew pairs).get? key = pairs.lookup key := by
  rw [ofListNew, get?_foldl_insertNew, get?_empty, Option.none_or]

/-- A pair whose key occurs before adds nothing where the first value wins. -/
theorem ofListNew_insert {front : List (κ × υ)} {pair : κ × υ}
    (h : pair.1 ∈ front.map Prod.fst) (back : List (κ × υ)) :
    ofListNew (front ++ pair :: back) = ofListNew (front ++ back) := by
  have hcontains : (ofListNew front).contains pair.1 = true := by
    rw [contains, get?_ofListNew, Option.isSome_iff_ne_none]
    intro hnone
    exact lookup_eq_none.1 hnone h
  rw [ofListNew, List.foldl_append, List.foldl_cons, insertNew]
  rw [ofListNew] at hcontains
  rw [if_pos hcontains, ← List.foldl_append]
  rfl

/-! ### Values are collected -/

/-- The values that go with a key, in order. -/
def valuesOf {α : Type} (key : κ) (pairs : List (κ × α)) : List α :=
  (pairs.filter fun pair => key == pair.1).map Prod.snd

theorem get?_foldl_push {α : Type} (pairs : List (κ × α)) (t : Table κ (List α)) (key : κ) :
    (pairs.foldl (fun t pair => t.push pair.1 pair.2) t).get? key =
      if valuesOf key pairs = [] then t.get? key
      else some ((t.get? key).getD [] ++ valuesOf key pairs) := by
  induction pairs generalizing t with
  | nil => simp [valuesOf]
  | cons pair rest ih =>
    rw [List.foldl_cons, ih, push, get?_insert]
    -- only a pair with this key adds to what is collected under it
    by_cases h : (key == pair.1) = true
    · obtain rfl := eq_of_beq h
      have hcons : valuesOf pair.1 (pair :: rest) = pair.2 :: valuesOf pair.1 rest := by
        simp [valuesOf]
      rw [hcons]
      simp only [h, if_true, Option.getD_some, List.append_assoc, List.singleton_append]
      split
      · next hnil => simp [hnil]
      · simp
    · have hcons : valuesOf key (pair :: rest) = valuesOf key rest := by
        simp [valuesOf, h]
      rw [hcons, if_neg h]

/-- A collecting table knows the keys that occur, each with all its values. -/
theorem get?_group {α : Type} (pairs : List (κ × α)) (key : κ) :
    (group pairs).get? key =
      if valuesOf key pairs = [] then none else some (valuesOf key pairs) := by
  rw [group, get?_foldl_push]
  simp

theorem mem_valuesOf {α : Type} {key : κ} {pairs : List (κ × α)} {value : α} :
    value ∈ valuesOf key pairs ↔ (key, value) ∈ pairs := by
  simp only [valuesOf, List.mem_map, List.mem_filter, beq_iff_eq]
  constructor
  · rintro ⟨⟨key', value'⟩, ⟨hmem, rfl⟩, rfl⟩
    exact hmem
  · intro hmem
    exact ⟨(key, value), ⟨hmem, rfl⟩, rfl⟩

/-- What stands under a key of a collecting table goes with that key, and is not nothing. -/
theorem of_mem_entries_group {α : Type} {pairs : List (κ × α)} {key : κ} {values : List α}
    (h : (key, values) ∈ (group pairs).entries) :
    values ≠ [] ∧ ∀ value ∈ values, (key, value) ∈ pairs := by
  have hget := get?_eq_some_iff.2 h
  rw [get?_group] at hget
  split at hget
  · cases hget
  · next hne =>
    obtain rfl := Option.some.inj hget
    exact ⟨hne, fun value hmem => mem_valuesOf.1 hmem⟩

theorem keys_push {α : Type} (t : Table κ (List α)) (key : κ) (value : α) :
    (t.push key value).keys = if key ∈ t.keys then t.keys else t.keys ++ [key] := by
  show (write key _ t.entries).map Prod.fst = _
  rw [map_fst_write, keys]
  by_cases h : key ∈ t.entries.map Prod.fst
  · rw [if_neg (fun hnone => lookup_eq_none.1 hnone h), if_pos h]
  · rw [if_pos (lookup_eq_none.2 h), if_neg h]

/-- A collecting table lists its keys in the order in which they first occur. -/
theorem keys_group {α : Type} (pairs : List (κ × α)) :
    (group pairs).keys = (pairs.map Prod.fst).eraseDups := by
  -- generalised to a table that already holds some keys, which are not listed again
  suffices ∀ t : Table κ (List α),
      (pairs.foldl (fun t pair => t.push pair.1 pair.2) t).keys =
        t.keys ++ ((pairs.map Prod.fst).filter fun key => !t.keys.contains key).eraseDups by
    have hall : ((pairs.map Prod.fst).filter fun key => !(empty : Table κ (List α)).keys.contains
        key) = pairs.map Prod.fst := List.filter_eq_self.2 fun _ _ => rfl
    exact (this empty).trans (congrArg List.eraseDups hall)
  induction pairs with
  | nil => simp
  | cons pair rest ih =>
    intro t
    rw [List.foldl_cons, ih, keys_push, List.map_cons, List.filter_cons]
    by_cases h : pair.1 ∈ t.keys
    · simp [h]
    · have hfilter : ((rest.map Prod.fst).filter fun key => !(t.keys ++ [pair.1]).contains key) =
          ((rest.map Prod.fst).filter fun key => !t.keys.contains key).filter
            fun key => !key == pair.1 := by
        rw [List.filter_filter]
        congr 1
        funext key
        rw [List.contains_append, Bool.not_or, Bool.and_comm]
        simp
      rw [if_neg h, hfilter]
      simp [h, List.eraseDups_cons]

/-- A collecting table holds what goes with each key, in the order in which the keys first
occur. -/
theorem values_group {α : Type} (pairs : List (κ × α)) :
    (group pairs).values = (pairs.map Prod.fst).eraseDups.map fun key => valuesOf key pairs := by
  rw [← keys_group, keys, values, List.map_map]
  refine List.map_congr_left ?_
  rintro ⟨key, values⟩ hentry
  have hget := get?_eq_some_iff.2 hentry
  rw [get?_group] at hget
  split at hget
  · cases hget
  · exact (Option.some.inj hget).symm
/-! ### No key is repeated -/

theorem entries_insert_of_not_mem (t : Table κ υ) {key : κ} (value : υ)
    (h : key ∉ t.entries.map Prod.fst) :
    (t.insert key value).entries = t.entries ++ [(key, value)] := by
  suffices ∀ entries : List (κ × υ), key ∉ entries.map Prod.fst →
      write key value entries = entries ++ [(key, value)] from this t.entries h
  intro entries hnot
  induction entries with
  | nil => rfl
  | cons entry rest ih =>
    rw [List.map_cons, List.mem_cons, not_or] at hnot
    rw [write, if_neg (by simpa using hnot.1), ih hnot.2]
    rfl

/-- Pairs without repeated keys are the entries of their table. -/
theorem entries_ofList {pairs : List (κ × υ)} (h : (pairs.map Prod.fst).Nodup) :
    (ofList pairs).entries = pairs := by
  -- generalised to a table that already holds other keys
  suffices ∀ (t : Table κ υ), ((t.entries ++ pairs).map Prod.fst).Nodup →
      (pairs.foldl (fun t pair => t.insert pair.1 pair.2) t).entries = t.entries ++ pairs by
    exact this empty (by simpa [empty] using h)
  clear h
  induction pairs with
  | nil => simp
  | cons pair rest ih =>
    intro t hnodup
    rw [List.map_append, List.map_cons, List.nodup_append] at hnodup
    have hnot : pair.1 ∉ t.entries.map Prod.fst := by
      intro hmem
      exact hnodup.2.2 _ hmem _ List.mem_cons_self rfl
    have hentries := entries_insert_of_not_mem t pair.2 hnot
    rw [List.foldl_cons, ih, hentries, List.append_assoc]
    · rfl
    · rw [hentries, List.append_assoc, List.map_append]
      exact List.nodup_append.2 hnodup

end Table

end ObjectAudit
