/-
ObjectAudit/Proofs/FirstOfEach.lean

Lists in which elements have keys.  Where several elements have a key, the first one counts:
keeping the first of each key leaves every key once (`nodup_map_eraseDupsBy`) and does not
change what a search by key finds (`find?_eraseDupsBy`).

Where no key is repeated, a search by key finds the one element that has it, in whatever order
the elements are listed (`find?_eq_of_perm`).
-/

namespace ObjectAudit

/-! ### Keeping the first of each key -/

variable {α β κ : Type}

theorem eraseDupsBy_sublist (same : α → α → Bool) (l : List α) :
    (l.eraseDupsBy same).Sublist l := by
  match l with
  | [] => simp
  | a :: rest =>
    rw [List.eraseDupsBy_cons]
    exact ((eraseDupsBy_sublist same _).trans List.filter_sublist).cons_cons a
termination_by l.length
decreasing_by exact Nat.lt_succ_of_le (List.length_filter_le _ rest)

/-- Elements may be replaced by what they are compared by before or after. -/
theorem eraseDupsBy_map (f : α → β) (same : β → β → Bool) (l : List α) :
    (l.map f).eraseDupsBy same = (l.eraseDupsBy fun a b => same (f a) (f b)).map f := by
  match l with
  | [] => rfl
  | a :: rest =>
    rw [List.map_cons, List.eraseDupsBy_cons, List.eraseDupsBy_cons, List.map_cons,
      ← eraseDupsBy_map f same, List.filter_map]
    rfl
termination_by l.length
decreasing_by exact Nat.lt_succ_of_le (List.length_filter_le _ rest)

variable [BEq κ] [LawfulBEq κ]

omit [LawfulBEq κ] in
/-- The first of each key have the keys, each once. -/
theorem map_eraseDupsBy (key : α → κ) (l : List α) :
    (l.eraseDupsBy fun a b => key a == key b).map key = (l.map key).eraseDups :=
  (eraseDupsBy_map key _ l).symm

/-- Each element has the key of one of the first of each key. -/
theorem exists_mem_eraseDupsBy (key : α → κ) {l : List α} {a : α} (h : a ∈ l) :
    ∃ first ∈ l.eraseDupsBy (fun a b => key a == key b), key first = key a := by
  have hkey : key a ∈ (l.eraseDupsBy fun a b => key a == key b).map key := by
    rw [map_eraseDupsBy key, List.mem_eraseDups]
    exact List.mem_map.2 ⟨a, h, rfl⟩
  exact List.mem_map.1 hkey

/-- Where no key is repeated, nothing is dropped. -/
theorem eraseDupsBy_eq_self (key : α → κ) {l : List α}
    (h : (l.map key).Nodup) : l.eraseDupsBy (fun a b => key a == key b) = l := by
  induction l with
  | nil => rfl
  | cons a rest ih =>
    obtain ⟨hnot, hrest⟩ := List.nodup_cons.1 h
    have hfilter : rest.filter (fun b => (key b == key a) = false) = rest := by
      refine List.filter_eq_self.2 ?_
      intro b hb
      have hne : key b ≠ key a := fun heq => hnot (heq ▸ List.mem_map.2 ⟨b, hb, rfl⟩)
      simpa using hne
    rw [List.eraseDupsBy_cons, hfilter, ih hrest]

/-- The first of each key have different keys. -/
theorem nodup_map_eraseDupsBy (key : α → κ) (l : List α) :
    ((l.eraseDupsBy fun a b => key a == key b).map key).Nodup := by
  match l with
  | [] => simp
  | a :: rest =>
    rw [List.eraseDupsBy_cons, List.map_cons]
    refine List.nodup_cons.2 ⟨?_, nodup_map_eraseDupsBy key _⟩
    intro hmem
    obtain ⟨b, hb, heq⟩ := List.mem_map.1 hmem
    have hne := (List.mem_filter.1 ((eraseDupsBy_sublist _ _).subset hb)).2
    simp [heq] at hne
termination_by l.length
decreasing_by exact Nat.lt_succ_of_le (List.length_filter_le _ rest)

/-- An element with the key of an earlier one is not kept. -/
theorem eraseDupsBy_insert (key : α → κ) {front : List α} {a : α} (h : key a ∈ front.map key)
    (back : List α) :
    (front ++ a :: back).eraseDupsBy (fun a b => key a == key b) =
      (front ++ back).eraseDupsBy fun a b => key a == key b := by
  match front with
  | [] => cases h
  | first :: rest =>
    rw [List.cons_append, List.cons_append, List.eraseDupsBy_cons, List.eraseDupsBy_cons,
      List.filter_append, List.filter_append, List.filter_cons]
    by_cases hkey : key a = key first
    · -- dropped together with all that have the key of the first
      simp [hkey]
    · have hmem : key a ∈ (rest.filter fun b => (key b == key first) = false).map key := by
        obtain ⟨b, hb, hkeys⟩ := List.mem_map.1 ((List.mem_cons.1 h).resolve_left hkey)
        refine List.mem_map.2 ⟨b, List.mem_filter.2 ⟨hb, ?_⟩, hkeys⟩
        simpa [hkeys] using hkey
      rw [if_pos (by simpa using hkey), eraseDupsBy_insert key hmem]
termination_by front.length
decreasing_by exact Nat.lt_succ_of_le (List.length_filter_le _ rest)

/-- The first with a key is among the first of each key. -/
theorem find?_eraseDupsBy (key : α → κ) (l : List α) (k : κ) :
    (l.eraseDupsBy fun a b => key a == key b).find? (fun a => key a == k) =
      l.find? fun a => key a == k := by
  match l with
  | [] => simp
  | a :: rest =>
    rw [List.eraseDupsBy_cons, List.find?_cons, List.find?_cons]
    cases ha : key a == k with
    | true => rfl
    | false =>
      -- what was dropped has the key of `a`, which is another one
      rw [find?_eraseDupsBy key, List.find?_filter]
      dsimp only
      congr 1
      funext b
      cases hb : key b == k with
      | false => simp
      | true =>
        rw [eq_of_beq hb, BEq.comm, ha]
        rfl
termination_by l.length
decreasing_by exact Nat.lt_succ_of_le (List.length_filter_le _ rest)

/-! ### Searching by key -/

/-- What only the one with a key can yield is what the first one with it yields. -/
theorem findSome?_eq_bind_find? (key : α → κ) {l : List α} (hnodup : (l.map key).Nodup) (k : κ)
    {g : α → Option β} (hg : ∀ a ∈ l, key a ≠ k → g a = none) :
    l.findSome? g = (l.find? fun a => key a == k).bind g := by
  induction l with
  | nil => rfl
  | cons a rest ih =>
    obtain ⟨hnot, hrest⟩ := List.nodup_cons.1 hnodup
    have hg' : ∀ b ∈ rest, key b ≠ k → g b = none := fun b hb => hg b (List.mem_cons_of_mem a hb)
    rw [List.findSome?_cons, List.find?_cons]
    cases ha : key a == k with
    | false =>
      have hne : key a ≠ k := by simpa using ha
      rw [hg a List.mem_cons_self hne]
      exact ih hrest hg'
    | true =>
      obtain rfl := eq_of_beq ha
      -- behind the first one nothing has the key any more
      have hnone : rest.findSome? g = none := by
        refine List.findSome?_eq_none_iff.2 ?_
        intro b hb
        refine hg' b hb ?_
        intro heq
        exact hnot (heq ▸ List.mem_map.2 ⟨b, hb, rfl⟩)
      rw [hnone]
      show _ = g a
      cases g a <;> rfl

/-- Where no key is repeated, the first with a key is the one that has it. -/
theorem find?_eq_some_iff_mem (key : α → κ) {l : List α} (hnodup : (l.map key).Nodup) {k : κ}
    {a : α} : l.find? (fun b => key b == k) = some a ↔ a ∈ l ∧ key a = k := by
  induction l with
  | nil => simp
  | cons b rest ih =>
    obtain ⟨hnot, hrest⟩ := List.nodup_cons.1 hnodup
    rw [List.find?_cons]
    cases hb : key b == k with
    | false =>
      have hne : key b ≠ k := by simpa using hb
      refine (ih hrest).trans (and_congr_left ?_)
      intro hkey
      rw [List.mem_cons]
      exact ⟨.inr, fun hmem => hmem.resolve_left fun heq => hne (heq ▸ hkey)⟩
    | true =>
      obtain rfl := eq_of_beq hb
      constructor
      · intro heq
        obtain rfl := Option.some.inj heq
        exact ⟨List.mem_cons_self, rfl⟩
      · rintro ⟨hmem, hkey⟩
        rcases List.mem_cons.1 hmem with rfl | hmem
        · rfl
        · exact absurd (hkey ▸ List.mem_map.2 ⟨a, hmem, rfl⟩) hnot

/-- Where keys decide what is selected, the first one with a key among the selected is the first one
of all. -/
theorem find?_of_mem_eraseDupsBy_filter (key : α → κ) {p : α → Bool} {l : List α}
    (hp : ∀ a ∈ l, ∀ b ∈ l, key a = key b → p a = p b) {a : α}
    (h : a ∈ (l.filter p).eraseDupsBy fun a b => key a == key b) :
    l.find? (fun b => key b == key a) = some a := by
  obtain ⟨hmem, ha⟩ := List.mem_filter.1 ((eraseDupsBy_sublist _ _).subset h)
  have hfilter : (l.filter p).filter (fun b => key b == key a) =
      l.filter fun b => key b == key a := by
    rw [List.filter_filter]
    apply List.filter_congr
    intro b hb
    cases hkey : key b == key a with
    | false => rfl
    | true => rw [hp b hb a hmem (eq_of_beq hkey), ha, Bool.true_and]
  rw [← List.head?_filter, ← hfilter, List.head?_filter, ← find?_eraseDupsBy key,
    find?_eq_some_iff_mem key (nodup_map_eraseDupsBy key _)]
  exact ⟨h, rfl⟩

/-- Where no key is repeated, one element is left of those with its key. -/
theorem filter_key_eq_singleton (key : α → κ) {l : List α} (hnodup : (l.map key).Nodup) {a : α}
    (h : a ∈ l) : l.filter (fun b => key b == key a) = [a] := by
  induction l with
  | nil => cases h
  | cons b rest ih =>
    obtain ⟨hnot, hrest⟩ := List.nodup_cons.1 hnodup
    rw [List.filter_cons]
    rcases List.mem_cons.1 h with rfl | hmem
    · have hnone : rest.filter (fun b => key b == key a) = [] := by
        apply List.filter_eq_nil_iff.2
        intro b hb heq
        exact hnot (eq_of_beq heq ▸ List.mem_map.2 ⟨b, hb, rfl⟩)
      rw [hnone, beq_self_eq_true, if_pos rfl]
    · have hne : key b ≠ key a := fun heq => hnot (heq ▸ List.mem_map.2 ⟨a, hmem, rfl⟩)
      rw [beq_false_of_ne hne, if_neg Bool.false_ne_true, ih hrest hmem]

/-- Where no key is repeated, a search by key does not depend on the order. -/
theorem find?_eq_of_perm (key : α → κ) {l l' : List α} (hperm : l.Perm l')
    (hnodup : (l.map key).Nodup) (k : κ) :
    l.find? (fun a => key a == k) = l'.find? fun a => key a == k := by
  apply Option.ext
  intro a
  rw [find?_eq_some_iff_mem key hnodup,
    find?_eq_some_iff_mem key ((hperm.map key).nodup_iff.1 hnodup), hperm.mem_iff]

end ObjectAudit
