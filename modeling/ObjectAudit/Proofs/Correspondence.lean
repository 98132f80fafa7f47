/-
ObjectAudit/Proofs/Correspondence.lean

Lists that correspond to each other, element by element.  Two such lists are the two sides of
one list of pairs (`exists_pairs`), and what is done to both in the same way is done to the
pairs.  So sorting them, or keeping the first of each key, leaves lists that correspond again,
as long as the comparisons agree on corresponding elements.
-/
import Mathlib.Data.List.Forall2
import ObjectAudit.Proofs.FirstOfEach

namespace ObjectAudit

open List (Forall₂)

variable {α β γ : Type} {R : α → β → Prop} {l : List α} {l' : List β}

/-! ### What corresponding elements share -/

theorem forall_mem_of_forall₂ {P : α → Prop} {Q : β → Prop} (hPQ : ∀ a b, R a b → P a → Q b)
    (h : Forall₂ R l l') (hl : ∀ a ∈ l, P a) : ∀ b ∈ l', Q b := by
  induction h with
  | nil => exact fun _ hb => nomatch hb
  | @cons a b _ _ hab _ ih =>
    obtain ⟨ha, hrest⟩ := List.forall_mem_cons.1 hl
    exact List.forall_mem_cons.2 ⟨hPQ a b hab ha, ih hrest⟩

theorem map_eq_of_forall₂ {f : α → γ} {g : β → γ} (hfg : ∀ a b, R a b → f a = g b)
    (h : Forall₂ R l l') : l.map f = l'.map g := by
  induction h with
  | nil => rfl
  | cons hab _ ih => rw [List.map_cons, List.map_cons, hfg _ _ hab, ih]

theorem flatMap_eq_of_forall₂ {f : α → List γ} {g : β → List γ}
    (hfg : ∀ a b, R a b → f a = g b) (h : Forall₂ R l l') : l.flatMap f = l'.flatMap g := by
  rw [List.flatMap_def, List.flatMap_def, map_eq_of_forall₂ hfg h]

theorem perm_flatMap_of_forall₂ {f : α → List γ} {g : β → List γ}
    (hfg : ∀ a b, R a b → (f a).Perm (g b)) (h : Forall₂ R l l') :
    (l.flatMap f).Perm (l'.flatMap g) := by
  induction h with
  | nil => exact .refl _
  | cons hab _ ih =>
    rw [List.flatMap_cons, List.flatMap_cons]
    exact (hfg _ _ hab).append ih

theorem sublist_flatMap_of_forall₂ {f : α → List γ} {g : β → List γ}
    (hfg : ∀ a b, R a b → (g b).Sublist (f a)) (h : Forall₂ R l l') :
    (l'.flatMap g).Sublist (l.flatMap f) := by
  induction h with
  | nil => exact .refl _
  | cons hab _ ih =>
    rw [List.flatMap_cons, List.flatMap_cons]
    exact (hfg _ _ hab).append ih

/-- What is kept of two lists is the same if elements that are kept correspond only to
themselves. -/
theorem filter_eq_of_forall₂ {R : α → α → Prop} {l l' : List α} {p : α → Bool}
    (hR : ∀ a b, R a b → p a = p b ∧ (p a = true → a = b)) (h : Forall₂ R l l') :
    l.filter p = l'.filter p := by
  induction h with
  | nil => rfl
  | @cons a b _ _ hab _ ih =>
    obtain ⟨hp, heq⟩ := hR a b hab
    rw [List.filter_cons, List.filter_cons, ← hp, ih]
    cases ha : p a with
    | false => rfl
    | true => rw [heq ha]

/-! ### What is kept, found and sorted -/

section Kept

variable {p : α → Bool} {q : β → Bool} (hpq : ∀ a b, R a b → p a = q b) (h : Forall₂ R l l')

include hpq h

theorem countP_eq_of_forall₂ : l.countP p = l'.countP q := by
  rw [List.countP_eq_length_filter, List.countP_eq_length_filter]
  exact (List.rel_filter (fun a b hab => Bool.eq_iff_iff.1 (hpq a b hab)) h).length_eq

/-- A search finds corresponding elements, or nothing in both lists. -/
theorem rel_find? : Option.Rel R (l.find? p) (l'.find? q) := by
  induction h with
  | nil => exact .none
  | @cons a b _ _ hab _ ih =>
    rw [List.find?_cons, List.find?_cons, hpq a b hab]
    cases q b with
    | false => exact ih
    | true => exact .some hab

end Kept

theorem bind_eq_of_rel {f : α → Option γ} {g : β → Option γ} (hfg : ∀ a b, R a b → f a = g b)
    {found : Option α} {found' : Option β} (h : Option.Rel R found found') :
    found.bind f = found'.bind g := by
  cases h with
  | some hab => exact hfg _ _ hab
  | none => rfl

/-- Lists that correspond to each other are the two sides of one list. -/
theorem exists_pairs (h : Forall₂ R l l') :
    ∃ pairs : List { pair : α × β // R pair.1 pair.2 },
      pairs.map (fun pair => pair.1.1) = l ∧ pairs.map (fun pair => pair.1.2) = l' := by
  induction h with
  | nil => exact ⟨[], rfl, rfl⟩
  | @cons a b _ _ hab _ ih =>
    obtain ⟨pairs, rfl, rfl⟩ := ih
    exact ⟨⟨(a, b), hab⟩ :: pairs, rfl, rfl⟩

theorem forall₂_of_pairs (pairs : List { pair : α × β // R pair.1 pair.2 }) :
    Forall₂ R (pairs.map fun pair => pair.1.1) (pairs.map fun pair => pair.1.2) := by
  refine List.forall₂_map_left_iff.2 (List.forall₂_map_right_iff.2 ?_)
  exact List.forall₂_same.2 fun pair _ => pair.2

section Compared

variable {f : α → α → Bool} {g : β → β → Bool}
variable (hfg : ∀ a b a' b', R a b → R a' b' → f a a' = g b b') (h : Forall₂ R l l')

include hfg h

theorem forall₂_mergeSort : Forall₂ R (l.mergeSort f) (l'.mergeSort g) := by
  obtain ⟨pairs, rfl, rfl⟩ := exists_pairs h
  -- both lists are sorted as the pairs are, which may be compared by either side
  have hleft : (pairs.mergeSort fun pair pair' => f pair.1.1 pair'.1.1).map
      (fun pair => pair.1.1) = (pairs.map fun pair => pair.1.1).mergeSort f := by
    apply List.map_mergeSort
    intro pair _ pair' _
    rfl
  have hright : (pairs.mergeSort fun pair pair' => f pair.1.1 pair'.1.1).map
      (fun pair => pair.1.2) = (pairs.map fun pair => pair.1.2).mergeSort g := by
    apply List.map_mergeSort
    intro pair _ pair' _
    exact hfg _ _ _ _ pair.2 pair'.2
  rw [← hleft, ← hright]
  exact forall₂_of_pairs _

theorem forall₂_eraseDupsBy : Forall₂ R (l.eraseDupsBy f) (l'.eraseDupsBy g) := by
  obtain ⟨pairs, rfl, rfl⟩ := exists_pairs h
  have hsame : (fun pair pair' : { pair : α × β // R pair.1 pair.2 } => f pair.1.1 pair'.1.1) =
      fun pair pair' => g pair.1.2 pair'.1.2 := by
    funext pair pair'
    exact hfg _ _ _ _ pair.2 pair'.2
  rw [eraseDupsBy_map, eraseDupsBy_map, hsame]
  exact forall₂_of_pairs _

end Compared

end ObjectAudit
