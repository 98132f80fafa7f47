/-
ObjectAudit/Proofs/Sorting.lean

Sorting that keeps equal elements in their order.  A sorted list is determined by its
elements tied with each given one, in their order (`eq_of_filter_tied`), and sorting does
not move tied elements past each other (`filter_tied_mergeSort`).  Hence

    (l.mergeSort le).filter p = (l.filter p).mergeSort le,

so a report may be filtered before or after it is sorted, and what is left of a list is left of
the sorted list (`mergeSort_sublist`).  Where tied elements are equal, sorting forgets the order
of the list altogether (`mergeSort_append_eq_of_perm`).  A sorted list begins with the first of
the least elements (`head?_mergeSort`), so to sort a list and then to keep the first of each key
selects the first of the least for each key (`mem_eraseDupsBy_mergeSort`).

The second half is about sets of texts, which are sorted lists without repetitions.
-/
import ObjectAudit.Proofs.FirstOfEach
import ObjectAudit.Text.Order

namespace ObjectAudit

/-! ### Stable sorting -/

/-- A comparison that can be sorted by: transitive and total.  Different elements may be
tied. -/
structure SortsBy {α : Type} (le : α → α → Bool) : Prop where
  trans : ∀ a b c, le a b → le b c → le a c
  total : ∀ a b, (le a b || le b a) = true

namespace SortsBy

variable {α β : Type} {le : α → α → Bool}

/-- Does neither of two elements have to stand before the other? -/
def tied (le : α → α → Bool) (a b : α) : Bool := le a b && le b a

theorem refl (h : SortsBy le) (a : α) : le a a = true := by
  have := h.total a a
  simpa using this

theorem tied_self (h : SortsBy le) (a : α) : tied le a a = true := by
  simp [tied, h.refl a]

/-- Elements tied with the same one are in order, whatever their order is. -/
theorem pairwise_filter_tied (h : SortsBy le) (a : α) (l : List α) :
    (l.filter (tied le a)).Pairwise fun b c => le b c = true := by
  refine List.pairwise_of_forall_mem_list ?_
  intro b hb c hc
  have hb' := (List.mem_filter.1 hb).2
  have hc' := (List.mem_filter.1 hc).2
  simp only [tied, Bool.and_eq_true] at hb' hc'
  exact h.trans b a c hb'.2 hc'.1

/-- Sorting keeps tied elements in their order. -/
theorem filter_tied_mergeSort (h : SortsBy le) (a : α) (l : List α) :
    (l.mergeSort le).filter (tied le a) = l.filter (tied le a) := by
  have hsub : List.Sublist (l.filter (tied le a)) (l.mergeSort le) :=
    List.sublist_mergeSort h.trans h.total (h.pairwise_filter_tied a l) List.filter_sublist
  have hsub' := hsub.filter (tied le a)
  simp only [List.filter_filter, Bool.and_self] at hsub'
  -- the tied elements are a sublist of what is left of the sorted list, and as many
  have hlen := ((List.mergeSort_perm l le).filter (tied le a)).length_eq
  exact (hsub'.eq_of_length hlen.symm).symm

/-- A sorted list is determined by the order of its tied elements. -/
theorem eq_of_filter_tied (h : SortsBy le) {l l' : List α}
    (hl : l.Pairwise fun a b => le a b = true) (hl' : l'.Pairwise fun a b => le a b = true)
    (htied : ∀ a, l.filter (tied le a) = l'.filter (tied le a)) : l = l' := by
  induction l generalizing l' with
  | nil =>
    cases l' with
    | nil => rfl
    | cons b rest =>
      have := htied b
      simp [h.tied_self b] at this
  | cons a rest ih =>
    cases l' with
    | nil =>
      have := htied a
      simp [h.tied_self a] at this
    | cons b rest' =>
      -- each head occurs in the other list, so the heads are tied, and then equal
      have ha : a ∈ b :: rest' := by
        have hmem : a ∈ (a :: rest).filter (tied le a) :=
          List.mem_filter.2 ⟨List.mem_cons_self, h.tied_self a⟩
        rw [htied a] at hmem
        exact (List.mem_filter.1 hmem).1
      have hb : b ∈ a :: rest := by
        have hmem : b ∈ (b :: rest').filter (tied le b) :=
          List.mem_filter.2 ⟨List.mem_cons_self, h.tied_self b⟩
        rw [← htied b] at hmem
        exact (List.mem_filter.1 hmem).1
      have hba : le b a = true := by
        rcases List.mem_cons.1 ha with rfl | hmem
        · exact h.refl a
        · exact List.rel_of_pairwise_cons hl' hmem
      have hab : le a b = true := by
        rcases List.mem_cons.1 hb with rfl | hmem
        · exact h.refl b
        · exact List.rel_of_pairwise_cons hl hmem
      have heq := htied a
      rw [List.filter_cons_of_pos (h.tied_self a),
        List.filter_cons_of_pos (show tied le a b = true by simp [tied, hab, hba])] at heq
      obtain ⟨rfl, -⟩ := List.cons.inj heq
      refine congrArg (a :: ·) (ih hl.of_cons hl'.of_cons ?_)
      intro c
      have hc := htied c
      by_cases hca : tied le c a = true
      · rw [List.filter_cons_of_pos hca, List.filter_cons_of_pos hca] at hc
        exact (List.cons.inj hc).2
      · rwa [List.filter_cons_of_neg hca, List.filter_cons_of_neg hca] at hc

/-- Filtering commutes with sorting. -/
theorem filter_mergeSort (h : SortsBy le) (p : α → Bool) (l : List α) :
    (l.mergeSort le).filter p = (l.filter p).mergeSort le := by
  have hsorted := List.pairwise_mergeSort h.trans h.total l
  refine h.eq_of_filter_tied (hsorted.sublist List.filter_sublist)
    (List.pairwise_mergeSort h.trans h.total (l.filter p)) ?_
  intro a
  calc ((l.mergeSort le).filter p).filter (tied le a)
      = ((l.mergeSort le).filter (tied le a)).filter p := by
        simp only [List.filter_filter, Bool.and_comm]
    _ = (l.filter (tied le a)).filter p := by rw [h.filter_tied_mergeSort]
    _ = (l.filter p).filter (tied le a) := by simp only [List.filter_filter, Bool.and_comm]
    _ = ((l.filter p).mergeSort le).filter (tied le a) := (h.filter_tied_mergeSort a _).symm

/-- Two lists have the same elements tied with each given one, in the same order. -/
def TiedAlike (le : α → α → Bool) (l l' : List α) : Prop :=
  ∀ a, l.filter (tied le a) = l'.filter (tied le a)

/-- Lists in which tied elements are in the same order are the same when they are sorted. -/
theorem mergeSort_eq_of_tiedAlike (h : SortsBy le) {l l' : List α} (htied : TiedAlike le l l') :
    l.mergeSort le = l'.mergeSort le := by
  refine h.eq_of_filter_tied (List.pairwise_mergeSort h.trans h.total l)
    (List.pairwise_mergeSort h.trans h.total l') ?_
  intro a
  rw [h.filter_tied_mergeSort, h.filter_tied_mergeSort, htied a]

theorem TiedAlike.append {front front' l l' : List α} (hfront : TiedAlike le front front')
    (h : TiedAlike le l l') : TiedAlike le (front ++ l) (front' ++ l') := by
  intro a
  rw [List.filter_append, List.filter_append, hfront a, h a]

/-- Where tied elements are equal, those tied with a given one are not told apart by the
order of a list. -/
theorem tiedAlike_of_perm (h : SortsBy le) {l l' : List α} (hperm : l.Perm l')
    (hties : ∀ a ∈ l, ∀ b ∈ l, le a b → le b a → a = b) : TiedAlike le l l' := by
  intro a
  refine (hperm.filter (tied le a)).eq_of_pairwise ?_ (h.pairwise_filter_tied a l)
    (h.pairwise_filter_tied a l')
  intro b c hb hc hbc hcb
  exact hties b (List.mem_filter.1 hb).1 c (hperm.mem_iff.2 (List.mem_filter.1 hc).1) hbc hcb

/-- Where tied elements are equal, sorting forgets their order, also behind others. -/
theorem mergeSort_append_eq_of_perm (h : SortsBy le) (front : List α) {l l' : List α}
    (hperm : l.Perm l') (hties : ∀ a ∈ l, ∀ b ∈ l, le a b → le b a → a = b) :
    (front ++ l).mergeSort le = (front ++ l').mergeSort le := by
  have hfront : TiedAlike le front front := fun _ => rfl
  exact h.mergeSort_eq_of_tiedAlike (hfront.append (h.tiedAlike_of_perm hperm hties))

theorem mergeSort_eq_of_perm (h : SortsBy le) {l l' : List α} (hperm : l.Perm l')
    (hties : ∀ a ∈ l, ∀ b ∈ l, le a b → le b a → a = b) : l.mergeSort le = l'.mergeSort le :=
  h.mergeSort_append_eq_of_perm [] hperm hties

/-- The first of the least elements: all before it are greater, and none behind it is less. -/
def IsFirstLeast (le : α → α → Bool) (l : List α) (a : α) : Prop :=
  ∃ before after, l = before ++ a :: after ∧ (∀ b ∈ before, le b a = false) ∧
    ∀ b ∈ after, le a b = true

theorem IsFirstLeast.le_of_mem (h : SortsBy le) {l : List α} {a b : α}
    (ha : IsFirstLeast le l a) (hb : b ∈ l) : le a b = true := by
  obtain ⟨before, after, rfl, hbefore, hafter⟩ := ha
  rcases List.mem_append.1 hb with hb | hb
  · have htotal := h.total a b
    rwa [hbefore b hb, Bool.or_false] at htotal
  · rcases List.mem_cons.1 hb with rfl | hb
    · exact h.refl b
    · exact hafter b hb

/-- The first of the least elements is the first of those tied with it. -/
theorem IsFirstLeast.filter_tied (h : SortsBy le) {l : List α} {a : α}
    (ha : IsFirstLeast le l a) : ∃ rest, l.filter (tied le a) = a :: rest := by
  obtain ⟨before, after, rfl, hbefore, -⟩ := ha
  have hnone : before.filter (tied le a) = [] := by
    refine List.filter_eq_nil_iff.2 ?_
    intro b hb htied
    rw [tied, hbefore b hb, Bool.and_false] at htied
    cases htied
  refine ⟨after.filter (tied le a), ?_⟩
  rw [List.filter_append, hnone, List.filter_cons_of_pos (h.tied_self a), List.nil_append]

/-- The first element of a sorted list is the first of the least ones. -/
theorem head?_mergeSort (h : SortsBy le) {l : List α} {a : α} :
    (l.mergeSort le).head? = some a ↔ IsFirstLeast le l a := by
  have hsorted := List.pairwise_mergeSort h.trans h.total l
  have hmem : ∀ b, b ∈ l.mergeSort le ↔ b ∈ l := fun b => List.mem_mergeSort
  -- sorting does not move tied elements past each other
  have hsame := h.filter_tied_mergeSort a l
  cases hsort : l.mergeSort le with
  | nil =>
    simp only [hsort, List.not_mem_nil, false_iff] at hmem
    refine ⟨fun hhead => (by cases hhead), ?_⟩
    rintro ⟨before, after, rfl, -⟩
    exact absurd (by simp) (hmem a)
  | cons first rest =>
    rw [hsort] at hsorted hmem hsame
    have hfirst : ∀ b ∈ l, le first b = true := by
      intro b hb
      rcases List.mem_cons.1 ((hmem b).2 hb) with rfl | hb
      · exact h.refl b
      · exact List.rel_of_pairwise_cons hsorted hb
    constructor
    · intro hhead
      obtain rfl := Option.some.inj hhead
      rw [List.filter_cons_of_pos (h.tied_self first)] at hsame
      obtain ⟨before, after, rfl, hbefore, -, -⟩ := List.filter_eq_cons_iff.1 hsame.symm
      refine ⟨before, after, rfl, ?_, ?_⟩
      · intro b hb
        have hnot := hbefore b hb
        rw [tied, hfirst b (List.mem_append_left _ hb), Bool.true_and] at hnot
        exact Bool.eq_false_iff.2 hnot
      · intro b hb
        exact hfirst b (List.mem_append_right _ (List.mem_cons_of_mem first hb))
    · intro ha
      have htied : tied le a first = true := by
        have hafirst := ha.le_of_mem h ((hmem first).1 List.mem_cons_self)
        obtain ⟨before, after, rfl, -, -⟩ := ha
        rw [tied, hafirst, hfirst a (by simp), Bool.and_self]
      obtain ⟨rest', hrest'⟩ := ha.filter_tied h
      rw [hrest', List.filter_cons_of_pos htied] at hsame
      exact congrArg some (List.cons.inj hsame).1

/-- Of a sorted list the first of each key are kept.  These are the first of the least ones among
all that have their key. -/
theorem mem_eraseDupsBy_mergeSort (h : SortsBy le) {κ : Type} [BEq κ] [LawfulBEq κ]
    (key : α → κ) {l : List α} {a : α} :
    a ∈ (l.mergeSort le).eraseDupsBy (fun a b => key a == key b) ↔
      ∃ before after, l = before ++ a :: after ∧
        (∀ b ∈ before, key b = key a → le b a = false) ∧
        ∀ b ∈ after, key b = key a → le a b = true := by
  have hfirst : a ∈ (l.mergeSort le).eraseDupsBy (fun a b => key a == key b) ↔
      IsFirstLeast le (l.filter fun b => key b == key a) a := by
    rw [← h.head?_mergeSort, ← h.filter_mergeSort, List.head?_filter, ← find?_eraseDupsBy key,
      find?_eq_some_iff_mem key (nodup_map_eraseDupsBy key _)]
    exact (and_iff_left rfl).symm
  rw [hfirst]
  constructor
  · rintro ⟨before', after', hsplit, hbefore, hafter⟩
    obtain ⟨before, rest, rfl, rfl, hrest⟩ := List.filter_eq_append_iff.1 hsplit
    obtain ⟨between, after, rfl, hbetween, -, rfl⟩ := List.filter_eq_cons_iff.1 hrest
    refine ⟨before ++ between, after, (List.append_assoc _ _ _).symm, ?_, ?_⟩
    · intro b hb hkey
      rcases List.mem_append.1 hb with hb | hb
      · exact hbefore b (List.mem_filter.2 ⟨hb, beq_iff_eq.2 hkey⟩)
      · exact absurd (beq_iff_eq.2 hkey) (hbetween b hb)
    · intro b hb hkey
      exact hafter b (List.mem_filter.2 ⟨hb, beq_iff_eq.2 hkey⟩)
  · rintro ⟨before, after, rfl, hbefore, hafter⟩
    refine ⟨before.filter fun b => key b == key a, after.filter fun b => key b == key a, ?_, ?_, ?_⟩
    · rw [List.filter_append, List.filter_cons, beq_self_eq_true, if_pos rfl]
    · intro b hb
      obtain ⟨hb, hkey⟩ := List.mem_filter.1 hb
      exact hbefore b hb (eq_of_beq hkey)
    · intro b hb
      obtain ⟨hb, hkey⟩ := List.mem_filter.1 hb
      exact hafter b hb (eq_of_beq hkey)

/-- Sorting by what a function yields. -/
theorem comap {le : β → β → Bool} (h : SortsBy le) (f : α → β) :
    SortsBy fun a b => le (f a) (f b) where
  trans a b c := h.trans (f a) (f b) (f c)
  total a b := h.total (f a) (f b)

/-- A sublist is what is left of a list some of whose elements are marked. -/
theorem exists_marked_of_sublist {l l' : List α} (h : l.Sublist l') :
    ∃ marked : List (α × Bool),
      marked.map Prod.fst = l' ∧ (marked.filter Prod.snd).map Prod.fst = l := by
  induction h with
  | slnil => exact ⟨[], rfl, rfl⟩
  | cons a _ ih =>
    obtain ⟨marked, rfl, rfl⟩ := ih
    exact ⟨(a, false) :: marked, rfl, rfl⟩
  | cons_cons a _ ih =>
    obtain ⟨marked, rfl, rfl⟩ := ih
    exact ⟨(a, true) :: marked, rfl, rfl⟩

/-- Sorting a sublist gives a sublist. -/
theorem mergeSort_sublist (h : SortsBy le) {l l' : List α} (hsub : l.Sublist l') :
    (l.mergeSort le).Sublist (l'.mergeSort le) := by
  obtain ⟨marked, rfl, rfl⟩ := exists_marked_of_sublist hsub
  -- marks do not count when the elements are compared, so they may be looked at afterwards
  have hmap : ∀ marked : List (α × Bool), (marked.map Prod.fst).mergeSort le =
      (marked.mergeSort fun a b => le a.1 b.1).map Prod.fst := by
    intro marked
    symm
    apply List.map_mergeSort
    intro a _ b _
    rfl
  rw [hmap, hmap, ← (h.comap Prod.fst).filter_mergeSort]
  exact List.filter_sublist.map Prod.fst

/-- A list that is longer by one than a sublist of it has one more element in one place. -/
theorem exists_insert_of_sublist {l l' : List α} (h : l.Sublist l')
    (hlength : l'.length = l.length + 1) :
    ∃ before a after, l = before ++ after ∧ l' = before ++ a :: after := by
  induction h with
  | slnil => simp at hlength
  | @cons l l' a h _ =>
    obtain rfl := h.eq_of_length (by simpa using hlength.symm)
    exact ⟨[], a, l, rfl, rfl⟩
  | cons_cons b _ ih =>
    obtain ⟨before, a, after, rfl, rfl⟩ := ih (by simpa using hlength)
    exact ⟨b :: before, a, after, rfl, rfl⟩

open scoped List in
/-- To put one more element into a list puts it somewhere into the sorted list and moves no
other. -/
theorem exists_mergeSort_insert (h : SortsBy le) (front : List α) (a : α) (back : List α) :
    ∃ before after, (front ++ back).mergeSort le = before ++ after ∧
      (front ++ a :: back).mergeSort le = before ++ a :: after := by
  have hsub : (front ++ back).Sublist (front ++ a :: back) :=
    (List.sublist_cons_self a back).append_left front
  have hperm := List.mergeSort_perm (front ++ back) le
  have hperm' := List.mergeSort_perm (front ++ a :: back) le
  obtain ⟨before, b, after, hsorted, hsorted'⟩ :=
    exists_insert_of_sublist (h.mergeSort_sublist hsub) (by simp; omega)
  rw [hsorted] at hperm
  rw [hsorted'] at hperm'
  -- both sorted lists have the same elements but for the one more, so that is the one put in
  have hmore : b :: (before ++ after) ~ a :: (before ++ after) :=
    calc b :: (before ++ after)
      _ ~ before ++ b :: after := List.perm_middle.symm
      _ ~ front ++ a :: back := hperm'
      _ ~ a :: (front ++ back) := List.perm_middle
      _ ~ a :: (before ++ after) := hperm.symm.cons a
  have hone : [b] ~ [a] := (List.perm_append_right_iff (before ++ after)).1 hmore
  obtain rfl : b = a := by simpa using hone
  exact ⟨before, after, hsorted, hsorted'⟩

end SortsBy

/-! ### Sets of texts -/

namespace Text

theorem sortsBy_le : SortsBy fun a b : String => decide (a ≤ b) where
  trans a b c hab hbc := by
    simp only [decide_eq_true_eq] at hab hbc ⊢
    exact String.le_trans hab hbc
  total a b := by
    simp only [Bool.or_eq_true, decide_eq_true_eq]
    exact String.le_total a b

theorem isLE_compare {a b : String} : (compare a b).isLE = true ↔ a ≤ b :=
  isLE_compareOfLessAndEq String.le_antisymm String.not_le String.le_total

@[simp] theorem mem_textSet {s : String} {ss : List String} : s ∈ textSet ss ↔ s ∈ ss := by
  simp [textSet, sortTexts]

@[simp] theorem mem_set {text : Text} {texts : List Text} : text ∈ set texts ↔ text ∈ texts := by
  simp [set, sort]

@[simp] theorem textSet_nil : textSet [] = [] := by
  simp [textSet, sortTexts]

theorem nodup_eraseDups (ss : List String) : ss.eraseDups.Nodup := by
  have hnodup := nodup_map_eraseDupsBy (fun s : String => s) ss
  rwa [List.map_id'] at hnodup

/-- A set is determined by its members. -/
theorem textSet_congr {ss ss' : List String} (h : ∀ s, s ∈ ss ↔ s ∈ ss') :
    textSet ss = textSet ss' := by
  have hperm : ss.eraseDups.Perm ss'.eraseDups := by
    refine (List.perm_ext_iff_of_nodup (nodup_eraseDups ss) (nodup_eraseDups ss')).2 ?_
    intro s
    rw [List.mem_eraseDups, List.mem_eraseDups]
    exact h s
  refine sortsBy_le.mergeSort_eq_of_perm hperm ?_
  intro a _ b _ hab hba
  exact String.le_antisymm (of_decide_eq_true hab) (of_decide_eq_true hba)

/-- The set of the texts in a set is that set. -/
theorem textSet_textSet (ss : List String) : textSet (textSet ss) = textSet ss :=
  textSet_congr fun _ => mem_textSet

end Text

end ObjectAudit
