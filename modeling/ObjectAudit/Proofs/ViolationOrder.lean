/-
ObjectAudit/Proofs/ViolationOrder.lean

The order of violations.  It is total and transitive, so violations can be sorted by it
(`sortsBy_before`), and two violations are tied exactly if they agree on place, rule, class,
method and message (`order_eq_eq_iff`).

The order compares paths by their texts.  A text reads back as the path that it was
written from (`SourcePath.ofText_text`), so nothing is lost by that: violations with equal
path texts are in the same file.
-/
import ObjectAudit.Proofs.Sorting
import ObjectAudit.Violation

namespace ObjectAudit

/-! ### The text of a path -/

namespace SourcePath

theorem isSegment_iff {s : String} :
    isSegment s = true ↔ s ≠ "" ∧ s ≠ "." ∧ '/' ∉ s.toList := by
  simp [isSegment, and_assoc]

/-- The segments of a path, joined by slashes. -/
def joined (path : SourcePath) : List Char :=
  ['/'].intercalate (path.segments.map String.toList)

/-- Cutting the joined segments gives them back. -/
theorem segments_joined (path : SourcePath) :
    ((path.joined.splitOn '/').map String.ofList).filter isSegment = path.segments := by
  obtain ⟨anchor, segments, valid⟩ := path
  have hslash : ∀ cs ∈ segments.map String.toList, '/' ∉ cs := by
    intro cs hcs
    obtain ⟨segment, hmem, rfl⟩ := List.mem_map.1 hcs
    exact (isSegment_iff.1 (valid segment hmem)).2.2
  show (((['/'].intercalate (segments.map String.toList)).splitOn '/').map String.ofList).filter
    isSegment = segments
  -- no segments are joined to the empty text, which is cut into one that is none
  cases hsegments : segments with
  | nil => simp [isSegment]
  | cons first rest =>
    rw [← hsegments, List.splitOn_intercalate '/' hslash (by simp [hsegments]), List.map_map]
    have hid : (String.ofList ∘ String.toList) = id := by
      funext s
      exact String.ofList_toList
    rw [hid, List.map_id]
    exact List.filter_eq_self.2 valid

/-- The joined segments do not start with a slash. -/
theorem head?_joined (path : SourcePath) : path.joined.head? ≠ some '/' := by
  obtain ⟨anchor, segments, valid⟩ := path
  cases segments with
  | nil => simp [joined]
  | cons first rest =>
    obtain ⟨hne, -, hslash⟩ := isSegment_iff.1 (valid first List.mem_cons_self)
    cases hfirst : first.toList with
    | nil => exact absurd (String.toList_eq_nil_iff.1 hfirst) hne
    | cons c cs =>
      have hc : c ≠ '/' := by
        rintro rfl
        exact hslash (hfirst ▸ List.mem_cons_self)
      cases rest <;> simp [joined, hfirst, hc]

theorem toList_text (path : SourcePath) :
    path.text.toList =
      if path.anchor = .relative ∧ path.segments = [] then ['.']
      else path.anchor.text.toList ++ path.joined := by
  obtain ⟨anchor, segments, valid⟩ := path
  have hjoin : ("/".intercalate segments).toList =
      ['/'].intercalate (segments.map String.toList) := String.toList_intercalate
  cases anchor <;> cases segments <;> simp [text, joined, hjoin]

/-- What is in front of the joined segments tells the anchor. -/
theorem anchorOf_append_joined (path : SourcePath) :
    anchorOf (path.anchor.text.toList ++ path.joined) = path.anchor := by
  have hhead := path.head?_joined
  cases hjoined : path.joined with
  | nil => cases path.anchor <;> rfl
  | cons c cs =>
    have hc : c ≠ '/' := by
      rintro rfl
      exact hhead (by rw [hjoined]; rfl)
    cases path.anchor with
    | relative => simp [Anchor.text, anchorOf, hc]
    | root => simp [Anchor.text, anchorOf, hc]
    | doubleRoot => simp [Anchor.text, anchorOf, hc]

/-- A slash in front of a text adds no segment. -/
theorem segments_slash (cs : List Char) :
    ((('/' :: cs).splitOn '/').map String.ofList).filter isSegment =
      ((cs.splitOn '/').map String.ofList).filter isSegment := by
  rw [List.splitOn_cons_eq_if_modifyHead, if_pos (by rfl), List.map_cons,
    List.filter_cons_of_neg (by decide)]

/-- The text of a path reads back as that path. -/
theorem ofText_text (path : SourcePath) : ofText path.text = path := by
  -- the point alone is shown without its anchor and segments, and has none of either
  have hanchor : anchorOf path.text.toList = path.anchor := by
    rw [toList_text]
    split
    · next h => rw [h.1]; rfl
    · exact path.anchorOf_append_joined
  have hsegments :
      ((path.text.toList.splitOn '/').map String.ofList).filter isSegment = path.segments := by
    rw [toList_text]
    split
    · next h => rw [h.2]; decide
    · cases path.anchor with
      | relative => exact path.segments_joined
      | root => exact (segments_slash _).trans path.segments_joined
      | doubleRoot =>
        exact (segments_slash _).trans ((segments_slash _).trans path.segments_joined)
  simp only [ofText, hanchor, hsegments]

/-- Paths with the same text are the same. -/
theorem text_injective {path path' : SourcePath} (h : path.text = path'.text) :
    path = path' := by
  rw [← ofText_text path, ← ofText_text path', h]

end SourcePath

/-! ### The order -/

namespace Violation

instance : Std.TransCmp order :=
  inferInstanceAs (Std.TransCmp (compareLex _ _))

theorem order_swap (a b : Violation) : order b a = (order a b).swap :=
  Std.OrientedCmp.eq_swap

theorem sortsBy_before : SortsBy before where
  trans _ _ _ hab hbc := Std.TransCmp.isLE_trans hab hbc
  total a b := by
    unfold before
    rw [order_swap a b]
    cases order a b <;> rfl

/-- Two violations are tied exactly if they agree on all that the order looks at. -/
theorem order_eq_eq_iff {a b : Violation} :
    order a b = .eq ↔
      a.location = b.location ∧ a.ruleId = b.ruleId ∧ a.className = b.className ∧
        a.methodText = b.methodText ∧ a.message = b.message := by
  simp only [order, compareLex_eq_eq, compareOn, Std.LawfulEqOrd.compare_eq_iff_eq]
  constructor
  · rintro ⟨hfile, hline, hcolumn, hrule, hclass, hmethod, hmessage⟩
    refine ⟨?_, hrule, hclass, hmethod, hmessage⟩
    have hfile' := SourcePath.text_injective hfile
    cases ha : a.location
    cases hb : b.location
    simp_all
  · rintro ⟨hlocation, hrule, hclass, hmethod, hmessage⟩
    rw [hlocation]
    exact ⟨rfl, rfl, rfl, hrule, hclass, hmethod, hmessage⟩

/-- Violations that may stand in either order are tied. -/
theorem order_eq_eq_of_before {a b : Violation} (hab : before a b) (hba : before b a) :
    order a b = .eq := by
  unfold before at hab hba
  rw [order_swap a b] at hba
  cases h : order a b with
  | lt => rw [h] at hba; cases hba
  | eq => rfl
  | gt => rw [h] at hab; cases hab

/-- Violations are in order exactly if each one may stand before all behind it. -/
theorem inOrder_iff {violations : List Violation} :
    inOrder violations = true ↔ violations.Pairwise fun a b => before a b = true := by
  induction violations with
  | nil => simp [inOrder]
  | cons a rest ih =>
    cases rest with
    | nil => simp [inOrder]
    | cons b rest =>
      rw [inOrder, Bool.and_eq_true, ih, List.pairwise_cons (a := a)]
      -- neighbours are enough, since the order is transitive
      refine and_congr_left ?_
      intro hrest
      constructor
      · intro hab c hc
        rcases List.mem_cons.1 hc with rfl | hc
        · exact hab
        · exact sortsBy_before.trans a b c hab (List.rel_of_pairwise_cons hrest hc)
      · intro h
        exact h b List.mem_cons_self

/-! ### Sorting -/

theorem sort_perm (violations : List Violation) : (sort violations).Perm violations :=
  List.mergeSort_perm violations before

theorem inOrder_sort (violations : List Violation) : inOrder (sort violations) = true :=
  inOrder_iff.2 (List.pairwise_mergeSort sortsBy_before.trans sortsBy_before.total violations)

theorem filter_sort (p : Violation → Bool) (violations : List Violation) :
    (sort violations).filter p = sort (violations.filter p) :=
  sortsBy_before.filter_mergeSort p violations

end Violation

end ObjectAudit
