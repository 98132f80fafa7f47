/-
ObjectAudit/Proofs/PlaceOrder.lean

The order of violations and the order of places.

Places compare by the parts of their paths, and violations by the texts of them.  In a text the
slash is a character like any other, and the point and the hyphen are before it.  So a directory
and a name that is longer, such as `order/line.rb` and `order.rb`, stand in one order by their parts
and in the other one by their texts (`Overtakes`).  The same happens to the path without segments,
whose text is a point, and to anchors of one and two slashes.  These are all the pairs on which the
two orders differ (`SourcePath.crossed_iff`).

Main result: `Auditor.auditInOrder_places`.  Violations follow their places as long as no files are
crossed.  `Auditor.auditInOrder_class_before_directory` has two that do not.
-/
import Mathlib.Data.List.Lex
import Mathlib.Data.String.Basic
import ObjectAudit.Proofs.RuleIndependence

namespace ObjectAudit

/-! ### Texts that start alike -/

theorem append_lt_append_left_iff (front : List Char) {cs ds : List Char} :
    front ++ cs < front ++ ds ↔ cs < ds := by
  induction front with
  | nil => rfl
  | cons c front ih => simp [ih]

/-- A text is before another one, and behind it once both are continued, exactly if the other one
continues it already, and by something that is before its own continuation. -/
theorem lt_and_append_lt_iff {cs ds more more' : List Char} :
    cs < ds ∧ ds ++ more' < cs ++ more ↔
      ∃ c rest, ds = cs ++ c :: rest ∧ c :: (rest ++ more') < more := by
  induction cs generalizing ds with
  | nil => cases ds <;> simp
  | cons c cs ih =>
    cases ds with
    | nil => simp
    | cons d ds =>
      by_cases hcd : c = d
      · subst hcd
        simpa [List.cons_lt_cons_iff] using ih
      · have hdc : d ≠ c := Ne.symm hcd
        simp only [List.cons_append, List.cons_lt_cons_iff, hcd, hdc, false_and, or_false,
          List.cons.injEq, exists_false, iff_false, not_and]
        exact fun hlt hgt => lt_asymm hlt hgt

/-! ### Segments -/

/-- Behind the same leading segments comes a directory in the first list, and in the second one a
longer name that goes on with a character before the slash. -/
inductive Overtakes : List String → List String → Prop
  | here {name longer : String} {inside rest : List String} {c : Char} {cs : List Char} :
      inside ≠ [] → longer.toList = name.toList ++ c :: cs → c < '/' →
      Overtakes (name :: inside) (longer :: rest)
  | behind {name : String} {segments segments' : List String} :
      Overtakes segments segments' → Overtakes (name :: segments) (name :: segments')

theorem Overtakes.ne_nil {segments segments' : List String} (h : Overtakes segments segments') :
    segments ≠ [] ∧ segments' ≠ [] := by
  cases h <;> simp

/-- Segments with a slash in front of each. -/
def slashed (segments : List String) : List Char :=
  segments.flatMap fun segment => '/' :: segment.toList

theorem slashed_lt_cons_iff {name name' : String} {segments segments' : List String} :
    slashed (name :: segments) < slashed (name' :: segments') ↔
      name.toList ++ slashed segments < name'.toList ++ slashed segments' := by
  simp [slashed]

/-- A text that starts with a character other than the slash is before segments with slashes
exactly if there are some and the character is before the slash. -/
theorem cons_lt_slashed_iff {c : Char} {cs : List Char} {segments : List String} (hc : c ≠ '/') :
    c :: cs < slashed segments ↔ segments ≠ [] ∧ c < '/' := by
  cases segments with
  | nil => simp [slashed]
  | cons name rest => simp [slashed, List.cons_lt_cons_iff, hc]

/-- Segments that are before others, and behind them once they are joined by slashes. -/
theorem overtakes_iff {segments segments' : List String}
    (hvalid : ∀ segment ∈ segments', isSegment segment) :
    Overtakes segments segments' ↔
      segments < segments' ∧ slashed segments' < slashed segments := by
  induction segments generalizing segments' with
  | nil =>
    constructor
    · rintro ⟨⟩
    · rintro ⟨-, hlt⟩
      exact absurd hlt (List.not_lt_nil _)
  | cons name inside ih =>
    cases segments' with
    | nil =>
      constructor
      · rintro ⟨⟩
      · rintro ⟨hlt, -⟩
        exact absurd hlt (List.not_lt_nil _)
    | cons longer rest =>
      obtain ⟨hlonger, hrest⟩ := List.forall_mem_cons.1 hvalid
      rw [slashed_lt_cons_iff, List.cons_lt_cons_iff]
      by_cases hname : name = longer
      · -- a common segment: the rest decides
        subst hname
        rw [append_lt_append_left_iff]
        constructor
        · rintro (⟨-, hlong, -⟩ | hbehind)
          · simp at hlong
          · obtain ⟨hlt, hjoined⟩ := (ih hrest).1 hbehind
            exact ⟨.inr ⟨rfl, hlt⟩, hjoined⟩
        · rintro ⟨hlt | ⟨-, hlt⟩, hjoined⟩
          · exact absurd hlt (lt_irrefl _)
          · exact .behind ((ih hrest).2 ⟨hlt, hjoined⟩)
      · -- the first difference: only a name that continues the other one can overtake it
        have hslash : ∀ {c cs}, longer.toList = name.toList ++ c :: cs → c ≠ '/' := by
          rintro c cs hlong rfl
          exact (SourcePath.isSegment_iff.1 hlonger).2.2 (hlong ▸ by simp)
        rw [String.lt_iff_toList_lt]
        constructor
        · rintro (⟨hinside, hlong, hc⟩ | hbehind)
          · obtain ⟨hlt, hjoined⟩ := lt_and_append_lt_iff.2
              ⟨_, _, hlong, (cons_lt_slashed_iff (hslash hlong)).2 ⟨hinside, hc⟩⟩
            exact ⟨.inl hlt, hjoined⟩
          · exact absurd rfl hname
        · rintro ⟨hlt | ⟨heq, -⟩, hjoined⟩
          · obtain ⟨c, cs, hlong, hmore⟩ := lt_and_append_lt_iff.1 ⟨hlt, hjoined⟩
            obtain ⟨hinside, hc⟩ := (cons_lt_slashed_iff (hslash hlong)).1 hmore
            exact .here hinside hlong hc
          · exact absurd heq hname

/-! ### Paths -/

namespace SourcePath

/-- The first character of the first segment. -/
def initial? (path : SourcePath) : Option Char :=
  path.segments.head?.bind fun segment => segment.toList.head?

/-- Two paths are in one order by their parts and in the other one by their texts. -/
inductive Crossed (path path' : SourcePath) : Prop
  /-- With the same anchor, a longer name overtakes a directory. -/
  | overtaken : path.anchor = path'.anchor → Overtakes path.segments path'.segments →
      Crossed path path'
  /-- The text of the path without anchor and segments is a point. -/
  | point {c : Char} : path.anchor = .relative → path.segments = [] → path'.anchor = .relative →
      path'.initial? = some c → c < '.' → Crossed path path'
  /-- The second slash of an anchor compares with a segment. -/
  | roots {c : Char} : path.anchor = .root → path'.anchor = .doubleRoot →
      path.initial? = some c → '/' < c → Crossed path path'

theorem slashed_segments {path : SourcePath} (h : path.segments ≠ []) :
    slashed path.segments = '/' :: path.joined := by
  rw [joined]
  generalize path.segments = segments at h ⊢
  induction segments with
  | nil => exact absurd rfl h
  | cons name rest ih =>
    cases rest with
    | nil => simp [slashed]
    | cons next rest =>
      -- all segments but the last are followed by a slash in both forms
      have hrest := ih (List.cons_ne_nil next rest)
      show '/' :: name.toList ++ slashed (next :: rest) = _
      rw [hrest]
      simp

theorem exists_of_initial? {path : SourcePath} {c : Char} (h : path.initial? = some c) :
    ∃ name rest cs, path.segments = name :: rest ∧ name.toList = c :: cs := by
  obtain ⟨name, hname, hc⟩ := Option.bind_eq_some_iff.1 h
  obtain ⟨rest, hrest⟩ := List.head?_eq_some_iff.1 hname
  obtain ⟨cs, hcs⟩ := List.head?_eq_some_iff.1 hc
  exact ⟨name, rest, cs, hrest, hcs⟩

/-- The joined segments start with the first character of the first one. -/
theorem exists_joined_eq {path : SourcePath} (h : path.segments ≠ []) :
    ∃ c cs, path.joined = c :: cs ∧ path.initial? = some c ∧ c ≠ '/' := by
  have hhead := path.head?_joined
  obtain ⟨anchor, segments, valid⟩ := path
  cases segments with
  | nil => exact absurd rfl h
  | cons name rest =>
    obtain ⟨hne, -, -⟩ := isSegment_iff.1 (valid name List.mem_cons_self)
    obtain ⟨c, cs, hname⟩ := List.exists_cons_of_ne_nil
      fun hnil => hne (String.toList_eq_nil_iff.1 hnil)
    -- the first segment is not empty, so its first character is that of the whole
    have hjoined : ∃ cs, joined ⟨anchor, name :: rest, valid⟩ = c :: cs := by
      cases rest <;> simp [joined, hname]
    obtain ⟨cs, hjoined⟩ := hjoined
    refine ⟨c, cs, hjoined, by simp [initial?, hname], ?_⟩
    rintro rfl
    exact hhead (by rw [hjoined]; rfl)

theorem joined_of_segments_eq_nil {path : SourcePath} (h : path.segments = []) :
    path.joined = [] := by
  simp [joined, h]

/-- Joined segments compare like segments with slashes. -/
theorem joined_lt_joined_iff (path path' : SourcePath) :
    path.joined < path'.joined ↔ slashed path.segments < slashed path'.segments := by
  by_cases h : path.segments = []
  · rw [joined_of_segments_eq_nil h, h]
    by_cases h' : path'.segments = []
    · rw [joined_of_segments_eq_nil h', h']
      rfl
    · obtain ⟨c, cs, hjoined, -⟩ := exists_joined_eq h'
      rw [slashed_segments h', hjoined]
      simp [slashed]
  · by_cases h' : path'.segments = []
    · rw [joined_of_segments_eq_nil h', h']
      simp [slashed]
    · rw [slashed_segments h, slashed_segments h']
      simp

theorem toList_text_of_segments_ne {path : SourcePath}
    (h : path.anchor ≠ .relative ∨ path.segments ≠ []) :
    path.text.toList = path.anchor.text.toList ++ path.joined := by
  rw [toList_text, if_neg]
  rintro ⟨hanchor, hsegments⟩
  exact h.elim (· hanchor) (· hsegments)

/-- With the same anchor, segments decide. -/
theorem crossed_of_same_anchor {path path' : SourcePath} (hanchor : path.anchor = path'.anchor)
    (h : path.anchor ≠ .relative ∨ path.segments ≠ [])
    (h' : path'.anchor ≠ .relative ∨ path'.segments ≠ []) :
    path.parts < path'.parts ∧ path'.text < path.text ↔
      Overtakes path.segments path'.segments := by
  have hparts : path.parts < path'.parts ↔ path.segments < path'.segments := by
    rw [parts, parts, ← hanchor]
    cases path.anchor <;> simp
  rw [hparts, String.lt_iff_toList_lt, toList_text_of_segments_ne h, toList_text_of_segments_ne h',
    hanchor, append_lt_append_left_iff, joined_lt_joined_iff, overtakes_iff path'.valid]

theorem parts_of_relative {path : SourcePath} (h : path.anchor = .relative) :
    path.parts = path.segments := by
  rw [parts, h]

/-- A path with an anchor starts with a slash, in its first part and in its text. -/
theorem exists_parts_eq {path : SourcePath} (h : path.anchor ≠ .relative) :
    ∃ front cs ds, path.parts = front :: path.segments ∧ front.toList = '/' :: cs ∧
      path.text.toList = '/' :: ds := by
  have htext := toList_text_of_segments_ne (.inl h)
  rw [parts]
  cases hanchor : path.anchor with
  | relative => exact absurd hanchor h
  | root => exact ⟨_, _, _, rfl, rfl, by rw [htext, hanchor]; rfl⟩
  | doubleRoot => exact ⟨_, _, _, rfl, rfl, by rw [htext, hanchor]; rfl⟩

/-- A path without an anchor compares with a path with one by its first character, in both
orders. -/
theorem parts_lt_iff_text_lt {path path' : SourcePath} (h : path.anchor = .relative)
    (h' : path'.anchor ≠ .relative) : path.parts < path'.parts ↔ path.text < path'.text := by
  obtain ⟨front, cs, ds, hparts', hfront, htext'⟩ := exists_parts_eq h'
  rw [parts_of_relative h, hparts', String.lt_iff_toList_lt, htext']
  by_cases hsegments : path.segments = []
  · rw [hsegments, toList_text, if_pos ⟨h, hsegments⟩]
    simp [List.cons_lt_cons_iff]
  · obtain ⟨c, cs', hjoined, hinitial, hc⟩ := exists_joined_eq hsegments
    obtain ⟨name, rest, cs'', hname, hchars⟩ := exists_of_initial? hinitial
    -- an anchor starts with a slash, and no segment does
    have hne : name ≠ front := by
      rintro rfl
      exact hc (List.cons.inj (hchars.symm.trans hfront)).1
    rw [toList_text_of_segments_ne (.inr hsegments), h, hjoined, hname, List.cons_lt_cons_iff,
      String.lt_iff_toList_lt, hchars, hfront]
    simp [Anchor.text, List.cons_lt_cons_iff, hc, hne]

theorem initial?_of_segments_eq_nil {path : SourcePath} (h : path.segments = []) :
    path.initial? = none := by
  rw [initial?, h]
  rfl

/-- What is before the point. -/
theorem text_lt_point_iff {path path' : SourcePath} (h : path.anchor = .relative)
    (hnone : path.segments = []) (h' : path'.anchor = .relative) :
    path'.text < path.text ↔ ∃ c, path'.initial? = some c ∧ c < '.' := by
  rw [String.lt_iff_toList_lt, toList_text path, if_pos ⟨h, hnone⟩]
  by_cases hsegments : path'.segments = []
  · rw [toList_text, if_pos ⟨h', hsegments⟩, initial?_of_segments_eq_nil hsegments]
    simp
  · obtain ⟨c, cs, hjoined, hinitial, -⟩ := exists_joined_eq hsegments
    rw [toList_text_of_segments_ne (.inr hsegments), h', hjoined, hinitial]
    simp [Anchor.text, List.cons_lt_cons_iff]

/-- One slash is before two, whatever follows. -/
theorem parts_lt_iff_of_anchor_ne {path path' : SourcePath} (h : path.anchor ≠ .relative)
    (h' : path'.anchor ≠ .relative) (hne : path.anchor ≠ path'.anchor) :
    path.parts < path'.parts ↔ path.anchor = .root ∧ path'.anchor = .doubleRoot := by
  -- as texts, one slash is before two
  have hroots : ("/" : String) < "//" := by decide
  rw [parts, parts]
  cases hanchor : path.anchor with
  | relative => exact absurd hanchor h
  | root =>
    cases hanchor' : path'.anchor with
    | relative => exact absurd hanchor' h'
    | root => exact absurd (hanchor.trans hanchor'.symm) hne
    | doubleRoot => simp [Anchor.text, List.cons_lt_cons_iff, hroots]
  | doubleRoot =>
    cases hanchor' : path'.anchor with
    | relative => exact absurd hanchor' h'
    | root => simp [Anchor.text, List.cons_lt_cons_iff, lt_asymm hroots]
    | doubleRoot => exact absurd (hanchor.trans hanchor'.symm) hne

/-- What is before a root, of the paths with two slashes in front. -/
theorem text_lt_root_iff {path path' : SourcePath} (h : path.anchor = .root)
    (h' : path'.anchor = .doubleRoot) :
    path'.text < path.text ↔ ∃ c, path.initial? = some c ∧ '/' < c := by
  have hne : path.anchor ≠ .relative := by simp [h]
  have hne' : path'.anchor ≠ .relative := by simp [h']
  rw [String.lt_iff_toList_lt, toList_text_of_segments_ne (.inl hne),
    toList_text_of_segments_ne (.inl hne'), h, h']
  by_cases hsegments : path.segments = []
  · rw [joined_of_segments_eq_nil hsegments, initial?_of_segments_eq_nil hsegments]
    simp [Anchor.text]
  · obtain ⟨c, cs, hjoined, hinitial, hc⟩ := exists_joined_eq hsegments
    rw [hjoined, hinitial]
    simp [Anchor.text, List.cons_lt_cons_iff, hc.symm]

/-- Paths are crossed exactly if the first one is before the second by its parts, and behind it by
its text. -/
theorem crossed_iff {path path' : SourcePath} :
    Crossed path path' ↔ path.parts < path'.parts ∧ path'.text < path.text := by
  constructor
  · rintro (⟨hanchor, hover⟩ | ⟨h, hnone, h', hinitial, hc⟩ | ⟨h, h', hinitial, hc⟩)
    · obtain ⟨hne, hne'⟩ := hover.ne_nil
      exact (crossed_of_same_anchor hanchor (.inr hne) (.inr hne')).2 hover
    · obtain ⟨name, rest, -, hsegments, -⟩ := exists_of_initial? hinitial
      refine ⟨?_, (text_lt_point_iff h hnone h').2 ⟨_, hinitial, hc⟩⟩
      rw [parts_of_relative h, parts_of_relative h', hnone, hsegments]
      exact List.nil_lt_cons name rest
    · refine ⟨?_, (text_lt_root_iff h h').2 ⟨_, hinitial, hc⟩⟩
      exact (parts_lt_iff_of_anchor_ne (by simp [h]) (by simp [h']) (by simp [h, h'])).2 ⟨h, h'⟩
  · rintro ⟨hparts, htext⟩
    -- the orders agree unless both are relative or both are not
    by_cases h : path.anchor = .relative
    · by_cases h' : path'.anchor = .relative
      · by_cases hnone : path.segments = []
        · obtain ⟨c, hinitial, hc⟩ := (text_lt_point_iff h hnone h').1 htext
          exact .point h hnone h' hinitial hc
        · have hsome : path'.segments ≠ [] := by
            intro hnone'
            rw [parts_of_relative h', hnone'] at hparts
            exact List.not_lt_nil _ hparts
          -- the path is not the point, so the segments decide
          have hanchors := h.trans h'.symm
          exact .overtaken hanchors
            ((crossed_of_same_anchor hanchors (.inr hnone) (.inr hsome)).1 ⟨hparts, htext⟩)
      · exact absurd htext (lt_asymm ((parts_lt_iff_text_lt h h').1 hparts))
    · by_cases h' : path'.anchor = .relative
      · exact absurd hparts (lt_asymm ((parts_lt_iff_text_lt h' h).2 htext))
      · by_cases hanchors : path.anchor = path'.anchor
        · exact .overtaken hanchors
            ((crossed_of_same_anchor hanchors (.inl h) (.inl h')).1 ⟨hparts, htext⟩)
        · obtain ⟨hroot, hroot'⟩ := (parts_lt_iff_of_anchor_ne h h' hanchors).1 hparts
          obtain ⟨c, hinitial, hc⟩ := (text_lt_root_iff hroot hroot').1 htext
          exact .roots hroot hroot' hinitial hc

theorem isSegment_anchorText (anchor : Anchor) : isSegment anchor.text = false := by
  cases anchor <;> decide

/-- The parts tell the path: no segment is an anchor. -/
theorem parts_injective {path path' : SourcePath} (h : path.parts = path'.parts) :
    path = path' := by
  obtain ⟨anchor, segments, valid⟩ := path
  obtain ⟨anchor', segments', valid'⟩ := path'
  -- an anchor is no segment, so it cannot be mistaken for the first one
  have hnot : ∀ {anchor : Anchor} {rest names : List String},
      (∀ name ∈ names, isSegment name) → names ≠ anchor.text :: rest := by
    rintro anchor rest names hnames rfl
    have hsegment := hnames anchor.text List.mem_cons_self
    rw [isSegment_anchorText] at hsegment
    cases hsegment
  cases anchor <;> cases anchor' <;> simp only [parts] at h
  · simp [h]
  · exact absurd h (hnot valid)
  · exact absurd h (hnot valid)
  · exact absurd h.symm (hnot valid')
  · simp [(List.cons.inj h).2]
  · exact absurd (List.cons.inj h).1 (by decide)
  · exact absurd h.symm (hnot valid')
  · exact absurd (List.cons.inj h).1 (by decide)
  · simp [(List.cons.inj h).2]

end SourcePath

/-! ### Comparing -/

theorem compare_text_eq_lt_iff {s t : String} : compare s t = .lt ↔ s < t :=
  compare_lt_iff_lt

theorem compare_parts_eq_lt_iff {ss ts : List String} : compare ss ts = .lt ↔ ss < ts := by
  induction ss generalizing ts with
  | nil => cases ts <;> simp
  | cons s ss ih =>
    cases ts with
    | nil => simp
    | cons t ts =>
      rw [List.compare_eq_compareLex] at ih ⊢
      rw [List.compareLex_cons_cons, Ordering.then_eq_lt, ih, List.cons_lt_cons_iff,
        compare_text_eq_lt_iff, Std.LawfulEqOrd.compare_eq_iff_eq]

namespace Violation

variable {v w : Violation}

/-- What may stand before another violation is in a file with a smaller text, or in the same file
and not behind it there. -/
theorem text_lt_or_of_before (h : before v w = true) :
    v.location.file.text < w.location.file.text ∨
      v.location.file = w.location.file ∧ (Location.order v.location w.location).isLE = true := by
  simp only [before, order, Location.order, compareLex, compareOn] at h ⊢
  -- the texts decide, unless they are equal and so are the files
  cases htext : compare v.location.file.text w.location.file.text with
  | lt => exact .inl (compare_text_eq_lt_iff.1 htext)
  | eq =>
    right
    have hfile := SourcePath.text_injective (Std.LawfulEqOrd.eq_of_compare htext)
    refine ⟨hfile, ?_⟩
    rw [htext, Ordering.eq_then] at h
    rw [hfile, Std.ReflOrd.compare_self, Ordering.eq_then]
    revert h
    cases compare v.location.line w.location.line <;>
      cases compare v.location.column w.location.column <;> simp
  | gt =>
    rw [htext] at h
    cases h

/-- What may stand before another violation has a place that is not behind the other one's, unless
their files are crossed. -/
theorem location_isLE_iff_of_before (h : before v w = true) :
    (Location.order v.location w.location).isLE = true ↔
      ¬ SourcePath.Crossed w.location.file v.location.file := by
  rw [SourcePath.crossed_iff]
  rcases text_lt_or_of_before h with htext | ⟨hfile, hle⟩
  · simp only [htext, and_true, Location.order, compareLex, compareOn]
    have hswap : compare v.location.file.parts w.location.file.parts =
        (compare w.location.file.parts v.location.file.parts).swap := Std.OrientedOrd.eq_swap
    rw [← compare_parts_eq_lt_iff, hswap]
    cases hparts : compare w.location.file.parts v.location.file.parts with
    | lt => simp
    | gt => simp
    | eq =>
      -- different texts are of different paths
      have hfile := SourcePath.parts_injective (Std.LawfulEqOrd.eq_of_compare hparts)
      rw [hfile] at htext
      exact absurd htext (lt_irrefl _)
  · rw [hfile]
    exact iff_of_true hle fun hcrossed => lt_irrefl _ hcrossed.1

/-- At the same place, violations are in the order of their rules. -/
theorem ruleId_le_of_before (h : before v w = true) (hlocation : v.location = w.location) :
    v.ruleId ≤ w.ruleId := by
  simp only [before, order, compareLex, compareOn, hlocation, Std.ReflOrd.compare_self,
    Ordering.eq_then] at h
  refine not_lt.1 ?_
  intro hlt
  have hgt : compare v.ruleId w.ruleId = .gt := by
    rw [Std.OrientedOrd.eq_swap, compare_text_eq_lt_iff.2 hlt]
    rfl
  rw [hgt] at h
  cases h

end Violation

/-! ### Reports -/

theorem Audit.pairwise_before (auditor : Auditor) (model : Model) :
    (ofModel auditor model).report.violations.Pairwise fun v w => v.before w = true := by
  rw [violations_ofModel]
  exact Violation.inOrder_iff.1 (Violation.inOrder_sort _)

/-- The file of a class. -/
def SourcePath.orderFile : SourcePath :=
  ⟨.relative, ["app", "models", "order.rb"], by decide⟩

/-- A file in the directory that has the name of the class. -/
def SourcePath.lineFile : SourcePath :=
  ⟨.relative, ["app", "models", "order", "line.rb"], by decide⟩

/-- An order and its lines, both with a method that forwards to what is not there. -/
def Model.nested : Model :=
  let entry (name : String) (file : SourcePath) : ClassDecl :=
    { qualifiedName := name, associations := [], layer := .model, location := ⟨file, 1, 0⟩
      methods :=
        [{ name := "city", owner := some name, delegatesTo := some ⟨"customer", "city"⟩ }] }
  { classes := [entry "Order" .orderFile, entry "Order::Line" .lineFile] }

theorem Audit.violations_nested (auditor : Auditor) :
    (ofModel auditor .nested).report.violations =
      (AuditUnit.schedule .nested).map fun unit => unit.toSkipped.toViolation := by
  have hvalues : (ofModel auditor .nested).analyses.values = [] := by
    rw [values_ofModel]
    have hnone : (AuditUnit.schedule .nested).filter AuditUnit.isSound = [] := by decide
    rw [hnone]
    rfl
  have hskipped : (ofModel auditor .nested).report.skipped =
      (AuditUnit.schedule .nested).map AuditUnit.toSkipped := by
    rw [skipped_ofModel]
    have hall : (AuditUnit.schedule .nested).filter (fun unit => !unit.isSound) =
        AuditUnit.schedule .nested := by decide
    rw [hall]
    rfl
  have hreported : reportedBy (MethodIndex.ofModel .nested)
      (inNameOrder (ofModel auditor .nested).analyses) auditor.rules = [] := by
    rw [inNameOrder, hvalues, List.mergeSort_nil, reportedBy]
    exact List.flatMap_eq_nil_iff.2 fun _ _ => rfl
  rw [violations_ofModel, hreported, hskipped, List.nil_append, List.map_map]
  exact List.mergeSort_of_pairwise (by decide +kernel)

namespace Auditor

/-- The violations of an audit follow the places that they are at, wherever the files are in the
same order by their parts and by their texts: of any two, the place of the first one is not behind
that of the second, exactly if the files are not crossed.  At the same place they follow the names
of the rules. -/
theorem auditInOrder_places (auditor : Auditor) {model : Model} (hmodel : model.Admissible)
    {order : List Nat} (horder : order.Perm (List.range (AuditUnit.schedule model).length)) :
    ∃ audit, auditor.auditInOrder model .never order = .ok audit ∧
      audit.report.violations.Pairwise fun v w =>
        ((Location.order v.location w.location).isLE = true ↔
          ¬ SourcePath.Crossed w.location.file v.location.file) ∧
        (v.location = w.location → v.ruleId ≤ w.ruleId) := by
  refine ⟨_, auditInOrder_eq_ofModel _ hmodel horder, ?_⟩
  refine (Audit.pairwise_before auditor model).imp ?_
  intro v w hbefore
  exact ⟨Violation.location_isLE_iff_of_before hbefore, Violation.ruleId_le_of_before hbefore⟩

theorem auditInOrder_places_nested :
    ∃ audit, standard.auditInOrder .nested .never [1, 0] = .ok audit ∧
      audit.report.violations.map Violation.location = [⟨.orderFile, 1, 0⟩, ⟨.lineFile, 1, 0⟩] ∧
      ((Location.order ⟨.orderFile, 1, 0⟩ ⟨.lineFile, 1, 0⟩).isLE = true ↔
        ¬ SourcePath.Crossed .lineFile .orderFile) ∧
      SourcePath.Crossed .lineFile .orderFile := by
  have hmodel : Model.nested.Admissible := by decide
  have horder : [1, 0].Perm (List.range (AuditUnit.schedule .nested).length) := by decide
  obtain ⟨audit, hreturns, hplaces⟩ := auditInOrder_places standard hmodel horder
  have haudit := Except.ok.inj
    (hreturns.symm.trans (auditInOrder_eq_ofModel standard hmodel horder))
  rw [haudit, Audit.violations_nested] at hplaces
  refine ⟨audit, hreturns, ?_, (List.pairwise_pair.1 hplaces).1, ?_⟩
  · rw [haudit, Audit.violations_nested]
    rfl
  · -- a point is before the slash
    exact .overtaken rfl (.behind (.behind (.here (List.cons_ne_nil _ _) rfl (by decide))))

/-- Violations need not follow their places: what is in the directory of a class is reported behind
the class, though its place is before. -/
theorem auditInOrder_class_before_directory :
    ∃ auditor audit v w, ofSettings .standard = .ok auditor ∧
      auditor.auditInOrder .nested .never [0, 1] = .ok audit ∧
      audit.report.violations = [v, w] ∧
      v.location = ⟨.orderFile, 1, 0⟩ ∧ w.location = ⟨.lineFile, 1, 0⟩ ∧
      Location.order v.location w.location = .gt := by
  have hauditor : ofSettings .standard = .ok ⟨.standard, Rule.select .standard⟩ :=
    ofSettings_eq_ok_iff.2 ⟨by decide, rfl⟩
  refine ⟨_, _, _, _, hauditor, auditInOrder_eq_ofModel _ (by decide) (by decide),
    Audit.violations_nested _, rfl, rfl, by decide +kernel⟩

end Auditor

end ObjectAudit
