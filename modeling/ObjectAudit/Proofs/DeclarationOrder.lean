/-
ObjectAudit/Proofs/DeclarationOrder.lean

The order of declaration does not matter.  In a model whose classes and templates have names
of their own, no declaration hides another one: every look-up by name finds the same in any
order of declaration (`Model.Reordered.answersAlike`), and so each unit is analysed or skipped
in the same way.  What depends on the order is only the order of the units themselves, and that
is forgotten twice: rules take analyses in the order of names, and the report is sorted.

Sorting leaves tied violations in their order.  What the rules report comes in the same order
anyway, and skipped units whose violations are tied have the same violation.
-/
import Mathlib.Algebra.BigOperators.Group.List.Basic
import Mathlib.Data.List.Nodup
import ObjectAudit.Proofs.SurveyAgreement
import ObjectAudit.Proofs.Totality

namespace ObjectAudit

open Text

namespace Model

/-- All classes and templates have names of their own. -/
def NamesDistinct (model : Model) : Prop :=
  (model.classes.map ClassDecl.qualifiedName ++ model.templates.map Template.name).Nodup

instance (model : Model) : Decidable model.NamesDistinct :=
  inferInstanceAs (Decidable (List.Nodup _))

/-- The same entries, in other orders of declaration. -/
structure Reordered (model model' : Model) : Prop where
  classes : model.classes.Perm model'.classes
  templates : model.templates.Perm model'.templates
  rejected : model.rejected.Perm model'.rejected

/-- A model with distinct names: a class with flaws, one without, a template, and entries that
could not be read. -/
def untangled : Model :=
  { tangled with
    classes := tangled.classes.take 1 ++ tangled.classes.drop 3
    templates := tangled.templates.drop 1 }

/-- The model with everything declared in the opposite order. -/
def reverse (model : Model) : Model :=
  ⟨model.classes.reverse, model.templates.reverse, model.rejected.reverse⟩

namespace Reordered

variable {model model' : Model} (h : model.Reordered model')

include h

theorem admissible (hmodel : model.Admissible) : model'.Admissible where
  classes decl hdecl := hmodel.classes decl (h.classes.mem_iff.2 hdecl)
  templates template htemplate := hmodel.templates template (h.templates.mem_iff.2 htemplate)
  rejected skipped hskipped := hmodel.rejected skipped (h.rejected.mem_iff.2 hskipped)

theorem namesDistinct (hnames : model.NamesDistinct) : model'.NamesDistinct := by
  have hperm := (h.classes.map ClassDecl.qualifiedName).append (h.templates.map Template.name)
  exact hperm.nodup_iff.1 hnames

/-! ### Look-ups -/

theorem classNames_eq : model.classNames = model'.classNames := by
  apply textSet_congr
  intro name
  exact (h.classes.map ClassDecl.qualifiedName).mem_iff

theorem class?_eq (hnames : model.NamesDistinct) (name : String) :
    model.class? name = model'.class? name :=
  find?_eq_of_perm ClassDecl.qualifiedName h.classes (List.nodup_append.1 hnames).1 name

/-- Look-ups do not depend on the order of declaration. -/
theorem answersAlike (hnames : model.NamesDistinct) :
    AnswersAlike (Graph.ofModel model) (MethodIndex.ofModel model) (Graph.ofModel model')
      (MethodIndex.ofModel model') where
  edge source accessor := by
    rw [Graph.edge?_ofModel, Graph.edge?_ofModel, h.class?_eq hnames, h.classNames_eq]
  hasClass name := by
    apply Bool.eq_iff_iff.2
    rw [Graph.hasClass_ofModel, Graph.hasClass_ofModel, h.classNames_eq]
  method className name := by
    rw [MethodIndex.get?_ofModel, MethodIndex.get?_ofModel, h.class?_eq hnames]

/-- The graph has the same edges. -/
theorem edges_perm (hnames : model.NamesDistinct) :
    (Graph.ofModel model).edges.Perm (Graph.ofModel model').edges := by
  have hnames' := h.namesDistinct hnames
  have hfirst : Graph.firstDeclarations model.classes = model.classes :=
    eraseDupsBy_eq_self _ (List.nodup_append.1 hnames).1
  have hfirst' : Graph.firstDeclarations model'.classes = model'.classes :=
    eraseDupsBy_eq_self _ (List.nodup_append.1 hnames').1
  show ((Graph.declaredEdges model).map _).Perm ((Graph.declaredEdges model').map _)
  rw [h.classNames_eq, Graph.declaredEdges, Graph.declaredEdges, hfirst, hfirst']
  exact (h.classes.flatMap_right _).map _

end Reordered

end Model

/-! ### Units -/

namespace AuditUnit

/-- Nothing is marked as repeated if all names are new. -/
theorem markRepeated_eq_of_nodup {α : Type} (nameOf : α → String) {seen : List String}
    {l : List α} (hnodup : (l.map nameOf).Nodup) (hnew : ∀ a ∈ l, nameOf a ∉ seen) :
    markRepeated nameOf seen l = l.map fun a => (a, false) := by
  induction l generalizing seen with
  | nil => rfl
  | cons a rest ih =>
    obtain ⟨hnot, hrest⟩ := List.nodup_cons.1 hnodup
    -- the names behind `a` are new also when that of `a` has been seen
    have hnew' : ∀ b ∈ rest, nameOf b ∉ nameOf a :: seen := by
      intro b hb hmem
      rcases List.mem_cons.1 hmem with heq | hseen
      · exact hnot (heq ▸ List.mem_map.2 ⟨b, hb, rfl⟩)
      · exact hnew b (List.mem_cons_of_mem a hb) hseen
    have hfalse : seen.contains (nameOf a) = false := by
      simpa using hnew a List.mem_cons_self
    rw [markRepeated, ih hrest hnew', hfalse, List.map_cons]

theorem schedule_eq_of_namesDistinct {model : Model} (hnames : model.NamesDistinct) :
    schedule model = model.classes.map (classUnit · false) ++
      model.templates.map (templateUnit · false) := by
  obtain ⟨hclasses, htemplates, hdisjoint⟩ := List.nodup_append.1 hnames
  rw [schedule, markRepeated_eq_of_nodup _ hclasses, markRepeated_eq_of_nodup _ htemplates,
    List.map_map, List.map_map]
  · rfl
  · intro template htemplate hmem
    exact hdisjoint _ hmem _ (List.mem_map.2 ⟨template, htemplate, rfl⟩) rfl
  · intro decl _ hmem
    cases hmem

theorem schedule_perm {model model' : Model} (h : model.Reordered model')
    (hnames : model.NamesDistinct) : (schedule model).Perm (schedule model') := by
  rw [schedule_eq_of_namesDistinct hnames, schedule_eq_of_namesDistinct (h.namesDistinct hnames)]
  exact (h.classes.map _).append (h.templates.map _)

end AuditUnit

/-! ### Skipped units -/

/-- Skipped units whose violations are tied have the same violation. -/
theorem Skipped.toViolation_eq_of_before {skipped skipped' : Skipped}
    (hbefore : Violation.before skipped.toViolation skipped'.toViolation)
    (hbefore' : Violation.before skipped'.toViolation skipped.toViolation) :
    skipped.toViolation = skipped'.toViolation := by
  obtain ⟨hlocation, -, hclass, -, hmessage⟩ :=
    Violation.order_eq_eq_iff.1 (Violation.order_eq_eq_of_before hbefore hbefore')
  simp only [toViolation] at hlocation hclass hmessage ⊢
  rw [hlocation, hclass, hmessage]

/-! ### Counters -/

/-- Counters do not depend on the order of what is counted. -/
theorem statsOf_eq_of_perm {graph graph' : Graph} (hedges : graph.edges.Perm graph'.edges)
    {analyses analyses' : List UnitAnalysis} (hanalyses : analyses.Perm analyses')
    {skipped skipped' : List Skipped} (hskipped : skipped.Perm skipped') (rules : List Rule) :
    statsOf graph analyses skipped rules = statsOf graph' analyses' skipped' rules := by
  have hunresolved : graph.unresolved.length = graph'.unresolved.length :=
    (hedges.filter _).length_eq
  have hsum : ∀ count : UnitAnalysis → Int,
      (analyses.map count).foldr (· + ·) 0 = (analyses'.map count).foldr (· + ·) 0 := by
    intro count
    exact (hanalyses.map count).sum_eq
  rw [statsOf, statsOf, hanalyses.countP_eq, hanalyses.countP_eq, hskipped.length_eq, hsum, hsum,
    hedges.length_eq, hunresolved]

/-! ### The audit of a model -/

namespace Audit

variable {model model' : Model} (auditor : Auditor)

/-- Analyses with the same subject are the same. -/
theorem eq_of_subject_eq {analysis analysis' : UnitAnalysis}
    (hanalysis : analysis ∈ (ofModel auditor model).analyses.values)
    (hanalysis' : analysis' ∈ (ofModel auditor model).analyses.values)
    (hsubject : analysis.subject = analysis'.subject) : analysis = analysis' := by
  rw [values_ofModel] at hanalysis hanalysis'
  obtain ⟨unit, hunit, rfl⟩ := List.mem_map.1 hanalysis
  obtain ⟨unit', hunit', rfl⟩ := List.mem_map.1 hanalysis'
  rw [AuditUnit.analysisOf_subject, AuditUnit.analysisOf_subject] at hsubject
  rw [List.inj_on_of_nodup_map (AuditUnit.nodup_names_sound model) hunit hunit' hsubject]

variable (h : model.Reordered model') (hnames : model.NamesDistinct)

include h hnames

theorem values_perm :
    (ofModel auditor model).analyses.values.Perm (ofModel auditor model').analyses.values := by
  -- a unit has the same analysis in both models
  have hanalysis : AuditUnit.analysisOf (Survey.ofModel model auditor.settings) =
      AuditUnit.analysisOf (Survey.ofModel model' auditor.settings) := by
    funext unit
    exact (h.answersAlike hnames).analysisOf_eq auditor.settings unit
  rw [values_ofModel, values_ofModel, hanalysis]
  exact ((AuditUnit.schedule_perm h hnames).filter _).map _

/-- Rules take the same analyses in the same order. -/
theorem inNameOrder_eq :
    inNameOrder (ofModel auditor model).analyses =
      inNameOrder (ofModel auditor model').analyses := by
  refine (sortsBy_le.comap UnitAnalysis.subject).mergeSort_eq_of_perm
    (values_perm auditor h hnames) ?_
  intro analysis hanalysis analysis' hanalysis' hle hle'
  exact eq_of_subject_eq auditor hanalysis hanalysis'
    (String.le_antisymm (of_decide_eq_true hle) (of_decide_eq_true hle'))

theorem skipped_perm :
    (ofModel auditor model).report.skipped.Perm (ofModel auditor model').report.skipped := by
  rw [skipped_ofModel, skipped_ofModel]
  exact h.rejected.append (((AuditUnit.schedule_perm h hnames).filter _).map _)

theorem violations_eq :
    (ofModel auditor model).report.violations = (ofModel auditor model').report.violations := by
  -- the rules report the same list, so only the skipped units change their order
  have hreported : reportedBy (MethodIndex.ofModel model)
      (inNameOrder (ofModel auditor model).analyses) auditor.rules =
      reportedBy (MethodIndex.ofModel model')
        (inNameOrder (ofModel auditor model').analyses) auditor.rules := by
    rw [inNameOrder_eq auditor h hnames, reportedBy, reportedBy]
    apply List.flatMap_congr
    intro rule _
    exact (h.answersAlike hnames).evaluate_eq rule _
  rw [violations_ofModel, violations_ofModel, hreported]
  refine Violation.sortsBy_before.mergeSort_append_eq_of_perm _
    ((skipped_perm auditor h hnames).map Skipped.toViolation) ?_
  intro violation hviolation violation' hviolation'
  obtain ⟨skipped, -, rfl⟩ := List.mem_map.1 hviolation
  obtain ⟨skipped', -, rfl⟩ := List.mem_map.1 hviolation'
  exact Skipped.toViolation_eq_of_before

theorem stats_eq : (ofModel auditor model).report.stats = (ofModel auditor model').report.stats :=
  statsOf_eq_of_perm (h.edges_perm hnames) (values_perm auditor h hnames)
    (skipped_perm auditor h hnames) auditor.rules

end Audit

namespace Auditor

/-- In a model whose classes and templates have names of their own, the order of declaration
does not matter: audits of two orders return, report the same violations in the same order,
count the same, and skip the same units. -/
theorem auditInOrder_reordered (auditor : Auditor) {model model' : Model}
    (hmodel : model.Admissible) (hnames : model.NamesDistinct) (h : model.Reordered model')
    {order order' : List Nat}
    (horder : order.Perm (List.range (AuditUnit.schedule model).length))
    (horder' : order'.Perm (List.range (AuditUnit.schedule model').length)) :
    ∃ audit audit', auditor.auditInOrder model .never order = .ok audit ∧
      auditor.auditInOrder model' .never order' = .ok audit' ∧
      audit.report.violations = audit'.report.violations ∧
      audit.report.stats = audit'.report.stats ∧
      audit.report.skipped.Perm audit'.report.skipped := by
  refine ⟨_, _, auditor.auditInOrder_eq_ofModel hmodel horder,
    auditor.auditInOrder_eq_ofModel (h.admissible hmodel) horder', ?_, ?_, ?_⟩
  · exact Audit.violations_eq auditor h hnames
  · exact Audit.stats_eq auditor h hnames
  · exact Audit.skipped_perm auditor h hnames

theorem auditInOrder_reordered_untangled :
    ∃ model', Model.untangled.Reordered model' ∧ Model.untangled.classes ≠ model'.classes ∧
      Model.untangled.rejected ≠ model'.rejected ∧
      ∃ audit audit', standard.auditInOrder .untangled .never [0, 1, 2] = .ok audit ∧
        standard.auditInOrder model' .never [2, 0, 1] = .ok audit' ∧
        audit.report.violations = audit'.report.violations ∧
        audit.report.stats = audit'.report.stats ∧
        audit.report.skipped.Perm audit'.report.skipped := by
  have hmodel : Model.untangled.Admissible := by decide
  have hnames : Model.untangled.NamesDistinct := by decide
  have hreordered : Model.untangled.Reordered Model.untangled.reverse :=
    ⟨(List.reverse_perm _).symm, (List.reverse_perm _).symm, (List.reverse_perm _).symm⟩
  exact ⟨Model.untangled.reverse, hreordered, by decide, by decide,
    auditInOrder_reordered standard hmodel hnames hreordered (by decide) (by decide)⟩

end Auditor

end ObjectAudit
