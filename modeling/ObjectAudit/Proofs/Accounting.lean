/-
ObjectAudit/Proofs/Accounting.lean

Every entry of a model is accounted for.  A class or template is analysed or skipped, never
both and never neither, whether its name is declared once or often; an entry that could not be
read is skipped.  What is skipped is listed in order of declaration and reported once, what is
analysed is kept under a name of its own, and the counters count the one or the other
(`Audit.Accounts`).

    classes + templates + rejected entries = analysed classes + analysed templates + skipped.
-/
import Mathlib.Algebra.BigOperators.Ring.Finset
import ObjectAudit.Proofs.Totality

namespace ObjectAudit

/-! ### Units and entries -/

namespace AuditUnit

/-- The entry of the model that a unit stands for. -/
def entry : AuditUnit → ClassDecl ⊕ Template
  | classUnit decl _ => .inl decl
  | templateUnit template _ => .inr template

/-- The methods that a unit declares. -/
def methods : AuditUnit → List Method
  | classUnit decl _ => decl.methods
  | templateUnit _ _ => []

/-- The call sites in a unit. -/
def callSites : AuditUnit → List CallSite
  | classUnit decl _ => decl.methods.flatMap Method.callSites
  | templateUnit template _ => template.callSites

/-- The units are the classes and then the templates, in order of declaration. -/
theorem map_entry_schedule (model : Model) :
    (schedule model).map entry = model.classes.map .inl ++ model.templates.map .inr := by
  have hclasses := map_fst_markRepeated ClassDecl.qualifiedName [] model.classes
  have htemplates := map_fst_markRepeated Template.name
    (model.classes.map ClassDecl.qualifiedName) model.templates
  rw [schedule, List.map_append, List.map_map, List.map_map]
  apply congrArg₂
  · show (markRepeated _ _ _).map (Sum.inl ∘ Prod.fst) = _
    rw [← List.map_map, hclasses]
  · show (markRepeated _ _ _).map (Sum.inr ∘ Prod.fst) = _
    rw [← List.map_map, htemplates]

theorem length_schedule (model : Model) :
    (schedule model).length = model.classes.length + model.templates.length := by
  have hlength := congrArg List.length (map_entry_schedule model)
  simpa using hlength

@[simp] theorem methodCount_analysisOf (survey : Survey) (unit : AuditUnit) :
    (unit.analysisOf survey).methodCount = unit.methods.length := by
  cases unit <;> rfl

/-- Every call site of a unit has its layered call. -/
theorem length_calls (survey : Survey) (unit : AuditUnit) :
    (unit.analysisOf survey).calls.length = unit.callSites.length := by
  cases unit with
  | classUnit decl repeated =>
    -- both go through the methods, and each call site yields one call
    show (decl.methods.flatMap _).length = (decl.methods.flatMap _).length
    rw [List.length_flatMap, List.length_flatMap]
    simp only [List.length_map]
  | templateUnit template repeated => exact List.length_map _

/-- Call sites are counted method by method. -/
theorem callSiteCount_analysisOf (survey : Survey) (unit : AuditUnit) :
    (unit.analysisOf survey).callSiteCount = unit.callSites.length := by
  cases unit with
  | classUnit decl repeated =>
    show (decl.methods.map _).sum = ((decl.methods.flatMap _).length : Int)
    rw [List.length_flatMap, Nat.cast_list_sum, List.map_map]
    rfl
  | templateUnit template repeated => rfl

/-- The units without and with flaws are all units. -/
theorem length_sound_add_length_flawed (model : Model) :
    ((schedule model).filter isSound).length +
        ((schedule model).filter fun unit => !unit.isSound).length =
      model.classes.length + model.templates.length := by
  rw [← length_schedule]
  exact (List.length_eq_length_filter_add isSound).symm

end AuditUnit

/-! ### The accounts of an audit -/

/-- How an audit accounts for the entries of a model. -/
structure Audit.Accounts (audit : Audit) (auditor : Auditor) (model : Model) : Prop where
  /-- The units are the classes and then the templates, in order of declaration. -/
  entries : audit.units.map AuditUnit.entry =
    model.classes.map .inl ++ model.templates.map .inr
  /-- Every entry is analysed or skipped. -/
  total : audit.report.stats.classesAnalyzed + audit.report.stats.templatesAnalyzed +
      audit.report.skipped.length =
    model.classes.length + model.templates.length + model.rejected.length
  /-- Every unit without flaws has an analysis of its own under its name. -/
  analysed : audit.analyses.entries = (audit.units.filter AuditUnit.isSound).map fun unit =>
    (unit.name, unit.analysisOf audit.survey)
  /-- What could not be read is skipped, and then the units with flaws, as declared. -/
  skipped : audit.report.skipped = model.rejected ++
    (audit.units.filter fun unit => !unit.isSound).map AuditUnit.toSkipped
  /-- Each skipped entry is reported once as malformed, and nothing else is. -/
  malformed : (audit.report.byRule malformedInput).Perm
    (audit.report.skipped.map Skipped.toViolation)
  /-- The violations are what the rules report, and the skipped entries. -/
  violations : audit.report.violations.Perm
    ((auditor.rules.flatMap fun rule =>
        rule.evaluate audit.survey.methods (inNameOrder audit.analyses)) ++
      audit.report.skipped.map Skipped.toViolation)
  /-- Each violation may stand before all behind it. -/
  ordered : audit.report.violations.Pairwise fun a b => Violation.before a b = true
  /-- The methods of the units without flaws are counted. -/
  methods : audit.report.stats.methodsAnalyzed =
    ((audit.units.filter AuditUnit.isSound).map fun unit => unit.methods.length).sum
  /-- The call sites in the units without flaws are counted. -/
  callSites : audit.report.stats.callSitesAnalyzed =
    ((audit.units.filter AuditUnit.isSound).map fun unit => unit.callSites.length).sum
  /-- There are as many layered calls. -/
  calls : audit.report.stats.callSitesAnalyzed =
    (audit.analyses.values.map fun analysis => analysis.calls.length).sum

namespace Audit

variable (auditor : Auditor) (model : Model)

theorem total_ofModel :
    (ofModel auditor model).report.stats.classesAnalyzed +
        (ofModel auditor model).report.stats.templatesAnalyzed +
        (ofModel auditor model).report.skipped.length =
      model.classes.length + model.templates.length + model.rejected.length := by
  -- an analysis is that of a class or of a template
  have hanalyses := List.length_eq_countP_add_countP UnitAnalysis.isTemplate
    (l := (ofModel auditor model).analyses.values)
  -- no analysis is lost under its name, and no unit between the two lists
  have hvalues := congrArg List.length (values_ofModel auditor model)
  have hskipped := congrArg List.length (skipped_ofModel auditor model)
  have hunits := AuditUnit.length_sound_add_length_flawed model
  rw [List.length_map] at hvalues
  rw [List.length_append, List.length_map] at hskipped
  simp only [Bool.not_eq_true, Bool.decide_eq_false] at hanalyses
  show ((List.countP (fun analysis => !analysis.isTemplate)
      (ofModel auditor model).analyses.values : Int) +
    (List.countP UnitAnalysis.isTemplate (ofModel auditor model).analyses.values : Int) + _) = _
  omega

theorem methodsAnalyzed_ofModel :
    (ofModel auditor model).report.stats.methodsAnalyzed =
      (((AuditUnit.schedule model).filter AuditUnit.isSound).map fun unit =>
        unit.methods.length).sum := by
  show ((ofModel auditor model).analyses.values.map UnitAnalysis.methodCount).sum = _
  rw [values_ofModel, List.map_map, Nat.cast_list_sum, List.map_map]
  congr 1
  refine List.map_congr_left ?_
  intro unit _
  exact AuditUnit.methodCount_analysisOf _ unit

theorem callSitesAnalyzed_ofModel :
    (ofModel auditor model).report.stats.callSitesAnalyzed =
      (((AuditUnit.schedule model).filter AuditUnit.isSound).map fun unit =>
        unit.callSites.length).sum := by
  show ((ofModel auditor model).analyses.values.map UnitAnalysis.callSiteCount).sum = _
  rw [values_ofModel, List.map_map, Nat.cast_list_sum, List.map_map]
  congr 1
  refine List.map_congr_left ?_
  intro unit _
  exact AuditUnit.callSiteCount_analysisOf _ unit

/-- Every call site that is counted has its layered call. -/
theorem sum_length_calls :
    ((ofModel auditor model).analyses.values.map fun analysis => analysis.calls.length).sum =
      (((AuditUnit.schedule model).filter AuditUnit.isSound).map fun unit =>
        unit.callSites.length).sum := by
  rw [values_ofModel, List.map_map]
  congr 1
  refine List.map_congr_left ?_
  intro unit _
  exact AuditUnit.length_calls _ unit

end Audit

namespace Auditor

/-- An audit that nobody cancels accounts for every entry of its model. -/
theorem auditInOrder_accounts (auditor : Auditor) {model : Model} (hmodel : model.Admissible)
    {order : List Nat} (horder : order.Perm (List.range (AuditUnit.schedule model).length)) :
    ∃ audit, auditor.auditInOrder model .never order = .ok audit ∧
      audit.Accounts auditor model := by
  refine ⟨Audit.ofModel auditor model, auditor.auditInOrder_eq_ofModel hmodel horder, ?_⟩
  have hcalls := Audit.callSitesAnalyzed_ofModel auditor model
  refine
    { entries := AuditUnit.map_entry_schedule model
      total := Audit.total_ofModel auditor model
      analysed := entries_analysesOf _ model
      skipped := Audit.skipped_ofModel auditor model
      malformed := ?_
      violations := ?_
      ordered := Violation.inOrder_iff.1 (Violation.inOrder_sort _)
      methods := Audit.methodsAnalyzed_ofModel auditor model
      callSites := hcalls
      calls := ?_ }
  · rw [Audit.byRule_malformedInput]
    exact Violation.sort_perm _
  · rw [Audit.violations_ofModel]
    exact Violation.sort_perm _
  · rw [hcalls, Audit.sum_length_calls]

theorem auditInOrder_accounts_tangled :
    [5, 0, 4, 3, 2, 1].Perm (List.range (AuditUnit.schedule .tangled).length) ∧
    ∃ audit, standard.auditInOrder .tangled .never [5, 0, 4, 3, 2, 1] = .ok audit ∧
      audit.Accounts standard .tangled := by
  have horder : [5, 0, 4, 3, 2, 1].Perm (List.range (AuditUnit.schedule .tangled).length) := by
    decide
  exact ⟨horder, auditInOrder_accounts standard Model.tangled_admissible horder⟩

end Auditor

end ObjectAudit
