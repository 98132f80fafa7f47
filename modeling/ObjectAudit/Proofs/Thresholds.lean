/-
ObjectAudit/Proofs/Thresholds.lean

Higher thresholds report less.  Three rules have a threshold, and each compares it with a number
that it finds in a unit: the depth of a chain, the number of categories, the number of changed
classes.  Nothing else looks at thresholds, so analyses, skipped units and counters stay the
same, and each rule finds a sublist of what it found (`RuleCheck.Raised.findings_sublist`).
Sorting a sublist gives a sublist of the sorted list, hence no violation that is left changes
its place among the others.
-/
import Mathlib.Data.List.Basic
import ObjectAudit.Proofs.Correspondence
import ObjectAudit.Proofs.Responsibilities

namespace ObjectAudit

open List (Forall₂)

/-! ### Raised thresholds -/

/-- The same settings, with thresholds that are at least as high. -/
inductive Settings.Raised (settings : Settings) : Settings → Prop
  | mk {minDemeterDepth minResponsibilityCategories minTransactionClasses : Int} :
      settings.minDemeterDepth ≤ minDemeterDepth →
      settings.minResponsibilityCategories ≤ minResponsibilityCategories →
      settings.minTransactionClasses ≤ minTransactionClasses →
      Raised settings
        { settings with minDemeterDepth, minResponsibilityCategories, minTransactionClasses }

/-- The same check, with a threshold that is at least as high. -/
inductive RuleCheck.Raised : RuleCheck → RuleCheck → Prop
  | lawOfDemeter {minDepth minDepth' : Int} :
      minDepth ≤ minDepth' → Raised (.lawOfDemeter minDepth) (.lawOfDemeter minDepth')
  | fatModel {minCategories minCategories' : Int} :
      minCategories ≤ minCategories' → Raised (.fatModel minCategories) (.fatModel minCategories')
  | transactionOrchestration {minClasses minClasses' : Int} :
      minClasses ≤ minClasses' →
        Raised (.transactionOrchestration minClasses) (.transactionOrchestration minClasses')
  /-- A check without a threshold stays the same. -/
  | refl (check : RuleCheck) : Raised check check

/-- The same rule, as grave as before, with a threshold that is at least as high. -/
structure Rule.Raised (rule rule' : Rule) : Prop where
  check : rule.check.Raised rule'.check
  severity : rule.severity = rule'.severity

/-! ### What is found -/

namespace RuleCheck.Raised

variable {check check' : RuleCheck} (h : check.Raised check')

include h

theorem id : check.id = check'.id := by
  cases h <;> rfl

theorem ownSeverity : check.ownSeverity = check'.ownSeverity := by
  cases h <;> rfl

/-- With a higher threshold a rule finds a sublist of what it found. -/
theorem findings_sublist (methods : MethodIndex) (analysis : UnitAnalysis) :
    (check'.findings methods analysis).Sublist (check.findings methods analysis) := by
  cases h with
  | lawOfDemeter hdepth =>
    refine (List.monotone_filter_right _ ?_).map _
    intro chain hchain
    exact decide_eq_true (hdepth.trans (of_decide_eq_true hchain))
  | @fatModel minCategories minCategories' hcategories =>
    simp only [findings]
    split
    · exact List.nil_sublist _
    · -- what reaches the higher threshold reaches the lower one
      next hreached =>
      rw [if_neg]
      intro hfew
      simp only [Bool.or_eq_true, decide_eq_true_eq, not_or, not_lt] at hreached hfew
      rcases hfew with htemplate | hfew
      · exact hreached.1 htemplate
      · exact absurd (hcategories.trans hreached.2) (not_le.2 hfew)
  | transactionOrchestration hclasses =>
    refine (List.monotone_filter_right _ ?_).map _
    intro transaction htransaction
    exact decide_eq_true (hclasses.trans (of_decide_eq_true htransaction))
  | refl => exact .refl _

end RuleCheck.Raised

namespace Rule.Raised

variable {rule rule' : Rule} (h : rule.Raised rule')

include h

theorem toViolation_eq (finding : Finding) (analysis : UnitAnalysis) :
    finding.toViolation rule analysis = finding.toViolation rule' analysis := by
  rw [Finding.toViolation, Finding.toViolation, Rule.id, Rule.id, h.check.id, h.severity]

theorem evaluate_sublist (methods : MethodIndex) (analyses : List UnitAnalysis) :
    (rule'.evaluate methods analyses).Sublist (rule.evaluate methods analyses) := by
  have hsame : Forall₂ Eq analyses analyses := List.forall₂_same.2 fun _ _ => rfl
  refine sublist_flatMap_of_forall₂ ?_ hsame
  rintro analysis _ rfl
  simp only [← h.toViolation_eq]
  exact (h.check.findings_sublist methods analysis).map _

end Rule.Raised

/-! ### Settings -/

namespace Settings.Raised

variable {settings raised : Settings} (h : settings.Raised raised)

include h

theorem registry :
    Forall₂ RuleCheck.Raised (RuleCheck.registry settings) (RuleCheck.registry raised) := by
  obtain ⟨hdepth, hcategories, hclasses⟩ := h
  exact .cons (.lawOfDemeter hdepth) <| .cons (.refl _) <| .cons (.refl _) <|
    .cons (.fatModel hcategories) <| .cons (.transactionOrchestration hclasses) <|
    .cons (.refl _) .nil

theorem isEnabled (ruleId : String) : settings.isEnabled ruleId = raised.isEnabled ruleId := by
  obtain ⟨-, -, -⟩ := h
  rfl

theorem severityFor (ruleId : String) (own : Severity) :
    settings.severityFor ruleId own = raised.severityFor ruleId own := by
  obtain ⟨-, -, -⟩ := h
  rfl

/-- The same rules run. -/
theorem select : Forall₂ Rule.Raised (Rule.select settings) (Rule.select raised) := by
  have hchecks : Forall₂ RuleCheck.Raised
      ((RuleCheck.registry settings).filter fun check => settings.isEnabled check.id)
      ((RuleCheck.registry raised).filter fun check => raised.isEnabled check.id) := by
    refine List.rel_filter (fun check check' hcheck => Bool.eq_iff_iff.1 ?_) h.registry
    rw [hcheck.id, h.isEnabled]
  refine List.forall₂_map_left_iff.2 (List.forall₂_map_right_iff.2 (hchecks.imp ?_))
  intro check check' hcheck
  refine ⟨hcheck, ?_⟩
  show settings.severityFor check.id check.ownSeverity =
    raised.severityFor check'.id check'.ownSeverity
  rw [h.severityFor, hcheck.id, hcheck.ownSeverity]

/-- No analysis looks at thresholds. -/
theorem outcome_eq (model : Model) :
    AuditUnit.outcome (Survey.ofModel model settings) =
      AuditUnit.outcome (Survey.ofModel model raised) := by
  obtain ⟨-, -, -⟩ := h
  funext unit
  rw [AuditUnit.outcome_eq, AuditUnit.outcome_eq]
  cases unit <;> rfl

end Settings.Raised

/-! ### The audit of a model -/

namespace Audit

variable {a b : Auditor} (hsettings : a.settings.Raised b.settings)
variable (hrules : Forall₂ Rule.Raised a.rules b.rules) (model : Model)

include hsettings

theorem analyses_eq_of_raised : (ofModel a model).analyses = (ofModel b model).analyses := by
  show analysesOf _ = analysesOf _
  rw [hsettings.outcome_eq]

include hrules

theorem violations_sublist :
    (ofModel b model).report.violations.Sublist (ofModel a model).report.violations := by
  rw [violations_ofModel, violations_ofModel, analyses_eq_of_raised hsettings, skipped_eq b a]
  -- what is skipped stays, and the rules report less one after the other
  refine Violation.sortsBy_before.mergeSort_sublist (.append ?_ (.refl _))
  refine sublist_flatMap_of_forall₂ ?_ hrules
  intro rule rule' hrule
  exact hrule.evaluate_sublist _ _

theorem stats_eq_of_raised : (ofModel a model).report.stats = (ofModel b model).report.stats := by
  have hlength := hrules.length_eq
  show statsOf (Graph.ofModel model) (ofModel a model).analyses.values
      (ofModel a model).report.skipped a.rules =
    statsOf (Graph.ofModel model) (ofModel b model).analyses.values
      (ofModel b model).report.skipped b.rules
  rw [analyses_eq_of_raised hsettings, skipped_eq a b, statsOf, statsOf, hlength]

end Audit

/-- Settings whose thresholds are all higher than usual. -/
def Settings.lenient : Settings :=
  { minDemeterDepth := 3, minResponsibilityCategories := 4, minTransactionClasses := 3 }

namespace Auditor

/-- Raising thresholds only removes violations.  Two audits of a model under settings that
differ only in thresholds, none of which is lower in the second: both return, the violations of
the second are a sublist of those of the first, and they skip and count the same. -/
theorem auditInOrder_thresholds_raised {settings raised : Settings} (h : settings.Raised raised)
    {a b : Auditor} (ha : ofSettings settings = .ok a) (hb : ofSettings raised = .ok b)
    {model : Model} (hmodel : model.Admissible) {order order' : List Nat}
    (horder : order.Perm (List.range (AuditUnit.schedule model).length))
    (horder' : order'.Perm (List.range (AuditUnit.schedule model).length)) :
    ∃ audit audit', a.auditInOrder model .never order = .ok audit ∧
      b.auditInOrder model .never order' = .ok audit' ∧
      audit'.report.violations.Sublist audit.report.violations ∧
      audit.report.skipped = audit'.report.skipped ∧
      audit.report.stats = audit'.report.stats := by
  obtain ⟨-, rfl⟩ := ofSettings_eq_ok_iff.1 ha
  obtain ⟨-, rfl⟩ := ofSettings_eq_ok_iff.1 hb
  refine ⟨_, _, auditInOrder_eq_ofModel _ hmodel horder, auditInOrder_eq_ofModel _ hmodel horder',
    ?_, ?_, ?_⟩
  · exact Audit.violations_sublist h h.select model
  · exact Audit.skipped_eq _ _ model
  · exact Audit.stats_eq_of_raised h h.select model

/-- Invoices have three responsibilities: enough as usual, and too few for a threshold of four. -/
theorem auditInOrder_thresholds_raised_lenient :
    ∃ usual lenient audit audit',
      ofSettings .standard = .ok usual ∧ ofSettings .lenient = .ok lenient ∧
      usual.auditInOrder .mixed .never [0, 1] = .ok audit ∧
      lenient.auditInOrder .mixed .never [1, 0] = .ok audit' ∧
      (audit.report.about "fat-model" "Invoice").length = 1 ∧
      audit'.report.about "fat-model" "Invoice" = [] ∧
      audit'.report.violations.Sublist audit.report.violations ∧
      audit.report.skipped = audit'.report.skipped ∧
      audit.report.stats = audit'.report.stats := by
  have hraised : Settings.standard.Raised .lenient := .mk (by decide) (by decide) (by decide)
  have husual : ofSettings .standard = .ok ⟨.standard, Rule.select .standard⟩ :=
    ofSettings_eq_ok_iff.2 ⟨by decide, rfl⟩
  have hlenient : ofSettings .lenient = .ok ⟨.lenient, Rule.select .lenient⟩ :=
    ofSettings_eq_ok_iff.2 ⟨by decide, rfl⟩
  have hmodel : Model.mixed.Admissible := by decide
  have horder : [0, 1].Perm (List.range (AuditUnit.schedule .mixed).length) := by decide
  have horder' : [1, 0].Perm (List.range (AuditUnit.schedule .mixed).length) := by decide
  obtain ⟨audit, audit', hreturns, hreturns', hless⟩ :=
    auditInOrder_thresholds_raised hraised husual hlenient hmodel horder horder'
  have hinvoice : .classUnit Model.mixed.classes[0] false ∈ AuditUnit.schedule .mixed := by decide
  have hsound : (AuditUnit.classUnit Model.mixed.classes[0] false).isSound = true := by decide
  refine ⟨_, _, audit, audit', husual, hlenient, hreturns, hreturns', ?_, ?_, hless⟩
  · obtain rfl := Except.ok.inj (hreturns.symm.trans (auditInOrder_eq_ofModel _ hmodel horder))
    refine (Audit.length_about_fatModel .standard hinvoice hsound).trans (if_pos ⟨by decide, ?_⟩)
    rw [Clustering.ncard_categorizedComponents]
    decide +kernel
  · obtain rfl := Except.ok.inj (hreturns'.symm.trans (auditInOrder_eq_ofModel _ hmodel horder'))
    refine List.length_eq_zero_iff.1
      ((Audit.length_about_fatModel .lenient hinvoice hsound).trans (if_neg ?_))
    rw [Clustering.ncard_categorizedComponents]
    decide +kernel

end Auditor

end ObjectAudit
