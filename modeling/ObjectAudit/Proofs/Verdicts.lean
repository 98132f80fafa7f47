/-
ObjectAudit/Proofs/Verdicts.lean

Who reports what.  Every violation carries the name of the rule that reports it, and no rule
has the name under which skipped units are reported.  Violations may therefore be selected by
those names before they are put together: selecting from a sorted report gives what the
selected rules report, sorted (`filter_violations`).

With one name this says what is listed under a rule (`byRule_ofModel`) and that the skipped
units are listed under theirs, each once (`byRule_malformedInput`).  Units without flaws have
names of their own, so what is listed about one of them is what the rule finds in its analysis
(`about_ofModel`).
-/
import ObjectAudit.Proofs.Outcomes
import ObjectAudit.Proofs.ViolationOrder

namespace ObjectAudit

/-! ### Names of rules -/

theorem RuleCheck.id_ne_malformedInput (check : RuleCheck) : check.id ≠ malformedInput := by
  cases check <;> simp [id, malformedInput]

/-- A rule reports in its own name. -/
theorem Rule.ruleId_of_mem_evaluate {rule : Rule} {methods : MethodIndex}
    {analyses : List UnitAnalysis} {violation : Violation}
    (h : violation ∈ rule.evaluate methods analyses) : violation.ruleId = rule.id := by
  obtain ⟨analysis, -, hviolation⟩ := List.mem_flatMap.1 h
  obtain ⟨finding, -, rfl⟩ := List.mem_map.1 hviolation
  rfl

/-! ### Selected rules -/

section Selected

variable (methods : MethodIndex) (analyses : List UnitAnalysis)

/-- What some rules report, one after the other. -/
def reportedBy (rules : List Rule) : List Violation :=
  rules.flatMap fun rule => rule.evaluate methods analyses

/-- A rule reports in one name, so all that it reports is selected or nothing is. -/
theorem filter_evaluate (p : String → Bool) (rule : Rule) :
    (rule.evaluate methods analyses).filter (fun violation => p violation.ruleId) =
      if p rule.id then rule.evaluate methods analyses else [] := by
  have hname : ∀ violation ∈ rule.evaluate methods analyses,
      p violation.ruleId = p rule.id := by
    intro violation hviolation
    rw [Rule.ruleId_of_mem_evaluate hviolation]
  rw [List.filter_congr hname]
  cases p rule.id with
  | true => exact List.filter_true _
  | false => exact List.filter_false _

theorem filter_reportedBy (p : String → Bool) (rules : List Rule) :
    (reportedBy methods analyses rules).filter (fun violation => p violation.ruleId) =
      reportedBy methods analyses (rules.filter fun rule => p rule.id) := by
  rw [reportedBy, List.filter_flatMap]
  simp only [filter_evaluate]
  induction rules with
  | nil => rfl
  | cons rule rest ih =>
    rw [List.flatMap_cons, ih, List.filter_cons]
    cases p rule.id <;> rfl

end Selected

theorem filter_toViolation (p : String → Bool) (skipped : List Skipped) :
    (skipped.map Skipped.toViolation).filter (fun violation => p violation.ruleId) =
      if p malformedInput then skipped.map Skipped.toViolation else [] := by
  rw [List.filter_map]
  show (skipped.filter fun _ => p malformedInput).map _ = _
  cases p malformedInput with
  | true => rw [List.filter_true]; rfl
  | false => rw [List.filter_false]; rfl

/-! ### The report of a model -/

namespace Audit

variable (auditor : Auditor) (model : Model)

theorem violations_ofModel :
    (ofModel auditor model).report.violations = Violation.sort
      (reportedBy (MethodIndex.ofModel model) (inNameOrder (ofModel auditor model).analyses)
          auditor.rules ++
        (ofModel auditor model).report.skipped.map Skipped.toViolation) := by
  show Violation.sort (List.flatMap Prod.snd (List.map _ _) ++ _) = _
  rw [List.flatMap_map]
  rfl

/-- Violations selected by the names of their rules are what these rules report, sorted. -/
theorem filter_violations (p : String → Bool) :
    (ofModel auditor model).report.violations.filter (fun violation => p violation.ruleId) =
      Violation.sort
        (reportedBy (MethodIndex.ofModel model) (inNameOrder (ofModel auditor model).analyses)
            (auditor.rules.filter fun rule => p rule.id) ++
          if p malformedInput then
            (ofModel auditor model).report.skipped.map Skipped.toViolation
          else []) := by
  rw [violations_ofModel, Violation.filter_sort, List.filter_append, filter_reportedBy,
    filter_toViolation]

theorem byRule_ofModel {ruleId : String} (h : ruleId ≠ malformedInput) :
    (ofModel auditor model).report.byRule ruleId = Violation.sort
      (reportedBy (MethodIndex.ofModel model) (inNameOrder (ofModel auditor model).analyses)
        (auditor.rules.filter fun rule => rule.id == ruleId)) := by
  have hfalse : (malformedInput == ruleId) = false := by simpa using h.symm
  refine (filter_violations auditor model fun name => name == ruleId).trans ?_
  simp only [hfalse, Bool.false_eq_true, if_false, List.append_nil]

/-- Listed as malformed are the skipped units, each once. -/
theorem byRule_malformedInput :
    (ofModel auditor model).report.byRule malformedInput =
      Violation.sort ((ofModel auditor model).report.skipped.map Skipped.toViolation) := by
  have hnone : (auditor.rules.filter fun rule => rule.id == malformedInput) = [] := by
    refine List.filter_eq_nil_iff.2 ?_
    intro rule _ heq
    exact rule.check.id_ne_malformedInput (eq_of_beq heq)
  refine (filter_violations auditor model fun name => name == malformedInput).trans ?_
  rw [hnone, beq_self_eq_true, if_pos rfl]
  rfl

/-- A violation is reported by a rule, about a unit without flaws, or keeps a skipped entry
visible. -/
theorem exists_of_mem_violations {violation : Violation}
    (h : violation ∈ (ofModel auditor model).report.violations) :
    (∃ rule ∈ auditor.rules, ∃ unit ∈ AuditUnit.schedule model, unit.isSound = true ∧
      ∃ finding ∈ rule.check.findings (MethodIndex.ofModel model)
          (unit.analysisOf (Survey.ofModel model auditor.settings)),
        violation = finding.toViolation rule
          (unit.analysisOf (Survey.ofModel model auditor.settings))) ∨
      ∃ skipped ∈ (ofModel auditor model).report.skipped, violation = skipped.toViolation := by
  rw [violations_ofModel, (Violation.sort_perm _).mem_iff] at h
  rcases List.mem_append.1 h with hreported | hskipped
  · left
    obtain ⟨rule, hrule, hviolation⟩ := List.mem_flatMap.1 hreported
    obtain ⟨analysis, hanalysis, hviolation⟩ := List.mem_flatMap.1 hviolation
    obtain ⟨finding, hfinding, rfl⟩ := List.mem_map.1 hviolation
    -- the order of names only rearranges the analyses
    have hvalue : analysis ∈ (ofModel auditor model).analyses.values :=
      List.mem_mergeSort.1 hanalysis
    rw [values_ofModel] at hvalue
    obtain ⟨unit, hunit, rfl⟩ := List.mem_map.1 hvalue
    obtain ⟨hunit, hsound⟩ := List.mem_filter.1 hunit
    exact ⟨rule, hrule, unit, hunit, hsound, finding, hfinding, rfl⟩
  · right
    obtain ⟨skipped, hmem, rfl⟩ := List.mem_map.1 hskipped
    exact ⟨skipped, hmem, rfl⟩

end Audit

/-! ### Verdicts about one unit -/

/-- What is listed under a rule about a unit. -/
def Report.about (report : Report) (ruleId className : String) : List Violation :=
  (report.byRule ruleId).filter fun violation => violation.className == className

/-- What a rule reports about some units is what it reports if it is given only these. -/
theorem Rule.filter_subjects_evaluate (rule : Rule) (methods : MethodIndex) (p : String → Bool)
    (analyses : List UnitAnalysis) :
    (rule.evaluate methods analyses).filter (fun violation => p violation.className) =
      rule.evaluate methods (analyses.filter fun analysis => p analysis.subject) := by
  induction analyses with
  | nil => rfl
  | cons analysis rest ih =>
    rw [evaluate, List.flatMap_cons, List.filter_append, List.filter_map]
    show (List.filter (fun _ => p analysis.subject) _).map _ ++
      (rule.evaluate methods rest).filter _ = _
    -- all that is reported about one unit is about it
    rw [ih, List.filter_cons]
    cases p analysis.subject with
    | true => rw [List.filter_true]; rfl
    | false => rw [List.filter_false]; rfl

/-- What a rule reports about a unit is what it finds in its analysis. -/
theorem Rule.filter_className_evaluate (rule : Rule) (methods : MethodIndex)
    {analyses : List UnitAnalysis} (hnodup : (analyses.map UnitAnalysis.subject).Nodup)
    {analysis : UnitAnalysis} (h : analysis ∈ analyses) :
    (rule.evaluate methods analyses).filter
        (fun violation => violation.className == analysis.subject) =
      (rule.check.findings methods analysis).map fun finding =>
        finding.toViolation rule analysis := by
  rw [rule.filter_subjects_evaluate methods fun name => name == analysis.subject,
    filter_key_eq_singleton UnitAnalysis.subject hnodup h, evaluate, List.flatMap_singleton]

namespace Audit

variable (auditor : Auditor) {model : Model}

theorem nodup_subjects_inNameOrder :
    ((inNameOrder (ofModel auditor model).analyses).map UnitAnalysis.subject).Nodup := by
  have hperm : (inNameOrder (ofModel auditor model).analyses).Perm
      (ofModel auditor model).analyses.values := List.mergeSort_perm _ _
  rw [(hperm.map _).nodup_iff, values_ofModel, List.map_map]
  have hnames : UnitAnalysis.subject ∘
      AuditUnit.analysisOf (Survey.ofModel model auditor.settings) = AuditUnit.name := by
    funext unit
    exact AuditUnit.analysisOf_subject _ unit
  rw [hnames]
  exact AuditUnit.nodup_names_sound model

/-- What is listed under a rule about a unit without flaws is what the rules of that name find
in its analysis. -/
theorem about_ofModel {unit : AuditUnit} (hunit : unit ∈ AuditUnit.schedule model)
    (hsound : unit.isSound = true) {ruleId : String} (hid : ruleId ≠ malformedInput) :
    (ofModel auditor model).report.about ruleId unit.name = Violation.sort
      ((auditor.rules.filter fun rule => rule.id == ruleId).flatMap fun rule =>
        (rule.check.findings (MethodIndex.ofModel model)
          (unit.analysisOf (Survey.ofModel model auditor.settings))).map fun finding =>
          finding.toViolation rule (unit.analysisOf (Survey.ofModel model auditor.settings))) := by
  have hmem : unit.analysisOf (Survey.ofModel model auditor.settings) ∈
      inNameOrder (ofModel auditor model).analyses := by
    rw [inNameOrder, List.mem_mergeSort, values_ofModel]
    exact List.mem_map.2 ⟨unit, List.mem_filter.2 ⟨hunit, hsound⟩, rfl⟩
  rw [Report.about, byRule_ofModel auditor model hid, Violation.filter_sort, reportedBy,
    List.filter_flatMap]
  refine congrArg Violation.sort (List.flatMap_congr ?_)
  intro rule _
  rw [← rule.filter_className_evaluate _ (nodup_subjects_inNameOrder auditor) hmem,
    AuditUnit.analysisOf_subject]

end Audit

end ObjectAudit
