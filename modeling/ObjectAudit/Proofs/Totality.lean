/-
ObjectAudit/Proofs/Totality.lean

An audit always comes to its end.  Values are checked wherever an audit builds them, and a
broken requirement would leave it without a report.  Here is shown that none is ever broken:
if the entries of a model meet their requirements, each by itself, then so does everything
that is built from them, from the graph to the sorted report (`partsWellFormed_ofModel`).

The argument follows the data.  Names come from the entries, skipped units have a reason
because they have a flaw, counters count, and the report is sorted before it is checked.  So an
audit that nobody cancels is the one made of its units in turn (`auditInOrder_eq_ofModel`).
-/
import ObjectAudit.Proofs.Completion
import ObjectAudit.Proofs.FindingShape
import ObjectAudit.Proofs.Verdicts

namespace ObjectAudit

/-! ### Units -/

namespace AuditUnit

/-- A unit whose class or template meets its requirements. -/
def Admissible : AuditUnit → Prop
  | classUnit decl _ => decl.Admissible
  | templateUnit template _ => template.Admissible

theorem admissible_of_mem_schedule {model : Model} (h : model.Admissible) {unit : AuditUnit}
    (hunit : unit ∈ schedule model) : unit.Admissible := by
  rcases exists_of_mem_schedule hunit with ⟨decl, hdecl, repeated, rfl⟩ |
    ⟨template, htemplate, repeated, rfl⟩
  · exact h.classes decl hdecl
  · exact h.templates template htemplate

variable {unit : AuditUnit}

theorem name_ne (h : unit.Admissible) : unit.name ≠ "" := by
  cases unit with
  | classUnit decl repeated => exact ClassDecl.wellFormed_iff.1 h.self
  | templateUnit template repeated => exact Template.wellFormed_iff.1 h.self

theorem wellFormed_location (h : unit.Admissible) : WellFormed unit.location := by
  cases unit with
  | classUnit decl repeated => exact h.location
  | templateUnit template repeated => exact h.location

/-- A flawed unit is skipped under its name and with a reason. -/
theorem wellFormed_toSkipped (h : unit.Admissible) (hflawed : unit.isSound = false) :
    WellFormed unit.toSkipped := by
  refine Skipped.wellFormed_iff.2 ⟨name_ne h, Malformed.reason_ne ?_⟩
  intro hnil
  rw [isSound, List.isEmpty_eq_false_iff] at hflawed
  exact hflawed hnil

theorem linesPositive_analysisOf (survey : Survey) (h : unit.Admissible) :
    (unit.analysisOf survey).LinesPositive := by
  cases unit with
  | classUnit decl repeated => exact Survey.linesPositive_classAnalysis h
  | templateUnit template repeated => exact Survey.linesPositive_templateAnalysis h

theorem analysisDefect?_analysisOf {survey : Survey}
    (hnames : ∀ name, survey.graph.hasClass name = true → name ≠ "") (h : unit.Admissible) :
    Audit.analysisDefect? (unit.analysisOf survey) = none := by
  cases unit with
  | classUnit decl repeated => exact Survey.analysisDefect?_classAnalysis hnames h
  | templateUnit template repeated => exact Survey.analysisDefect?_templateAnalysis hnames h

end AuditUnit

/-! ### The audit of a model -/

namespace Audit

/-- Every value that an audit builds meets its own requirements. -/
structure PartsWellFormed (audit : Audit) : Prop where
  edges : ∀ edge ∈ audit.survey.graph.edges, WellFormed edge
  graph : WellFormed audit.survey.graph
  chains : ∀ analysis ∈ audit.analyses.values, ∀ chain ∈ analysis.chains, WellFormed chain
  calls : ∀ analysis ∈ audit.analyses.values, ∀ call ∈ analysis.calls, WellFormed call
  clusters : ∀ analysis ∈ audit.analyses.values, ∀ cluster ∈ analysis.clusters,
    WellFormed cluster
  transactions : ∀ analysis ∈ audit.analyses.values, ∀ transaction ∈ analysis.transactions,
    WellFormed transaction
  analyses : ∀ analysis ∈ audit.analyses.values, WellFormed analysis
  skipped : ∀ skipped ∈ audit.report.skipped, WellFormed skipped
  locations : ∀ violation ∈ audit.report.violations, WellFormed violation.location
  violations : ∀ violation ∈ audit.report.violations, WellFormed violation
  stats : WellFormed audit.report.stats
  report : WellFormed audit.report

/-- An audit passes its check if its parts pass theirs and no analysis was lost. -/
theorem wellFormed_of_parts {audit : Audit}
    (hvalues : audit.outcomes.filterMap Outcome.analysis? = audit.analyses.values)
    (h : audit.PartsWellFormed) : WellFormed audit := by
  have hlocations : ∀ location ∈ audit.report.violations.map Violation.location,
      WellFormed location := by
    intro location hlocation
    obtain ⟨violation, hviolation, rfl⟩ := List.mem_map.1 hlocation
    exact h.locations violation hviolation
  have hanalyses : ∀ analysis ∈ audit.outcomes.filterMap Outcome.analysis?,
      analysisDefect? analysis = none := by
    intro analysis hanalysis
    rw [hvalues] at hanalysis
    exact analysisDefect?_eq_none_iff.2 ⟨h.chains analysis hanalysis, h.calls analysis hanalysis,
      h.clusters analysis hanalysis, h.transactions analysis hanalysis,
      h.analyses analysis hanalysis⟩
  have hor : ∀ {a b : Option Defect}, a = none → b = none → a.or b = none :=
    fun ha hb => Option.or_eq_none_iff.2 ⟨ha, hb⟩
  -- the check goes through the parts in this order
  exact hor (hor (hor (hor (hor (hor (hor
    (firstOf_eq_none_iff.2 h.edges) h.graph) (List.findSome?_eq_none_iff.2 hanalyses))
    (firstOf_eq_none_iff.2 h.skipped)) (firstOf_eq_none_iff.2 hlocations))
    (firstOf_eq_none_iff.2 h.violations)) h.stats) h.report

section

variable {auditor : Auditor} {model : Model}

theorem ne_of_hasClass (h : model.Admissible) {name : String}
    (hname : (Graph.ofModel model).hasClass name = true) : name ≠ "" := by
  obtain ⟨decl, hdecl, rfl⟩ := Graph.mem_classNames.1 (Graph.hasClass_ofModel.1 hname).2
  exact ClassDecl.wellFormed_iff.1 (h.classes decl hdecl).self

theorem wellFormed_of_mem_skipped (h : model.Admissible) {skipped : Skipped}
    (hskipped : skipped ∈ (ofModel auditor model).report.skipped) :
    WellFormed skipped ∧ WellFormed skipped.location := by
  rw [skipped_ofModel] at hskipped
  rcases List.mem_append.1 hskipped with hrejected | hflawed
  · exact h.rejected skipped hrejected
  · obtain ⟨unit, hunit, rfl⟩ := List.mem_map.1 hflawed
    obtain ⟨hmem, hflawed⟩ := List.mem_filter.1 hunit
    have hadmissible := AuditUnit.admissible_of_mem_schedule h hmem
    exact ⟨AuditUnit.wellFormed_toSkipped hadmissible (by simpa using hflawed),
      AuditUnit.wellFormed_location hadmissible⟩

theorem wellFormed_of_mem_violations (h : model.Admissible) {violation : Violation}
    (hviolation : violation ∈ (ofModel auditor model).report.violations) :
    WellFormed violation.location ∧ WellFormed violation := by
  rcases exists_of_mem_violations auditor model hviolation with
    ⟨rule, -, unit, hunit, -, finding, hfinding, rfl⟩ | ⟨skipped, hmem, rfl⟩
  · have hadmissible := AuditUnit.admissible_of_mem_schedule h hunit
    -- what the rule found has a proper line, and the unit a name and a place
    have hsound := RuleCheck.sound_of_mem_findings
      (AuditUnit.linesPositive_analysisOf _ hadmissible) hfinding
    refine ⟨Finding.wellFormed_location hsound rule ?_,
      Finding.wellFormed_toViolation hsound rule ?_⟩
    · rw [AuditUnit.analysisOf_location]
      exact AuditUnit.wellFormed_location hadmissible
    · rw [AuditUnit.analysisOf_subject]
      exact AuditUnit.name_ne hadmissible
  · obtain ⟨hself, hlocation⟩ := wellFormed_of_mem_skipped h hmem
    exact ⟨hlocation, Skipped.wellFormed_toViolation hself⟩

theorem analysisDefect?_of_mem_values (h : model.Admissible) {analysis : UnitAnalysis}
    (hanalysis : analysis ∈ (ofModel auditor model).analyses.values) :
    analysisDefect? analysis = none := by
  rw [values_ofModel] at hanalysis
  obtain ⟨unit, hunit, rfl⟩ := List.mem_map.1 hanalysis
  refine AuditUnit.analysisDefect?_analysisOf ?_
    (AuditUnit.admissible_of_mem_schedule h (List.mem_filter.1 hunit).1)
  intro name hname
  exact ne_of_hasClass h hname

/-- Nothing that is counted is negative, and only edges are unresolved. -/
theorem wellFormed_statsOf (graph : Graph) {analyses : List UnitAnalysis}
    (h : ∀ analysis ∈ analyses, WellFormed analysis) (skipped : List Skipped)
    (rules : List Rule) : WellFormed (statsOf graph analyses skipped rules) := by
  have hmethods : 0 ≤ (analyses.map UnitAnalysis.methodCount).foldr (· + ·) 0 := by
    refine List.sum_nonneg ?_
    intro count hcount
    obtain ⟨analysis, hanalysis, rfl⟩ := List.mem_map.1 hcount
    exact (UnitAnalysis.wellFormed_iff.1 (h analysis hanalysis)).2.2.1
  have hsites : 0 ≤ (analyses.map UnitAnalysis.callSiteCount).foldr (· + ·) 0 := by
    refine List.sum_nonneg ?_
    intro count hcount
    obtain ⟨analysis, hanalysis, rfl⟩ := List.mem_map.1 hcount
    exact (UnitAnalysis.wellFormed_iff.1 (h analysis hanalysis)).2.2.2
  refine Stats.wellFormed_iff.2 ⟨?_, ?_, rfl⟩
  · simp [Stats.counters, statsOf, hmethods, hsites]
  · exact Int.ofNat_le.2 (List.length_filter_le _ graph.edges)

/-- Whatever an audit builds from entries that meet their requirements meets its own. -/
theorem partsWellFormed_ofModel (auditor : Auditor) (h : model.Admissible) :
    (ofModel auditor model).PartsWellFormed := by
  have hanalyses : ∀ analysis ∈ (ofModel auditor model).analyses.values, _ :=
    fun _ hanalysis => analysisDefect?_eq_none_iff.1 (analysisDefect?_of_mem_values h hanalysis)
  refine
    { edges := fun _ => Graph.wellFormed_of_mem_edges h
      graph := Graph.wellFormed_ofModel model
      chains := fun analysis hanalysis => (hanalyses analysis hanalysis).1
      calls := fun analysis hanalysis => (hanalyses analysis hanalysis).2.1
      clusters := fun analysis hanalysis => (hanalyses analysis hanalysis).2.2.1
      transactions := fun analysis hanalysis => (hanalyses analysis hanalysis).2.2.2.1
      analyses := fun analysis hanalysis => (hanalyses analysis hanalysis).2.2.2.2
      skipped := fun _ hskipped => (wellFormed_of_mem_skipped h hskipped).1
      locations := fun _ hviolation => (wellFormed_of_mem_violations h hviolation).1
      violations := fun _ hviolation => (wellFormed_of_mem_violations h hviolation).2
      stats := wellFormed_statsOf _ (fun analysis hanalysis => ?_) _ _
      report := Report.wellFormed_iff.2 (Violation.inOrder_sort _) }
  exact (hanalyses analysis hanalysis).2.2.2.2

/-- The audit of a model whose entries meet their requirements passes its check. -/
theorem wellFormed_ofModel (auditor : Auditor) (h : model.Admissible) :
    WellFormed (ofModel auditor model) := by
  refine wellFormed_of_parts ?_ (partsWellFormed_ofModel auditor h)
  rw [values_ofModel, ← AuditUnit.filterMap_analysis?]
  rfl

/-- Every chain that is measured in a unit meets its requirements, whether it is kept or not,
and leads to a second class. -/
theorem wellFormed_of_mem_measuredChains (h : model.Admissible) {unit : AuditUnit}
    (hunit : unit ∈ AuditUnit.schedule model) {chain : AccessChain}
    (hchain : chain ∈ unit.measuredChains (Survey.ofModel model auditor.settings)) :
    WellFormed chain ∧ 1 < chain.path.length := by
  obtain ⟨hsubject, hstart, hhops⟩ := AuditUnit.of_mem_measuredChains hchain
  have hname := AuditUnit.name_ne (AuditUnit.admissible_of_mem_schedule h hunit)
  refine ⟨AccessChain.wellFormed_iff.2 ⟨?_, ne_of_hasClass h hstart⟩, ?_⟩
  · rw [hsubject]
    exact hname
  · rw [AccessChain.path, List.length_cons, List.length_map]
    exact Nat.succ_lt_succ (List.length_pos_iff.2 hhops)

end

end Audit

/-! ### Audits that nobody cancels -/

namespace Auditor

/-- An audit that nobody cancels ends with the audit made of its units in turn, whatever the
order was in which they were completed. -/
theorem auditInOrder_eq_ofModel (auditor : Auditor) {model : Model} (hmodel : model.Admissible)
    {order : List Nat} (horder : order.Perm (List.range (AuditUnit.schedule model).length)) :
    auditor.auditInOrder model .never order = .ok (Audit.ofModel auditor model) := by
  refine auditor.auditInOrder_never model ?_ (Audit.wellFormed_ofModel auditor hmodel)
  intro position hposition
  exact horder.mem_iff.2 (List.mem_range.2 hposition)

/-- An audit that nobody cancels returns.  All that it builds on the way meets its
requirements, also the chains that it drops, and no look-up that it relies on fails: each unit
has an outcome, a chain has a second class to be asked instead, and only methods of a class are
linked to each other. -/
theorem auditInOrder_returns (auditor : Auditor) {model : Model} (hmodel : model.Admissible)
    {order : List Nat} (horder : order.Perm (List.range (AuditUnit.schedule model).length)) :
    ∃ audit, auditor.auditInOrder model .never order = .ok audit ∧
      audit.PartsWellFormed ∧
      audit.outcomes.length = audit.units.length ∧
      (∀ unit ∈ audit.units,
        (unit.analysisOf audit.survey).chains =
          AccessChain.distinct (unit.measuredChains audit.survey) ∧
        ∀ chain ∈ unit.measuredChains audit.survey, WellFormed chain ∧ 1 < chain.path.length) ∧
      ∀ decl ∈ model.classes, ∀ group ∈ audit.survey.clustering.linkedGroups decl.qualifiedName
        (Clustering.firstMethods decl), ∀ name ∈ group,
          name ∈ (Clustering.firstMethods decl).map Method.name := by
  refine ⟨Audit.ofModel auditor model, auditor.auditInOrder_eq_ofModel hmodel horder,
    Audit.partsWellFormed_ofModel auditor hmodel, ?_, ?_, ?_⟩
  · exact List.length_map _
  · intro unit hunit
    refine ⟨AuditUnit.chains_analysisOf _ unit, ?_⟩
    intro chain hchain
    exact Audit.wellFormed_of_mem_measuredChains hmodel hunit hchain
  · intro decl _ group hgroup name hname
    exact Clustering.mem_names_of_mem_linkedGroups hgroup hname

theorem auditInOrder_returns_tangled :
    [4, 2, 0, 5, 1, 3].Perm (List.range (AuditUnit.schedule .tangled).length) ∧
    ∃ audit, standard.auditInOrder .tangled .never [4, 2, 0, 5, 1, 3] = .ok audit ∧
      audit.PartsWellFormed ∧ audit.outcomes.length = audit.units.length := by
  have horder : [4, 2, 0, 5, 1, 3].Perm (List.range (AuditUnit.schedule .tangled).length) := by
    decide
  obtain ⟨audit, hreturns, hparts, hlength, -⟩ :=
    auditInOrder_returns standard Model.tangled_admissible horder
  exact ⟨horder, audit, hreturns, hparts, hlength⟩

end Auditor

end ObjectAudit
