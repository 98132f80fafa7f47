/-
ObjectAudit/Proofs/RuleIndependence.lean

Rules do not influence each other.  Settings say which rules run and how grave their
violations are; nothing else in an audit looks at that part of them (`Settings.unselected`).
So the analyses and the skipped units are the same for all selections, a rule that runs finds
the same things beside any others, and its severity is only a label.

A rule's violations are sorted into those of the others.  The order does not look at
severities, and sorting keeps tied violations in their order, hence the report of fewer rules
is that of more rules with the other ones left out:

    violations of fewer rules = (violations of more rules).filter (of the fewer, or malformed).
-/
import ObjectAudit.Proofs.Totality

namespace ObjectAudit

/-! ### Selection and severities -/

/-- What settings say apart from which rules run and how grave they are. -/
def Settings.unselected (settings : Settings) : Settings :=
  { settings with enabledRules := none, disabledRules := [], severityOverrides := [] }

/-- A violation, however grave. -/
def Violation.eraseSeverity (violation : Violation) : Violation :=
  { violation with severity := .info }

/-- What was counted apart from the rules. -/
def Stats.eraseRulesRun (stats : Stats) : Stats := { stats with rulesRun := 0 }

/-- The order does not look at severities. -/
theorem Violation.map_eraseSeverity_sort (violations : List Violation) :
    (sort violations).map eraseSeverity = sort (violations.map eraseSeverity) := by
  apply List.map_mergeSort
  intro a _ b _
  rfl

/-- What a rule reports depends on its severity as a label only. -/
theorem Rule.map_eraseSeverity_evaluate (check : RuleCheck) (severity severity' : Severity)
    (methods : MethodIndex) (analyses : List UnitAnalysis) :
    (evaluate ⟨check, severity⟩ methods analyses).map Violation.eraseSeverity =
      (evaluate ⟨check, severity'⟩ methods analyses).map Violation.eraseSeverity := by
  rw [evaluate, evaluate, List.map_flatMap, List.map_flatMap]
  simp only [List.map_map]
  rfl

/-! ### Analyses -/

/-- No analysis looks at the selection of rules. -/
theorem AuditUnit.outcome_unselected (model : Model) (settings : Settings) (unit : AuditUnit) :
    unit.outcome (Survey.ofModel model settings) =
      unit.outcome (Survey.ofModel model settings.unselected) := by
  rw [outcome_eq, outcome_eq]
  cases unit <;> rfl

namespace Audit

variable {a b : Auditor}

theorem analyses_eq_of_unselected (h : a.settings.unselected = b.settings.unselected)
    (model : Model) : (ofModel a model).analyses = (ofModel b model).analyses := by
  have houtcome : AuditUnit.outcome (Survey.ofModel model a.settings) =
      AuditUnit.outcome (Survey.ofModel model b.settings) := by
    funext unit
    rw [AuditUnit.outcome_unselected model a.settings, h, ← AuditUnit.outcome_unselected]
  show analysesOf _ = analysesOf _
  rw [houtcome]

theorem skipped_eq (a b : Auditor) (model : Model) :
    (ofModel a model).report.skipped = (ofModel b model).report.skipped := by
  rw [skipped_ofModel, skipped_ofModel]

theorem eraseRulesRun_eq_of_unselected (h : a.settings.unselected = b.settings.unselected)
    (model : Model) :
    (ofModel a model).report.stats.eraseRulesRun =
      (ofModel b model).report.stats.eraseRulesRun := by
  have hanalyses := analyses_eq_of_unselected h model
  have hskipped := skipped_eq a b model
  show (statsOf (Graph.ofModel model) (ofModel a model).analyses.values
      (ofModel a model).report.skipped a.rules).eraseRulesRun =
    (statsOf (Graph.ofModel model) (ofModel b model).analyses.values
      (ofModel b model).report.skipped b.rules).eraseRulesRun
  rw [hanalyses, hskipped]
  rfl

end Audit

/-! ### Selected rules -/

namespace Rule

theorem registry_eq_of_unselected {s t : Settings} (h : s.unselected = t.unselected) :
    RuleCheck.registry s = RuleCheck.registry t := by
  show RuleCheck.registry s.unselected = RuleCheck.registry t.unselected
  rw [h]

/-- The checks of the selected rules of one name: all of the registry if it is enabled. -/
theorem filter_select {s : Settings} {ruleId : String} (h : s.isEnabled ruleId = true) :
    (select s).filter (fun rule => rule.id == ruleId) =
      ((RuleCheck.registry s).filter fun check => check.id == ruleId).map fun check =>
        ⟨check, s.severityFor check.id check.ownSeverity⟩ := by
  rw [select, List.filter_map, List.filter_filter]
  congr 1
  refine List.filter_congr ?_
  intro check _
  show (check.id == ruleId && s.isEnabled check.id) = (check.id == ruleId)
  -- among the checks of this name being enabled is no condition
  by_cases hid : check.id = ruleId
  · rw [hid, h, Bool.and_true]
  · rw [beq_false_of_ne hid, Bool.false_and]

theorem filter_select_of_disabled {s : Settings} {ruleId : String}
    (h : s.isEnabled ruleId = false) : (select s).filter (fun rule => rule.id == ruleId) = [] := by
  refine List.filter_eq_nil_iff.2 ?_
  intro rule hrule hid
  obtain ⟨check, hcheck, rfl⟩ := List.mem_map.1 hrule
  have henabled := (List.mem_filter.1 hcheck).2
  rw [show check.id = ruleId from eq_of_beq hid, h] at henabled
  cases henabled

/-- The fewer rules are those of the more that the settings of the fewer enable. -/
theorem filter_select_of_subset {s t : Settings} (hsame : s.unselected = t.unselected)
    (hsub : ∀ rule ∈ select s, rule ∈ select t) :
    (select t).filter (fun rule => s.isEnabled rule.id || rule.id == malformedInput) =
      select s := by
  -- a check that the fewer settings enable is enabled by the more, and as grave
  have hboth : ∀ check ∈ RuleCheck.registry s, s.isEnabled check.id = true →
      t.isEnabled check.id = true ∧ s.severityFor check.id check.ownSeverity =
        t.severityFor check.id check.ownSeverity := by
    intro check hcheck henabled
    have hmem := hsub ⟨check, s.severityFor check.id check.ownSeverity⟩
      (List.mem_map.2 ⟨check, List.mem_filter.2 ⟨hcheck, henabled⟩, rfl⟩)
    obtain ⟨check', hcheck', heq⟩ := List.mem_map.1 hmem
    obtain ⟨rfl, hseverity⟩ := Rule.mk.inj heq
    exact ⟨(List.mem_filter.1 hcheck').2, hseverity.symm⟩
  rw [select, select, List.filter_map, List.filter_filter, ← registry_eq_of_unselected hsame]
  -- so selecting from the more by the fewer settings selects by the fewer alone
  have hfilter : ∀ check ∈ RuleCheck.registry s,
      (((fun rule : Rule => s.isEnabled rule.id || rule.id == malformedInput) ∘
          fun check => ⟨check, t.severityFor check.id check.ownSeverity⟩) check &&
        t.isEnabled check.id) = s.isEnabled check.id := by
    intro check hcheck
    show ((s.isEnabled check.id || check.id == malformedInput) && t.isEnabled check.id) = _
    rw [beq_false_of_ne check.id_ne_malformedInput, Bool.or_false]
    cases henabled : s.isEnabled check.id with
    | false => rfl
    | true => rw [(hboth check hcheck henabled).1]; rfl
  rw [List.filter_congr hfilter]
  refine List.map_congr_left ?_
  intro check hcheck
  obtain ⟨hmem, henabled⟩ := List.mem_filter.1 hcheck
  rw [(hboth check hmem henabled).2]

end Rule

/-! ### Two selections -/

/-- Two of the rules. -/
def Settings.twoRules : Settings :=
  { enabledRules := some ["callback-side-effects", "law-of-demeter"]
    severityOverrides := [("law-of-demeter", .info)] }

/-- All rules but one, one of them graver than usual. -/
def Settings.mostRules : Settings :=
  { disabledRules := ["fat-model"]
    severityOverrides := [("neighbor-query", .error), ("law-of-demeter", .info)] }

/-- The rules that settings name. -/
def Settings.namedRules (settings : Settings) : List Text :=
  settings.enabledRules.getD [] ++ settings.disabledRules ++
    settings.severityOverrides.map Prod.fst

theorem Settings.forall_referencedRules (settings : Settings) (p : Text → Prop) :
    (∀ named ∈ settings.referencedRules, p named.2) ↔ ∀ ruleId ∈ settings.namedRules, p ruleId := by
  simp only [referencedRules, namedRules, Text.sort, List.forall_mem_append,
    List.forall_mem_map, List.mem_mergeSort]

/-- Settings have an auditor exactly if every rule that they name is known. -/
theorem Auditor.ofSettings_eq_ok_iff {settings : Settings} {auditor : Auditor} :
    ofSettings settings = .ok auditor ↔
      (∀ ruleId ∈ settings.namedRules, ruleId ∈ RuleCheck.knownIds.map Text.whole) ∧
        auditor = ⟨settings, Rule.select settings⟩ := by
  rw [← settings.forall_referencedRules (· ∈ RuleCheck.knownIds.map Text.whole)]
  simp only [ofSettings, Rule.ofSettings, Rule.checkIds]
  cases hfind : settings.referencedRules.find? fun named =>
      !(RuleCheck.knownIds.map Text.whole).contains named.2 with
  | none =>
    have hknown : ∀ named ∈ settings.referencedRules,
        named.2 ∈ RuleCheck.knownIds.map Text.whole := by
      simpa using hfind
    constructor
    · intro h
      cases h
      exact ⟨hknown, rfl⟩
    · rintro ⟨-, rfl⟩
      rfl
  -- a name that is not known is found among those referenced
  | some named =>
    constructor
    · intro h
      cases h
    · rintro ⟨hknown, -⟩
      have hunknown := List.find?_some hfind
      have hmem := List.mem_of_find?_eq_some hfind
      have hcontains := List.contains_iff_mem.2 (hknown named hmem)
      rw [hcontains] at hunknown
      cases hunknown

/-- Each rule has a name of its own. -/
theorem RuleCheck.filter_registry {settings : Settings} {check : RuleCheck}
    (h : check ∈ registry settings) :
    (registry settings).filter (fun other => other.id == check.id) = [check] := by
  have hnodup : ((registry settings).map id).Nodup := by
    show ["law-of-demeter", "query-outside-model", "neighbor-query", "fat-model",
      "transaction-orchestration", "callback-side-effects"].Nodup
    decide
  exact filter_key_eq_singleton id hnodup h

/-- A rule as settings that enable it select it. -/
def Settings.ruleOf (settings : Settings) (check : RuleCheck) : Rule :=
  ⟨check, settings.severityFor check.id check.ownSeverity⟩

namespace Audit

variable {s t : Settings}

/-- What is listed under a rule about a unit without flaws is what the rule reports about this unit
alone, if it is enabled. -/
theorem about_select {check : RuleCheck} (hcheck : check ∈ RuleCheck.registry s) {ruleId : String}
    (hid : check.id = ruleId) {model : Model} {unit : AuditUnit}
    (hunit : unit ∈ AuditUnit.schedule model) (hsound : unit.isSound = true) :
    (ofModel ⟨s, Rule.select s⟩ model).report.about ruleId unit.name =
      if s.isEnabled ruleId then
        Violation.sort ((s.ruleOf check).evaluate (.ofModel model)
          [unit.analysisOf (Survey.ofModel model s)])
      else [] := by
  subst hid
  rw [about_ofModel _ hunit hsound check.id_ne_malformedInput]
  cases henabled : s.isEnabled check.id with
  | false =>
    rw [Rule.filter_select_of_disabled henabled]
    exact List.mergeSort_nil
  | true =>
    rw [Rule.filter_select henabled, RuleCheck.filter_registry hcheck, List.map_singleton,
      List.flatMap_singleton, Rule.evaluate, List.flatMap_singleton]
    rfl

/-- What is listed under a rule that both selections run, severities aside. -/
theorem byRule_eq_of_unselected (hsame : s.unselected = t.unselected) (model : Model)
    {ruleId : String} (hs : s.isEnabled ruleId = true) (ht : t.isEnabled ruleId = true) :
    ((ofModel ⟨s, Rule.select s⟩ model).report.byRule ruleId).map Violation.eraseSeverity =
      ((ofModel ⟨t, Rule.select t⟩ model).report.byRule ruleId).map Violation.eraseSeverity := by
  by_cases hid : ruleId = malformedInput
  · rw [hid, byRule_malformedInput, byRule_malformedInput, skipped_eq]
  · rw [byRule_ofModel _ _ hid, byRule_ofModel _ _ hid, Violation.map_eraseSeverity_sort,
      Violation.map_eraseSeverity_sort, Rule.filter_select hs, Rule.filter_select ht,
      Rule.registry_eq_of_unselected hsame,
      analyses_eq_of_unselected (a := ⟨s, Rule.select s⟩) (b := ⟨t, Rule.select t⟩) hsame]
    -- the same checks are left, and only their severities differ
    rw [reportedBy, reportedBy, List.flatMap_map, List.flatMap_map, List.map_flatMap,
      List.map_flatMap]
    apply congrArg
    apply List.flatMap_congr
    intro check _
    exact Rule.map_eraseSeverity_evaluate check _ _ _ _

/-- The report of fewer rules is that of more rules with the others left out. -/
theorem violations_eq_filter (hsame : s.unselected = t.unselected) (model : Model)
    (hsub : ∀ rule ∈ Rule.select s, rule ∈ Rule.select t) :
    (ofModel ⟨s, Rule.select s⟩ model).report.violations =
      (ofModel ⟨t, Rule.select t⟩ model).report.violations.filter fun violation =>
        s.isEnabled violation.ruleId || violation.ruleId == malformedInput := by
  have hfilter := filter_violations ⟨t, Rule.select t⟩ model
    fun ruleId => s.isEnabled ruleId || ruleId == malformedInput
  rw [hfilter, Rule.filter_select_of_subset hsame hsub, beq_self_eq_true, Bool.or_true,
    if_pos rfl, violations_ofModel, skipped_eq ⟨s, Rule.select s⟩ ⟨t, Rule.select t⟩,
    analyses_eq_of_unselected (a := ⟨s, Rule.select s⟩) (b := ⟨t, Rule.select t⟩) hsame]

end Audit

namespace Auditor

/-- Two audits of a model under settings that differ only in which rules run and how grave
they are.  Both return; a rule that runs in both reports the same, severities aside, and so
is everything else the same except the number of rules.  If the rules of the one run in the
other with the same severities, its violations are those of the other that are left when all
other rules' are taken out. -/
theorem auditInOrder_rules_independent {s t : Settings} (hsame : s.unselected = t.unselected)
    {a b : Auditor} (ha : ofSettings s = .ok a) (hb : ofSettings t = .ok b) {model : Model}
    (hmodel : model.Admissible) {order order' : List Nat}
    (horder : order.Perm (List.range (AuditUnit.schedule model).length))
    (horder' : order'.Perm (List.range (AuditUnit.schedule model).length)) :
    ∃ audit audit', a.auditInOrder model .never order = .ok audit ∧
      b.auditInOrder model .never order' = .ok audit' ∧
      (∀ ruleId, s.isEnabled ruleId = true → t.isEnabled ruleId = true →
        (audit.report.byRule ruleId).map Violation.eraseSeverity =
          (audit'.report.byRule ruleId).map Violation.eraseSeverity) ∧
      audit.report.byRule malformedInput = audit'.report.byRule malformedInput ∧
      audit.report.skipped = audit'.report.skipped ∧
      audit.report.stats.eraseRulesRun = audit'.report.stats.eraseRulesRun ∧
      ((∀ rule ∈ a.rules, rule ∈ b.rules) →
        audit.report.violations = audit'.report.violations.filter fun violation =>
          s.isEnabled violation.ruleId || violation.ruleId == malformedInput) := by
  obtain ⟨-, rfl⟩ := ofSettings_eq_ok_iff.1 ha
  obtain ⟨-, rfl⟩ := ofSettings_eq_ok_iff.1 hb
  refine ⟨_, _, auditInOrder_eq_ofModel _ hmodel horder, auditInOrder_eq_ofModel _ hmodel horder',
    ?_, ?_, ?_, ?_, ?_⟩
  · intro ruleId hs ht
    exact Audit.byRule_eq_of_unselected hsame model hs ht
  · rw [Audit.byRule_malformedInput, Audit.byRule_malformedInput, Audit.skipped_eq]
  · exact Audit.skipped_eq _ _ model
  · exact Audit.eraseRulesRun_eq_of_unselected hsame model
  · intro hsub
    exact Audit.violations_eq_filter hsame model hsub

theorem auditInOrder_rules_independent_two :
    ∃ two most audit audit',
      ofSettings .twoRules = .ok two ∧ ofSettings .mostRules = .ok most ∧
      two.auditInOrder .tangled .never [0, 1, 2, 3, 4, 5] = .ok audit ∧
      most.auditInOrder .tangled .never [3, 4, 0, 5, 2, 1] = .ok audit' ∧
      (audit.report.byRule "callback-side-effects").map Violation.eraseSeverity =
        (audit'.report.byRule "callback-side-effects").map Violation.eraseSeverity ∧
      audit.report.skipped = audit'.report.skipped ∧
      audit.report.stats.eraseRulesRun = audit'.report.stats.eraseRulesRun ∧
      audit.report.violations = audit'.report.violations.filter fun violation =>
        Settings.twoRules.isEnabled violation.ruleId || violation.ruleId == malformedInput := by
  have hsame : Settings.twoRules.unselected = Settings.mostRules.unselected := rfl
  have htwo : ofSettings .twoRules = .ok ⟨.twoRules, Rule.select .twoRules⟩ :=
    ofSettings_eq_ok_iff.2 ⟨by decide, rfl⟩
  have hmost : ofSettings .mostRules = .ok ⟨.mostRules, Rule.select .mostRules⟩ :=
    ofSettings_eq_ok_iff.2 ⟨by decide, rfl⟩
  have horder : [0, 1, 2, 3, 4, 5].Perm (List.range (AuditUnit.schedule .tangled).length) := by
    decide
  have horder' : [3, 4, 0, 5, 2, 1].Perm (List.range (AuditUnit.schedule .tangled).length) := by
    decide
  obtain ⟨audit, audit', hreturns, hreturns', hrule, -, hskipped, hstats, hfilter⟩ :=
    auditInOrder_rules_independent hsame htwo hmost Model.tangled_admissible horder horder'
  exact ⟨_, _, audit, audit', htwo, hmost, hreturns, hreturns',
    hrule "callback-side-effects" (by decide) (by decide), hskipped, hstats, hfilter (by decide)⟩

end Auditor

end ObjectAudit
