/-
ObjectAudit/Proofs/StatementOrder.lean

The order of call sites does not matter to most rules.  Those about transactions, about queries
outside the model layer and on the objects of other classes, and about the responsibilities of
a class report the same for every order, and so do skipped units (`orderFreeRules`).

Transactions and responsibilities are judged by sets, so their findings are equal.  Queries are
found in the order of the calls.  That order is forgotten when the report is sorted, because
findings about queries in one unit that are tied are equal (`Finding.AboutQuery.toViolation_eq`);
tied violations of different units or rules stay in the order of these (`TiedAlike`).

The other two rules keep the first chain of each expression and the first change of each class,
and which one is the first is a matter of order.
-/
import ObjectAudit.Proofs.Rearrangement
import ObjectAudit.Proofs.Totality

namespace ObjectAudit

open List (Forall₂)

/-- The names under which nothing depends on the order of call sites. -/
def orderFreeRules : List String :=
  ["transaction-orchestration", "query-outside-model", "neighbor-query", "fat-model",
   malformedInput]

/-- Lists put together from parts that correspond to each other have tied elements in the same
order if their parts do. -/
theorem tiedAlike_flatMap {α β γ : Type} {R : α → β → Prop} {le : γ → γ → Bool}
    {f : α → List γ} {g : β → List γ}
    (hfg : ∀ a b, R a b → SortsBy.TiedAlike le (f a) (g b)) {l : List α} {l' : List β}
    (h : Forall₂ R l l') : SortsBy.TiedAlike le (l.flatMap f) (l'.flatMap g) := by
  intro c
  rw [List.filter_flatMap, List.filter_flatMap]
  exact flatMap_eq_of_forall₂ (fun a b hab => hfg a b hab c) h

/-! ### Findings about queries -/

/-- The calls of an analysis stand in methods if it is that of a class, and in none if it is
that of a template. -/
def UnitAnalysis.CallsPlaced (analysis : UnitAnalysis) : Prop :=
  ∀ call ∈ analysis.calls, call.method.isSome = !analysis.isTemplate

theorem AuditUnit.callsPlaced_analysisOf (survey : Survey) (unit : AuditUnit) :
    (unit.analysisOf survey).CallsPlaced := by
  intro call hcall
  cases unit with
  | classUnit decl repeated =>
    obtain ⟨method, -, site, -, rfl⟩ := LayeredCall.exists_of_mem_ofClass hcall
    rfl
  | templateUnit template repeated =>
    obtain ⟨site, -, rfl⟩ := List.mem_map.1 hcall
    rfl

/-- A finding about a query in a unit. -/
structure Finding.AboutQuery (analysis : UnitAnalysis) (finding : Finding) : Prop where
  method : finding.method.isSome = !analysis.isTemplate
  line : ∃ line, finding.line = some line
  remedy : finding.remedy = .scopeRelocation

/-- Findings about queries in one unit are the same if their violations are tied. -/
theorem Finding.AboutQuery.toViolation_eq {rule : Rule} {analysis : UnitAnalysis}
    {finding finding' : Finding} (h : finding.AboutQuery analysis)
    (h' : finding'.AboutQuery analysis)
    (hbefore : Violation.before (finding.toViolation rule analysis)
      (finding'.toViolation rule analysis))
    (hbefore' : Violation.before (finding'.toViolation rule analysis)
      (finding.toViolation rule analysis)) :
    finding.toViolation rule analysis = finding'.toViolation rule analysis := by
  obtain ⟨hlocation, -, -, hmethod, hmessage⟩ :=
    Violation.order_eq_eq_iff.1 (Violation.order_eq_eq_of_before hbefore hbefore')
  obtain ⟨message, method, line, remedy⟩ := finding
  obtain ⟨message', method', line', remedy'⟩ := finding'
  obtain ⟨hplaced, ⟨line, rfl⟩, rfl⟩ := h
  obtain ⟨hplaced', ⟨line', rfl⟩, rfl⟩ := h'
  obtain rfl : message = message' := hmessage
  -- the place of a violation tells the line
  obtain rfl : line = line' := congrArg Location.line hlocation
  have hmethod : method.getD "" = method'.getD "" := hmethod
  cases method with
  | none =>
    cases method' with
    | none => rfl
    | some name' => exact absurd (hplaced.trans hplaced'.symm) (by simp)
  | some name =>
    cases method' with
    | none => exact absurd (hplaced.trans hplaced'.symm) (by simp)
    | some name' =>
      obtain rfl : name = name' := hmethod
      rfl

/-! ### Findings in a unit -/

/-- A finding is reported in the same way for analyses of the same unit. -/
theorem Finding.toViolation_eq_of_rearranged {analysis analysis' : UnitAnalysis}
    (h : analysis.Rearranged analysis') (finding : Finding) (rule : Rule) :
    finding.toViolation rule analysis = finding.toViolation rule analysis' := by
  rw [toViolation, toViolation, h.subject, h.location]

/-- Queries outside the model layer are found in calls, one by one. -/
theorem findings_queryOutsideModel_eq (methods : MethodIndex) (analysis : UnitAnalysis) :
    RuleCheck.queryOutsideModel.findings methods analysis =
      analysis.calls.filterMap fun call =>
        if call.isQuery && (call.layer == .view || call.layer == .controller) then
          some call.outsideFinding
        else none := by
  rw [RuleCheck.findings, ← List.filterMap_eq_map, List.filterMap_filter]
  rfl

section Findings

variable {methods methods' : MethodIndex} {analysis analysis' : UnitAnalysis}
variable (h : analysis.Rearranged analysis')

include h

/-- What is found in calls, one by one, is reported with tied violations in the same order. -/
theorem tiedAlike_of_aboutQuery (hplaced : analysis.CallsPlaced) (rule : Rule)
    {find : LayeredCall → Option Finding}
    (hfind : ∀ call finding, find call = some finding → finding.method = call.method ∧
      (∃ line, finding.line = some line) ∧ finding.remedy = .scopeRelocation) :
    SortsBy.TiedAlike Violation.before
      ((analysis.calls.filterMap find).map fun finding => finding.toViolation rule analysis)
      ((analysis'.calls.filterMap find).map fun finding =>
        finding.toViolation rule analysis') := by
  simp only [← Finding.toViolation_eq_of_rearranged h]
  refine Violation.sortsBy_before.tiedAlike_of_perm ((h.calls.filterMap find).map _) ?_
  have habout : ∀ finding ∈ analysis.calls.filterMap find, finding.AboutQuery analysis := by
    intro finding hfinding
    obtain ⟨call, hcall, hsome⟩ := List.mem_filterMap.1 hfinding
    obtain ⟨hmethod, hline, hremedy⟩ := hfind call finding hsome
    exact ⟨hmethod ▸ hplaced call hcall, hline, hremedy⟩
  intro violation hviolation violation' hviolation'
  obtain ⟨finding, hfinding, rfl⟩ := List.mem_map.1 hviolation
  obtain ⟨finding', hfinding', rfl⟩ := List.mem_map.1 hviolation'
  exact (habout finding hfinding).toViolation_eq (habout finding' hfinding')

theorem findings_transactionOrchestration_eq (minClasses : Int) :
    (RuleCheck.transactionOrchestration minClasses).findings methods analysis =
      (RuleCheck.transactionOrchestration minClasses).findings methods' analysis' := by
  have hkept := List.rel_filter (p := fun transaction : Transaction =>
      decide (minClasses ≤ transaction.countedClasses.length))
    (q := fun transaction => decide (minClasses ≤ transaction.countedClasses.length))
    (by rintro transaction _ ⟨-⟩; exact Iff.rfl) h.transactions
  refine map_eq_of_forall₂ ?_ hkept
  rintro transaction _ ⟨-⟩
  rfl

theorem findings_fatModel_eq (minCategories : Int)
    (hincluded : ∀ className name,
      (methods.get? className name).bind Method.includedFrom =
        (methods'.get? className name).bind Method.includedFrom) :
    (RuleCheck.fatModel minCategories).findings methods analysis =
      (RuleCheck.fatModel minCategories).findings methods' analysis' := by
  simp only [RuleCheck.findings, fatModelFinding, h.isTemplate, h.clusters, h.subject,
    includedModules_eq (hincluded analysis'.subject)]

/-- Rules for which order does not matter report about a unit with tied violations in the same
order. -/
theorem Rule.tiedAlike_findings (hplaced : analysis.CallsPlaced)
    (hincluded : ∀ className name,
      (methods.get? className name).bind Method.includedFrom =
        (methods'.get? className name).bind Method.includedFrom)
    {rule : Rule} (hrule : orderFreeRules.contains rule.id = true) :
    SortsBy.TiedAlike Violation.before
      ((rule.check.findings methods analysis).map fun finding => finding.toViolation rule analysis)
      ((rule.check.findings methods' analysis').map fun finding =>
        finding.toViolation rule analysis') := by
  -- what a rule finds is reported alike in both models
  have hequal : rule.check.findings methods analysis = rule.check.findings methods' analysis' →
      SortsBy.TiedAlike Violation.before
        ((rule.check.findings methods analysis).map fun finding =>
          finding.toViolation rule analysis)
        ((rule.check.findings methods' analysis').map fun finding =>
          finding.toViolation rule analysis') := by
    intro heq violation
    simp only [heq, Finding.toViolation_eq_of_rearranged h]
  obtain ⟨check, severity⟩ := rule
  cases check with
  | lawOfDemeter minDepth =>
    -- this rule looks at the order, and is none of those
    simp [orderFreeRules, Rule.id, RuleCheck.id, malformedInput] at hrule
  | queryOutsideModel =>
    show SortsBy.TiedAlike _ (List.map _ (RuleCheck.queryOutsideModel.findings _ _))
      (List.map _ (RuleCheck.queryOutsideModel.findings _ _))
    rw [findings_queryOutsideModel_eq, findings_queryOutsideModel_eq]
    refine tiedAlike_of_aboutQuery h hplaced _ ?_
    intro call finding hfinding
    split at hfinding
    · obtain rfl := Option.some.inj hfinding
      exact ⟨rfl, ⟨_, rfl⟩, rfl⟩
    · cases hfinding
  | neighborQuery =>
    refine tiedAlike_of_aboutQuery h hplaced _ ?_
    intro call finding hfinding
    split at hfinding
    · obtain ⟨target, -, rfl⟩ := Option.map_eq_some_iff.1 hfinding
      exact ⟨rfl, ⟨_, rfl⟩, rfl⟩
    · cases hfinding
  | fatModel minCategories => exact hequal (findings_fatModel_eq h minCategories hincluded)
  | transactionOrchestration minClasses =>
    exact hequal (findings_transactionOrchestration_eq h minClasses)
  | callbackSideEffects =>
    simp [orderFreeRules, Rule.id, RuleCheck.id, malformedInput] at hrule

end Findings

/-! ### Counters -/

theorem statsOf_eq_of_forall₂ {analyses analyses' : List UnitAnalysis}
    (h : Forall₂ UnitAnalysis.Rearranged analyses analyses') (graph : Graph)
    (skipped : List Skipped) (rules : List Rule) :
    statsOf graph analyses skipped rules = statsOf graph analyses' skipped rules := by
  have hclasses : analyses.countP (fun analysis => !analysis.isTemplate) =
      analyses'.countP fun analysis => !analysis.isTemplate :=
    countP_eq_of_forall₂ (fun _ _ hanalysis => congrArg Bool.not hanalysis.isTemplate) h
  have htemplates : analyses.countP UnitAnalysis.isTemplate =
      analyses'.countP UnitAnalysis.isTemplate :=
    countP_eq_of_forall₂ (fun _ _ hanalysis => hanalysis.isTemplate) h
  have hmethods := map_eq_of_forall₂ (fun _ _ hanalysis => hanalysis.methodCount) h
  have hsites := map_eq_of_forall₂ (fun _ _ hanalysis => hanalysis.callSiteCount) h
  rw [statsOf, statsOf, hclasses, htemplates, hmethods, hsites]

/-! ### The audit of a model -/

namespace Audit

variable (auditor : Auditor) {model model' : Model} (h : model.Rearranged model')

include h

/-- Units without flaws have analyses that differ in the order of calls at most. -/
theorem forall₂_values :
    Forall₂ (fun analysis analysis' => analysis.Rearranged analysis' ∧ analysis.CallsPlaced)
      (ofModel auditor model).analyses.values (ofModel auditor model').analyses.values := by
  rw [values_ofModel, values_ofModel, Model.analysisOf_eq h.outlines]
  refine List.forall₂_map_left_iff.2 (List.forall₂_map_right_iff.2 ?_)
  have hsound : Forall₂ AuditUnit.Rearranged ((AuditUnit.schedule model).filter AuditUnit.isSound)
      ((AuditUnit.schedule model').filter AuditUnit.isSound) :=
    List.rel_filter (fun _ _ hunit => Bool.eq_iff_iff.1 hunit.isSound) h.schedule
  refine hsound.imp ?_
  intro unit unit' hunit
  exact ⟨hunit.analysisOf _, unit.callsPlaced_analysisOf _⟩

theorem forall₂_inNameOrder :
    Forall₂ (fun analysis analysis' => analysis.Rearranged analysis' ∧ analysis.CallsPlaced)
      (inNameOrder (ofModel auditor model).analyses)
      (inNameOrder (ofModel auditor model').analyses) := by
  refine forall₂_mergeSort ?_ (forall₂_values auditor h)
  rintro first first' second second' ⟨hfirst, -⟩ ⟨hsecond, -⟩
  rw [hfirst.subject, hsecond.subject]

theorem skipped_rearranged :
    (ofModel auditor model).report.skipped = (ofModel auditor model').report.skipped := by
  have hflawed : Forall₂ AuditUnit.Rearranged
      ((AuditUnit.schedule model).filter fun unit => !unit.isSound)
      ((AuditUnit.schedule model').filter fun unit => !unit.isSound) :=
    List.rel_filter (fun _ _ hunit => Bool.eq_iff_iff.1 (congrArg Bool.not hunit.isSound))
      h.schedule
  rw [skipped_ofModel, skipped_ofModel, h.rejected,
    map_eq_of_forall₂ (fun _ _ hunit => hunit.toSkipped) hflawed]

/-- What is reported in the names for which order does not matter is the same. -/
theorem filter_violations_rearranged :
    (ofModel auditor model).report.violations.filter
        (fun violation => orderFreeRules.contains violation.ruleId) =
      (ofModel auditor model').report.violations.filter
        fun violation => orderFreeRules.contains violation.ruleId := by
  rw [filter_violations auditor model orderFreeRules.contains,
    filter_violations auditor model' orderFreeRules.contains, skipped_rearranged auditor h]
  refine Violation.sortsBy_before.mergeSort_eq_of_tiedAlike (.append ?_ fun _ => rfl)
  -- rule by rule, and for each rule unit by unit
  have hrules : Forall₂ (fun rule rule' : Rule =>
        rule = rule' ∧ orderFreeRules.contains rule.id = true)
      (auditor.rules.filter fun rule => orderFreeRules.contains rule.id)
      (auditor.rules.filter fun rule => orderFreeRules.contains rule.id) :=
    List.forall₂_same.2 fun _ hrule => ⟨rfl, (List.mem_filter.1 hrule).2⟩
  refine tiedAlike_flatMap ?_ hrules
  rintro rule _ ⟨rfl, hrule⟩
  refine tiedAlike_flatMap ?_ (forall₂_inNameOrder auditor h)
  rintro analysis analysis' ⟨hanalysis, hplaced⟩
  exact Rule.tiedAlike_findings hanalysis hplaced h.includedFrom hrule

theorem stats_rearranged :
    (ofModel auditor model).report.stats = (ofModel auditor model').report.stats := by
  show statsOf (Graph.ofModel model) (ofModel auditor model).analyses.values
      (ofModel auditor model).report.skipped auditor.rules =
    statsOf (Graph.ofModel model') (ofModel auditor model').analyses.values
      (ofModel auditor model').report.skipped auditor.rules
  rw [Model.graph_eq h.outlines, skipped_rearranged auditor h]
  exact statsOf_eq_of_forall₂ ((forall₂_values auditor h).imp fun _ _ => And.left) _ _ _

end Audit

/-! ### Call sites in the opposite order -/

/-- The method with its call sites in the opposite order. -/
def Method.reverseSites (method : Method) : Method :=
  { method with callSites := method.callSites.reverse }

/-- The model with the call sites of all methods and templates in the opposite order. -/
def Model.reverseSites (model : Model) : Model :=
  { model with
    classes := model.classes.map fun decl =>
      { decl with methods := decl.methods.map Method.reverseSites }
    templates := model.templates.map fun template =>
      { template with callSites := template.callSites.reverse } }

theorem Model.rearranged_reverseSites (model : Model) : model.Rearranged model.reverseSites where
  classes := by
    refine List.forall₂_map_right_iff.2 (List.forall₂_same.2 fun decl _ => .mk ?_)
    refine List.forall₂_map_right_iff.2 (List.forall₂_same.2 fun method _ => .mk ?_)
    exact (List.reverse_perm _).symm
  templates := by
    refine List.forall₂_map_right_iff.2 (List.forall₂_same.2 fun template _ => .mk ?_)
    exact (List.reverse_perm _).symm
  rejected := rfl

/-- A controller that builds two queries on one line and saves two classes in one transaction,
and a template that builds two queries. -/
def Model.checkout : Model :=
  let place : Location := ⟨.ofText "app/cart.rb", 1, 0⟩
  let select : CallSite := { origin := .external, root := "Item", chain := ["where"], line := 4 }
  let sort : CallSite :=
    { origin := .self, root := "self", chain := ["items", "order"], line := 4 }
  let saves : List CallSite :=
    [{ origin := .external, root := "Order", chain := ["save"], line := 8 },
     { origin := .external, root := "Item", chain := ["update"], line := 9 }]
  let cart : ClassDecl :=
    { qualifiedName := "Cart"
      associations :=
        [{ source := "Cart", target := "Item", kind := .ownsMany, accessor := "items" }]
      methods :=
        [{ name := "show", owner := some "Cart", callSites := [select, sort], line := 3 },
         { name := "buy", owner := some "Cart", callSites := saves, line := 7
           wrapsTransaction := true }]
      layer := .controller, location := place }
  { classes := [cart], templates := [⟨"list", place, [select, { select with line := 2 }]⟩] }

namespace Auditor

/-- The order of statements does not matter.  If the call sites inside the methods and
templates of a model are permuted, then both audits return, count the same, and report the same
about transactions, queries outside the model layer, queries on other classes, responsibilities
and skipped units, in the same order. -/
theorem auditInOrder_rearranged (auditor : Auditor) {model model' : Model}
    (hmodel : model.Admissible) (h : model.Rearranged model') {order order' : List Nat}
    (horder : order.Perm (List.range (AuditUnit.schedule model).length))
    (horder' : order'.Perm (List.range (AuditUnit.schedule model').length)) :
    ∃ audit audit', auditor.auditInOrder model .never order = .ok audit ∧
      auditor.auditInOrder model' .never order' = .ok audit' ∧
      audit.report.violations.filter
          (fun violation => orderFreeRules.contains violation.ruleId) =
        audit'.report.violations.filter
          (fun violation => orderFreeRules.contains violation.ruleId) ∧
      audit.report.stats = audit'.report.stats := by
  refine ⟨_, _, auditor.auditInOrder_eq_ofModel hmodel horder,
    auditor.auditInOrder_eq_ofModel (h.admissible hmodel) horder', ?_, ?_⟩
  · exact Audit.filter_violations_rearranged auditor h
  · exact Audit.stats_rearranged auditor h

theorem auditInOrder_rearranged_checkout :
    Model.checkout ≠ Model.checkout.reverseSites ∧
      ∃ audit audit', standard.auditInOrder .checkout .never [0, 1] = .ok audit ∧
        standard.auditInOrder Model.checkout.reverseSites .never [1, 0] = .ok audit' ∧
        audit.report.violations.filter
            (fun violation => orderFreeRules.contains violation.ruleId) =
          audit'.report.violations.filter
            (fun violation => orderFreeRules.contains violation.ruleId) ∧
        audit.report.stats = audit'.report.stats := by
  have hmodel : Model.checkout.Admissible := by decide
  exact ⟨by decide, auditInOrder_rearranged standard hmodel Model.checkout.rearranged_reverseSites
    (by decide) (by decide)⟩

end Auditor

end ObjectAudit
