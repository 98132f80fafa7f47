/-
ObjectAudit/Proofs/Requirements.lean

What it means to break no requirement.  A list of requirements is broken nowhere exactly if
none of them is (`firstDefect_eq_none_iff`), and so each type of checked values has its own
plain reading of `WellFormed`.

A model is admissible if its parts are well formed, each by itself.  Nothing is asked of
several parts together: names may be repeated, owners and targets may be missing, and
delegations may lead nowhere.  Whether a model is admissible can be decided.
-/
import ObjectAudit.Audit
import ObjectAudit.Proofs.Sorting

namespace ObjectAudit

open Text

/-! ### Lists of requirements -/

theorem firstDefect_eq_none_iff {requirements : List (Bool × Defect)} :
    firstDefect requirements = none ↔ ∀ requirement ∈ requirements, requirement.1 = false := by
  simp [firstDefect]

@[simp] theorem nonempty_fst (what text : String) :
    (nonempty what text).1 = false ↔ text ≠ "" := by
  simp [nonempty]

@[simp] theorem atLeast_fst (what : String) (least got : Int) :
    (atLeast what least got).1 = false ↔ least ≤ got := by
  simp [atLeast]

/-! ### Values that are given -/

theorem Location.wellFormed_iff {location : Location} :
    WellFormed location ↔ 1 ≤ location.line ∧ 0 ≤ location.column := by
  simp [WellFormed, Checked.defect?, firstDefect_eq_none_iff]
  omega

theorem CallSite.wellFormed_iff {site : CallSite} :
    WellFormed site ↔
      site.root ≠ "" ∧ site.chain ≠ [] ∧ "" ∉ site.chain ∧ 1 ≤ site.line ∧
        (site.origin = .self → site.root = "self") := by
  have hchain : (∀ name ∈ site.chain, ¬name = "") ↔ "" ∉ site.chain :=
    ⟨fun h hmem => h "" hmem rfl, fun h name hmem heq => h (heq ▸ hmem)⟩
  simp [WellFormed, Checked.defect?, firstDefect_eq_none_iff, hchain]

theorem Association.wellFormed_iff {edge : Association} :
    WellFormed edge ↔
      edge.source ≠ "" ∧ edge.target ≠ "" ∧ edge.accessor ≠ "" ∧
        (edge.resolved = true → edge.note = none) := by
  simp [WellFormed, Checked.defect?, firstDefect_eq_none_iff]

theorem Method.wellFormed_iff {method : Method} :
    WellFormed method ↔ method.name ≠ "" ∧ 1 ≤ method.line := by
  simp [WellFormed, Checked.defect?, firstDefect_eq_none_iff]

theorem ClassDecl.wellFormed_iff {decl : ClassDecl} :
    WellFormed decl ↔ decl.qualifiedName ≠ "" := by
  simp [WellFormed, Checked.defect?, firstDefect_eq_none_iff]

theorem Template.wellFormed_iff {template : Template} :
    WellFormed template ↔ template.name ≠ "" := by
  simp [WellFormed, Checked.defect?, firstDefect_eq_none_iff]

theorem Skipped.wellFormed_iff {skipped : Skipped} :
    WellFormed skipped ↔ skipped.className ≠ "" ∧ skipped.reason ≠ "" := by
  simp [WellFormed, Checked.defect?, firstDefect_eq_none_iff]

/-! ### Values that an audit builds -/

theorem Graph.wellFormed_iff {graph : Graph} :
    WellFormed graph ↔
      externalNode ∈ graph.nodes ∧
      (∀ edge ∈ graph.edges, edge.source ∈ graph.nodes ∧
        (edge.resolved = true → edge.target ∈ graph.nodes)) ∧
      (∀ entry ∈ graph.outgoing.entries, ∀ edge ∈ entry.2,
        edge ∈ graph.edges ∧ edge.source = entry.1) ∧
      (∀ entry ∈ graph.byAccessor.entries,
        entry.2 ∈ graph.edges ∧ entry.2.source = entry.1.1 ∧ entry.2.accessor = entry.1.2) := by
  simp only [WellFormed, Checked.defect?, firstDefect_eq_none_iff, edgeRequirements,
    outgoingRequirements, accessorRequirements, List.cons_append, List.forall_mem_cons,
    List.forall_mem_append, List.forall_mem_flatMap, List.forall_mem_map]
  simp [and_assoc]

theorem AccessChain.wellFormed_iff {chain : AccessChain} :
    WellFormed chain ↔ chain.subject ≠ "" ∧ chain.startClass ≠ "" := by
  simp [WellFormed, Checked.defect?, firstDefect_eq_none_iff]

theorem LayeredCall.wellFormed_iff {call : LayeredCall} :
    WellFormed call ↔
      call.subject ≠ "" ∧ (call.queryOperations = [] → call.queryTarget = none) := by
  cases h : call.queryTarget <;>
    simp [WellFormed, Checked.defect?, firstDefect_eq_none_iff, h]

theorem Cluster.wellFormed_iff {cluster : Cluster} :
    WellFormed cluster ↔
      cluster.methods ≠ [] ∧
      (∀ category, cluster.category = some category → category ∈ cluster.categories) ∧
      (cluster.category = none → cluster.categories = []) := by
  cases h : cluster.category <;>
    simp [WellFormed, Checked.defect?, firstDefect_eq_none_iff, h]

theorem Transaction.wellFormed_iff {transaction : Transaction} :
    WellFormed transaction ↔
      transaction.countedClasses = textSet transaction.countedClasses := by
  simp [WellFormed, Checked.defect?, firstDefect_eq_none_iff]

theorem UnitAnalysis.wellFormed_iff {analysis : UnitAnalysis} :
    WellFormed analysis ↔
      analysis.subject ≠ "" ∧ (analysis.isTemplate = true → analysis.layer = .view) ∧
        0 ≤ analysis.methodCount ∧ 0 ≤ analysis.callSiteCount := by
  simp [WellFormed, Checked.defect?, firstDefect_eq_none_iff]

theorem Violation.wellFormed_iff {violation : Violation} :
    WellFormed violation ↔
      violation.ruleId ≠ "" ∧ violation.className ≠ "" ∧ violation.message ≠ "" ∧
        ∀ line, violation.line = some line → 1 ≤ line := by
  cases h : violation.line <;>
    simp [WellFormed, Checked.defect?, firstDefect_eq_none_iff, h]

theorem Report.wellFormed_iff {report : Report} :
    WellFormed report ↔ Violation.inOrder report.violations = true := by
  simp [WellFormed, Checked.defect?, firstDefect_eq_none_iff]

theorem Stats.wellFormed_iff {stats : Stats} :
    WellFormed stats ↔
      (∀ counter ∈ stats.counters, 0 ≤ counter.2) ∧
        stats.unresolvedEdges ≤ stats.associationEdges ∧ stats.timeMs.isNegative = false := by
  simp only [WellFormed, Checked.defect?, Option.or_eq_none_iff, firstDefect_eq_none_iff,
    List.forall_mem_map]
  simp

/-! ### Settings -/

namespace Settings

theorem Draft.thresholdFault?_eq_none_iff {draft : Draft} :
    draft.thresholdFault? = none ↔
      1 ≤ draft.minDemeterDepth ∧ 2 ≤ draft.minResponsibilityCategories ∧
      1 ≤ draft.minTransactionClasses ∧
      (∀ workers, draft.maxWorkers = some workers → 1 ≤ workers) ∧
      ∀ category, draft.callback = some category → category ∈ draft.categories.map Prod.fst := by
  simp only [thresholdFault?, Option.or_eq_none_iff, Option.bind_eq_none_iff,
    List.contains_iff_mem, ite_eq_left_iff, ite_eq_right_iff, reduceCtorEq, imp_false, Int.not_lt,
    Classical.not_not, and_assoc]

/-- Settings that pass are those that were given, and break no requirement. -/
theorem Draft.of_complete_eq_ok {draft : Draft} {settings : Settings}
    (h : draft.complete = .ok settings) :
    draft.thresholdFault? = none ∧ settings.toOptions = draft.toOptions := by
  unfold complete at h
  -- each of the three checks ends everything if it fails, so all of them passed
  cases hthreshold : draft.thresholdFault? with
  | some fault => rw [hthreshold] at h; cases h
  | none =>
    cases hgiven : readGiven draft.severities with
    | error fault => rw [hthreshold, hgiven] at h; cases h
    | ok severityOverrides =>
      cases hoperation : draft.operationFault? with
      | some fault => rw [hthreshold, hgiven, hoperation] at h; cases h
      | none =>
        rw [hthreshold, hgiven, hoperation] at h
        cases h
        exact ⟨rfl, rfl⟩

end Settings

/-! ### Parts of a model -/

/-- A method that meets its own requirements, as its call sites and its delegation do. -/
structure Method.Admissible (method : Method) : Prop where
  self : WellFormed method
  callSites : ∀ site ∈ method.callSites, WellFormed site
  delegation : ∀ delegation, method.delegatesTo = some delegation → WellFormed delegation

/-- A class that meets its own requirements, as its place, associations and methods do. -/
structure ClassDecl.Admissible (decl : ClassDecl) : Prop where
  self : WellFormed decl
  location : WellFormed decl.location
  associations : ∀ edge ∈ decl.associations, WellFormed edge
  methods : ∀ method ∈ decl.methods, method.Admissible

/-- A template that meets its own requirements, as its place and call sites do. -/
structure Template.Admissible (template : Template) : Prop where
  self : WellFormed template
  location : WellFormed template.location
  callSites : ∀ site ∈ template.callSites, WellFormed site

/-- A model whose entries meet their own requirements, each by itself. -/
structure Model.Admissible (model : Model) : Prop where
  classes : ∀ decl ∈ model.classes, decl.Admissible
  templates : ∀ template ∈ model.templates, template.Admissible
  rejected : ∀ skipped ∈ model.rejected, WellFormed skipped ∧ WellFormed skipped.location

/-! ### Deciding -/

section Deciding

instance {α : Type} [Checked α] (value : α) : Decidable (WellFormed value) :=
  decidable_of_iff ((Checked.defect? value).isNone = true) Option.isNone_iff_eq_none

instance (method : Method) : Decidable method.Admissible :=
  decidable_of_iff
    (WellFormed method ∧ (∀ site ∈ method.callSites, WellFormed site) ∧
      ∀ delegation ∈ method.delegatesTo, WellFormed delegation)
    ⟨fun ⟨self, callSites, delegation⟩ => ⟨self, callSites, delegation⟩,
      fun ⟨self, callSites, delegation⟩ => ⟨self, callSites, delegation⟩⟩

instance (decl : ClassDecl) : Decidable decl.Admissible :=
  decidable_of_iff
    (WellFormed decl ∧ WellFormed decl.location ∧ (∀ edge ∈ decl.associations, WellFormed edge) ∧
      ∀ method ∈ decl.methods, method.Admissible)
    ⟨fun ⟨self, location, associations, methods⟩ => ⟨self, location, associations, methods⟩,
      fun ⟨self, location, associations, methods⟩ => ⟨self, location, associations, methods⟩⟩

instance (template : Template) : Decidable template.Admissible :=
  decidable_of_iff
    (WellFormed template ∧ WellFormed template.location ∧
      ∀ site ∈ template.callSites, WellFormed site)
    ⟨fun ⟨self, location, callSites⟩ => ⟨self, location, callSites⟩,
      fun ⟨self, location, callSites⟩ => ⟨self, location, callSites⟩⟩

instance (model : Model) : Decidable model.Admissible :=
  decidable_of_iff
    ((∀ decl ∈ model.classes, decl.Admissible) ∧
      (∀ template ∈ model.templates, template.Admissible) ∧
      ∀ skipped ∈ model.rejected, WellFormed skipped ∧ WellFormed skipped.location)
    ⟨fun ⟨classes, templates, rejected⟩ => ⟨classes, templates, rejected⟩,
      fun ⟨classes, templates, rejected⟩ => ⟨classes, templates, rejected⟩⟩

/-- A model whose parts do not fit together: one name for two classes and a template, an
association of another class, a method without owner, a delegation that leads nowhere, and
receivers without a name for their class.  Only the last class is without flaws. -/
def Model.tangled : Model :=
  let place : Location := ⟨.ofText "app/invoice.rb", 3, 0⟩
  let site : CallSite :=
    { origin := .parameter, root := "other", chain := ["customer", "save"], line := 7
      rootClass := some "", targetClass := some "" }
  let customer : Association :=
    { source := "Order", target := "Missing", kind := .belongsTo, accessor := "customer" }
  let method : Method :=
    { name := "total", owner := none, callSites := [site, site], line := 5
      delegatesTo := some ⟨"nowhere", "price"⟩ }
  let invoice : ClassDecl :=
    { qualifiedName := "Invoice", associations := [customer, customer], methods := [method]
      layer := .model, location := place }
  let save : CallSite := { origin := .external, root := "Ledger", chain := ["save"], line := 9 }
  let order : ClassDecl :=
    { qualifiedName := "Order", associations := [customer]
      methods := [{ name := "pay", owner := some "Order", callSites := [save], isCallback := true }]
      layer := .model, location := place }
  { classes := [invoice, invoice, { invoice with associations := [], methods := [] }, order]
    templates := [⟨"Invoice", place, [site]⟩, ⟨"show", place, [site]⟩]
    rejected := [⟨"Invoice", "no name", place⟩, ⟨"Item", "no line", place⟩] }

theorem Model.tangled_admissible : tangled.Admissible := by decide

end Deciding

end ObjectAudit
