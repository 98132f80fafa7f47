/-
ObjectAudit/Proofs/OperationWalk.lean

The walk over a chain that looks for operations, name by name.

Each step is one of three.  On a single object an association leads to its target, a method of the
class itself changes nothing, and an operation is noted and leaves a whole collection of the same
class behind (`usesFrom_association`, `usesFrom_scope`, `usesFrom_operation`).  On a collection
associations and methods of single objects no longer hide an operation.

So a chain of scopes and operations of a class stays at this class, whatever its later names mean to
a single object, as long as no name up to the first operation is hidden (`ScopeChain`).  Every name
that is no scope is then an operation on the class (`operationUses_eq_scopedUses`).

Main result: `Auditor.auditInOrder_scope_chains`.  In a model such a call is no query on another
class, and in a view or a controller it is reported once, with all its operations.
-/
import ObjectAudit.Proofs.Accounting
import ObjectAudit.Proofs.Affinity
import ObjectAudit.Proofs.ChainWalk
import ObjectAudit.Proofs.RuleIndependence

namespace ObjectAudit

open Text

/-! ### Steps -/

/-- Is a name that of a method of the class itself? -/
def MethodIndex.isScope (methods : MethodIndex) (className name : String) : Bool :=
  (methods.get? className name).any Method.isClassLevel

section Steps

variable {graph : Graph} {methods : MethodIndex} {operations : List String}
variable {target : Option String} {current name : String} {isCollection : Bool} {index : Nat}

/-- An association of a single object leads to its target. -/
theorem usesFrom_association {edge : Association} (h : graph.edge? current name = some edge)
    (rest : List String) :
    usesFrom graph methods operations target ⟨some current, false⟩ index (name :: rest) =
      usesFrom graph methods operations target ⟨some edge.target, edge.kind == .ownsMany⟩
        (index + 1) rest := by
  have hrole : roleOf graph methods operations ⟨some current, false⟩ name = .association edge := by
    simp [roleOf, h]
  rw [usesFrom, hrole]
  rfl

/-- A method of the class itself leads nowhere else. -/
theorem usesFrom_scope (hedge : isCollection = false → graph.edge? current name = none)
    (hscope : methods.isScope current name = true) (rest : List String) :
    usesFrom graph methods operations target ⟨some current, isCollection⟩ index (name :: rest) =
      usesFrom graph methods operations target ⟨some current, isCollection⟩ (index + 1) rest := by
  obtain ⟨method, hmethod, hlevel⟩ := Option.any_eq_true _ _ |>.1 hscope
  have hrole : roleOf graph methods operations ⟨some current, isCollection⟩ name = .scope := by
    cases isCollection <;> simp_all [roleOf]
  rw [usesFrom, hrole]
  rfl

/-- An operation that nothing hides is noted, and behind it stands a collection. -/
theorem usesFrom_operation (hname : name ∈ operations)
    (hscope : methods.isScope current name = false)
    (hhidden : isCollection = false →
      graph.edge? current name = none ∧ methods.get? current name = none) (rest : List String) :
    usesFrom graph methods operations target ⟨some current, isCollection⟩ index (name :: rest) =
      ⟨index, name, some current⟩ ::
        usesFrom graph methods operations target ⟨some current, true⟩ (index + 1) rest := by
  have hrole : roleOf graph methods operations ⟨some current, isCollection⟩ name = .operation := by
    have hplain : plainRole operations name = .operation := by simp [plainRole, hname]
    unfold MethodIndex.isScope at hscope
    cases isCollection with
    | false => simp [roleOf, hhidden rfl, hplain]
    | true => cases hmethod : methods.get? current name <;> simp_all [roleOf]
  rw [usesFrom, hrole]
  rfl

end Steps

/-! ### Chains of scopes and operations -/

/-- A chain of scopes of a class and operations.  No name up to the first one that is no scope is
an association of the class or a method of its objects. -/
structure ScopeChain (graph : Graph) (methods : MethodIndex) (operations : List String)
    (className : String) (chain : List String) : Prop where
  covered : ∀ name ∈ chain, methods.isScope className name = true ∨ name ∈ operations
  unhidden : ∀ before name after, chain = before ++ name :: after →
    (∀ scope ∈ before, methods.isScope className scope = true) →
    graph.edge? className name = none ∧
      ∀ method, methods.get? className name = some method → method.isClassLevel = true

/-- The names that are no scopes of a class, at their positions, as operations on the class. -/
def scopedUses (methods : MethodIndex) (className : String) (index : Nat) (chain : List String) :
    List OperationUse :=
  ((chain.zipIdx index).filter fun entry => !methods.isScope className entry.1).map fun entry =>
    ⟨entry.2, entry.1, some className⟩

section ScopeChains

variable {graph : Graph} {methods : MethodIndex} {operations : List String} {className : String}

theorem scopedUses_cons (index : Nat) (name : String) (rest : List String) :
    scopedUses methods className index (name :: rest) =
      (if methods.isScope className name then [] else [⟨index, name, some className⟩]) ++
        scopedUses methods className (index + 1) rest := by
  rw [scopedUses, List.zipIdx_cons, List.filter_cons]
  cases methods.isScope className name <;> rfl

theorem map_operation_scopedUses (index : Nat) (chain : List String) :
    (scopedUses methods className index chain).map OperationUse.operation =
      chain.filter fun name => !methods.isScope className name := by
  induction chain generalizing index with
  | nil => rfl
  | cons name rest ih =>
    rw [scopedUses_cons, List.map_append, ih, List.filter_cons]
    cases methods.isScope className name <;> rfl

theorem target_of_mem_scopedUses {index : Nat} {chain : List String} {use : OperationUse}
    (h : use ∈ scopedUses methods className index chain) : use.target = some className := by
  obtain ⟨entry, -, rfl⟩ := List.mem_map.1 h
  rfl

/-- On a collection scopes and operations keep the class, whatever else they are. -/
theorem usesFrom_collection {target : Option String} {chain : List String}
    (h : ∀ name ∈ chain, methods.isScope className name = true ∨ name ∈ operations) (index : Nat) :
    usesFrom graph methods operations target ⟨some className, true⟩ index chain =
      scopedUses methods className index chain := by
  induction chain generalizing index with
  | nil => rfl
  | cons name rest ih =>
    obtain ⟨hname, hrest⟩ := List.forall_mem_cons.1 h
    rw [scopedUses_cons]
    cases hscope : methods.isScope className name with
    | true =>
      rw [usesFrom_scope (by simp) hscope, ih hrest]
      rfl
    | false =>
      have hoperation : name ∈ operations := by simpa [hscope] using hname
      rw [usesFrom_operation hoperation hscope (by simp), ih hrest]
      rfl

theorem ScopeChain.tail {name : String} {rest : List String}
    (h : ScopeChain graph methods operations className (name :: rest))
    (hscope : methods.isScope className name = true) :
    ScopeChain graph methods operations className rest where
  covered := (List.forall_mem_cons.1 h.covered).2
  unhidden before other after hsplit hbefore :=
    h.unhidden (name :: before) other after (congrArg (name :: ·) hsplit)
      (List.forall_mem_cons.2 ⟨hscope, hbefore⟩)

/-- A chain of scopes and operations stays at its class.  It is walked over scopes of a single
object up to the first operation, and from there on over a collection. -/
theorem ScopeChain.usesFrom_eq {target : Option String} {chain : List String}
    (h : ScopeChain graph methods operations className chain) (index : Nat) :
    usesFrom graph methods operations target ⟨some className, false⟩ index chain =
      scopedUses methods className index chain := by
  induction chain generalizing index with
  | nil => rfl
  | cons name rest ih =>
    -- no association and no method of the object hides the first name
    obtain ⟨hedge, hlevel⟩ := h.unhidden [] name rest rfl (by simp)
    obtain ⟨hname, hrest⟩ := List.forall_mem_cons.1 h.covered
    rw [scopedUses_cons]
    cases hscope : methods.isScope className name with
    | true =>
      rw [usesFrom_scope (fun _ => hedge) hscope, ih (h.tail hscope)]
      rfl
    | false =>
      have hoperation : name ∈ operations := by simpa [hscope] using hname
      -- a method that is no scope would be one of an object, and none of these has the name
      have hmethod : methods.get? className name = none := by
        refine Option.eq_none_iff_forall_ne_some.2 ?_
        intro method hmethod
        simp [MethodIndex.isScope, hmethod, hlevel method hmethod] at hscope
      rw [usesFrom_operation hoperation hscope (fun _ => ⟨hedge, hmethod⟩),
        usesFrom_collection hrest]
      rfl

end ScopeChains

/-- A call site whose receiver is known to be of a class, or the class itself. -/
def CallSite.RootedAt (site : CallSite) (owner : Option String) (className : String) : Prop :=
  site.origin = .self ∧ owner = some className ∨
    site.origin = .parameter ∧ site.rootClass = some className ∨
    site.origin = .external ∧ (site.rootClass = some className ∨
      site.rootClass.getD "" = "" ∧ site.root = className)

theorem CallSite.RootedAt.receiverClass_eq {site : CallSite} {owner : Option String}
    {className : String} (h : site.RootedAt owner className) (hname : className ≠ "") :
    site.receiverClass owner = some className := by
  rcases h with ⟨horigin, howner⟩ | ⟨horigin, hclass⟩ | ⟨horigin, hclass⟩
  · rw [CallSite.receiverClass, horigin, howner]
  · rw [CallSite.receiverClass, horigin, hclass]
  · have howner : site.receiverClass owner = site.receiverClass none := by
      simp only [CallSite.receiverClass, horigin]
    rw [howner, Clustering.receiverClass_external horigin]
    exact hclass.imp_left fun hclass => ⟨hclass, hname⟩

/-- The operations of a call site whose chain is one of scopes and operations of its class. -/
theorem operationUses_eq_scopedUses {graph : Graph} {methods : MethodIndex}
    {operations : List String} {className : String} (hname : className ≠ "") {site : CallSite}
    {owner : Option String} (hroot : site.RootedAt owner className)
    (hchain : ScopeChain graph methods operations className site.chain) :
    operationUses graph methods operations site owner =
      scopedUses methods className 0 site.chain := by
  rw [operationUses, hroot.receiverClass_eq hname]
  exact hchain.usesFrom_eq 0

/-! ### Queries of one call -/

/-- What a rule reports about a unit of whose calls it is given only one. -/
def Rule.onCall (rule : Rule) (methods : MethodIndex) (analysis : UnitAnalysis)
    (call : LayeredCall) : List Violation :=
  rule.evaluate methods [{ analysis with calls := [call] }]

/-- The rules on queries look at one call at a time. -/
theorem Rule.evaluate_eq_flatMap_onCall {rule : Rule}
    (h : rule.check = .queryOutsideModel ∨ rule.check = .neighborQuery) (methods : MethodIndex)
    (analysis : UnitAnalysis) :
    rule.evaluate methods [analysis] = analysis.calls.flatMap (rule.onCall methods analysis) := by
  -- the rule looks at one call after the other
  have happend : ∀ front back, rule.evaluate methods [{ analysis with calls := front ++ back }] =
      rule.evaluate methods [{ analysis with calls := front }] ++
        rule.evaluate methods [{ analysis with calls := back }] := by
    intro front back
    simp only [evaluate, List.flatMap_singleton]
    rcases h with h | h
    · simp only [h, RuleCheck.findings, List.filter_append, List.map_append]
      rfl
    · simp only [h, RuleCheck.findings, List.filterMap_append, List.map_append]
      rfl
  suffices ∀ calls, rule.evaluate methods [{ analysis with calls }] =
      calls.flatMap (rule.onCall methods analysis) from this analysis.calls
  intro calls
  induction calls with
  | nil => rcases h with h | h <;> simp [evaluate, h, RuleCheck.findings]
  | cons call rest ih =>
    rw [List.flatMap_cons, ← ih]
    exact happend [call] rest

namespace AuditUnit

/-- The class that the code of a unit belongs to, if it does. -/
def owner : AuditUnit → Option String
  | classUnit decl _ => some decl.qualifiedName
  | templateUnit _ _ => none

variable {survey : Survey} {unit : AuditUnit}

/-- Every call site of a unit has its call. -/
theorem map_callSite_calls (survey : Survey) (unit : AuditUnit) :
    (unit.analysisOf survey).calls.map LayeredCall.callSite = unit.callSites := by
  cases unit with
  | classUnit decl repeated =>
    show (decl.methods.flatMap _).map _ = decl.methods.flatMap _
    rw [List.map_flatMap]
    refine List.flatMap_congr ?_
    intro method _
    rw [List.map_map]
    exact List.map_id' _
  | templateUnit template repeated =>
    show (template.callSites.map _).map _ = template.callSites
    rw [List.map_map]
    exact List.map_id' _

/-- A call of a unit says where its call site stands. -/
theorem eq_ofSite_of_mem_calls {call : LayeredCall} (h : call ∈ (unit.analysisOf survey).calls) :
    call = .ofSite survey.graph survey.methods survey.settings.queryOperations call.callSite
      unit.name call.method call.layer unit.owner := by
  cases unit with
  | classUnit decl repeated =>
    obtain ⟨method, -, site, -, rfl⟩ := LayeredCall.exists_of_mem_ofClass h
    rfl
  | templateUnit template repeated =>
    obtain ⟨site, -, rfl⟩ := List.mem_map.1 h
    rfl

end AuditUnit

section Verdicts

variable {graph : Graph} {methods : MethodIndex} {operations : List String} {className : String}
variable (hname : className ≠ "") {site : CallSite} {owner : Option String}
variable (hroot : site.RootedAt owner className)
variable (hchain : ScopeChain graph methods operations className site.chain)

include hname hroot hchain

/-- A query that stays at its class names this class and all its operations. -/
theorem LayeredCall.ofSite_scopeChain (subject : String) (method : Option String) (layer : Layer) :
    let call := ofSite graph methods operations site subject method layer owner
    call.queryOperations = site.chain.filter (fun name => !methods.isScope className name) ∧
      call.queryTarget = if call.isQuery then some className else none := by
  intro call
  have huses := operationUses_eq_scopedUses hname hroot hchain
  have hoperations : call.queryOperations =
      site.chain.filter (fun name => !methods.isScope className name) := by
    show (operationUses graph methods operations site owner).map _ = _
    rw [huses, map_operation_scopedUses]
  refine ⟨hoperations, ?_⟩
  show (operationUses graph methods operations site owner).head?.bind _ =
    if !((operationUses graph methods operations site owner).map _).isEmpty then _ else _
  rw [huses]
  -- all uses act on the class, so the first one does
  cases hfirst : scopedUses methods className 0 site.chain with
  | nil => rfl
  | cons use rest =>
    exact target_of_mem_scopedUses (hfirst ▸ List.mem_cons_self)

/-- In its own class such a query is not one on another class. -/
theorem Rule.onCall_neighborQuery (severity : Severity) (analysis : UnitAnalysis)
    (method : Option String) (layer : Layer) :
    onCall ⟨.neighborQuery, severity⟩ methods analysis
      (.ofSite graph methods operations site className method layer owner) = [] := by
  obtain ⟨-, htarget⟩ := LayeredCall.ofSite_scopeChain hname hroot hchain className method layer
  set call := LayeredCall.ofSite graph methods operations site className method layer owner
  have hfilter : call.queryTarget.filter (· != call.subject) = none := by
    rw [htarget]
    cases call.isQuery with
    | false => rfl
    | true => exact Option.filter_eq_none_iff.2 (by simp [call, LayeredCall.ofSite])
  have hnone : RuleCheck.neighborQuery.findings methods { analysis with calls := [call] } = [] := by
    simp only [RuleCheck.findings, hfilter, Option.map_none, ite_self, List.filterMap_cons_none,
      List.filterMap_nil]
  rw [onCall, evaluate, List.flatMap_singleton, hnone]
  rfl

/-- In a view or a controller such a query is reported once, with all its operations. -/
theorem Rule.onCall_queryOutsideModel (severity : Severity) (analysis : UnitAnalysis)
    (subject : String) (method : Option String) {layer : Layer}
    (hlayer : layer = .view ∨ layer = .controller) :
    let names := site.chain.filter fun name => !methods.isScope className name
    onCall ⟨.queryOutsideModel, severity⟩ methods analysis
        (.ofSite graph methods operations site subject method layer owner) =
      if names = [] then []
      else
        [{ ruleId := "query-outside-model"
           severity
           className := analysis.subject
           message := s!"{layer.name} code builds a query ({commaList names}) " ++
             s!"in '{site.expression}'; move it into a named scope on {className}"
           location := analysis.location.atLine site.line
           method
           line := some site.line
           remedy := some .scopeRelocation }] := by
  intro names
  obtain ⟨hoperations, htarget⟩ :=
    LayeredCall.ofSite_scopeChain hname hroot hchain subject method layer
  set call := LayeredCall.ofSite graph methods operations site subject method layer owner
  have hlayers : (layer == .view || layer == .controller) = true := by
    rcases hlayer with rfl | rfl <;> rfl
  have hkept : (call.isQuery && (call.layer == .view || call.layer == .controller)) =
      !names.isEmpty := by
    rw [LayeredCall.isQuery, hoperations]
    exact (congrArg (!names.isEmpty && ·) hlayers).trans (Bool.and_true _)
  rw [onCall, evaluate, List.flatMap_singleton]
  show (([call].filter _).map _).map _ = _
  rw [List.filter_singleton, hkept]
  by_cases hnames : names = []
  · rw [hnames]
    rfl
  · have hempty : (!names.isEmpty) = true := by simpa using hnames
    have hquery : call.isQuery = true := by rw [LayeredCall.isQuery, hoperations, hempty]
    -- the target is the class, whose name is not empty, so the message names it
    have howner : call.queryTarget.filter (· != "") = some className := by
      rw [htarget, if_pos hquery]
      exact Option.filter_eq_some_iff.2 ⟨rfl, bne_iff_ne.2 hname⟩
    rw [if_neg hnames, hempty]
    show [call.outsideFinding.toViolation _ _] = _
    rw [LayeredCall.outsideFinding, hoperations, howner]
    rfl

end Verdicts

/-! ### Reports of queries -/

/-- What is listed under a rule on queries about a unit without flaws, call by call. -/
theorem Audit.about_perm_flatMap_onCall {settings : Settings} {check : RuleCheck}
    (hcheck : check = .queryOutsideModel ∨ check = .neighborQuery)
    (henabled : settings.isEnabled check.id = true) {model : Model} {unit : AuditUnit}
    (hunit : unit ∈ AuditUnit.schedule model) (hsound : unit.isSound = true) :
    ((ofModel ⟨settings, Rule.select settings⟩ model).report.about check.id unit.name).Perm
      ((unit.analysisOf (Survey.ofModel model settings)).calls.flatMap
        ((settings.ruleOf check).onCall (.ofModel model)
          (unit.analysisOf (Survey.ofModel model settings)))) := by
  have hregistry : check ∈ RuleCheck.registry settings := by
    rcases hcheck with rfl | rfl <;> simp [RuleCheck.registry]
  have hrule : (settings.ruleOf check).check = .queryOutsideModel ∨
      (settings.ruleOf check).check = .neighborQuery := hcheck
  rw [about_select hregistry rfl hunit hsound, if_pos henabled,
    Rule.evaluate_eq_flatMap_onCall hrule]
  exact Violation.sort_perm _

/-- A post that finds the published ones among all posts, and a feed that asks for the same.  Two of
the operations have the names of an association and of a method of a post. -/
def Model.blog : Model :=
  let place : Location := ⟨.ofText "app/post.rb", 1, 0⟩
  let site : CallSite :=
    { origin := .external, root := "Post", line := 7
      chain := ["published", "where", "order", "published", "limit"] }
  { classes :=
      [{ qualifiedName := "Post"
         associations :=
           [{ source := "Post", target := "Post", kind := .ownsOne, accessor := "order" }]
         methods :=
           [{ name := "published", owner := some "Post", isClassLevel := true },
            { name := "limit", owner := some "Post" },
            { name := "similar", owner := some "Post", callSites := [site] }]
         layer := .model, location := place },
       { qualifiedName := "Feed", associations := []
         methods := [{ name := "index", owner := some "Feed", callSites := [site] }]
         layer := .controller, location := place }] }

/-- The chain that both ask is one of scopes and operations of a post. -/
theorem Model.blog_scopeChain :
    ScopeChain (.ofModel blog) (.ofModel blog) Settings.standard.queryOperations "Post"
      ["published", "where", "order", "published", "limit"] where
  covered := by decide +kernel
  unhidden := by
    intro before name after hsplit hbefore
    have hfree : ∀ name ∈ ["published", "where"], blog.edge? "Post" name = none ∧
        ((MethodIndex.ofModel blog).get? "Post" name).all Method.isClassLevel = true := by
      decide +kernel
    have hname : name ∈ ["published", "where"] := by
      -- the second name is no scope, so only the first two stand behind scopes
      rcases before with _ | ⟨scope, _ | ⟨other, rest⟩⟩
      · exact (List.cons.inj hsplit).1 ▸ List.mem_cons_self
      · exact (List.cons.inj (List.cons.inj hsplit).2).1 ▸ List.mem_cons_of_mem _ List.mem_cons_self
      · obtain rfl := (List.cons.inj (List.cons.inj hsplit).2).1
        exact absurd (hbefore "where" (by simp)) (by decide +kernel)
    obtain ⟨hedge, hlevel⟩ := hfree name hname
    exact ⟨(Graph.edge?_ofModel_eq blog _ _).trans hedge, (Option.all_eq_true _ _).1 hlevel⟩

/-- Both ask it of the class itself. -/
theorem Model.blog_callSites : ∀ unit ∈ AuditUnit.schedule blog, ∀ site ∈ unit.callSites,
    (∀ owner, site.RootedAt owner "Post") ∧
      ScopeChain (.ofModel blog) (.ofModel blog) Settings.standard.queryOperations "Post"
        site.chain := by
  intro unit hunit site hsite
  have hsites : ∀ unit ∈ AuditUnit.schedule blog, ∀ site ∈ unit.callSites,
      site.origin = .external ∧ site.rootClass.getD "" = "" ∧ site.root = "Post" ∧
        site.chain = ["published", "where", "order", "published", "limit"] := by
    decide +kernel
  obtain ⟨horigin, hclass, hroot, hchain⟩ := hsites unit hunit site hsite
  exact ⟨fun _ => .inr (.inr ⟨horigin, .inr ⟨hclass, hroot⟩⟩), hchain ▸ blog_scopeChain⟩

namespace Auditor

/-- Scopes and operations of a class act on this class throughout, also where later names are those
of associations or methods of its objects: every name that is no scope is noted as an operation on
the class.  What an audit lists about a unit under the rules on queries is what they report of each
of its calls.  Of such a call of a class on itself nothing is reported as a query on another class.
In a view or a controller it is reported once with all its operations, if it has one. -/
theorem auditInOrder_scope_chains :
    (∀ {graph : Graph} {methods : MethodIndex} {operations : List String} {className : String}
      {site : CallSite} {owner : Option String}, className ≠ "" → site.RootedAt owner className →
      ScopeChain graph methods operations className site.chain →
        operationUses graph methods operations site owner =
          scopedUses methods className 0 site.chain) ∧
    ∀ {settings : Settings} {auditor : Auditor}, ofSettings settings = .ok auditor →
      ∀ {model : Model}, model.Admissible →
      ∀ {order : List Nat}, order.Perm (List.range (AuditUnit.schedule model).length) →
      ∃ audit, auditor.auditInOrder model .never order = .ok audit ∧
        ∀ unit ∈ AuditUnit.schedule model, unit.isSound = true →
          let survey := Survey.ofModel model settings
          let analysis := unit.analysisOf survey
          let reportedOf (check : RuleCheck) (call : LayeredCall) :=
            (settings.ruleOf check).onCall survey.methods analysis call
          analysis.calls.map LayeredCall.callSite = unit.callSites ∧
          (∀ check, check = .queryOutsideModel ∨ check = .neighborQuery →
            settings.isEnabled check.id = true →
            (audit.report.about check.id unit.name).Perm
              (analysis.calls.flatMap (reportedOf check))) ∧
          ∀ call ∈ analysis.calls, ∀ className, className ≠ "" →
            let site := call.callSite
            site.RootedAt unit.owner className →
            ScopeChain survey.graph survey.methods settings.queryOperations className site.chain →
            (unit.name = className → reportedOf .neighborQuery call = []) ∧
            (call.layer = .view ∨ call.layer = .controller →
              let names := site.chain.filter fun name => !survey.methods.isScope className name
              reportedOf .queryOutsideModel call =
                if names = [] then []
                else
                  [{ ruleId := "query-outside-model"
                     severity := settings.severityFor "query-outside-model" .error
                     className := unit.name
                     message := s!"{call.layer.name} code builds a query ({commaList names}) " ++
                       s!"in '{site.expression}'; move it into a named scope on {className}"
                     location := unit.location.atLine site.line
                     method := call.method
                     line := some site.line
                     remedy := some .scopeRelocation }]) := by
  refine ⟨fun hname hroot hchain => operationUses_eq_scopedUses hname hroot hchain, ?_⟩
  intro settings auditor hauditor model hmodel order horder
  obtain ⟨-, rfl⟩ := ofSettings_eq_ok_iff.1 hauditor
  refine ⟨_, auditInOrder_eq_ofModel _ hmodel horder, ?_⟩
  intro unit hunit hsound survey analysis reportedOf
  refine ⟨unit.map_callSite_calls survey, ?_, ?_⟩
  · intro check hcheck henabled
    exact Audit.about_perm_flatMap_onCall hcheck henabled hunit hsound
  · intro call hcall className hname site hroot hchain
    -- a call of the analysis is determined by its call site, method and layer
    have hofSite : call = .ofSite survey.graph survey.methods settings.queryOperations site
        unit.name call.method call.layer unit.owner :=
      AuditUnit.eq_ofSite_of_mem_calls hcall
    constructor
    · rintro rfl
      show Rule.onCall ⟨.neighborQuery, _⟩ _ analysis call = []
      rw [hofSite]
      exact Rule.onCall_neighborQuery hname hroot hchain _ analysis call.method call.layer
    · intro hlayer names
      show Rule.onCall ⟨.queryOutsideModel, _⟩ _ analysis call = _
      have honce := Rule.onCall_queryOutsideModel hname hroot hchain
        (settings.severityFor "query-outside-model" .error) analysis unit.name call.method hlayer
      rw [← hofSite, AuditUnit.analysisOf_subject, AuditUnit.analysisOf_location] at honce
      exact honce

theorem auditInOrder_scope_chains_blog :
    ∃ auditor audit, ofSettings .standard = .ok auditor ∧
      auditor.auditInOrder .blog .never [1, 0] = .ok audit ∧
      (∀ site ∈ (AuditUnit.classUnit Model.blog.classes[1] false).callSites,
        operationUses (.ofModel .blog) (.ofModel .blog) Settings.standard.queryOperations site
            (some "Feed") =
          [⟨1, "where", some "Post"⟩, ⟨2, "order", some "Post"⟩, ⟨4, "limit", some "Post"⟩]) ∧
      audit.report.about "neighbor-query" "Post" = [] ∧
      (audit.report.about "query-outside-model" "Feed").map Violation.message =
        ["controller code builds a query (where, order, limit) in " ++
          "'Post.published.where.order.published.limit'; move it into a named scope on Post"] := by
  have hauditor : ofSettings .standard = .ok ⟨.standard, Rule.select .standard⟩ :=
    ofSettings_eq_ok_iff.2 ⟨by decide, rfl⟩
  have hmodel : Model.blog.Admissible := by decide
  have horder : [1, 0].Perm (List.range (AuditUnit.schedule .blog).length) := by decide
  obtain ⟨huses, haudit⟩ := auditInOrder_scope_chains
  obtain ⟨audit, hreturns, hunits⟩ := haudit hauditor hmodel horder
  have hname : "Post" ≠ "" := by decide
  refine ⟨_, audit, hauditor, hreturns, ?_, ?_, ?_⟩
  · intro site hsite
    obtain ⟨hroot, hchain⟩ := Model.blog_callSites _ (by decide) site hsite
    rw [huses hname (hroot _) hchain, List.mem_singleton.1 hsite]
    rfl
  · have hunit : .classUnit Model.blog.classes[0] false ∈ AuditUnit.schedule .blog := by decide
    obtain ⟨hsites, hlisted, hcalls⟩ := hunits _ hunit (by decide)
    have hnone := hlisted .neighborQuery (.inr rfl) (by decide)
    rw [List.flatMap_eq_nil_iff.2 ?_] at hnone
    · exact hnone.eq_nil
    · intro call hcall
      obtain ⟨hroot, hchain⟩ := Model.blog_callSites _ hunit call.callSite
        (hsites ▸ List.mem_map.2 ⟨call, hcall, rfl⟩)
      exact (hcalls call hcall "Post" hname (hroot _) hchain).1 rfl
  · have hunit : .classUnit Model.blog.classes[1] false ∈ AuditUnit.schedule .blog := by decide
    obtain ⟨hsites, hlisted, hcalls⟩ := hunits _ hunit (by decide)
    have hone := hlisted .queryOutsideModel (.inl rfl) (by decide)
    -- there is one call site, so the report has one message
    obtain ⟨call, hcall, -⟩ := List.map_eq_singleton_iff.1 hsites
    have hmem := hcall ▸ List.mem_singleton_self call
    obtain ⟨hroot, hchain⟩ := Model.blog_callSites _ hunit call.callSite
      (hsites ▸ List.mem_map.2 ⟨call, hmem, rfl⟩)
    have honce := (hcalls call hmem "Post" hname (hroot _) hchain).2
    rw [hcall, List.flatMap_singleton] at hone
    obtain rfl := List.singleton_inj.1 hcall
    rw [honce (.inr rfl)] at hone
    exact List.perm_singleton.1 ((hone.map Violation.message).trans (by decide +kernel))

end Auditor

end ObjectAudit
