/-
ObjectAudit/Proofs/CallbackEffects.lean

Callbacks that change other classes.

Which class a call changes is said by rules over the declared classes.  A call passes names that are
no operations: associations, methods of classes and of objects, and names that mean nothing
(`Passes`).  It ends at the first operation that nothing hides (`Standing.Exposes`), and this acts
on the class where the call stands, or else on the target that is given for the call (`ActsFirst`).
The search for operations finds the same one (`actsFirst_iff`).

The changes of a class are collected in order of methods and call sites.  Of those that callbacks
make to other classes, the first one is kept for each name of a method and changed class.  Whether
a change counts is decided by that pair, so what is kept is also the first one of all with its pair
(`find?_of_mem_eraseDupsBy_filter`), and it stands at the first call site under its name that
changes the class (`changesFirst_of_mem_callbackMutations`).

Main result: `Auditor.auditInOrder_callbackSideEffects`.
-/
import ObjectAudit.Proofs.ChainWalk
import ObjectAudit.Proofs.PlainLookups
import ObjectAudit.Proofs.TransactionVerdicts

namespace ObjectAudit

open Text

/-! ### The first operation of a call -/

/-- Nothing hides a name.  On a single object of a class this is so if the name is neither an
association nor a method of the class, on a collection if it is no method of the class itself, and
where the class is lost for every name. -/
def Standing.Exposes (standing : Standing) (model : Model) (name : String) : Prop :=
  ∀ current, standing.current = some current →
    if standing.isCollection then
      ∀ method, model.method? current name = some method → method.isClassLevel = false
    else model.edge? current name = none ∧ model.method? current name = none

/-- A call passes a name that is no operation, and stands somewhere else then. -/
inductive Passes (model : Model) (operations : List String) : Standing → String → Standing → Prop
  | association {current name : String} {edge : Association} :
      model.edge? current name = some edge →
      Passes model operations ⟨some current, false⟩ name
        ⟨some edge.target, edge.kind == .ownsMany⟩
  | scope {current name : String} {isCollection : Bool} {method : Method} :
      (isCollection = false → model.edge? current name = none) →
      model.method? current name = some method → method.isClassLevel = true →
      Passes model operations ⟨some current, isCollection⟩ name ⟨some current, isCollection⟩
  | method {current name : String} {method : Method} :
      model.edge? current name = none →
      model.method? current name = some method → method.isClassLevel = false →
      Passes model operations ⟨some current, false⟩ name ⟨none, false⟩
  | unknown {standing : Standing} {name : String} :
      standing.Exposes model name → name ∉ operations →
      Passes model operations standing name ⟨none, standing.isCollection⟩

/-- The first operation that a call comes to, and the class that it acts on, as far as that is
known: the class where the call stands or, where that is lost, a given one. -/
inductive ActsFirst (model : Model) (operations : List String) (target : Option String) :
    Standing → List String → String → Option String → Prop
  | here {standing : Standing} {name : String} {rest : List String} :
      standing.Exposes model name → name ∈ operations →
      ActsFirst model operations target standing (name :: rest) name (standing.current.or target)
  | further {standing next : Standing} {name operation : String} {rest : List String}
      {acted : Option String} :
      Passes model operations standing name next →
      ActsFirst model operations target next rest operation acted →
      ActsFirst model operations target standing (name :: rest) operation acted

section Walk

variable {model : Model} {operations : List String} {target : Option String}

/-- Where nothing hides a name, only the name counts. -/
theorem Standing.Exposes.roleOf_eq {standing : Standing} {name : String}
    (h : standing.Exposes model name) :
    roleOf (.ofModel model) (.ofModel model) operations standing name =
      plainRole operations name := by
  obtain ⟨_ | current, isCollection⟩ := standing
  · rfl
  · have hcurrent := h current rfl
    simp only [roleOf, Graph.edge?_ofModel_eq, MethodIndex.get?_ofModel_eq]
    cases isCollection with
    | false =>
      obtain ⟨hedge, hmethod⟩ : _ ∧ _ := hcurrent
      simp [hedge, hmethod]
    | true =>
      cases hmethod : model.method? current name with
      | none => simp
      | some method => simp [show method.isClassLevel = false from hcurrent method hmethod]

theorem Standing.Exposes.roleOf_eq_operation {standing : Standing} {name : String}
    (h : standing.Exposes model name) (hname : name ∈ operations) :
    roleOf (.ofModel model) (.ofModel model) operations standing name = .operation := by
  rw [h.roleOf_eq]
  simp [plainRole, hname]

/-- A name that a call passes is no operation, and leads on by what it stands for. -/
theorem Passes.roleOf_spec {standing next : Standing} {name : String}
    (h : Passes model operations standing name next) :
    roleOf (.ofModel model) (.ofModel model) operations standing name ≠ .operation ∧
      next = standing.next (roleOf (.ofModel model) (.ofModel model) operations standing name) := by
  cases h with
  | association hedge => simp [roleOf, Graph.edge?_ofModel_eq, hedge, Standing.next]
  | @scope _ _ isCollection _ hedge hmethod hlevel =>
    cases isCollection <;>
      simp_all [roleOf, Graph.edge?_ofModel_eq, MethodIndex.get?_ofModel_eq, Standing.next]
  | method hedge hmethod hlevel =>
    simp [roleOf, Graph.edge?_ofModel_eq, MethodIndex.get?_ofModel_eq, hedge, hmethod, hlevel,
      Standing.next]
  | unknown hexposes hname =>
    rw [hexposes.roleOf_eq]
    simp [plainRole, hname, Standing.next]

/-- Every name is an operation that nothing hides, or is passed. -/
theorem exposes_or_passes (model : Model) (operations : List String) (standing : Standing)
    (name : String) :
    standing.Exposes model name ∧ name ∈ operations ∨
      ∃ next, Passes model operations standing name next := by
  by_cases hexposes : standing.Exposes model name
  · by_cases hname : name ∈ operations
    · exact .inl ⟨hexposes, hname⟩
    · exact .inr ⟨_, .unknown hexposes hname⟩
  · right
    -- what is not exposed has a meaning on the class, and all of these lead on
    obtain ⟨_ | current, isCollection⟩ := standing
    · exact absurd (fun _ h => by cases h) hexposes
    · cases isCollection with
      | true =>
        obtain ⟨method, hmethod, hlevel⟩ : ∃ method, model.method? current name = some method ∧
            method.isClassLevel = true := by
          by_contra hnone
          refine hexposes ?_
          rintro _ ⟨⟩ method hmethod
          simpa using fun hlevel => hnone ⟨method, hmethod, hlevel⟩
        exact ⟨_, .scope (by simp) hmethod hlevel⟩
      | false =>
        cases hedge : model.edge? current name with
        | some edge => exact ⟨_, .association hedge⟩
        | none =>
          cases hmethod : model.method? current name with
          | none =>
            refine absurd ?_ hexposes
            rintro _ ⟨⟩
            exact ⟨hedge, hmethod⟩
          | some method =>
            cases hlevel : method.isClassLevel with
            | true => exact ⟨_, .scope (fun _ => hedge) hmethod hlevel⟩
            | false => exact ⟨_, .method hedge hmethod hlevel⟩

/-- The first operation that a call comes to is the first one that is noted. -/
theorem actsFirst_iff {standing : Standing} {names : List String} {operation : String}
    {acted : Option String} (index : Nat) :
    ActsFirst model operations target standing names operation acted ↔
      ∃ use, (usesFrom (.ofModel model) (.ofModel model) operations target standing index
          names).head? = some use ∧ use.operation = operation ∧ use.target = acted := by
  induction names generalizing standing index with
  | nil =>
    constructor
    · rintro ⟨⟩
    · rintro ⟨use, hnone, -⟩
      cases hnone
  | cons name rest ih =>
    -- a name is an operation, and the search ends, or it leads on
    rcases exposes_or_passes model operations standing name with ⟨hexposes, hname⟩ | ⟨next, hpasses⟩
    · have hrole := hexposes.roleOf_eq_operation hname
      rw [usesFrom, hrole]
      constructor
      · rintro (_ | ⟨hpasses, _⟩)
        · exact ⟨_, rfl, rfl, rfl⟩
        · exact absurd hrole hpasses.roleOf_spec.1
      · rintro ⟨use, huse, rfl, rfl⟩
        obtain rfl := Option.some.inj huse
        exact .here hexposes hname
    · obtain ⟨hrole, hnext⟩ := hpasses.roleOf_spec
      -- a name that leads on is no use, so the uses are those behind it
      have huses : usesFrom (.ofModel model) (.ofModel model) operations target standing index
          (name :: rest) = usesFrom (.ofModel model) (.ofModel model) operations target next
            (index + 1) rest := by
        rw [usesFrom, hnext]
        cases hcase : roleOf (.ofModel model) (.ofModel model) operations standing name with
        | operation => exact absurd hcase hrole
        | _ => rfl
      rw [huses, ← ih (index + 1)]
      constructor
      · rintro (⟨hexposes, hname⟩ | ⟨hpasses', hfurther⟩)
        · exact absurd (hexposes.roleOf_eq_operation hname) hrole
        · rwa [hnext, ← hpasses'.roleOf_spec.2]
      · exact .further hpasses

/-- A call comes to one first operation, and acts on one class. -/
theorem ActsFirst.unique {standing : Standing} {names : List String} {operation operation' : String}
    {acted acted' : Option String}
    (h : ActsFirst model operations target standing names operation acted)
    (h' : ActsFirst model operations target standing names operation' acted') :
    operation = operation' ∧ acted = acted' := by
  obtain ⟨use, huse, rfl, rfl⟩ := (actsFirst_iff 0).1 h
  obtain ⟨use', huse', rfl, rfl⟩ := (actsFirst_iff 0).1 h'
  rw [huse] at huse'
  obtain rfl := Option.some.inj huse'
  exact ⟨rfl, rfl⟩

/-- A call site in a class changes a class: this is the one that its first operation acts on. -/
def CallSite.Changes (site : CallSite) (model : Model) (operations : List String)
    (owner operation changed : String) : Prop :=
  ActsFirst model operations site.targetClass ⟨site.receiverClass (some owner), false⟩ site.chain
    operation (some changed)

theorem mutation?_eq_some_iff {decl : ClassDecl} {method : Method} {site : CallSite}
    {mutation : Mutation} :
    mutation? (.ofModel model) (.ofModel model) operations decl method site = some mutation ↔
      site.Changes model operations decl.qualifiedName mutation.operation mutation.targetClass ∧
        mutation.subject = decl.qualifiedName ∧ mutation.method = method.name ∧
        mutation.callSite = site := by
  rw [CallSite.Changes, actsFirst_iff 0]
  obtain ⟨subject, name, operation, changed, callSite⟩ := mutation
  simp only [mutation?, firstMutation?, operationUses, Option.bind_eq_bind,
    Option.bind_eq_some_iff, Option.pure_def, Option.some.injEq, Mutation.mk.injEq]
  constructor
  · rintro ⟨use, huse, target, htarget, rfl, rfl, rfl, rfl, rfl⟩
    exact ⟨⟨use, huse, rfl, htarget⟩, rfl, rfl, rfl⟩
  · rintro ⟨⟨use, huse, rfl, htarget⟩, rfl, rfl, rfl⟩
    exact ⟨use, huse, changed, htarget, rfl, rfl, rfl, rfl, rfl⟩

end Walk

/-! ### Side effects of callbacks -/

namespace ClassDecl

variable (decl : ClassDecl) (model : Model) (operations : List String)

/-- The call sites of the methods of a name, in order of declaration. -/
def callSitesUnder (name : String) : List CallSite :=
  (decl.methods.filter fun method => method.name == name).flatMap Method.callSites

/-- A callback of the class changes another one: the first method of the name is a callback, and a
call site of a method of the name changes the other class. -/
structure SideEffect (name changed : String) : Prop where
  foreign : changed ≠ decl.qualifiedName
  callback : ∃ method, decl.method? name = some method ∧ method.isCallback = true
  occurs : ∃ method ∈ decl.methods, method.name = name ∧ ∃ site ∈ method.callSites,
    ∃ operation, site.Changes model operations decl.qualifiedName operation changed

/-- A change is the first one of its class in the methods of its name. -/
structure ChangesFirst (mutation : Mutation) : Prop where
  changes : mutation.callSite.Changes model operations decl.qualifiedName mutation.operation
    mutation.targetClass
  first : ∃ before after,
    decl.callSitesUnder mutation.method = before ++ mutation.callSite :: after ∧
      ∀ site ∈ before, ∀ operation,
        ¬ site.Changes model operations decl.qualifiedName operation mutation.targetClass

end ClassDecl

/-- The method that makes a change and the class that is changed. -/
def Mutation.pair (mutation : Mutation) : String × String := (mutation.method, mutation.targetClass)

namespace Survey

variable (survey : Survey) (decl : ClassDecl)

/-- The changes under the name of a method are those of the call sites under this name. -/
theorem filter_mutationsOf (method : Method) :
    (mutationsOf survey.graph survey.methods survey.settings.mutationOperations decl).filter
        (fun mutation => mutation.method == method.name) =
      (decl.callSitesUnder method.name).filterMap
        (mutation? survey.graph survey.methods survey.settings.mutationOperations decl method) := by
  show (decl.methods.flatMap (survey.mutationsBy decl)).filter _ = _
  rw [ClassDecl.callSitesUnder]
  induction decl.methods with
  | nil => rfl
  | cons other rest ih =>
    rw [List.flatMap_cons, List.filter_append, ih, filter_mutationsBy, List.filter_cons]
    cases hname : other.name == method.name with
    | true =>
      -- a change depends on the method by its name only
      have hsame : mutation? survey.graph survey.methods survey.settings.mutationOperations decl
          other = mutation? survey.graph survey.methods survey.settings.mutationOperations decl
            method := by
        funext site
        rw [mutation?, mutation?, eq_of_beq hname]
      rw [if_pos rfl, if_pos rfl, List.flatMap_cons, List.filterMap_append, mutationsBy, hsame]
    | false => rfl

/-- The first change of a class under the name of a method is found at the first call site that
makes one. -/
theorem find?_mutationsOf (method : Method) (changed : String) :
    (mutationsOf survey.graph survey.methods survey.settings.mutationOperations decl).find?
        (fun mutation => mutation.pair == (method.name, changed)) =
      ((decl.callSitesUnder method.name).find? fun site =>
        (mutation? survey.graph survey.methods survey.settings.mutationOperations decl method
          site).any fun mutation => mutation.targetClass == changed).bind
        (mutation? survey.graph survey.methods survey.settings.mutationOperations decl method) := by
  rw [← List.find?_filterMap, ← filter_mutationsOf, List.find?_filter]
  simp only [Bool.decide_and, Bool.decide_eq_true]
  rfl

end Survey

section Effects

variable {model : Model} (settings : Settings) {decl : ClassDecl}

/-- Is a change one of another class by a callback? -/
def ClassDecl.isSideEffect (decl : ClassDecl) (mutation : Mutation) : Bool :=
  !mutation.isOwn && (decl.method? mutation.method).any Method.isCallback

/-- The changes that are reported of the first class of its name. -/
theorem callbackMutations_eq (hdecl : model.class? decl.qualifiedName = some decl) :
    callbackMutations (.ofModel model) ((Survey.ofModel model settings).classAnalysis decl) =
      ((mutationsOf (.ofModel model) (.ofModel model) settings.mutationOperations decl).filter
        decl.isSideEffect).eraseDupsBy fun a b => a.pair == b.pair := by
  -- the class is the one that its name stands for, so the index has its methods
  have hget : ∀ name, (MethodIndex.ofModel model).get? decl.qualifiedName name =
      decl.method? name := by
    intro name
    rw [MethodIndex.get?_ofModel, hdecl]
    rfl
  have hselect : (fun mutation : Mutation => !mutation.isOwn &&
      ((MethodIndex.ofModel model).get? decl.qualifiedName mutation.method).any
        Method.isCallback) = decl.isSideEffect := by
    funext mutation
    rw [hget]
    rfl
  show List.eraseDupsBy _ (List.filter (fun mutation : Mutation => !mutation.isOwn &&
    ((MethodIndex.ofModel model).get? decl.qualifiedName mutation.method).any
      Method.isCallback) _) = _
  rw [hselect]
  rfl

variable {settings}

theorem mem_mutationsOf_iff {operations : List String} {mutation : Mutation} :
    mutation ∈ mutationsOf (.ofModel model) (.ofModel model) operations decl ↔
      mutation.subject = decl.qualifiedName ∧ ∃ method ∈ decl.methods,
        mutation.method = method.name ∧ mutation.callSite ∈ method.callSites ∧
        mutation.callSite.Changes model operations decl.qualifiedName mutation.operation
          mutation.targetClass := by
  simp only [mutationsOf, List.mem_flatMap, List.mem_filterMap, mutation?_eq_some_iff]
  constructor
  · rintro ⟨method, hmethod, site, hsite, hchanges, hsubject, hname, rfl⟩
    exact ⟨hsubject, method, hmethod, hname, hsite, hchanges⟩
  · rintro ⟨hsubject, method, hmethod, hname, hsite, hchanges⟩
    exact ⟨method, hmethod, _, hsite, hchanges, hsubject, hname, rfl⟩

theorem ClassDecl.isSideEffect_iff {mutation : Mutation}
    (hsubject : mutation.subject = decl.qualifiedName) :
    decl.isSideEffect mutation = true ↔ mutation.targetClass ≠ decl.qualifiedName ∧
      ∃ method, decl.method? mutation.method = some method ∧ method.isCallback = true := by
  rw [isSideEffect, Bool.and_eq_true, Option.any_eq_true, Mutation.isOwn, hsubject]
  simp

/-- The reported changes are of the side effects of callbacks. -/
theorem mem_map_pair_callbackMutations_iff
    (hdecl : model.class? decl.qualifiedName = some decl) {name changed : String} :
    (name, changed) ∈ (callbackMutations (.ofModel model)
        ((Survey.ofModel model settings).classAnalysis decl)).map Mutation.pair ↔
      decl.SideEffect model settings.mutationOperations name changed := by
  rw [callbackMutations_eq settings hdecl]
  constructor
  · intro h
    obtain ⟨mutation, hmutation, hpair⟩ := List.mem_map.1 h
    obtain ⟨rfl, rfl⟩ := Prod.mk.inj hpair
    obtain ⟨hmem, hselected⟩ :=
      List.mem_filter.1 ((eraseDupsBy_sublist _ _).subset hmutation)
    obtain ⟨hsubject, method, hmethod, hname, hsite, hchanges⟩ := mem_mutationsOf_iff.1 hmem
    obtain ⟨hforeign, hcallback⟩ := (ClassDecl.isSideEffect_iff hsubject).1 hselected
    exact ⟨hforeign, hcallback, method, hmethod, hname.symm, _, hsite, _, hchanges⟩
  · rintro ⟨hforeign, hcallback, method, hmethod, rfl, site, hsite, operation, hchanges⟩
    -- the change itself is listed; what is reported is the first one of its pair
    have hmem : ⟨decl.qualifiedName, method.name, operation, changed, site⟩ ∈
        mutationsOf (.ofModel model) (.ofModel model) settings.mutationOperations decl :=
      mem_mutationsOf_iff.2 ⟨rfl, method, hmethod, rfl, hsite, hchanges⟩
    have hselected : decl.isSideEffect ⟨decl.qualifiedName, method.name, operation, changed, site⟩ =
        true :=
      (ClassDecl.isSideEffect_iff rfl).2 ⟨hforeign, hcallback⟩
    obtain ⟨first, hfirst, hpair⟩ :=
      exists_mem_eraseDupsBy Mutation.pair (List.mem_filter.2 ⟨hmem, hselected⟩)
    exact List.mem_map.2 ⟨first, hfirst, hpair⟩

/-- Among changes of one class, the pair decides whether a change counts. -/
theorem ClassDecl.isSideEffect_eq_of_pair_eq {a b : Mutation} (hsubject : a.subject = b.subject)
    (hpair : a.pair = b.pair) : decl.isSideEffect a = decl.isSideEffect b := by
  obtain ⟨hmethod, htarget⟩ := Prod.mk.inj hpair
  rw [isSideEffect, isSideEffect, Mutation.isOwn, Mutation.isOwn, hsubject, hmethod, htarget]

/-- What a search by the pair finds stands at the first call site that makes such a change. -/
theorem changesFirst_of_find? {mutation : Mutation}
    (h : (mutationsOf (.ofModel model) (.ofModel model) settings.mutationOperations decl).find?
      (fun other => other.pair == mutation.pair) = some mutation) :
    decl.ChangesFirst model settings.mutationOperations mutation := by
  obtain ⟨-, method, -, hname, -⟩ := mem_mutationsOf_iff.1 (List.mem_of_find?_eq_some h)
  have hpair : mutation.pair = (method.name, mutation.targetClass) := by rw [← hname]; rfl
  rw [hpair] at h
  have hfound := ((Survey.ofModel model settings).find?_mutationsOf decl method _).symm.trans h
  obtain ⟨site, hsite, hmutation⟩ := Option.bind_eq_some_iff.1 hfound
  obtain ⟨-, before, after, hsplit, hbefore⟩ := List.find?_eq_some_iff_append.1 hsite
  obtain ⟨hchanges, -, -, rfl⟩ := mutation?_eq_some_iff.1 hmutation
  refine ⟨hchanges, before, after, hname ▸ hsplit, ?_⟩
  -- an earlier call site that changes the class would have been found instead
  intro site hsite operation hearlier
  have hsome : mutation? (.ofModel model) (.ofModel model) settings.mutationOperations decl method
      site = some ⟨decl.qualifiedName, method.name, operation, mutation.targetClass, site⟩ :=
    mutation?_eq_some_iff.2 ⟨hearlier, rfl, rfl, rfl⟩
  have hnot : (mutation? (.ofModel model) (.ofModel model) settings.mutationOperations decl method
      site).any (fun other => other.targetClass == mutation.targetClass) = false :=
    (Bool.not_eq_true' _).mp (hbefore site hsite)
  simp [hsome] at hnot

/-- Each reported change is the first one of its class in the methods of its name. -/
theorem changesFirst_of_mem_callbackMutations
    (hdecl : model.class? decl.qualifiedName = some decl) {mutation : Mutation}
    (h : mutation ∈ callbackMutations (.ofModel model)
      ((Survey.ofModel model settings).classAnalysis decl)) :
    decl.ChangesFirst model settings.mutationOperations mutation := by
  rw [callbackMutations_eq settings hdecl] at h
  refine changesFirst_of_find? (find?_of_mem_eraseDupsBy_filter Mutation.pair ?_ h)
  intro a ha b hb hpair
  have hsubject := (mem_mutationsOf_iff.1 ha).1.trans (mem_mutationsOf_iff.1 hb).1.symm
  exact ClassDecl.isSideEffect_eq_of_pair_eq hsubject hpair

end Effects

/-! ### Reports -/

/-- What is reported of a change that a callback makes. -/
def Mutation.report (mutation : Mutation) (decl : ClassDecl) (severity : Severity) : Violation :=
  { ruleId := "callback-side-effects"
    severity
    className := decl.qualifiedName
    message := s!"callback calls {mutation.operation} on {mutation.targetClass} " ++
      s!"in '{mutation.callSite.expression}'; make the side effect an explicit call"
    location := decl.location.atLine mutation.callSite.line
    method := some mutation.method
    line := some mutation.callSite.line
    remedy := some .callbackRemoval }

/-- What an audit lists of a class without flaws, change by change. -/
theorem Audit.about_callbackSideEffects {settings : Settings}
    (henabled : settings.isEnabled "callback-side-effects" = true) {model : Model}
    {decl : ClassDecl} {repeated : Bool}
    (hunit : .classUnit decl repeated ∈ AuditUnit.schedule model)
    (hsound : (AuditUnit.classUnit decl repeated).isSound = true) :
    ((ofModel ⟨settings, Rule.select settings⟩ model).report.about "callback-side-effects"
      decl.qualifiedName).Perm
      ((callbackMutations (.ofModel model)
        ((Survey.ofModel model settings).classAnalysis decl)).map fun mutation =>
          mutation.report decl (settings.severityFor "callback-side-effects" .warning)) := by
  have hcheck : .callbackSideEffects ∈ RuleCheck.registry settings := by simp [RuleCheck.registry]
  have hid : RuleCheck.callbackSideEffects.id = "callback-side-effects" := rfl
  have habout : (ofModel ⟨settings, Rule.select settings⟩ model).report.about
      "callback-side-effects" decl.qualifiedName = _ := about_select hcheck hid hunit hsound
  rw [habout, if_pos henabled]
  refine (Violation.sort_perm _).trans ?_
  rw [Rule.evaluate, List.flatMap_singleton]
  show (((callbackMutations _ _).map _).map _).Perm _
  rw [List.map_map]
  exact .refl _

/-- An order with a callback that changes a ledger twice and then the order itself, a method of the
class with the name of the callback, and a method that is no callback. -/
def Model.hooked : Model :=
  let create (root : String) (line : Int) : CallSite :=
    { origin := .external, root, line, chain := ["create"] }
  { classes :=
      [{ qualifiedName := "Order", associations := [], layer := .model
         location := ⟨.ofText "app/order.rb", 1, 0⟩
         methods :=
           [{ name := "after_save", owner := some "Order", line := 5, isCallback := true
              callSites :=
                [create "Ledger" 6,
                 { origin := .external, root := "Ledger", line := 7, chain := ["update"] },
                 { origin := .self, root := "self", line := 8, chain := ["save"] }] },
            { name := "after_save", owner := some "Order", line := 11, isClassLevel := true
              callSites := [create "Mail" 12] },
            { name := "close", owner := some "Order", line := 15
              callSites := [create "Ledger" 16] }] }] }

namespace Auditor

/-- Callbacks are reported once for each class that they change.  What is listed of a class without
flaws, if the rule is enabled, are changes with different pairs of a method and a changed class.
These pairs are the side effects of the callbacks of the class.  The change that is reported for a
pair is the first one, in order of declaration, that a method of the name makes to the class. -/
theorem auditInOrder_callbackSideEffects {settings : Settings} {auditor : Auditor}
    (hauditor : ofSettings settings = .ok auditor)
    (henabled : settings.isEnabled "callback-side-effects" = true) {model : Model}
    (hmodel : model.Admissible) {order : List Nat}
    (horder : order.Perm (List.range (AuditUnit.schedule model).length)) :
    ∃ audit, auditor.auditInOrder model .never order = .ok audit ∧
      ∀ decl repeated, .classUnit decl repeated ∈ AuditUnit.schedule model →
        (AuditUnit.classUnit decl repeated).isSound = true →
        ∃ reported : List Mutation,
          (audit.report.about "callback-side-effects" decl.qualifiedName).Perm
            (reported.map fun mutation =>
              mutation.report decl (settings.severityFor "callback-side-effects" .warning)) ∧
          (reported.map Mutation.pair).Nodup ∧
          (∀ name changed, (name, changed) ∈ reported.map Mutation.pair ↔
            decl.SideEffect model settings.mutationOperations name changed) ∧
          ∀ mutation ∈ reported, decl.ChangesFirst model settings.mutationOperations mutation := by
  obtain ⟨-, rfl⟩ := ofSettings_eq_ok_iff.1 hauditor
  refine ⟨_, auditInOrder_eq_ofModel _ hmodel horder, ?_⟩
  intro decl repeated hunit hsound
  have hdecl := AuditUnit.class?_of_isSound hunit hsound
  refine ⟨_, Audit.about_callbackSideEffects henabled hunit hsound, ?_, ?_, ?_⟩
  · rw [callbackMutations_eq settings hdecl]
    exact nodup_map_eraseDupsBy Mutation.pair _
  · intro name changed
    exact mem_map_pair_callbackMutations_iff hdecl
  · intro mutation hmutation
    exact changesFirst_of_mem_callbackMutations hdecl hmutation

theorem auditInOrder_callbackSideEffects_hooked :
    let order := Model.hooked.classes[0]
    ∃ auditor audit, ofSettings .standard = .ok auditor ∧
      Settings.standard.isEnabled "callback-side-effects" = true ∧
      auditor.auditInOrder .hooked .never [0] = .ok audit ∧
      order.SideEffect .hooked Settings.standard.mutationOperations "after_save" "Mail" ∧
      (∃ violation ∈ audit.report.about "callback-side-effects" "Order",
        violation.method = some "after_save" ∧ violation.line = some 6 ∧
        violation.message = "callback calls create on Ledger in 'Ledger.create'; " ++
          "make the side effect an explicit call") ∧
      ∀ violation ∈ audit.report.about "callback-side-effects" "Order",
        violation.method ≠ some "close" := by
  intro order
  have hauditor : ofSettings .standard = .ok ⟨.standard, Rule.select .standard⟩ :=
    ofSettings_eq_ok_iff.2 ⟨by decide, rfl⟩
  have henabled : Settings.standard.isEnabled "callback-side-effects" = true := by decide
  have hmodel : Model.hooked.Admissible := by decide
  have horder : [0].Perm (List.range (AuditUnit.schedule .hooked).length) := by decide
  obtain ⟨audit, hreturns, hclasses⟩ :=
    auditInOrder_callbackSideEffects hauditor henabled hmodel horder
  obtain ⟨reported, hperm, -, hpairs, hfirst⟩ := hclasses order false (by decide) (by decide)
  have hcreate : ∀ root ∈ ["Ledger", "Mail"], ∀ line, CallSite.Changes
      { origin := .external, root, line, chain := ["create"] } .hooked
        Settings.standard.mutationOperations "Order" "create" root := by
    intro root hroot line
    refine .here ?_ (by decide)
    rintro _ ⟨⟩
    have hfree : ∀ root ∈ ["Ledger", "Mail"], Model.hooked.edge? root "create" = none ∧
        Model.hooked.method? root "create" = none := by
      decide
    exact hfree root hroot
  have hcallback : ∃ method, order.method? "after_save" = some method ∧ method.isCallback = true :=
    ⟨_, rfl, rfl⟩
  refine ⟨_, audit, hauditor, henabled, hreturns, ?_, ?_, ?_⟩
  · exact ⟨by decide, hcallback, order.methods[1], by decide, rfl, _, List.mem_singleton_self _, _,
      hcreate "Mail" (by decide) 12⟩
  · have heffect : order.SideEffect .hooked Settings.standard.mutationOperations "after_save"
        "Ledger" :=
      ⟨by decide, hcallback, order.methods[0], by decide, rfl, _, List.mem_cons_self, _,
        hcreate "Ledger" (by decide) 6⟩
    obtain ⟨mutation, hmutation, hpair⟩ := List.mem_map.1 ((hpairs _ _).2 heffect)
    obtain ⟨subject, name, operation, changed, site⟩ := mutation
    obtain ⟨rfl, rfl⟩ := Prod.mk.inj hpair
    obtain ⟨hchanges, before, after, hsplit, hbefore⟩ := hfirst _ hmutation
    -- the first call site changes the ledger, so none stands before the reported one
    cases before with
    | cons earlier before =>
      obtain ⟨rfl, -⟩ := List.cons.inj hsplit
      exact absurd (hcreate "Ledger" (by decide) 6) (hbefore _ List.mem_cons_self _)
    | nil =>
      obtain ⟨rfl, -⟩ := List.cons.inj hsplit
      obtain ⟨rfl, -⟩ := hchanges.unique (hcreate "Ledger" (by decide) 6)
      exact ⟨_, hperm.symm.subset (List.mem_map.2 ⟨_, hmutation, rfl⟩), rfl, rfl, rfl⟩
  · intro violation hviolation hclose
    obtain ⟨mutation, hmutation, rfl⟩ := List.mem_map.1 (hperm.subset hviolation)
    obtain ⟨-, ⟨method, hmethod, hcalled⟩, -⟩ :=
      (hpairs mutation.method mutation.targetClass).1 (List.mem_map.2 ⟨_, hmutation, rfl⟩)
    rw [Option.some.inj hclose] at hmethod
    obtain rfl := Option.some.inj hmethod
    cases hcalled

end Auditor

end ObjectAudit
