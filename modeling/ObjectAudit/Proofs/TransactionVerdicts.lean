/-
ObjectAudit/Proofs/TransactionVerdicts.lean

Transactions that change several classes.

A call site changes the class that its first mutating operation acts on, if that is known.  The
class that it stands in counts only if the settings say so (`Survey.changedClasses`).

The changes of a class are collected together and found again by the names of their methods.  So
methods of the same name are judged together, transactional or not (`Survey.changedUnder`), and
reported once, at the first of them that is transactional (`Survey.orchestrations`).

Main result: `Auditor.auditInOrder_transactions`.  A transactional method is judged by its own call
sites if no other method has its name.  Otherwise it need not be: `Auditor.auditInOrder_namesakes`
has a method that is reported for a change of another one.
-/
import Mathlib.Data.Finset.Card
import ObjectAudit.Proofs.RuleIndependence

namespace ObjectAudit

open Text

/-! ### Changed classes -/

namespace Survey

variable (survey : Survey) (decl : ClassDecl)

/-- The classes that the call sites of a method change, as far as they count. -/
def changedClasses (method : Method) : List String :=
  method.callSites.filterMap fun site =>
    ((firstMutation? survey.graph survey.methods survey.settings.mutationOperations decl
      site).bind OperationUse.target).filter fun target =>
        survey.settings.transactionCountsOwnClass || target != decl.qualifiedName

/-- The classes that the methods of a name change together. -/
def changedUnder (name : String) : List String :=
  (decl.methods.filter fun method => method.name == name).flatMap (survey.changedClasses decl)

/-- The changes that the call sites of a method make. -/
def mutationsBy (method : Method) : List Mutation :=
  method.callSites.filterMap
    (mutation? survey.graph survey.methods survey.settings.mutationOperations decl method)

/-- They are all found under the name of the method. -/
theorem filter_mutationsBy (method : Method) (name : String) :
    (survey.mutationsBy decl method).filter (fun mutation => mutation.method == name) =
      if method.name == name then survey.mutationsBy decl method else [] := by
  -- a change is listed under the name of the method that makes it
  have hmethod : ∀ mutation ∈ survey.mutationsBy decl method, mutation.method = method.name := by
    intro mutation hmutation
    obtain ⟨site, -, hsome⟩ := List.mem_filterMap.1 hmutation
    exact (mutation?_eq_some hsome).1
  cases hname : method.name == name with
  | true =>
    apply List.filter_eq_self.2
    intro mutation hmutation
    rw [hmethod mutation hmutation, hname]
  | false =>
    apply List.filter_eq_nil_iff.2
    intro mutation hmutation
    rw [hmethod mutation hmutation, hname]
    exact Bool.false_ne_true

/-- Apart from changes of the own class that do not count, they change the classes that count. -/
theorem map_targetClass_mutationsBy (method : Method) :
    ((survey.mutationsBy decl method).filter fun mutation =>
      survey.settings.transactionCountsOwnClass || !mutation.isOwn).map Mutation.targetClass =
      survey.changedClasses decl method := by
  rw [mutationsBy, List.filter_filterMap, List.map_filterMap, changedClasses]
  apply List.filterMap_congr
  intro site _
  rw [mutation?]
  -- a call site makes no change, or one without a known target, or one of a class
  rcases firstMutation? survey.graph survey.methods survey.settings.mutationOperations decl site
    with _ | ⟨index, operation, _ | target⟩
  · rfl
  · rfl
  · show ((Option.some _).filter _).map _ = (Option.some target).filter _
    rw [Option.filter_some, Option.filter_some]
    show (if survey.settings.transactionCountsOwnClass || target != decl.qualifiedName then _
      else _ : Option Mutation).map _ = _
    split <;> rfl

/-- What counts under a name in all that a class changes. -/
theorem map_targetClass_mutationsOf (name : String) :
    (((mutationsOf survey.graph survey.methods survey.settings.mutationOperations decl).filter
      fun mutation => mutation.method == name).filter fun mutation =>
        survey.settings.transactionCountsOwnClass || !mutation.isOwn).map Mutation.targetClass =
      survey.changedUnder decl name := by
  show (((decl.methods.flatMap (survey.mutationsBy decl)).filter _).filter _).map _ = _
  rw [changedUnder]
  induction decl.methods with
  | nil => rfl
  | cons method rest ih =>
    rw [List.flatMap_cons, List.filter_append, List.filter_append, List.map_append, ih,
      filter_mutationsBy, List.filter_cons]
    cases method.name == name with
    | true =>
      rw [if_pos rfl, if_pos rfl, map_targetClass_mutationsBy]
      rfl
    | false => rfl

end Survey

/-- A set of texts has as many elements as there are different texts. -/
theorem Text.length_textSet (ss : List String) : (textSet ss).length = ss.toFinset.card := by
  have hset : ss.toFinset = ss.eraseDups.toFinset := by
    ext s
    simp
  rw [hset, List.toFinset_card_of_nodup (nodup_eraseDups ss)]
  exact List.length_mergeSort _

/-! ### Verdicts -/

namespace Survey

variable (survey : Survey) (decl : ClassDecl)

/-- A transaction counts the classes that the methods of its name change. -/
theorem length_countedClasses (method : Method) :
    (transactionOf survey.settings.transactionCountsOwnClass
      (mutationsOf survey.graph survey.methods survey.settings.mutationOperations decl) decl
      method).countedClasses.length = (survey.changedUnder decl method.name).toFinset.card := by
  rw [← map_targetClass_mutationsOf, ← Text.length_textSet]
  rfl

/-- The transactional methods that are reported: the first one of each name under which enough
classes are changed. -/
def orchestrations : List Method :=
  ((decl.methods.filter Method.wrapsTransaction).eraseDupsBy fun a b => a.name == b.name).filter
    fun method => survey.settings.minTransactionClasses ≤
      (survey.changedUnder decl method.name).toFinset.card

variable {decl}

/-- Of the transactional methods of a name the first one is reported, if any. -/
theorem exists_filter_orchestrations {method : Method} (hmethod : method ∈ decl.methods)
    (hwraps : method.wrapsTransaction = true) :
    ∃ first, (decl.methods.filter Method.wrapsTransaction).find?
        (fun other => other.name == method.name) = some first ∧
      (survey.orchestrations decl).filter (fun other => other.name == method.name) =
        if survey.settings.minTransactionClasses ≤
          (survey.changedUnder decl method.name).toFinset.card then [first] else [] := by
  have hnodup := nodup_map_eraseDupsBy Method.name (decl.methods.filter Method.wrapsTransaction)
  obtain ⟨first, hfirst, hname⟩ :=
    exists_mem_eraseDupsBy Method.name (List.mem_filter.2 ⟨hmethod, hwraps⟩)
  refine ⟨first, ?_, ?_⟩
  · rw [← find?_eraseDupsBy Method.name]
    exact (find?_eq_some_iff_mem Method.name hnodup).2 ⟨hfirst, hname⟩
  · rw [orchestrations, List.filter_comm, ← hname,
      filter_key_eq_singleton Method.name hnodup hfirst, List.filter_singleton]
    exact Bool.cond_decide _ _ _

/-- Methods that all are the same one change what it changes. -/
theorem toFinset_changedUnder {method : Method} (hmethod : method ∈ decl.methods)
    (halone : ∀ other ∈ decl.methods, other.name = method.name → other = method) :
    (survey.changedUnder decl method.name).toFinset =
      (survey.changedClasses decl method).toFinset := by
  ext target
  simp only [List.mem_toFinset, changedUnder, List.mem_flatMap, List.mem_filter, beq_iff_eq]
  constructor
  · rintro ⟨other, ⟨hother, hname⟩, htarget⟩
    exact halone other hother hname ▸ htarget
  · intro htarget
    exact ⟨method, ⟨hmethod, rfl⟩, htarget⟩

end Survey

/-- The method and the line of a violation. -/
def Violation.place (violation : Violation) : Option String × Option Int :=
  (violation.method, violation.line)

/-- Where a method is reported. -/
def Method.place (method : Method) : Option String × Option Int :=
  (some method.name, some method.line)

/-- The rule reports these methods at their lines. -/
theorem Rule.map_place_evaluate (survey : Survey) (decl : ClassDecl) (severity : Severity)
    (methods : MethodIndex) :
    ((evaluate ⟨.transactionOrchestration survey.settings.minTransactionClasses, severity⟩ methods
      [survey.classAnalysis decl]).map Violation.place) =
      (survey.orchestrations decl).map Method.place := by
  rw [evaluate, List.flatMap_singleton]
  show ((((transactionsOf _ _ decl).filter _).map _).map _).map _ = _
  rw [transactionsOf, List.filter_map, List.map_map, List.map_map, List.map_map,
    Survey.orchestrations]
  -- what a transaction counts are the classes that are changed under its name
  have hcounts : ((fun transaction : Transaction => decide
        (survey.settings.minTransactionClasses ≤ transaction.countedClasses.length)) ∘
      transactionOf survey.settings.transactionCountsOwnClass (mutationsOf survey.graph
        survey.methods survey.settings.mutationOperations decl) decl) =
      fun method => decide (survey.settings.minTransactionClasses ≤
        (survey.changedUnder decl method.name).toFinset.card) := by
    funext method
    rw [Function.comp_apply, survey.length_countedClasses]
  rw [hcounts]
  rfl

/-- Where an audit reports transactions of a class without flaws. -/
theorem Audit.map_place_about_perm (settings : Settings) {model : Model} {decl : ClassDecl}
    {repeated : Bool} (hunit : .classUnit decl repeated ∈ AuditUnit.schedule model)
    (hsound : (AuditUnit.classUnit decl repeated).isSound = true) :
    (((ofModel ⟨settings, Rule.select settings⟩ model).report.about "transaction-orchestration"
      decl.qualifiedName).map Violation.place).Perm
      (if settings.isEnabled "transaction-orchestration" then
        ((Survey.ofModel model settings).orchestrations decl).map Method.place
      else []) := by
  have hcheck : .transactionOrchestration settings.minTransactionClasses ∈
      RuleCheck.registry settings := by simp [RuleCheck.registry]
  have hid : (RuleCheck.transactionOrchestration settings.minTransactionClasses).id =
      "transaction-orchestration" := rfl
  have habout : (ofModel ⟨settings, Rule.select settings⟩ model).report.about
      "transaction-orchestration" decl.qualifiedName = _ := about_select hcheck hid hunit hsound
  rw [habout]
  split
  · rw [← Rule.map_place_evaluate _ decl]
    exact (Violation.sort_perm _).map _
  · exact .refl _

/-- Methods of the same name are reported together, at the first transactional one. -/
theorem Audit.exists_filter_places (settings : Settings) {model : Model} {decl : ClassDecl}
    {repeated : Bool} (hunit : .classUnit decl repeated ∈ AuditUnit.schedule model)
    (hsound : (AuditUnit.classUnit decl repeated).isSound = true) {method : Method}
    (hmethod : method ∈ decl.methods) (hwraps : method.wrapsTransaction = true) :
    ∃ first, (decl.methods.filter Method.wrapsTransaction).find?
        (fun other => other.name == method.name) = some first ∧
      (((ofModel ⟨settings, Rule.select settings⟩ model).report.about "transaction-orchestration"
        decl.qualifiedName).map Violation.place).filter
          (fun place => place.1 == some method.name) =
        if settings.isEnabled "transaction-orchestration" = true ∧
            settings.minTransactionClasses ≤
              ((Survey.ofModel model settings).changedUnder decl method.name).toFinset.card
        then [first.place] else [] := by
  obtain ⟨first, hfirst, hfilter⟩ :=
    (Survey.ofModel model settings).exists_filter_orchestrations hmethod hwraps
  refine ⟨first, hfirst, ?_⟩
  -- the report is sorted, but of one name it has at most one place
  have hperm := (map_place_about_perm settings hunit hsound).filter
    fun place => place.1 == some method.name
  cases henabled : settings.isEnabled "transaction-orchestration" with
  | false =>
    rw [henabled] at hperm
    rw [if_neg (by simp)]
    exact hperm.eq_nil
  | true =>
    have hplaces : (((Survey.ofModel model settings).orchestrations decl).map Method.place).filter
        (fun place => place.1 == some method.name) = _ := List.filter_map
    have hnamesakes := congrArg (List.map Method.place) hfilter
    rw [henabled, if_pos rfl, hplaces.trans hnamesakes] at hperm
    by_cases hmin : (Survey.ofModel model settings).settings.minTransactionClasses ≤
        ((Survey.ofModel model settings).changedUnder decl method.name).toFinset.card
    · rw [if_pos hmin] at hperm
      rw [if_pos ⟨rfl, hmin⟩]
      exact List.perm_singleton.1 hperm
    · rw [if_neg hmin] at hperm
      rw [if_neg fun h => hmin h.2]
      exact hperm.eq_nil

/-- An order with two methods of the same name.  The one of the class itself is transactional and
creates a payment, and the other one creates an invoice.  A payment has a transactional method with
a name of its own. -/
def Model.namesakes : Model :=
  let create (root : String) (line : Int) : CallSite :=
    { origin := .external, root, line, chain := ["create"] }
  let entry (name : String) (methods : List Method) : ClassDecl :=
    { qualifiedName := name, associations := [], methods, layer := .model
      location := ⟨.ofText "app/order.rb", 1, 0⟩ }
  { classes :=
      [entry "Order"
         [{ name := "sync", owner := some "Order", line := 10, isClassLevel := true
            wrapsTransaction := true, callSites := [create "Payment" 11] },
          { name := "sync", owner := some "Order", line := 20
            callSites := [create "Invoice" 21] }],
       entry "Payment"
         [{ name := "settle", owner := some "Payment", line := 5, wrapsTransaction := true
            callSites := [create "Invoice" 6, create "Payment" 7, create "Order" 8] }],
       entry "Invoice" []] }

namespace Auditor

/-- Transactional methods are judged by their names.  What is reported of a class without flaws is
reported of transactional methods, at their lines.  Of those with the same name it is the first one,
and it is reported if all methods of this name, transactional or not, change enough classes
together.  So a method with a name of its own is reported if its own call sites do. -/
theorem auditInOrder_transactions {settings : Settings} {auditor : Auditor}
    (hauditor : ofSettings settings = .ok auditor) {model : Model} (hmodel : model.Admissible)
    {order : List Nat} (horder : order.Perm (List.range (AuditUnit.schedule model).length)) :
    ∃ audit, auditor.auditInOrder model .never order = .ok audit ∧
      ∀ decl repeated, .classUnit decl repeated ∈ AuditUnit.schedule model →
        (AuditUnit.classUnit decl repeated).isSound = true →
        let survey := Survey.ofModel model settings
        let reported := (audit.report.about "transaction-orchestration" decl.qualifiedName).map
          Violation.place
        let isEnough (classes : List String) :=
          settings.isEnabled "transaction-orchestration" = true ∧
            settings.minTransactionClasses ≤ classes.toFinset.card
        (∀ place ∈ reported, ∃ method ∈ decl.methods, method.wrapsTransaction = true ∧
          place = method.place) ∧
        ∀ method ∈ decl.methods, method.wrapsTransaction = true →
          (∃ first, (decl.methods.filter Method.wrapsTransaction).find?
              (fun other => other.name == method.name) = some first ∧
            (isEnough (survey.changedUnder decl method.name) →
              reported.filter (fun place => place.1 == some method.name) = [first.place]) ∧
            (¬ isEnough (survey.changedUnder decl method.name) →
              reported.filter (fun place => place.1 == some method.name) = [])) ∧
          ((∀ other ∈ decl.methods, other.name = method.name → other = method) →
            (method.place ∈ reported ↔ isEnough (survey.changedClasses decl method))) := by
  obtain ⟨-, rfl⟩ := ofSettings_eq_ok_iff.1 hauditor
  refine ⟨_, auditInOrder_eq_ofModel _ hmodel horder, ?_⟩
  intro decl repeated hunit hsound survey reported isEnough
  constructor
  · intro place hplace
    have hmem := (Audit.map_place_about_perm settings hunit hsound).subset hplace
    split at hmem
    · obtain ⟨method, hmethod, rfl⟩ := List.mem_map.1 hmem
      have hfirst := (eraseDupsBy_sublist _ _).subset (List.mem_filter.1 hmethod).1
      obtain ⟨hdeclared, hwraps⟩ := List.mem_filter.1 hfirst
      exact ⟨method, hdeclared, hwraps, rfl⟩
    · cases hmem
  · intro method hmethod hwraps
    obtain ⟨first, hfirst, hfilter⟩ :=
      Audit.exists_filter_places settings hunit hsound hmethod hwraps
    refine ⟨⟨first, hfirst, ?_, ?_⟩, ?_⟩
    · intro henough
      exact hfilter.trans (if_pos henough)
    · intro hfew
      exact hfilter.trans (if_neg hfew)
    · intro halone
      -- with a name of its own, the method is the first of that name
      have hname := List.find?_some hfirst
      obtain ⟨hdeclared, -⟩ := List.mem_filter.1 (List.mem_of_find?_eq_some hfirst)
      obtain rfl := halone first hdeclared (eq_of_beq hname)
      have hmem : first.place ∈ reported ↔
          first.place ∈ reported.filter (fun place => place.1 == some first.name) := by
        simp [Method.place]
      rw [hmem, hfilter, survey.toFinset_changedUnder hmethod halone]
      split
      · next henough => exact iff_of_true (List.mem_singleton_self _) henough
      · next hfew => exact iff_of_false List.not_mem_nil hfew

theorem auditInOrder_transactions_namesakes :
    ∃ auditor audit, ofSettings .standard = .ok auditor ∧
      auditor.auditInOrder .namesakes .never [2, 0, 1] = .ok audit ∧
      ((audit.report.about "transaction-orchestration" "Order").map Violation.place).filter
        (fun place => place.1 == some "sync") = [(some "sync", some 10)] ∧
      (some "settle", some 5) ∈
        (audit.report.about "transaction-orchestration" "Payment").map Violation.place := by
  have hauditor : ofSettings .standard = .ok ⟨.standard, Rule.select .standard⟩ :=
    ofSettings_eq_ok_iff.2 ⟨by decide, rfl⟩
  have hmodel : Model.namesakes.Admissible := by decide
  have horder : [2, 0, 1].Perm (List.range (AuditUnit.schedule .namesakes).length) := by decide
  obtain ⟨audit, hreturns, hclasses⟩ := auditInOrder_transactions hauditor hmodel horder
  refine ⟨_, audit, hauditor, hreturns, ?_, ?_⟩
  · obtain ⟨-, hmethods⟩ := hclasses Model.namesakes.classes[0] false (by decide) (by decide)
    obtain ⟨⟨first, hfirst, henough, -⟩, -⟩ :=
      hmethods Model.namesakes.classes[0].methods[0] (by decide) (by decide)
    obtain rfl := Option.some.inj hfirst
    exact henough ⟨by decide, by decide +kernel⟩
  · obtain ⟨-, hmethods⟩ := hclasses Model.namesakes.classes[1] false (by decide) (by decide)
    obtain ⟨-, halone⟩ := hmethods Model.namesakes.classes[1].methods[0] (by decide) (by decide)
    exact (halone (by decide)).2 ⟨by decide, by decide +kernel⟩

/-- The call sites of another method of the same name contribute: a transactional method is reported
although its own call sites change one class only, which is not enough. -/
theorem auditInOrder_namesakes :
    let sync := Model.namesakes.classes[0].methods[0]
    ∃ auditor audit, ofSettings .standard = .ok auditor ∧
      auditor.auditInOrder .namesakes .never [0, 1, 2] = .ok audit ∧
      sync.wrapsTransaction = true ∧
      sync.place ∈ (audit.report.about "transaction-orchestration" "Order").map Violation.place ∧
      ((Survey.ofModel .namesakes .standard).changedClasses Model.namesakes.classes[0]
        sync).toFinset.card < Settings.standard.minTransactionClasses := by
  intro sync
  have hauditor : ofSettings .standard = .ok ⟨.standard, Rule.select .standard⟩ :=
    ofSettings_eq_ok_iff.2 ⟨by decide, rfl⟩
  have hunit : .classUnit Model.namesakes.classes[0] false ∈ AuditUnit.schedule .namesakes := by
    decide
  refine ⟨_, _, hauditor, auditInOrder_eq_ofModel _ (by decide) (by decide), rfl, ?_,
    by decide +kernel⟩
  obtain ⟨first, hfirst, hfilter⟩ := Audit.exists_filter_places .standard hunit (by decide)
    (List.mem_cons_self : sync ∈ Model.namesakes.classes[0].methods) rfl
  obtain rfl := Option.some.inj hfirst
  rw [if_pos ⟨by decide, by decide +kernel⟩] at hfilter
  exact (List.mem_filter.1 (hfilter ▸ List.mem_singleton_self _)).1

end Auditor

end ObjectAudit
