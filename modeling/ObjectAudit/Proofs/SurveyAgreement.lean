/-
ObjectAudit/Proofs/SurveyAgreement.lean

An audit reads its survey through look-ups only.  Graphs and method indices may be built in
different ways and list their contents in different orders; what counts is what they answer.

Code that is analysed sees little of a method: its name, whether it belongs to the class, and
where it forwards to.  So if two surveys give

    the same edge for every class and accessor,
    the same classes,
    the same signature of a method for every class and name,

then every walk and every analysis is the same (`SignaturesAlike`).  The proofs follow the
definitions: one lemma for each function that looks something up, by induction over the names
of a chain where the function walks along one.  Rules look further into methods, but only into
those of the unit they judge (`RuleCheck.findings_eq`).
-/
import ObjectAudit.Proofs.Outcomes

namespace ObjectAudit

/-! ### What is seen of a method -/

/-- What code that is analysed sees of a method. -/
structure Method.Signature where
  name : String
  isClassLevel : Bool
  delegatesTo : Option Delegation
deriving DecidableEq, Repr

/-- The signature of a method. -/
def Method.signature (method : Method) : Signature :=
  ⟨method.name, method.isClassLevel, method.delegatesTo⟩

/-- Two graphs with their method indices that answer all look-ups alike, as far as the
signatures of methods. -/
structure SignaturesAlike (graph : Graph) (methods : MethodIndex) (graph' : Graph)
    (methods' : MethodIndex) : Prop where
  edge : ∀ source accessor, graph.edge? source accessor = graph'.edge? source accessor
  hasClass : ∀ name, graph.hasClass name = graph'.hasClass name
  signature : ∀ className name, (methods.get? className name).map Method.signature =
    (methods'.get? className name).map Method.signature

/-- Two graphs with their method indices that answer all look-ups alike. -/
structure AnswersAlike (graph : Graph) (methods : MethodIndex) (graph' : Graph)
    (methods' : MethodIndex) : Prop where
  edge : ∀ source accessor, graph.edge? source accessor = graph'.edge? source accessor
  hasClass : ∀ name, graph.hasClass name = graph'.hasClass name
  method : ∀ className name, methods.get? className name = methods'.get? className name

namespace SignaturesAlike

variable {graph graph' : Graph} {methods methods' : MethodIndex}
variable (h : SignaturesAlike graph methods graph' methods')

include h

/-- Either both indices have a method, with the same signature, or none has. -/
theorem get?_cases (className name : String) :
    (methods.get? className name = none ∧ methods'.get? className name = none) ∨
      ∃ method method', methods.get? className name = some method ∧
        methods'.get? className name = some method' ∧ method.signature = method'.signature := by
  have hsignature := h.signature className name
  cases hmethod : methods.get? className name with
  | none =>
    rw [hmethod] at hsignature
    exact .inl ⟨rfl, Option.map_eq_none_iff.1 hsignature.symm⟩
  | some method =>
    rw [hmethod] at hsignature
    obtain ⟨method', hmethod', heq⟩ := Option.map_eq_some_iff.1 hsignature.symm
    exact .inr ⟨method, method', rfl, hmethod', heq.symm⟩

/-! ### Chains -/

theorem delegationResult_eq (current : String) {method method' : Method}
    (hsignature : method.signature = method'.signature) :
    delegationResult graph current method = delegationResult graph' current method' := by
  have hdelegation : method.delegatesTo = method'.delegatesTo :=
    congrArg Method.Signature.delegatesTo hsignature
  simp only [delegationResult, h.edge, hdelegation]

/-- Walks are the same, name by name. -/
theorem walkFrom_eq (names : List String) (current : String) :
    walkFrom graph methods current names = walkFrom graph' methods' current names := by
  induction names generalizing current with
  | nil => rfl
  | cons name rest ih =>
    -- each of the three ways to go on asks one look-up, and the rest follows from there
    simp only [walkFrom, h.edge, ih, MethodIndex.delegation?]
    rcases h.get?_cases current name with
      ⟨hmethod, hmethod'⟩ | ⟨method, method', hmethod, hmethod', heq⟩
    · simp only [hmethod, hmethod', Option.filter_none]
    · have hdelegation : method.isDelegation = method'.isDelegation :=
        congrArg (fun signature => signature.delegatesTo.isSome) heq
      simp only [hmethod, hmethod', Option.filter_some, hdelegation, Option.isSome_some]
      cases method'.isDelegation with
      | false => rfl
      | true => simp only [if_true, h.delegationResult_eq current heq]

theorem measure?_eq (site : CallSite) (subject : String) (method owner : Option String) :
    measure? graph methods site subject method owner =
      measure? graph' methods' site subject method owner := by
  have hclass : graph.hasClass = graph'.hasClass := funext h.hasClass
  have hstart : startClass? graph site owner = startClass? graph' site owner := by
    rw [startClass?, startClass?, hclass]
  simp only [measure?, hstart, h.walkFrom_eq]

theorem chains_ofClass_eq (decl : ClassDecl) :
    AccessChain.ofClass graph methods decl = AccessChain.ofClass graph' methods' decl := by
  simp only [AccessChain.ofClass, h.measure?_eq]

theorem chains_ofTemplate_eq (template : Template) :
    AccessChain.ofTemplate graph methods template =
      AccessChain.ofTemplate graph' methods' template := by
  simp only [AccessChain.ofTemplate, h.measure?_eq]

/-! ### Operations -/

variable (operations : List String)

theorem roleOf_eq (standing : Standing) (name : String) :
    roleOf graph methods operations standing name =
      roleOf graph' methods' operations standing name := by
  unfold roleOf
  cases standing.current with
  | none => rfl
  | some current =>
    simp only [h.edge]
    rcases h.get?_cases current name with
      ⟨hmethod, hmethod'⟩ | ⟨method, method', hmethod, hmethod', heq⟩
    · rw [hmethod, hmethod']
    · have hlevel : method.isClassLevel = method'.isClassLevel :=
        congrArg Method.Signature.isClassLevel heq
      simp only [hmethod, hmethod', hlevel]

theorem usesFrom_eq (target : Option String) (names : List String) (standing : Standing)
    (index : Nat) :
    usesFrom graph methods operations target standing index names =
      usesFrom graph' methods' operations target standing index names := by
  induction names generalizing standing index with
  | nil => rfl
  | cons name rest ih => simp only [usesFrom, h.roleOf_eq, ih]

theorem operationUses_eq (site : CallSite) (owner : Option String) :
    operationUses graph methods operations site owner =
      operationUses graph' methods' operations site owner :=
  h.usesFrom_eq operations _ _ _ _

theorem ofSite_eq (site : CallSite) (subject : String) (method : Option String) (layer : Layer)
    (owner : Option String) :
    LayeredCall.ofSite graph methods operations site subject method layer owner =
      LayeredCall.ofSite graph' methods' operations site subject method layer owner := by
  simp only [LayeredCall.ofSite, h.operationUses_eq]

theorem mutationsOf_eq (decl : ClassDecl) :
    mutationsOf graph methods operations decl = mutationsOf graph' methods' operations decl := by
  have hmutation : mutation? graph methods operations decl =
      mutation? graph' methods' operations decl := by
    funext method site
    simp only [mutation?, firstMutation?, h.operationUses_eq]
  rw [mutationsOf, mutationsOf, hmutation]

/-! ### Clusters -/

theorem clusters_eq (taxonomy : Taxonomy) (callbackCategory : Option String) (decl : ClassDecl) :
    Clustering.clusters ⟨graph, taxonomy, callbackCategory⟩ decl =
      Clustering.clusters ⟨graph', taxonomy, callbackCategory⟩ decl := by
  have hsite : Clustering.siteTargets ⟨graph, taxonomy, callbackCategory⟩ =
      Clustering.siteTargets ⟨graph', taxonomy, callbackCategory⟩ := by
    funext owner site
    simp only [Clustering.siteTargets, h.edge]
  have hlinked : Clustering.linkedGroups ⟨graph, taxonomy, callbackCategory⟩ =
      Clustering.linkedGroups ⟨graph', taxonomy, callbackCategory⟩ := by
    funext owner members
    simp only [Clustering.linkedGroups, Clustering.methodTargets, hsite]
    rfl
  -- categories come from the taxonomy, which both share
  simp only [Clustering.clusters, hlinked]
  rfl

/-! ### Analyses -/

theorem analysisOf_eq (settings : Settings) (unit : AuditUnit) :
    unit.analysisOf ⟨graph, methods, settings⟩ = unit.analysisOf ⟨graph', methods', settings⟩ := by
  cases unit with
  | classUnit decl repeated =>
    simp only [AuditUnit.analysisOf, Survey.classAnalysis, Survey.clustering, LayeredCall.ofClass,
      h.chains_ofClass_eq, h.ofSite_eq, h.mutationsOf_eq, h.clusters_eq]
  | templateUnit template repeated =>
    simp only [AuditUnit.analysisOf, Survey.templateAnalysis, LayeredCall.ofTemplate,
      h.chains_ofTemplate_eq, h.ofSite_eq]

end SignaturesAlike

/-! ### Findings -/

theorem includedModules_eq {methods methods' : MethodIndex} {subject : String}
    (h : ∀ name, (methods.get? subject name).bind Method.includedFrom =
      (methods'.get? subject name).bind Method.includedFrom) (clusters : List Cluster) :
    includedModules methods subject clusters = includedModules methods' subject clusters := by
  simp only [includedModules, h]

/-- A rule looks into no methods but those of the unit that it judges. -/
theorem RuleCheck.findings_eq (check : RuleCheck) {methods methods' : MethodIndex}
    {analysis : UnitAnalysis}
    (h : ∀ name, methods.get? analysis.subject name = methods'.get? analysis.subject name) :
    check.findings methods analysis = check.findings methods' analysis := by
  cases check with
  | lawOfDemeter minDepth => rfl
  | queryOutsideModel => rfl
  | neighborQuery => rfl
  | fatModel minCategories =>
    have hincluded : ∀ clusters, includedModules methods analysis.subject clusters =
        includedModules methods' analysis.subject clusters :=
      includedModules_eq fun name => by rw [h]
    simp only [findings, fatModelFinding, hincluded]
  | transactionOrchestration minClasses => rfl
  | callbackSideEffects => simp only [findings, callbackMutations, h]

/-- Rules find the same where all look-ups of methods give the same. -/
theorem Rule.evaluate_eq (rule : Rule) {methods methods' : MethodIndex}
    {analyses : List UnitAnalysis} (h : ∀ analysis ∈ analyses, ∀ name,
      methods.get? analysis.subject name = methods'.get? analysis.subject name) :
    rule.evaluate methods analyses = rule.evaluate methods' analyses := by
  apply List.flatMap_congr
  intro analysis hanalysis
  rw [rule.check.findings_eq (h analysis hanalysis)]

namespace AnswersAlike

variable {graph graph' : Graph} {methods methods' : MethodIndex}
variable (h : AnswersAlike graph methods graph' methods')

include h

theorem signaturesAlike : SignaturesAlike graph methods graph' methods' where
  edge := h.edge
  hasClass := h.hasClass
  signature className name := by rw [h.method]

theorem evaluate_eq (rule : Rule) (analyses : List UnitAnalysis) :
    rule.evaluate methods analyses = rule.evaluate methods' analyses :=
  rule.evaluate_eq fun analysis _ => h.method analysis.subject

theorem analysisOf_eq (settings : Settings) (unit : AuditUnit) :
    unit.analysisOf ⟨graph, methods, settings⟩ = unit.analysisOf ⟨graph', methods', settings⟩ :=
  h.signaturesAlike.analysisOf_eq settings unit

end AnswersAlike

end ObjectAudit
