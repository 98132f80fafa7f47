/-
ObjectAudit/Proofs/Rearrangement.lean

Call sites in another order.  A model is rearranged if the call sites inside each method and
each template are permuted and nothing else changes (`Model.Rearranged`).  The outlines of its
classes stay the same, and so do the flaws of its units.

Analyses of rearranged units list the same calls in another order.  What an analysis makes of
them as a set does not change: the clusters of a class, because methods are linked by what
occurs in them and not by where it occurs (`Clustering.Linked.rearranged`), and the classes that
a transaction changes (`transactionsOf_rearranged`).
-/
import ObjectAudit.Proofs.Affinity
import ObjectAudit.Proofs.Outline

namespace ObjectAudit

open List (Forall₂)

/-! ### Methods -/

/-- The same method, with its call sites in another order. -/
inductive Method.Rearranged (method : Method) : Method → Prop
  | mk {callSites : List CallSite} :
      method.callSites.Perm callSites → Rearranged method { method with callSites }

namespace Method.Rearranged

variable {method method' : Method} (h : method.Rearranged method')

include h

theorem symm : method'.Rearranged method := by
  obtain ⟨hsites⟩ := h
  exact @mk { method with callSites := _ } _ hsites.symm

theorem callSites : method.callSites.Perm method'.callSites := by
  obtain ⟨hsites⟩ := h
  exact hsites

theorem name : method.name = method'.name := by
  obtain ⟨-⟩ := h
  rfl

theorem signature : method.signature = method'.signature := by
  obtain ⟨-⟩ := h
  rfl

theorem categoryOf (clustering : Clustering) :
    clustering.categoryOf method = clustering.categoryOf method' := by
  obtain ⟨-⟩ := h
  rfl

theorem reaches {graph : Graph} {owner target : String}
    (hreaches : method.Reaches graph owner target) : method'.Reaches graph owner target := by
  obtain ⟨site, hsite, hreaches⟩ := hreaches
  exact ⟨site, h.callSites.mem_iff.1 hsite, hreaches⟩

theorem invokes {name : String} (hinvokes : method.Invokes name) : method'.Invokes name := by
  obtain ⟨hsites⟩ := h
  rcases hinvokes with hmem | ⟨site, hsite, hself⟩
  · exact .inl hmem
  · exact .inr ⟨site, hsites.mem_iff.1 hsite, hself⟩

theorem admissible (hmethod : method.Admissible) : method'.Admissible := by
  obtain ⟨hsites⟩ := h
  refine ⟨hmethod.self, ?_, hmethod.delegation⟩
  intro site hsite
  exact hmethod.callSites site (hsites.mem_iff.2 hsite)

end Method.Rearranged

/-! ### Classes and templates -/

/-- The same class, with the call sites inside its methods in other orders. -/
inductive ClassDecl.Rearranged (decl : ClassDecl) : ClassDecl → Prop
  | mk {methods : List Method} :
      Forall₂ Method.Rearranged decl.methods methods → Rearranged decl { decl with methods }

/-- The same template, with its call sites in another order. -/
inductive Template.Rearranged (template : Template) : Template → Prop
  | mk {callSites : List CallSite} :
      template.callSites.Perm callSites → Rearranged template { template with callSites }

theorem Template.Rearranged.admissible {template template' : Template}
    (h : template.Rearranged template') (htemplate : template.Admissible) :
    template'.Admissible := by
  obtain ⟨hsites⟩ := h
  refine ⟨htemplate.self, htemplate.location, ?_⟩
  intro site hsite
  exact htemplate.callSites site (hsites.mem_iff.2 hsite)

namespace ClassDecl.Rearranged

variable {decl decl' : ClassDecl} (h : decl.Rearranged decl')

include h

theorem symm : decl'.Rearranged decl := by
  obtain ⟨hmethods⟩ := h
  have hflip : Forall₂ (flip Method.Rearranged) decl.methods _ :=
    hmethods.imp fun _ _ hmethod => hmethod.symm
  exact @mk { decl with methods := _ } _ hflip.flip

theorem methods : Forall₂ Method.Rearranged decl.methods decl'.methods := by
  obtain ⟨hmethods⟩ := h
  exact hmethods

theorem qualifiedName : decl.qualifiedName = decl'.qualifiedName := by
  obtain ⟨-⟩ := h
  rfl

theorem outline : decl.outline = decl'.outline := by
  obtain ⟨hmethods⟩ := h
  have hsignatures := map_eq_of_forall₂ (fun _ _ hmethod => hmethod.signature) hmethods
  rw [ClassDecl.outline, hsignatures]
  rfl

theorem methodNames : decl.methodNames = decl'.methodNames :=
  map_eq_of_forall₂ (fun _ _ hmethod => hmethod.name) h.methods

theorem method? (name : String) :
    Option.Rel Method.Rearranged (decl.method? name) (decl'.method? name) :=
  rel_find? (fun _ _ hmethod => by rw [hmethod.name]) h.methods

/-- The flaws of a class do not depend on its call sites. -/
theorem flaws (repeated : Bool) : decl.flaws repeated = decl'.flaws repeated := by
  obtain ⟨hmethods⟩ := h
  unfold ClassDecl.flaws
  dsimp only
  apply congrArg
  refine flatMap_eq_of_forall₂ ?_ hmethods
  rintro method _ ⟨-⟩
  rfl

theorem admissible (hdecl : decl.Admissible) : decl'.Admissible := by
  obtain ⟨hmethods⟩ := h
  refine ⟨hdecl.self, hdecl.location, hdecl.associations, ?_⟩
  exact forall_mem_of_forall₂ (fun _ _ hmethod => hmethod.admissible) hmethods hdecl.methods

end ClassDecl.Rearranged

/-! ### Clusters -/

namespace Clustering

variable {clustering : Clustering} {decl decl' : ClassDecl}

/-- Methods of a name stay methods of that name. -/
theorem exists_rearranged (h : decl.Rearranged decl') {method : Method}
    (hmethod : decl.method? method.name = some method) :
    ∃ method', method'.name = method.name ∧ decl'.method? method'.name = some method' ∧
      method.Rearranged method' := by
  have hrel := h.method? method.name
  rw [hmethod] at hrel
  cases hmethod' : decl'.method? method.name with
  | none => rw [hmethod'] at hrel; cases hrel
  | some method' =>
    rw [hmethod'] at hrel
    obtain ⟨hrearranged⟩ := hrel
    refine ⟨method', hrearranged.name.symm, ?_, hrearranged⟩
    rw [← hrearranged.name, hmethod']

/-- Methods are linked by what occurs in them, not by where it occurs. -/
theorem Linked.rearranged (h : decl.Rearranged decl') {a b : String}
    (hlinked : clustering.Linked decl a b) : clustering.Linked decl' a b := by
  -- every method that a link names has its counterpart, in which the same things occur
  cases hlinked with
  | commonTarget hmethod₁ hmethod₂ hne hreaches₁ hreaches₂ =>
    obtain ⟨method₁, hname₁, hmethod₁, h₁⟩ := exists_rearranged h hmethod₁
    obtain ⟨method₂, hname₂, hmethod₂, h₂⟩ := exists_rearranged h hmethod₂
    rw [h.qualifiedName] at hne hreaches₁ hreaches₂
    rw [← hname₁, ← hname₂]
    exact .commonTarget hmethod₁ hmethod₂ hne (h₁.reaches hreaches₁) (h₂.reaches hreaches₂)
  | sameCategory hmethod₁ hmethod₂ hcategory₁ hcategory₂ =>
    obtain ⟨method₁, hname₁, hmethod₁, h₁⟩ := exists_rearranged h hmethod₁
    obtain ⟨method₂, hname₂, hmethod₂, h₂⟩ := exists_rearranged h hmethod₂
    rw [← hname₁, ← hname₂]
    rw [h₁.categoryOf] at hcategory₁
    rw [h₂.categoryOf] at hcategory₂
    exact .sameCategory hmethod₁ hmethod₂ hcategory₁ hcategory₂
  | commonCaller hmethod₁ hmethod₂ hcaller hinvokes₁ hinvokes₂ hne₁ hne₂ =>
    obtain ⟨method₁, hname₁, hmethod₁, h₁⟩ := exists_rearranged h hmethod₁
    obtain ⟨method₂, hname₂, hmethod₂, h₂⟩ := exists_rearranged h hmethod₂
    obtain ⟨caller, hname, hcaller, hrearranged⟩ := exists_rearranged h hcaller
    rw [← hname₁, ← hname] at hne₁
    rw [← hname₂, ← hname] at hne₂
    have hinvokes₁ := hrearranged.invokes hinvokes₁
    have hinvokes₂ := hrearranged.invokes hinvokes₂
    rw [← hname₁] at hinvokes₁ ⊢
    rw [← hname₂] at hinvokes₂ ⊢
    exact .commonCaller hmethod₁ hmethod₂ hcaller hinvokes₁ hinvokes₂ hne₁ hne₂

theorem linked_eq (clustering : Clustering) (h : decl.Rearranged decl') :
    clustering.Linked decl = clustering.Linked decl' := by
  funext a b
  exact propext ⟨.rearranged h, .rearranged h.symm⟩

theorem clusterOf_eq (clustering : Clustering) (h : decl.Rearranged decl')
    (members : List String) :
    clustering.clusterOf decl.qualifiedName (firstMethods decl) members =
      clustering.clusterOf decl'.qualifiedName (firstMethods decl') members := by
  have hcategory : ∀ name,
      ((firstMethods decl).find? fun method => method.name == name).bind clustering.categoryOf =
        ((firstMethods decl').find? fun method => method.name == name).bind
          clustering.categoryOf := by
    intro name
    rw [firstMethods, firstMethods, find?_eraseDupsBy, find?_eraseDupsBy]
    exact bind_eq_of_rel (fun _ _ hmethod => hmethod.categoryOf clustering) (h.method? name)
  simp only [clusterOf, hcategory, h.qualifiedName]

/-- The clusters of a class do not depend on the order of call sites. -/
theorem clusters_rearranged (clustering : Clustering) (h : decl.Rearranged decl') :
    clustering.clusters decl = clustering.clusters decl' := by
  obtain ⟨rep, hrep, hclusters⟩ := exists_clusters_eq clustering decl
  obtain ⟨rep', hrep', hclusters'⟩ := exists_clusters_eq clustering decl'
  -- representatives may be others, but they are shared by the same methods
  have hsame : ∀ a b, (rep a == rep b) = (rep' a == rep' b) := by
    intro a b
    rw [Bool.eq_iff_iff, beq_iff_eq, beq_iff_eq, hrep, hrep', linked_eq clustering h]
  rw [hclusters, hclusters', h.methodNames]
  simp only [hsame, clusterOf_eq clustering h]

end Clustering

/-! ### Calls, changes and transactions -/

section Calls

variable (graph : Graph) (methods : MethodIndex) (operations : List String)
variable {decl decl' : ClassDecl} (h : decl.Rearranged decl')

include h

theorem LayeredCall.ofClass_perm :
    (ofClass graph methods operations decl).Perm (ofClass graph methods operations decl') := by
  obtain ⟨hmethods⟩ := h
  refine perm_flatMap_of_forall₂ ?_ hmethods
  rintro method _ ⟨hsites⟩
  exact hsites.map _

theorem mutationsOf_perm :
    (mutationsOf graph methods operations decl).Perm
      (mutationsOf graph methods operations decl') := by
  obtain ⟨hmethods⟩ := h
  refine perm_flatMap_of_forall₂ ?_ hmethods
  rintro method _ ⟨hsites⟩
  exact hsites.filterMap _

end Calls

/-- The same transaction, with its changes in another order. -/
inductive Transaction.Rearranged (transaction : Transaction) : Transaction → Prop
  | mk {mutations : List Mutation} :
      transaction.mutations.Perm mutations → Rearranged transaction { transaction with mutations }

/-- A transaction changes the same classes in whatever order it does. -/
theorem transactionOf_rearranged (countsOwnClass : Bool) {mutations mutations' : List Mutation}
    (hmutations : mutations.Perm mutations') {decl decl' : ClassDecl}
    (hname : decl.qualifiedName = decl'.qualifiedName) {method method' : Method}
    (hmethod : method.Rearranged method') :
    (transactionOf countsOwnClass mutations decl method).Rearranged
      (transactionOf countsOwnClass mutations' decl' method') := by
  obtain ⟨-⟩ := hmethod
  have hown := hmutations.filter fun mutation => mutation.method == method.name
  have hcounted := (hown.filter fun mutation => countsOwnClass || !mutation.isOwn).map
    Mutation.targetClass
  unfold transactionOf
  dsimp only
  -- the classes that count are a set, so only what belongs to it matters
  rw [← hname, ← Text.textSet_congr fun _ => hcounted.mem_iff]
  exact .mk hown

theorem transactionsOf_rearranged (countsOwnClass : Bool) {mutations mutations' : List Mutation}
    (hmutations : mutations.Perm mutations') {decl decl' : ClassDecl} (h : decl.Rearranged decl') :
    Forall₂ Transaction.Rearranged (transactionsOf countsOwnClass mutations decl)
      (transactionsOf countsOwnClass mutations' decl') := by
  have htransactional : Forall₂ Method.Rearranged (decl.methods.filter Method.wrapsTransaction)
      (decl'.methods.filter Method.wrapsTransaction) := by
    refine List.rel_filter ?_ h.methods
    rintro method _ ⟨-⟩
    exact Iff.rfl
  refine List.forall₂_map_left_iff.2 (List.forall₂_map_right_iff.2 ?_)
  refine (forall₂_eraseDupsBy ?_ htransactional).imp ?_
  · intro method method' other other' hmethod hother
    rw [hmethod.name, hother.name]
  · intro method method' hmethod
    exact transactionOf_rearranged countsOwnClass hmutations h.qualifiedName hmethod

/-! ### Analyses -/

/-- What two analyses have in common if their units differ in the order of call sites.  Chains
and changes are left out: of those with the same key only the first one is looked at. -/
structure UnitAnalysis.Rearranged (analysis analysis' : UnitAnalysis) : Prop where
  subject : analysis.subject = analysis'.subject
  location : analysis.location = analysis'.location
  isTemplate : analysis.isTemplate = analysis'.isTemplate
  calls : analysis.calls.Perm analysis'.calls
  clusters : analysis.clusters = analysis'.clusters
  transactions : Forall₂ Transaction.Rearranged analysis.transactions analysis'.transactions
  methodCount : analysis.methodCount = analysis'.methodCount
  callSiteCount : analysis.callSiteCount = analysis'.callSiteCount

theorem Survey.classAnalysis_rearranged (survey : Survey) {decl decl' : ClassDecl}
    (h : decl.Rearranged decl') :
    (survey.classAnalysis decl).Rearranged (survey.classAnalysis decl') where
  subject := h.qualifiedName
  location := by
    obtain ⟨-⟩ := h
    rfl
  isTemplate := rfl
  calls := LayeredCall.ofClass_perm _ _ _ h
  clusters := Clustering.clusters_rearranged _ h
  transactions := transactionsOf_rearranged _ (mutationsOf_perm _ _ _ h) h
  methodCount := congrArg Int.ofNat h.methods.length_eq
  callSiteCount := by
    have hlengths : ∀ method method' : Method, method.Rearranged method' →
        (method.callSites.length : Int) = method'.callSites.length :=
      fun _ _ hmethod => congrArg Int.ofNat hmethod.callSites.length_eq
    show List.foldr _ 0 (decl.methods.map _) = List.foldr _ 0 (decl'.methods.map _)
    rw [map_eq_of_forall₂ hlengths h.methods]

theorem Survey.templateAnalysis_rearranged (survey : Survey) {template template' : Template}
    (h : template.Rearranged template') :
    (survey.templateAnalysis template).Rearranged (survey.templateAnalysis template') := by
  obtain ⟨hsites⟩ := h
  exact
    { subject := rfl
      location := rfl
      isTemplate := rfl
      calls := hsites.map _
      clusters := rfl
      transactions := .nil
      methodCount := rfl
      callSiteCount := congrArg Int.ofNat hsites.length_eq }

/-! ### Units -/

namespace AuditUnit

/-- The same unit, with call sites in other orders. -/
abbrev Rearranged : AuditUnit → AuditUnit → Prop :=
  Alike ClassDecl.Rearranged Template.Rearranged

namespace Rearranged

variable {unit unit' : AuditUnit} (h : unit.Rearranged unit')

include h

theorem analysisOf (survey : Survey) :
    (unit.analysisOf survey).Rearranged (unit'.analysisOf survey) := by
  cases h with
  | classUnit repeated hdecl => exact survey.classAnalysis_rearranged hdecl
  | templateUnit repeated htemplate => exact survey.templateAnalysis_rearranged htemplate

theorem isSound : unit.isSound = unit'.isSound := by
  cases h with
  | classUnit repeated hdecl => exact congrArg List.isEmpty (hdecl.flaws repeated)
  | templateUnit repeated htemplate =>
    obtain ⟨-⟩ := htemplate
    rfl

theorem toSkipped : unit.toSkipped = unit'.toSkipped := by
  cases h with
  | @classUnit decl decl' repeated hdecl =>
    have hflaws := hdecl.flaws repeated
    obtain ⟨-⟩ := hdecl
    simp only [AuditUnit.toSkipped, AuditUnit.flaws, hflaws]
    rfl
  | templateUnit repeated htemplate =>
    obtain ⟨-⟩ := htemplate
    rfl

end Rearranged

end AuditUnit

/-! ### Models -/

namespace Model

/-- The same model, with the call sites inside its methods and templates in other orders. -/
structure Rearranged (model model' : Model) : Prop where
  classes : Forall₂ ClassDecl.Rearranged model.classes model'.classes
  templates : Forall₂ Template.Rearranged model.templates model'.templates
  rejected : model.rejected = model'.rejected

namespace Rearranged

variable {model model' : Model} (h : model.Rearranged model')

include h

theorem admissible (hmodel : model.Admissible) : model'.Admissible where
  classes := forall_mem_of_forall₂ (fun _ _ hdecl => hdecl.admissible) h.classes hmodel.classes
  templates := forall_mem_of_forall₂ (fun _ _ htemplate => htemplate.admissible) h.templates
    hmodel.templates
  rejected := h.rejected ▸ hmodel.rejected

theorem outlines : model.outlines = model'.outlines :=
  map_eq_of_forall₂ (fun _ _ hdecl => hdecl.outline) h.classes

theorem schedule :
    Forall₂ AuditUnit.Rearranged (AuditUnit.schedule model) (AuditUnit.schedule model') := by
  refine AuditUnit.forall₂_schedule (fun _ _ hdecl => hdecl.qualifiedName) ?_ h.classes h.templates
  rintro template _ ⟨-⟩
  rfl

/-- The module that a method was mixed in from stays the same. -/
theorem includedFrom (className name : String) :
    ((MethodIndex.ofModel model).get? className name).bind Method.includedFrom =
      ((MethodIndex.ofModel model').get? className name).bind Method.includedFrom := by
  have hclass : Option.Rel ClassDecl.Rearranged (model.class? className)
      (model'.class? className) :=
    rel_find? (fun _ _ hdecl => by rw [hdecl.qualifiedName]) h.classes
  rw [MethodIndex.get?_ofModel, MethodIndex.get?_ofModel, Option.bind_assoc, Option.bind_assoc]
  refine bind_eq_of_rel ?_ hclass
  intro decl decl' hdecl
  refine bind_eq_of_rel ?_ (hdecl.method? name)
  rintro method _ ⟨-⟩
  rfl

end Rearranged

end Model

end ObjectAudit
