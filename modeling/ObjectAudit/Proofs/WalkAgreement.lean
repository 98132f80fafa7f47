/-
ObjectAudit/Proofs/WalkAgreement.lean

The names of a call site are walked twice: once to measure how far the call reaches, and once to
find the operations in it.  The first walk notes its hops and follows methods that forward.  The
second one notes whether it stands at a single object or at a collection, and it does not stop at an
association that is unresolved.

Where a chain crosses resolved associations, all but the last one to single objects, and then comes
to an operation, both walks take the same way (`OperationBehind.exists_measure?`,
`OperationBehind.operationUses_eq`).

Main result: `OperationBehind.walks_agree`.  The class that the operation acts on, and that a query
or a change of the call is recorded for, is the one that the measured chain arrives at.
-/
import ObjectAudit.Proofs.OperationWalk
import ObjectAudit.Proofs.Shortcuts

namespace ObjectAudit

/-! ### Positions of operations -/

/-- From a position on, no earlier one is noted. -/
theorem le_index_of_mem_usesFrom {graph : Graph} {methods : MethodIndex} {operations : List String}
    {target : Option String} {standing : Standing} {index : Nat} {names : List String}
    {use : OperationUse}
    (h : use ∈ usesFrom graph methods operations target standing index names) :
    index ≤ use.index := by
  induction names generalizing standing index with
  | nil => cases h
  | cons name rest ih =>
    rw [usesFrom] at h
    split at h
    · rcases List.mem_cons.1 h with rfl | hfurther
      · exact Nat.le_refl _
      · exact Nat.le_of_succ_le (ih hfurther)
    · exact Nat.le_of_succ_le (ih h)

/-! ### Walks over associations -/

variable {model : Model}

/-- A walk that goes on behind a hop has crossed a resolved association. -/
theorem Walks.of_cons_hop {start last : String} {edge : Association} {strides : List Stride}
    (h : Walks model (some start) (.hop edge :: strides) (some last)) :
    model.edge? start edge.accessor = some edge ∧ edge.resolved = true ∧
      Walks model (some edge.target) strides (some last) := by
  cases h with
  | step hstride hrest =>
    cases hstride with
    | cross hedge hresolved => exact ⟨hedge, hresolved, hrest⟩
    | leave hedge hresolved => cases hrest.of_none.2

/-- Does the last of some associations lead to many objects? -/
def Association.leadToMany (edges : List Association) : Bool :=
  edges.getLast?.any fun edge => edge.kind == .ownsMany

/-- The hop over a resolved association. -/
def Hop.over (edge : Association) : Hop := ⟨edge, edge.target, edge.source != edge.target⟩

section Hops

variable {start reached : String} {edges : List Association}
variable (h : Walks model (some start) (edges.map Stride.hop) (some reached))

include h

/-- Every association on the way counts as a hop to its target. -/
theorem Walks.filterMap_hop? :
    (edges.map Stride.hop).filterMap Stride.hop? = edges.map Hop.over := by
  induction edges generalizing start with
  | nil => rfl
  | cons edge edges ih =>
    obtain ⟨-, hresolved, hrest⟩ := h.of_cons_hop
    rw [List.map_cons, List.map_cons, List.filterMap_cons, ih hrest, Stride.hop?, hresolved]
    rfl

/-- The class that a walk over associations comes to is the target of the last one. -/
theorem Walks.getElem?_targets :
    (start :: edges.map Association.target)[edges.length]? = some reached := by
  induction edges generalizing start with
  | nil =>
    cases h
    rfl
  | cons edge edges ih => exact ih h.of_cons_hop.2.2

/-- The search for operations crosses associations to single objects without noting any. -/
theorem Walks.usesFrom_hops (hsingly : ∀ edge ∈ edges.dropLast, edge.kind ≠ .ownsMany)
    (methods : MethodIndex) (operations : List String) (target : Option String) (index : Nat)
    (rest : List String) :
    usesFrom (.ofModel model) methods operations target ⟨some start, false⟩ index
        (edges.map Association.accessor ++ rest) =
      usesFrom (.ofModel model) methods operations target
        ⟨some reached, Association.leadToMany edges⟩ (index + edges.length) rest := by
  induction edges generalizing start index with
  | nil =>
    cases h
    rfl
  | cons edge edges ih =>
    obtain ⟨hedge, -, hrest⟩ := h.of_cons_hop
    rw [List.map_cons, List.cons_append,
      usesFrom_association ((Graph.edge?_ofModel_eq model _ _).trans hedge)]
    cases edges with
    | nil =>
      cases hrest
      rfl
    | cons next edges =>
      -- this one is not the last, so behind it stands a single object
      obtain ⟨hkind, hsingly⟩ := List.forall_mem_cons.1 hsingly
      rw [beq_false_of_ne hkind, ih hrest hsingly, Nat.add_assoc, Nat.add_comm 1]
      rfl

end Hops

/-! ### Operations behind associations -/

/-- From a class, some associations lead one after the other to another class, all of them resolved
and all but the last one to single objects.  The next name is an operation there: it is no method
of the class itself, and no association or method of a single object if there is only one. -/
structure OperationBehind (model : Model) (operations : List String) (start : String)
    (edges : List Association) (reached operation : String) : Prop where
  walks : Walks model (some start) (edges.map Stride.hop) (some reached)
  crosses : edges ≠ []
  singly : ∀ edge ∈ edges.dropLast, edge.kind ≠ .ownsMany
  listed : operation ∈ operations
  unscoped : ∀ method, model.method? reached operation = some method → method.isClassLevel = false
  unhidden : Association.leadToMany edges = false →
    model.edge? reached operation = none ∧ model.method? reached operation = none

namespace OperationBehind

variable {operations : List String} {start reached operation : String} {edges : List Association}
variable (h : OperationBehind model operations start edges reached operation)

include h

theorem start_mem_classNames : start ∈ model.classNames := by
  obtain ⟨first, rest, hcons⟩ := List.exists_cons_of_ne_nil h.crosses
  have hwalks := h.walks
  rw [hcons] at hwalks
  exact (Model.of_edge?_eq_some hwalks.of_cons_hop.1).2.2.1

/-- The first operation that is found is the one behind the associations, on the class reached. -/
theorem operationUses_eq {site : CallSite} {owner : Option String}
    (hstarts : site.StartsAt owner start) {rest : List String}
    (hchain : site.chain = edges.map Association.accessor ++ operation :: rest) :
    ∃ further, operationUses (.ofModel model) (.ofModel model) operations site owner =
        ⟨edges.length, operation, some reached⟩ :: further ∧
      ∀ use ∈ further, edges.length < use.index := by
  -- both walks start at the class of the receiver
  have hreceiver : site.receiverClass owner = some start := by
    rcases hstarts with ⟨horigin, howner⟩ | ⟨horigin, hclass⟩
    · rw [CallSite.receiverClass, horigin, howner]
    · rw [CallSite.receiverClass, horigin, hclass]
  have hscope : (MethodIndex.ofModel model).isScope reached operation = false := by
    rw [MethodIndex.isScope, MethodIndex.get?_ofModel_eq]
    cases hmethod : model.method? reached operation with
    | none => rfl
    | some method => exact h.unscoped method hmethod
  rw [operationUses, hreceiver, hchain, h.walks.usesFrom_hops h.singly,
    usesFrom_operation h.listed hscope, Nat.zero_add]
  · refine ⟨_, rfl, ?_⟩
    intro use huse
    exact le_index_of_mem_usesFrom huse
  · intro hsingle
    rw [Graph.edge?_ofModel_eq, MethodIndex.get?_ofModel_eq]
    exact h.unhidden hsingle

/-- The measure of the call site begins with hops over the associations, and goes on with what is
found from the class reached. -/
theorem exists_measure? (hexternal : externalNode ∉ model.classNames) {site : CallSite}
    {owner : Option String} (hstarts : site.StartsAt owner start) {rest : List String}
    (hchain : site.chain = edges.map Association.accessor ++ operation :: rest) (subject : String)
    (method : Option String) :
    ∃ chain, measure? (.ofModel model) (.ofModel model) site subject method owner = some chain ∧
      chain.startClass = start ∧
      chain.hops = edges.map Hop.over ++
        (walkFrom (.ofModel model) (.ofModel model) reached (operation :: rest)).hops := by
  have hnames : (edges.map Stride.hop).map Stride.name = edges.map Association.accessor :=
    List.map_map
  -- the measure crosses the associations first, and then goes on like the walk from there
  have hhops : (walkFrom (.ofModel model) (.ofModel model) start site.chain).hops =
      edges.map Hop.over ++
        (walkFrom (.ofModel model) (.ofModel model) reached (operation :: rest)).hops := by
    rw [hchain, ← hnames, ← h.walks.filterMap_hop?]
    exact congrArg Walk.hops (h.walks.walk_eq hexternal (operation :: rest))
  have hpos := List.length_pos_iff.2 h.crosses
  refine ⟨_, measure?_eq_some_iff.2 ⟨?_, start, ?_, ?_, rfl⟩, rfl, hhops⟩
  · rw [hchain, List.length_append, List.length_map, List.length_cons]
    omega
  · exact (startClass?_ofModel hexternal).2 ⟨hstarts, h.start_mem_classNames⟩
  · rw [hhops]
    simp [h.crosses]

end OperationBehind

/-- An order of a customer with many invoices, each of which has its order.  The accessor of that is
also the name of an operation. -/
def Model.billing : Model :=
  let entry (name : String) (edge : Association) : ClassDecl :=
    { qualifiedName := name, associations := [edge], methods := [], layer := .model
      location := ⟨.ofText "app/billing.rb", 1, 0⟩ }
  { classes :=
      [entry "Order" (.link "Order" "customer" "Customer"),
       entry "Customer" { Association.link "Customer" "invoices" "Invoice" with kind := .ownsMany },
       entry "Invoice" (.link "Invoice" "order" "Order")] }

/-- The class that an operation acts on is the one that the measured chain arrives at.  Take a call
site of the object itself or of a parameter whose names cross resolved associations, all but the
last one to single objects, and come to an operation that nothing hides.  The measure begins with
hops over exactly these associations, and the class behind them is where it stands then.  It ends
there if the name of the operation leads no further.  No operation is found before, and this one is
found to act on the class.  So a query of the call, and a change that it makes, is one of this
class. -/
theorem OperationBehind.walks_agree {model : Model} (hexternal : externalNode ∉ model.classNames)
    {operations : List String} {start reached operation : String} {edges : List Association}
    (h : OperationBehind model operations start edges reached operation) {site : CallSite}
    {owner : Option String} (hstarts : site.StartsAt owner start) {rest : List String}
    (hchain : site.chain = edges.map Association.accessor ++ operation :: rest) :
    (∀ subject method, ∃ chain,
      measure? (.ofModel model) (.ofModel model) site subject method owner = some chain ∧
      chain.hops.take edges.length = edges.map Hop.over ∧
      chain.path.head? = some start ∧ chain.path[edges.length]? = some reached ∧
      (model.edge? reached operation = none → model.delegation? reached operation = none →
        chain.path.getLast? = some reached)) ∧
    (∃ further, operationUses (.ofModel model) (.ofModel model) operations site owner =
        ⟨edges.length, operation, some reached⟩ :: further ∧
      ∀ use ∈ further, edges.length < use.index) ∧
    (∀ subject method layer,
      (LayeredCall.ofSite (.ofModel model) (.ofModel model) operations site subject method layer
        owner).queryTarget = some reached) ∧
    ∀ decl method, owner = some decl.qualifiedName →
      mutation? (.ofModel model) (.ofModel model) operations decl method site =
        some { subject := decl.qualifiedName, method := method.name, operation
               targetClass := reached, callSite := site } := by
  obtain ⟨further, huses, hfurther⟩ := h.operationUses_eq hstarts hchain
  refine ⟨?_, ⟨further, huses, hfurther⟩, ?_, ?_⟩
  · intro subject method
    obtain ⟨chain, hmeasure, hstart, hhops⟩ :=
      h.exists_measure? hexternal hstarts hchain subject method
    -- the path is the start, the targets of the associations, and what lies behind
    have hpath : chain.path = (start :: edges.map Association.target) ++
        (walkFrom (.ofModel model) (.ofModel model) reached (operation :: rest)).hops.map
          Hop.toNode := by
      rw [AccessChain.path, hstart, hhops, List.map_append, List.map_map]
      rfl
    have hreached := h.walks.getElem?_targets
    refine ⟨chain, hmeasure, ?_, ?_, ?_, ?_⟩
    · rw [hhops]
      exact List.take_left' (List.length_map _)
    · rw [hpath]
      rfl
    · rw [hpath, List.getElem?_append_left (by simp)]
      exact hreached
    · intro hedge hdelegation
      rw [hpath, walkFrom_of_untaken hedge hdelegation, List.map_nil, List.append_nil,
        List.getLast?_eq_getElem?]
      simpa using hreached
  · intro subject method layer
    show (operationUses _ _ _ _ _).head?.bind _ = _
    rw [huses]
    rfl
  · rintro decl method rfl
    rw [mutation?, firstMutation?, huses]
    rfl

theorem OperationBehind.walks_agree_billing :
    let customer : Association := .link "Order" "customer" "Customer"
    let invoices : Association :=
      { Association.link "Customer" "invoices" "Invoice" with kind := .ownsMany }
    let site : CallSite :=
      { origin := .self, root := "self", line := 4
        chain := ["customer", "invoices", "order", "customer"] }
    externalNode ∉ Model.billing.classNames ∧
    OperationBehind .billing Settings.standard.queryOperations "Order" [customer, invoices]
      "Invoice" "order" ∧
    (∃ chain, measure? (.ofModel .billing) (.ofModel .billing) site "Order" (some "bill")
        (some "Order") = some chain ∧
      chain.hops.take 2 = [⟨customer, "Customer", true⟩, ⟨invoices, "Invoice", true⟩] ∧
      chain.path[2]? = some "Invoice") ∧
    (LayeredCall.ofSite (.ofModel .billing) (.ofModel .billing) Settings.standard.queryOperations
      site "Order" (some "bill") .model (some "Order")).queryTarget = some "Invoice" := by
  intro customer invoices site
  have hclasses : "Customer" ∈ Model.billing.classNames ∧ "Invoice" ∈ Model.billing.classNames ∧
      externalNode ∉ Model.billing.classNames := by
    simp only [Graph.mem_classNames]
    decide
  obtain ⟨hcustomer, hinvoice, hexternal⟩ := hclasses
  have hone : Model.billing.edge? "Order" "customer" = some customer :=
    Model.edge?_eq_link rfl hcustomer
  have hmany : Model.billing.edge? "Customer" "invoices" = some invoices :=
    @Model.edge?_eq_asResolved .billing "Customer" "invoices" invoices rfl hinvoice
  have hbehind : OperationBehind .billing Settings.standard.queryOperations "Order"
      [customer, invoices] "Invoice" "order" := by
    refine ⟨.step (.cross hone rfl) (.step (.cross hmany rfl) (.stay _)), by simp, by decide,
      by decide, ?_, ?_⟩
    · rintro method ⟨⟩
    · -- an invoice has an association of that name, but there are many invoices
      rintro ⟨⟩
  have hstarts : site.StartsAt (some "Order") "Order" := .inl ⟨rfl, rfl⟩
  obtain ⟨hmeasure, -, hquery, -⟩ := hbehind.walks_agree hexternal hstarts rfl
  obtain ⟨chain, hchain, hhops, -, hpath, -⟩ := hmeasure "Order" (some "bill")
  exact ⟨hexternal, hbehind, ⟨chain, hchain, hhops, hpath⟩, hquery "Order" (some "bill") .model⟩

end ObjectAudit
