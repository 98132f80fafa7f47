/-
ObjectAudit/Proofs/PlainLookups.lean

The graph and the method index of a model, against the plain look-ups in its classes.

Both are built in one pass over the model.  What they answer can also be found by searching the
classes themselves: for the first class of a name, the first method of a name in it, or the
associations that it declares as its own.  A name declared again adds nothing, and neither does an
association that names another class as its source.

The edges stay in order of declaration, and are listed once more by the class that declares them
and by the node they point at.  Each of the two listings holds every edge once, equal edges as often
as they are declared (`Graph.Lists`).

Main result: `Model.lookups_plain`.
-/
import ObjectAudit.Proofs.Outcomes
import ObjectAudit.Proofs.Representatives

namespace ObjectAudit

/-! ### Searching the classes -/

namespace Model

/-- The names of the classes, in the order in which they are first declared. -/
def declaredNames (model : Model) : List String :=
  (model.classes.map ClassDecl.qualifiedName).eraseDups

/-- The associations that the first class of a name declares as its own. -/
def ownAssociations (model : Model) (name : String) : List Association :=
  (model.class? name).elim [] fun decl => decl.associations.filter fun edge => edge.source == name

/-- An association as it is found: resolved if its target is declared, and else with a note, however
it was declared. -/
def resolved (model : Model) (edge : Association) : Association :=
  if (model.class? edge.target).isSome then { edge with resolved := true, note := none }
  else { edge with resolved := false, note := some (Graph.outsideNote edge.target) }

variable {model : Model}

theorem isSome_class?_iff {name : String} :
    (model.class? name).isSome = true ↔ ∃ decl ∈ model.classes, decl.qualifiedName = name := by
  simp [class?]

theorem resolve_classNames (model : Model) : Graph.resolve model.classNames = model.resolved := by
  funext edge
  have hiff : model.classNames.contains edge.target = (model.class? edge.target).isSome := by
    rw [Bool.eq_iff_iff, isSome_class?_iff, List.contains_iff_mem, Graph.mem_classNames]
  rw [Graph.resolve, hiff]
  rfl

/-- Only whether an association is resolved, and the note on it, may be found changed. -/
theorem resolved_spec (model : Model) (edge : Association) :
    model.resolved edge =
        { edge with
          resolved := (model.resolved edge).resolved
          note := (model.resolved edge).note } ∧
      ((model.resolved edge).resolved = true ↔
        ∃ decl ∈ model.classes, decl.qualifiedName = edge.target) ∧
      (model.resolved edge).note.isSome = !(model.resolved edge).resolved := by
  rw [← isSome_class?_iff]
  unfold resolved
  cases (model.class? edge.target).isSome <;> simp

/-! ### First declarations -/

/-- The first declarations are found under their names. -/
theorem class?_of_mem_firstDeclarations {decl : ClassDecl}
    (h : decl ∈ Graph.firstDeclarations model.classes) :
    model.class? decl.qualifiedName = some decl := by
  rw [class?, ← find?_eraseDupsBy ClassDecl.qualifiedName]
  exact (find?_eq_some_iff_mem _ (nodup_map_eraseDupsBy _ _)).2 ⟨h, rfl⟩

/-- The declared edges are the own associations of each class, name by name. -/
theorem declaredEdges_eq (model : Model) :
    Graph.declaredEdges model = model.declaredNames.flatMap model.ownAssociations := by
  rw [declaredNames, ← map_eraseDupsBy, List.flatMap_map, Graph.declaredEdges]
  refine List.flatMap_congr ?_
  intro decl hdecl
  rw [ownAssociations, class?_of_mem_firstDeclarations hdecl]
  rfl

end Model

/-- Behind names already seen, what is not marked as repeated is the first of its name. -/
theorem AuditUnit.find?_of_mem_markRepeated {α : Type} {nameOf : α → String} {seen : List String}
    {l : List α} {a : α} (h : (a, false) ∈ markRepeated nameOf seen l) :
    l.find? (fun b => nameOf b == nameOf a) = some a := by
  induction l generalizing seen with
  | nil => cases h
  | cons b rest ih =>
    rw [List.find?_cons]
    rcases List.mem_cons.1 h with heq | hrest
    · obtain rfl := (Prod.mk.inj heq).1
      rw [beq_self_eq_true]
    · -- the name of `b` counts as seen behind it
      have hne : nameOf a ∉ nameOf b :: seen :=
        (nodup_markRepeated nameOf (nameOf b :: seen) rest).2 _ hrest rfl
      rw [beq_false_of_ne (List.ne_of_not_mem_cons hne).symm]
      exact ih hrest

/-- A class without flaws is the first of its name. -/
theorem AuditUnit.class?_of_isSound {model : Model} {decl : ClassDecl} {repeated : Bool}
    (h : classUnit decl repeated ∈ schedule model)
    (hsound : (classUnit decl repeated).isSound = true) :
    model.class? decl.qualifiedName = some decl := by
  have hrepeated : repeated = false := isRepeated_eq_false_of_isSound hsound
  subst hrepeated
  rcases List.mem_append.1 h with hclass | htemplate
  · obtain ⟨⟨decl', repeated⟩, hmarked, heq⟩ := List.mem_map.1 hclass
    obtain ⟨rfl, rfl⟩ := AuditUnit.classUnit.inj heq
    exact find?_of_mem_markRepeated hmarked
  · obtain ⟨marked, -, heq⟩ := List.mem_map.1 htemplate
    cases heq

theorem source_of_associationFlaws_eq_nil {name : String} {seen : List String}
    {edges : List Association} (h : associationFlaws name seen edges = []) :
    ∀ edge ∈ edges, edge.source = name := by
  induction edges generalizing seen with
  | nil => simp
  | cons edge rest ih =>
    rw [associationFlaws, List.append_eq_nil_iff, List.append_eq_nil_iff] at h
    obtain ⟨⟨hsource, -⟩, hrest⟩ := h
    refine List.forall_mem_cons.2 ⟨?_, ih hrest⟩
    simpa using hsource

/-- A class without flaws is the source of all its associations. -/
theorem AuditUnit.source_of_isSound {decl : ClassDecl} {repeated : Bool}
    (hsound : (classUnit decl repeated).isSound = true) :
    ∀ edge ∈ decl.associations, edge.source = decl.qualifiedName := by
  have hflaws : decl.flaws repeated = [] := List.isEmpty_iff.1 hsound
  simp only [ClassDecl.flaws, List.append_eq_nil_iff] at hflaws
  exact source_of_associationFlaws_eq_nil hflaws.1.2

/-! ### Listings of the edges -/

namespace Graph

/-- A table that lists edges under their keys: under each key those that have it, in order, no key
without edges, and all together every edge as often as it occurs. -/
structure Lists (table : Table String (List Association)) (key : Association → String)
    (edges : List Association) : Prop where
  under : ∀ node, (table.get? node).getD [] = edges.filter fun edge => key edge == node
  inhabited : ∀ entry ∈ table.entries, entry.2 ≠ []
  perm : table.values.flatten.Perm edges

theorem lists_group (key : Association → String) (edges : List Association) :
    Lists (Table.group (edges.map fun edge => (key edge, edge))) key edges := by
  -- what is collected under a node, in terms of the edges themselves
  have hvalues : ∀ node, Table.valuesOf node (edges.map fun edge => (key edge, edge)) =
      edges.filter fun edge => key edge == node := by
    intro node
    simp [Table.valuesOf, List.filter_map, Function.comp_def, BEq.comm]
  refine ⟨?_, ?_, ?_⟩
  · intro node
    rw [Table.get?_group, hvalues]
    split
    · next hnil => exact hnil.symm
    · rfl
  · intro entry hentry
    exact (Table.of_mem_entries_group hentry).1
  · have hkeys : (edges.map fun edge => (key edge, edge)).map Prod.fst = edges.map key := by
      rw [List.map_map]
      rfl
    simp only [Table.values_group, hkeys, hvalues, ← map_eraseDupsBy, List.map_map]
    exact flatMap_filter_perm key edges

end Graph

/-! ### The graph and the index -/

theorem MethodIndex.get?_ofModel_eq_none_iff {model : Model} {className name : String} :
    (ofModel model).get? className name = none ↔
      ∀ decl, model.class? className = some decl → ∀ method ∈ decl.methods, method.name ≠ name := by
  rw [get?_ofModel, Option.bind_eq_none_iff]
  refine forall₂_congr fun decl _ => ?_
  simp [ClassDecl.method?]

theorem Graph.edges_ofModel (model : Model) :
    (ofModel model).edges =
      model.declaredNames.flatMap fun name => (model.ownAssociations name).map model.resolved := by
  show (declaredEdges model).map (resolve model.classNames) = _
  rw [Model.declaredEdges_eq, Model.resolve_classNames, List.map_flatMap]

/-- In a class without flaws an accessor leads to its first association. -/
theorem Graph.edge?_of_isSound {model : Model} {decl : ClassDecl} {repeated : Bool}
    (h : .classUnit decl repeated ∈ AuditUnit.schedule model)
    (hsound : (AuditUnit.classUnit decl repeated).isSound = true) (accessor : String) :
    (ofModel model).edge? decl.qualifiedName accessor =
      (decl.association? accessor).map model.resolved := by
  -- the associations of a sound class are all its own, so their source is no condition
  have hsource : ∀ edge ∈ decl.associations,
      (edge.source == decl.qualifiedName && edge.accessor == accessor) =
        (edge.accessor == accessor) := by
    intro edge hedge
    rw [AuditUnit.source_of_isSound hsound edge hedge, beq_self_eq_true, Bool.true_and]
  rw [edge?_ofModel, AuditUnit.class?_of_isSound h hsound, Model.resolve_classNames]
  show (decl.associations.find? _).map _ = _
  rw [← List.head?_filter, List.filter_congr hsource, List.head?_filter]
  rfl

/-- Two classes.  The order is declared twice, with an association that is declared twice as
unresolved, and one of another class; the customer has associations to an order and to a bank, both
declared the wrong way round. -/
def Model.doubled : Model :=
  let place : Location := ⟨.ofText "app/order.rb", 1, 0⟩
  let entry (name : String) (associations : List Association) : ClassDecl :=
    { qualifiedName := name, associations, methods := [], layer := .model, location := place }
  let customer : Association :=
    { source := "Order", target := "Customer", kind := .belongsTo, accessor := "customer"
      resolved := false, note := some "unchecked" }
  { classes :=
      [entry "Order" [customer, { customer with source := "Customer" }, customer],
       entry "Customer"
         [{ source := "Customer", target := "Bank", kind := .belongsTo, accessor := "bank" },
          { source := "Customer", target := "Order", kind := .ownsMany, accessor := "orders"
            resolved := false }],
       entry "Order" [{ customer with accessor := "payer" }]] }

namespace Model

/-- The graph and the method index of a model answer like plain look-ups in its classes.  A method
is the first of its name in the first class of its name.  The edges are the own associations of the
first declaration of each class, in order, and only whether they are resolved, and the note, is
found anew.  They are listed by source and by node, each time all of them and none too often.  In a
class without flaws, which is the first of its name, an accessor leads to its first association. -/
theorem lookups_plain (model : Model) :
    let graph := Graph.ofModel model
    let index := MethodIndex.ofModel model
    (∀ className name,
      index.get? className name = (model.class? className).bind (fun decl => decl.method? name) ∧
      (index.get? className name = none ↔
        ∀ decl, model.class? className = some decl → ∀ method ∈ decl.methods,
          method.name ≠ name)) ∧
    graph.edges =
      model.declaredNames.flatMap (fun name => (model.ownAssociations name).map model.resolved) ∧
    (∀ edge, model.resolved edge =
        { edge with
          resolved := (model.resolved edge).resolved
          note := (model.resolved edge).note } ∧
      ((model.resolved edge).resolved = true ↔
        ∃ decl ∈ model.classes, decl.qualifiedName = edge.target) ∧
      (model.resolved edge).note.isSome = !(model.resolved edge).resolved) ∧
    (∀ className, graph.edgesFrom className =
      graph.edges.filter (fun edge => edge.source == className)) ∧
    (∀ node, graph.edgesTo node =
      graph.edges.filter (fun edge => Graph.targetNode edge == node)) ∧
    Graph.Lists graph.outgoing Association.source graph.edges ∧
    Graph.Lists graph.incoming Graph.targetNode graph.edges ∧
    ∀ decl repeated, .classUnit decl repeated ∈ AuditUnit.schedule model →
      (AuditUnit.classUnit decl repeated).isSound = true →
      model.class? decl.qualifiedName = some decl ∧
      ∀ accessor, graph.edge? decl.qualifiedName accessor =
        (decl.association? accessor).map model.resolved := by
  intro graph index
  have houtgoing : Graph.Lists graph.outgoing Association.source graph.edges :=
    Graph.lists_group Association.source _
  have hincoming : Graph.Lists graph.incoming Graph.targetNode graph.edges :=
    Graph.lists_group Graph.targetNode _
  refine ⟨?_, Graph.edges_ofModel model, model.resolved_spec, houtgoing.under, hincoming.under,
    houtgoing, hincoming, ?_⟩
  · intro className name
    exact ⟨MethodIndex.get?_ofModel model className name, MethodIndex.get?_ofModel_eq_none_iff⟩
  · intro decl repeated hunit hsound
    exact ⟨AuditUnit.class?_of_isSound hunit hsound, Graph.edge?_of_isSound hunit hsound⟩

theorem lookups_plain_doubled :
    let graph := Graph.ofModel doubled
    let customer : Association :=
      { source := "Order", target := "Customer", kind := .belongsTo, accessor := "customer" }
    let orders : Association :=
      { source := "Customer", target := "Order", kind := .ownsMany, accessor := "orders" }
    let bank : Association :=
      { source := "Customer", target := "Bank", kind := .belongsTo, accessor := "bank"
        resolved := false, note := some (Graph.outsideNote "Bank") }
    graph.edges = [customer, customer, bank, orders] ∧
    graph.edgesFrom "Order" = [customer, customer] ∧
    graph.edgesTo externalNode = [bank] ∧
    .classUnit doubled.classes[1] false ∈ AuditUnit.schedule doubled ∧
    (AuditUnit.classUnit doubled.classes[1] false).isSound = true ∧
    graph.edge? "Customer" "orders" = some orders := by
  intro graph customer orders bank
  obtain ⟨-, hedges, -, hfrom, hto, -, -, hsound⟩ := lookups_plain doubled
  have hall : graph.edges = [customer, customer, bank, orders] := hedges.trans (by rfl)
  have hunit : .classUnit doubled.classes[1] false ∈ AuditUnit.schedule doubled := by decide
  have hclean : (AuditUnit.classUnit doubled.classes[1] false).isSound = true := by decide
  refine ⟨hall, ?_, ?_, hunit, hclean, (hsound _ false hunit hclean).2 "orders"⟩
  · rw [hfrom, hall]
    rfl
  · rw [hto, hall]
    rfl

end Model

end ObjectAudit
