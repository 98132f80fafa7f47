/-
ObjectAudit/Proofs/OutsideNode.lean

The node for everything outside, next to the nodes of the classes.

The outside node has a name, and names of classes are not restricted: a class may have the same
one.  Three places tell the outside node from a class by this name alone: the node that an edge
points at, the question whether a class is audited, and the walk, which stops at the outside node.

Where no class has the name, the outside node is apart from all classes
(`Model.OutsideApart`): exactly the unresolved edges point at it, exactly the declared classes are
audited, and a walk goes on behind every resolved edge.  A class of that name is taken for the
outside in all three places (`walkFrom_association`), so that no model with one keeps it apart.

Main result: `Model.outsideApart_iff`.
-/
import ObjectAudit.Proofs.Shortcuts

namespace ObjectAudit

variable {model : Model}

/-! ### Edges, classes and walks -/

theorem Graph.targetNode_eq_externalNode_iff {edge : Association} :
    targetNode edge = externalNode ↔ edge.resolved = false ∨ edge.target = externalNode := by
  unfold targetNode
  cases edge.resolved <;> simp

theorem Graph.targetNode_of_resolved {edge : Association} (h : edge.resolved = true) :
    targetNode edge = edge.target :=
  if_pos h

theorem Graph.hasClass_iff_declared {name : String} :
    (ofModel model).hasClass name = true ↔
      name ≠ externalNode ∧ ∃ decl ∈ model.classes, decl.qualifiedName = name := by
  rw [hasClass_ofModel, mem_classNames]

/-- Behind a resolved association the walk goes on from the target, unless this has the name of
the outside node. -/
theorem walkFrom_association {graph : Graph} {methods : MethodIndex} {current name : String}
    {edge : Association} (h : graph.edge? current name = some edge)
    (hresolved : edge.resolved = true) (rest : List String) :
    walkFrom graph methods current (name :: rest) =
      (if edge.target = externalNode then {} else walkFrom graph methods edge.target rest).addHop
        ⟨edge, edge.target, !edge.isSelfReference⟩ := by
  rw [walkFrom, h]
  dsimp only
  rw [Graph.targetNode_of_resolved hresolved]
  split <;> rfl

/-! ### Models that keep the outside apart -/

/-- No class is taken for the outside, in the graph of a model and on walks over it. -/
structure Model.OutsideApart (model : Model) : Prop where
  targetNode_iff : ∀ edge ∈ (Graph.ofModel model).edges,
    Graph.targetNode edge = externalNode ↔ edge.resolved = false
  hasClass_iff : ∀ name, (Graph.ofModel model).hasClass name = true ↔
    ∃ decl ∈ model.classes, decl.qualifiedName = name
  /-- A walk goes on from the target of a resolved edge, with the next name. -/
  crosses : ∀ current name edge, (Graph.ofModel model).edge? current name = some edge →
    edge.resolved = true → ∀ rest,
      walkFrom (.ofModel model) (.ofModel model) current (name :: rest) =
        (walkFrom (.ofModel model) (.ofModel model) edge.target rest).addHop
          ⟨edge, edge.target, !edge.isSelfReference⟩
  /-- So does the measure of a call site, at whatever class its walk has come to. -/
  measures : ∀ (site : CallSite) owner start strides edge rest,
    startClass? (.ofModel model) site owner = some start →
    Walks model (some start) strides (some edge.source) →
    (Graph.ofModel model).edge? edge.source edge.accessor = some edge → edge.resolved = true →
    site.chain = strides.map Stride.name ++ edge.accessor :: rest → 2 ≤ site.chain.length →
    ∀ subject method,
      (measure? (.ofModel model) (.ofModel model) site subject method owner).elim []
          AccessChain.hops =
        strides.filterMap Stride.hop? ++ ⟨edge, edge.target, edge.source != edge.target⟩ ::
          (walkFrom (.ofModel model) (.ofModel model) edge.target rest).hops

/-- The hops of a call site whose walk crosses a resolved edge: those before the edge, its own, and
those from its target on. -/
theorem hops_measure?_of_resolved (hexternal : externalNode ∉ model.classNames) {site : CallSite}
    {owner : Option String} {start : String} {strides : List Stride} {edge : Association}
    {rest : List String} (hstart : startClass? (.ofModel model) site owner = some start)
    (hwalks : Walks model (some start) strides (some edge.source))
    (hedge : (Graph.ofModel model).edge? edge.source edge.accessor = some edge)
    (hresolved : edge.resolved = true)
    (hchain : site.chain = strides.map Stride.name ++ edge.accessor :: rest)
    (hlength : 2 ≤ site.chain.length) (subject : String) (method : Option String) :
    (measure? (.ofModel model) (.ofModel model) site subject method owner).elim []
        AccessChain.hops =
      strides.filterMap Stride.hop? ++ ⟨edge, edge.target, edge.source != edge.target⟩ ::
        (walkFrom (.ofModel model) (.ofModel model) edge.target rest).hops := by
  rw [Graph.edge?_ofModel_eq] at hedge
  -- crossing the association is one stride more
  have hcrossing : Walks model (some edge.source) [.hop edge] (some edge.target) :=
    .step (.cross hedge hresolved) (.stay _)
  have hhop : [Stride.hop edge].filterMap Stride.hop? =
      [⟨edge, edge.target, edge.source != edge.target⟩] := by
    simp [Stride.hop?, hresolved]
  have hnames : site.chain = (strides ++ [Stride.hop edge]).map Stride.name ++ rest := by
    rw [hchain, List.map_append, List.append_assoc]
    rfl
  have hhops := hops_measure?_of_walks hexternal hstart (hwalks.append hcrossing) hnames
    (fun hshort => absurd hlength (Nat.not_le.2 hshort)) subject method
  rw [List.filterMap_append, hhop, List.append_assoc] at hhops
  exact hhops

/-- Where no class has the name of the outside node, the outside is kept apart. -/
theorem Model.outsideApart_of_ne (h : ∀ decl ∈ model.classes, decl.qualifiedName ≠ externalNode) :
    model.OutsideApart := by
  have hexternal : externalNode ∉ model.classNames := by
    rw [Graph.mem_classNames]
    rintro ⟨decl, hdecl, hname⟩
    exact h decl hdecl hname
  refine ⟨?_, ?_, ?_, ?_⟩
  · intro edge hedge
    rw [Graph.targetNode_eq_externalNode_iff, or_iff_left_iff_imp]
    -- an edge to the outside node by name is unresolved, as there is no such class
    intro htarget
    obtain ⟨declared, -, rfl⟩ := List.mem_map.1 hedge
    rw [Graph.resolve_target] at htarget
    rw [Graph.resolve_resolved, htarget]
    simpa using hexternal
  · intro name
    rw [Graph.hasClass_iff_declared, and_iff_right_iff_imp]
    rintro ⟨decl, hdecl, rfl⟩
    exact h decl hdecl
  · intro current name edge hedge hresolved rest
    have hinside : edge.target ≠ externalNode := by
      intro htarget
      rw [Graph.edge?_ofModel_eq] at hedge
      obtain ⟨-, -, -, hiff⟩ := of_edge?_eq_some hedge
      exact hexternal (htarget ▸ hiff.1 hresolved)
    rw [walkFrom_association hedge hresolved, if_neg hinside]
  · intro site owner start strides edge rest hstart hwalks hedge hresolved hchain hlength
    exact hops_measure?_of_resolved hexternal hstart hwalks hedge hresolved hchain hlength

/-- A class that has the name of the outside node is not audited. -/
theorem Model.OutsideApart.ne (h : model.OutsideApart) :
    ∀ decl ∈ model.classes, decl.qualifiedName ≠ externalNode := by
  intro decl hdecl hname
  have haudited := (h.hasClass_iff decl.qualifiedName).2 ⟨decl, hdecl, rfl⟩
  exact (Graph.hasClass_iff_declared.1 haudited).1 hname

/-! ### A class with the name of the outside node -/

/-- An order is paid through a gateway, whose class has the name of the outside node, in some
currency. -/
def Model.outsideNamed : Model :=
  let place : Location := ⟨.ofText "app/order.rb", 1, 0⟩
  let entry (name : String) (associations : List Association) : ClassDecl :=
    { qualifiedName := name, associations, methods := [], layer := .model, location := place }
  { classes :=
      [entry "Order" [.link "Order" "gateway" externalNode],
       entry externalNode [.link externalNode "currency" "Currency"],
       entry "Currency" []] }

theorem Model.mem_classNames_outsideNamed {name : String} :
    name ∈ outsideNamed.classNames ↔ name ∈ ["Order", externalNode, "Currency"] := by
  rw [Graph.mem_classNames]
  simp [outsideNamed, eq_comm]

theorem Model.edge?_outsideNamed :
    (Graph.ofModel outsideNamed).edge? "Order" "gateway" =
        some (.link "Order" "gateway" externalNode) ∧
      (Graph.ofModel outsideNamed).edge? externalNode "currency" =
        some (.link externalNode "currency" "Currency") := by
  rw [Graph.edge?_ofModel_eq, Graph.edge?_ofModel_eq]
  exact ⟨edge?_eq_link rfl (mem_classNames_outsideNamed.2 (by decide)),
    edge?_eq_link rfl (mem_classNames_outsideNamed.2 (by decide))⟩

/-- A class with the name of the outside node is taken for the outside.  It is declared and not
audited, the resolved edge to it points at the outside node, and of the gateway and its currency a
measure finds only the gateway, although the walk from its class finds the currency. -/
theorem Model.outsideNamed_not_apart :
    outsideNamed.Admissible ∧ ¬ outsideNamed.OutsideApart ∧
    (∃ decl ∈ outsideNamed.classes, decl.qualifiedName = externalNode) ∧
    (Graph.ofModel outsideNamed).hasClass externalNode = false ∧
    let gateway := Association.link "Order" "gateway" externalNode
    gateway ∈ (Graph.ofModel outsideNamed).edges ∧ gateway.resolved = true ∧
    Graph.targetNode gateway = externalNode ∧
    (walkFrom (.ofModel outsideNamed) (.ofModel outsideNamed) gateway.target ["currency"]).hops =
      [⟨.link externalNode "currency" "Currency", "Currency", true⟩] ∧
    (measure? (.ofModel outsideNamed) (.ofModel outsideNamed)
        { origin := .self, root := "self", chain := ["gateway", "currency"], line := 3 } "Order"
        (some "pay") (some "Order")).map AccessChain.hops =
      some [⟨gateway, externalNode, true⟩] := by
  obtain ⟨hgateway, hcurrency⟩ := edge?_outsideNamed
  have hdeclared : ∃ decl ∈ outsideNamed.classes, decl.qualifiedName = externalNode :=
    ⟨outsideNamed.classes[1], by decide, rfl⟩
  have hedges : Association.link "Order" "gateway" externalNode ∈
      (Graph.ofModel outsideNamed).edges := by
    refine List.mem_map.2 ⟨_, List.mem_cons_self, ?_⟩
    rw [Graph.resolve, if_pos]
    · rfl
    · exact List.contains_iff_mem.2 (mem_classNames_outsideNamed.2 (by decide))
  have hstart : (Graph.ofModel outsideNamed).hasClass "Order" = true :=
    Graph.hasClass_ofModel.2 ⟨by decide, mem_classNames_outsideNamed.2 (by decide)⟩
  refine ⟨by decide, ?_, hdeclared, ?_, hedges, rfl, rfl, ?_, ?_⟩
  · intro hapart
    obtain ⟨decl, hdecl, hname⟩ := hdeclared
    exact hapart.ne decl hdecl hname
  · exact Bool.eq_false_iff.2 fun haudited => (Graph.hasClass_ofModel.1 haudited).1 rfl
  · exact congrArg Walk.hops (walkFrom_association hcurrency rfl [])
  · -- the walk ends at the node for all that is outside, though a class has its name
    have hwalk := @walkFrom_association _ (.ofModel outsideNamed) _ _ _ hgateway rfl ["currency"]
    simp only [measure?, startClass?, Option.filter, hstart, if_true, hwalk]
    rfl

/-! ### Main result -/

/-- The outside is kept apart from the classes exactly in the models without a class of its name.
Elsewhere such a class is taken for the outside: an edge points at the outside node if it is
unresolved or leads to a class of that name, such a class is the only one that is declared and not
audited, and a walk goes on behind a resolved edge unless this leads to it. -/
theorem Model.outsideApart_iff (model : Model) :
    (model.OutsideApart ↔ ∀ decl ∈ model.classes, decl.qualifiedName ≠ externalNode) ∧
    (∀ edge ∈ (Graph.ofModel model).edges, Graph.targetNode edge = externalNode ↔
      edge.resolved = false ∨ edge.target = externalNode) ∧
    (∀ name, (Graph.ofModel model).hasClass name = true ↔
      name ≠ externalNode ∧ ∃ decl ∈ model.classes, decl.qualifiedName = name) ∧
    ∀ current name edge, (Graph.ofModel model).edge? current name = some edge →
      edge.resolved = true → ∀ rest,
        walkFrom (.ofModel model) (.ofModel model) current (name :: rest) =
          (if edge.target = externalNode then {}
            else walkFrom (.ofModel model) (.ofModel model) edge.target rest).addHop
              ⟨edge, edge.target, !edge.isSelfReference⟩ := by
  refine ⟨⟨OutsideApart.ne, outsideApart_of_ne⟩, ?_, ?_, ?_⟩
  · exact fun edge _ => Graph.targetNode_eq_externalNode_iff
  · exact fun name => Graph.hasClass_iff_declared
  · exact fun current name edge hedge hresolved => walkFrom_association hedge hresolved

theorem Model.outsideApart_iff_circular :
    (∀ decl ∈ circular.classes, decl.qualifiedName ≠ externalNode) ∧ circular.OutsideApart ∧
    (Graph.ofModel outsideNamed).edge? "Order" "gateway" =
      some (.link "Order" "gateway" externalNode) ∧
    walkFrom (.ofModel outsideNamed) (.ofModel outsideNamed) "Order" ["gateway", "currency"] =
      { hops := [⟨.link "Order" "gateway" externalNode, externalNode, true⟩] } := by
  have hnames : ∀ decl ∈ circular.classes, decl.qualifiedName ≠ externalNode := by decide
  obtain ⟨-, -, -, hwalk⟩ := outsideApart_iff outsideNamed
  exact ⟨hnames, (outsideApart_iff circular).1.2 hnames, edge?_outsideNamed.1,
    hwalk _ _ _ edge?_outsideNamed.1 rfl ["currency"]⟩

end ObjectAudit
