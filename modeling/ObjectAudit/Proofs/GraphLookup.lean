/-
ObjectAudit/Proofs/GraphLookup.lean

What the graph and the method index of a model answer.  The nodes are the declared classes
and the outside node (`mem_nodes_ofModel`), an accessor leads to the first edge that the first
class of its name declares with it (`edge?_ofModel`), and a method is the first of its name in
the first class of its name (`MethodIndex.get?_ofModel`).

The graph of every model meets its requirements (`wellFormed_ofModel`), whatever the model
declares: an edge enters it only from the class that it names as its source, and is resolved
exactly if its target is declared.
-/
import ObjectAudit.Proofs.Requirements
import ObjectAudit.Proofs.Tables

namespace ObjectAudit

open Text

namespace Graph

/-! ### Resolved edges -/

@[simp] theorem resolve_source (names : List String) (edge : Association) :
    (resolve names edge).source = edge.source := by
  unfold resolve
  split <;> rfl

@[simp] theorem resolve_target (names : List String) (edge : Association) :
    (resolve names edge).target = edge.target := by
  unfold resolve
  split <;> rfl

@[simp] theorem resolve_accessor (names : List String) (edge : Association) :
    (resolve names edge).accessor = edge.accessor := by
  unfold resolve
  split <;> rfl

/-- An edge is resolved exactly if its target is declared. -/
@[simp] theorem resolve_resolved (names : List String) (edge : Association) :
    (resolve names edge).resolved = names.contains edge.target := by
  unfold resolve
  split <;> simp_all [Association.asResolved, Association.asUnresolved]

theorem wellFormed_resolve (names : List String) {edge : Association} (h : WellFormed edge) :
    WellFormed (resolve names edge) := by
  obtain ⟨hsource, htarget, haccessor, -⟩ := Association.wellFormed_iff.1 h
  refine Association.wellFormed_iff.2 ⟨?_, ?_, ?_, ?_⟩
  · rwa [resolve_source]
  · rwa [resolve_target]
  · rwa [resolve_accessor]
  · unfold resolve
    split <;> simp [Association.asResolved, Association.asUnresolved]

/-! ### The graph of some edges -/

theorem mem_nodes_ofEdges {edges : List Association} {names : List String} {node : String} :
    node ∈ (ofEdges edges names).nodes ↔
      node = externalNode ∨ node ∈ names ∨ ∃ edge ∈ edges, edge.source = node := by
  simp [ofEdges]

/-- An accessor leads to the first edge that its class declares with it. -/
theorem edge?_ofEdges (edges : List Association) (names : List String)
    (source accessor : String) :
    (ofEdges edges names).edge? source accessor =
      edges.find? fun edge => (source, accessor) == (edge.source, edge.accessor) := by
  show (Table.ofListNew _).get? _ = _
  rw [Table.get?_ofListNew, Table.lookup_map_self]

/-- A graph of edges meets its requirements if its resolved edges end at its classes. -/
theorem wellFormed_ofEdges {edges : List Association} {names : List String}
    (h : ∀ edge ∈ edges, edge.resolved = true → edge.target ∈ names) :
    WellFormed (ofEdges edges names) := by
  refine wellFormed_iff.2 ⟨?_, ?_, ?_, ?_⟩
  · exact mem_nodes_ofEdges.2 (.inl rfl)
  · intro edge hedge
    refine ⟨mem_nodes_ofEdges.2 (.inr (.inr ⟨edge, hedge, rfl⟩)), ?_⟩
    intro hresolved
    exact mem_nodes_ofEdges.2 (.inr (.inl (h edge hedge hresolved)))
  · rintro ⟨node, declared⟩ hentry edge hedge
    have hmem := (Table.of_mem_entries_group hentry).2 edge hedge
    obtain ⟨edge', hedge', heq⟩ := List.mem_map.1 hmem
    obtain ⟨hsource, rfl⟩ := Prod.mk.inj heq
    exact ⟨hedge', hsource⟩
  · rintro ⟨⟨source, accessor⟩, edge⟩ hentry
    -- an entry is what its key leads to, so it matches the key
    have hget := Table.get?_eq_some_iff.2 hentry
    have hfind := (edge?_ofEdges edges names source accessor).symm.trans hget
    have hkey := List.find?_some hfind
    obtain ⟨hsource, haccessor⟩ := Prod.mk.inj (eq_of_beq hkey)
    exact ⟨List.mem_of_find?_eq_some hfind, hsource.symm, haccessor.symm⟩

/-! ### The graph of a model -/

/-- An edge enters the graph from a class that declares it as its own. -/
theorem exists_of_mem_declaredEdges {model : Model} {edge : Association}
    (h : edge ∈ declaredEdges model) :
    ∃ decl ∈ model.classes, edge ∈ decl.associations ∧ edge.source = decl.qualifiedName := by
  obtain ⟨decl, hdecl, hedge⟩ := List.mem_flatMap.1 h
  obtain ⟨hmem, hsource⟩ := List.mem_filter.1 hedge
  exact ⟨decl, (eraseDupsBy_sublist _ _).subset hdecl, hmem, eq_of_beq hsource⟩

theorem mem_classNames {model : Model} {name : String} :
    name ∈ model.classNames ↔ ∃ decl ∈ model.classes, decl.qualifiedName = name := by
  simp [Model.classNames]

/-- The graph of every model meets its requirements. -/
theorem wellFormed_ofModel (model : Model) : WellFormed (ofModel model) := by
  refine wellFormed_ofEdges ?_
  intro edge hedge hresolved
  obtain ⟨declared, -, rfl⟩ := List.mem_map.1 hedge
  simpa using hresolved

theorem wellFormed_of_mem_edges {model : Model} (h : model.Admissible) {edge : Association}
    (hedge : edge ∈ (ofModel model).edges) : WellFormed edge := by
  obtain ⟨declared, hdeclared, rfl⟩ := List.mem_map.1 hedge
  obtain ⟨decl, hdecl, hmem, -⟩ := exists_of_mem_declaredEdges hdeclared
  exact wellFormed_resolve _ ((h.classes decl hdecl).associations declared hmem)

theorem mem_nodes_ofModel {model : Model} {node : String} :
    node ∈ (ofModel model).nodes ↔ node = externalNode ∨ node ∈ model.classNames := by
  rw [ofModel, mem_nodes_ofEdges]
  constructor
  · rintro (hnode | hnode | ⟨edge, hedge, rfl⟩)
    · exact .inl hnode
    · exact .inr hnode
    · obtain ⟨declared, hdeclared, rfl⟩ := List.mem_map.1 hedge
      obtain ⟨decl, hdecl, -, hsource⟩ := exists_of_mem_declaredEdges hdeclared
      exact .inr (mem_classNames.2 ⟨decl, hdecl, by rw [resolve_source, hsource]⟩)
  · rintro (hnode | hnode)
    · exact .inl hnode
    · exact .inr (.inl hnode)

/-- A name is that of an audited class exactly if it is declared and not the outside
node's. -/
theorem hasClass_ofModel {model : Model} {name : String} :
    (ofModel model).hasClass name = true ↔ name ≠ externalNode ∧ name ∈ model.classNames := by
  simp only [hasClass, Bool.and_eq_true, bne_iff_ne, List.contains_iff_mem, mem_nodes_ofModel]
  constructor
  · rintro ⟨hne, hnode | hnode⟩
    · exact absurd hnode hne
    · exact ⟨hne, hnode⟩
  · rintro ⟨hne, hnode⟩
    exact ⟨hne, .inr hnode⟩

/-- An accessor leads to the first edge of its class that names the class as its source. -/
theorem edge?_ofModel (model : Model) (source accessor : String) :
    (ofModel model).edge? source accessor =
      ((model.class? source).bind fun decl => decl.associations.find? fun edge =>
        edge.source == source && edge.accessor == accessor).map (resolve model.classNames) := by
  have hmatch : ∀ edge : Association, ((source, accessor) == (edge.source, edge.accessor)) =
      (edge.source == source && edge.accessor == accessor) := by
    intro edge
    show (source == edge.source && accessor == edge.accessor) = _
    rw [BEq.comm (a := source), BEq.comm (a := accessor)]
  rw [ofModel, edge?_ofEdges, List.find?_map, declaredEdges, firstDeclarations]
  simp only [Function.comp_def, resolve_source, resolve_accessor, hmatch]
  apply congrArg
  -- only the class of that name can declare such an edge
  rw [List.find?_flatMap, findSome?_eq_bind_find? ClassDecl.qualifiedName
    (nodup_map_eraseDupsBy _ _) source, find?_eraseDupsBy]
  · cases hdecl : model.classes.find? fun decl => decl.qualifiedName == source with
    | none => rw [Model.class?, hdecl]; rfl
    | some decl =>
      have hname := List.find?_some hdecl
      rw [Model.class?, hdecl]
      show List.find? _ (List.filter _ _) = List.find? _ _
      rw [List.find?_filter, eq_of_beq hname]
      congr 1
      funext edge
      cases edge.source == source <;> cases edge.accessor == accessor <;> rfl
  · intro decl _ hne
    rw [List.find?_filter]
    refine List.find?_eq_none.2 ?_
    intro edge _ hedge
    simp only [Bool.and_eq_true, beq_iff_eq, decide_eq_true_eq] at hedge
    exact hne (hedge.1.symm.trans hedge.2.1)

end Graph

namespace MethodIndex

/-- A method is the first of its name in the first class of its name. -/
theorem get?_ofModel (model : Model) (className methodName : String) :
    (ofModel model).get? className methodName =
      (model.class? className).bind fun decl => decl.method? methodName := by
  have hmethods : ∀ decl : ClassDecl,
      (ofMethods decl.methods).get? methodName = decl.method? methodName := by
    intro decl
    rw [ofMethods, Table.get?_ofListNew, Table.lookup_map_self, ClassDecl.method?]
    simp only [BEq.comm (a := methodName)]
  rw [get?, ofModel, Table.get?_ofListNew,
    Table.lookup_map ClassDecl.qualifiedName fun decl => ofMethods decl.methods]
  simp only [BEq.comm (a := className), Option.bind_map, Model.class?]
  congr 1
  funext decl
  exact hmethods decl

end MethodIndex

end ObjectAudit
