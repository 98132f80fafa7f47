/-
ObjectAudit/Proofs/SyntheticRow.lean

A row of classes of any size, from the snapshot to the look-ups of an audit.

    class i:   next(i+1) : class i+1
               find_by_code, to_csv
               label = self.next(i+1).next(i+2).name

Each class of the row is associated with the next one and reaches through it to the one after
that; the last class has no association, and the last two reach nowhere.  The snapshot is read
as the classes described here (`read_synthetic`).  Names are told apart by their digits, so
every class and accessor is found again (`class?_model`, `edge?_model`), every chain walks two
hops (`measure?_site`), and no two methods of a class fall into one cluster (`clusters_decl`).
-/
import ObjectAudit.Proofs.Accounting
import ObjectAudit.Proofs.DeclarationOrder
import ObjectAudit.Proofs.SnapshotLayout
import ObjectAudit.Snapshot.Synthetic

namespace ObjectAudit

namespace SyntheticRow

open Snapshot (accessorAt syntheticClass synthetic)

/-! ### The row -/

/-- The name of the class at a position. -/
def className (position : Nat) : String := s!"Model{position}"

/-- How a class is associated with the next one. -/
def edge (position : Nat) : Association :=
  { source := className position, target := className (position + 1), kind := .belongsTo
    accessor := accessorAt (position + 1) }

/-- How a class reaches to the one after the next. -/
def site (position : Nat) : CallSite :=
  { origin := .self, root := "self", line := 5
    chain := [accessorAt (position + 1), accessorAt (position + 2), "name"] }

@[simp] theorem source_edge (position : Nat) : (edge position).source = className position := rfl

@[simp] theorem target_edge (position : Nat) :
    (edge position).target = className (position + 1) := rfl

@[simp] theorem accessor_edge (position : Nat) :
    (edge position).accessor = accessorAt (position + 1) := rfl

/-- The place of the class at a position. -/
def location (position : Nat) : Location := ⟨.ofText s!"app/models/model{position}.rb", 1, 0⟩

section Row

variable (size position : Nat)

/-- The associations of a class: the last one has none. -/
def edges : List Association := if position + 1 < size then [edge position] else []

/-- The call sites of a class: the last two have none. -/
def sites : List CallSite := if position + 2 < size then [site position] else []

def finder : Method :=
  { name := "find_by_code", owner := some (className position), line := 2, isClassLevel := true }

def conversion : Method := { name := "to_csv", owner := some (className position), line := 3 }

def label : Method :=
  { name := "label", owner := some (className position), line := 4
    callSites := sites size position }

/-- The class at a position. -/
def decl : ClassDecl :=
  { qualifiedName := className position
    associations := edges size position
    methods := [finder position, conversion position, label size position]
    layer := .model
    location := location position }

/-- The classes of the row. -/
def model : Model := { classes := (List.range size).map (decl size) }

end Row

/-! ### Names -/

theorem toList_className (position : Nat) :
    (className position).toList = ['M', 'o', 'd', 'e', 'l'] ++ Nat.toDigits 10 position := by
  rw [className, String.toList_append, Nat.toString_eq_repr, Nat.toList_repr]
  rfl

theorem toList_accessorAt (position : Nat) :
    (accessorAt position).toList = ['n', 'e', 'x', 't'] ++ Nat.toDigits 10 position := by
  rw [accessorAt, String.toList_append, Nat.toString_eq_repr, Nat.toList_repr]
  rfl

theorem className_injective : Function.Injective className := by
  intro i j h
  have hdigits : Nat.toDigits 10 i = Nat.toDigits 10 j := by
    have hchars := congrArg String.toList h
    rw [toList_className, toList_className] at hchars
    exact List.append_cancel_left hchars
  calc
    i = Nat.ofDigitChars 10 (Nat.toDigits 10 i) 0 := Nat.ofDigitChars_ten_toDigits.symm
    _ = Nat.ofDigitChars 10 (Nat.toDigits 10 j) 0 := by rw [hdigits]
    _ = j := Nat.ofDigitChars_ten_toDigits

/-- No class has the name of the outside node, and none is without a name. -/
theorem className_ne (position : Nat) {name : String} (h : name ∈ ["", externalNode]) :
    className position ≠ name := by
  rintro rfl
  have hchars := List.mem_map_of_mem (f := String.toList) h
  simp [toList_className, externalNode] at hchars

/-- No accessor is the name of a method or of the last call of a site, and none is empty. -/
theorem accessorAt_ne (position : Nat) {name : String}
    (h : name ∈ ["", "find_by_code", "to_csv", "label", "name"]) : accessorAt position ≠ name := by
  rintro rfl
  have hchars := List.mem_map_of_mem (f := String.toList) h
  simp [toList_accessorAt] at hchars

/-! ### Reading -/

section Reading

open Snapshot

variable (size position : Nat)

/-- The fields of a call site. -/
def siteFields : List (Text × Json) :=
  [("origin", .str "self"),
   ("chain", .ofTexts [accessorAt (position + 1), accessorAt (position + 2), "name"]),
   ("line", .int 5)]

/-- The fields of an association. -/
def edgeFields : List (Text × Json) :=
  [("accessor", .str (accessorAt (position + 1))), ("target", .str (className (position + 1))),
   ("kind", .str "belongs-to")]

/-- The fields of the method with the call site. -/
def labelFields : List (Text × Json) :=
  [("name", .str "label"), ("line", .int 4),
   ("call_sites", .arr (if position + 2 < size then [.obj (siteFields position)] else []))]

/-- The fields of a class. -/
def classFields : List (Text × Json) :=
  [("name", .str (className position)), ("layer", .str "model"),
   ("file", .str s!"app/models/model{position}.rb"),
   ("associations", .arr (if position + 1 < size then [.obj (edgeFields position)] else [])),
   ("methods", .arr
     [.obj [("name", .str "find_by_code"), ("class_level", .bool true), ("line", .int 2)],
      .obj [("name", .str "to_csv"), ("line", .int 3)],
      .obj (labelFields size position)])]

theorem wellFormed_site : WellFormed (site position) := by
  have hne : ∀ position, "" ≠ accessorAt position := fun position =>
    (accessorAt_ne position (by simp)).symm
  have hchain : "" ∉ (site position).chain := by simp [site, hne]
  exact CallSite.wellFormed_iff.2
    ⟨by simp [site], by simp [site], hchain, by simp [site], fun _ => rfl⟩

theorem wellFormed_edge : WellFormed (edge position) :=
  Association.wellFormed_iff.2
    ⟨className_ne _ (by simp), className_ne _ (by simp), accessorAt_ne _ (by simp), fun _ => rfl⟩

theorem reads_site : Reads readCallSite (site position) (.obj (siteFields position)) := by
  intro path
  have horigin : readOrigin ⟨path, siteFields position⟩ = .ok .self := readOrigin_eq rfl
  have hroot : Place.textOr ⟨path, siteFields position⟩ "root" "self" = .ok "self" := rfl
  have hchain : Place.texts ⟨path, siteFields position⟩ "chain" = .ok (site position).chain :=
    Place.texts_eq rfl
  have hline : Place.integer ⟨path, siteFields position⟩ "line" = .ok 5 := Place.integer_eq rfl
  have hrootClass : Place.optionalText ⟨path, siteFields position⟩ "root_class" none = .ok none :=
    rfl
  have htarget : Place.optionalText ⟨path, siteFields position⟩ "target_class" none = .ok none :=
    rfl
  simp only [readCallSite, readObject, ok_bind, horigin, hroot, hchain, hline, hrootClass, htarget]
  exact build_eq path (wellFormed_site position)

theorem reads_edge :
    Reads (readAssociation (className position)) (edge position) (.obj (edgeFields position)) := by
  intro path
  have hsource : Place.textOr ⟨path, edgeFields position⟩ "source" (className position) =
      .ok (className position) := rfl
  have htarget : Place.text ⟨path, edgeFields position⟩ "target" =
      .ok (className (position + 1)) := Place.text_eq rfl
  have hkind : Place.choice ⟨path, edgeFields position⟩ "kind" AssociationKind.all
      AssociationKind.name = .ok .belongsTo := rfl
  have haccessor : Place.text ⟨path, edgeFields position⟩ "accessor" =
      .ok (accessorAt (position + 1)) := Place.text_eq rfl
  simp only [readAssociation, readObject, ok_bind, hsource, htarget, hkind, haccessor]
  exact build_eq path (wellFormed_edge position)

theorem reads_finder : Reads (readMethod (className position)) (finder position)
    (.obj [("name", .str "find_by_code"), ("class_level", .bool true), ("line", .int 2)]) :=
  fun _ => rfl

theorem reads_conversion : Reads (readMethod (className position)) (conversion position)
    (.obj [("name", .str "to_csv"), ("line", .int 3)]) :=
  fun _ => rfl

theorem reads_label :
    Reads (readMethod (className position)) (label size position)
      (.obj (labelFields size position)) := by
  intro path
  have hsites : Place.listOf ⟨path, labelFields size position⟩ "call_sites" readCallSite =
      .ok (sites size position) := by
    refine Place.listOf_eq (show Place.field? _ _ = some (.arr _) from rfl) ?_
    unfold sites
    split
    · exact .cons (reads_site position) .nil
    · exact .nil
  -- the other fields are fixed texts and numbers
  calc readMethod (className position) path (.obj (labelFields size position))
    _ = Place.listOf ⟨path, labelFields size position⟩ "call_sites" readCallSite >>=
          fun callSites => build path { label size position with callSites } := rfl
    _ = build path (label size position) := by rw [hsites, ok_bind]; rfl
    _ = .ok (label size position) := rfl

theorem reads_decl : Reads readClass (decl size position) (syntheticClass size position) := by
  intro path
  -- the last class of the row has no association
  have hedges : Place.listOf ⟨path, classFields size position⟩ "associations"
      (readAssociation (className position)) = .ok (edges size position) := by
    refine Place.listOf_eq (show Place.field? _ _ = some (.arr _) from rfl) ?_
    unfold edges
    split
    · exact .cons (reads_edge position) .nil
    · exact .nil
  have hmethods : Place.listOf ⟨path, classFields size position⟩ "methods"
      (readMethod (className position)) = .ok (decl size position).methods := by
    refine Place.listOf_eq (show Place.field? _ _ = some (.arr _) from rfl) ?_
    exact .cons (reads_finder position) <| .cons (reads_conversion position) <|
      .cons (reads_label size position) .nil
  have hdecl : WellFormed (decl size position) :=
    ClassDecl.wellFormed_iff.2 (className_ne position (by simp))
  calc readClass path (.obj (classFields size position))
    _ = Place.listOf ⟨path, classFields size position⟩ "associations"
          (readAssociation (className position)) >>= fun associations =>
        Place.listOf ⟨path, classFields size position⟩ "methods"
          (readMethod (className position)) >>= fun methods =>
        build path { decl size position with associations, methods } := rfl
    _ = build path (decl size position) := by rw [hedges, ok_bind, hmethods, ok_bind]; rfl
    _ = .ok (decl size position) := build_eq path hdecl

/-- The row is read as it is described, and nothing of it is rejected. -/
theorem read_synthetic (size : Int) :
    ∃ contents, read (synthetic size) = .ok contents ∧ contents.model = model size.toNat ∧
      contents.rejected = [] := by
  have hclasses : List.Forall₂ (Reads readClass) ((List.range size.toNat).map (decl size.toNat))
      ((List.range size.toNat).map (syntheticClass size.toNat)) := by
    rw [List.forall₂_map_left_iff, List.forall₂_map_right_iff, List.forall₂_same]
    intro position _
    exact reads_decl size.toNat position
  refine ⟨⟨((List.range size.toNat).map (decl size.toNat)).map .ok, []⟩, ?_, ?_, ?_⟩
  · rw [← readEntries_eq hclasses "classes" 0]
    rfl
  · simp only [Contents.model, Contents.rejected, accepted_map_ok, rejections_map_ok]
    rfl
  · simp only [Contents.rejected, rejections_map_ok]
    rfl

end Reading

/-! ### Looking up -/

section LookingUp

variable {size position : Nat}

theorem nodup_names (size : Nat) :
    ((model size).classes.map ClassDecl.qualifiedName).Nodup := by
  have hnames : (model size).classes.map ClassDecl.qualifiedName =
      (List.range size).map className := by
    rw [model, List.map_map]
    rfl
  rw [hnames]
  exact List.nodup_range.map className_injective

theorem class?_model (h : position < size) :
    (model size).class? (className position) = some (decl size position) := by
  have hmem : decl size position ∈ (model size).classes :=
    List.mem_map_of_mem (List.mem_range.2 h)
  exact (find?_eq_some_iff_mem ClassDecl.qualifiedName (nodup_names size)).2 ⟨hmem, rfl⟩

theorem className_mem_classNames (h : position < size) :
    className position ∈ (model size).classNames :=
  Graph.mem_classNames.2
    ⟨decl size position, List.mem_map_of_mem (List.mem_range.2 h), rfl⟩

/-- The association with the next class is resolved, for that class is in the row. -/
theorem resolve_edge (h : position + 1 < size) :
    Graph.resolve (model size).classNames (edge position) = edge position := by
  have hmem : (model size).classNames.contains (className (position + 1)) = true :=
    List.contains_iff_mem.2 (className_mem_classNames h)
  exact if_pos hmem

theorem edge?_model (h : position + 1 < size) :
    (Graph.ofModel (model size)).edge? (className position) (accessorAt (position + 1)) =
      some (edge position) := by
  rw [Graph.edge?_ofModel, class?_model (by omega)]
  simp [decl, edges, h, resolve_edge h]

theorem edge?_model_name (h : position < size) :
    (Graph.ofModel (model size)).edge? (className position) "name" = none := by
  rw [Graph.edge?_ofModel, class?_model h]
  simp [decl, edges, accessorAt_ne]

theorem get?_model (h : position < size) (name : String) :
    (MethodIndex.ofModel (model size)).get? (className position) name =
      (decl size position).method? name := by
  rw [MethodIndex.get?_ofModel, class?_model h]
  rfl

end LookingUp

/-! ### Walking -/

section Walking

variable {size position : Nat}

/-- The hop to the next class. -/
def hop (position : Nat) : Hop := ⟨edge position, className (position + 1), true⟩

/-- The chain of a call site: two hops, and then a name that is not known. -/
def chain (position : Nat) : AccessChain :=
  { subject := className position, method := some "label", callSite := site position
    startClass := className position, hops := [hop position, hop (position + 1)] }

theorem walkFrom_accessor (h : position + 1 < size) (rest : List String) :
    walkFrom (Graph.ofModel (model size)) (MethodIndex.ofModel (model size)) (className position)
        (accessorAt (position + 1) :: rest) =
      (walkFrom (Graph.ofModel (model size)) (MethodIndex.ofModel (model size))
        (className (position + 1)) rest).addHop (hop position) := by
  have hnode : Graph.targetNode (edge position) = className (position + 1) := rfl
  have hcounted : (edge position).isSelfReference = false := by
    refine beq_eq_false_iff_ne.2 ?_
    intro heq
    have := className_injective heq
    omega
  rw [walkFrom, edge?_model h]
  simp [hnode, hcounted, className_ne, hop]

theorem walkFrom_name (h : position < size) :
    walkFrom (Graph.ofModel (model size)) (MethodIndex.ofModel (model size)) (className position)
      ["name"] = {} := by
  have hmethod : (decl size position).method? "name" = none := rfl
  rw [walkFrom, edge?_model_name h]
  simp [MethodIndex.delegation?, get?_model h, hmethod]

theorem measure?_site (h : position + 2 < size) :
    measure? (Graph.ofModel (model size)) (MethodIndex.ofModel (model size)) (site position)
        (className position) (some "label") (some (className position)) =
      some (chain position) := by
  have hstart : startClass? (Graph.ofModel (model size)) (site position)
      (some (className position)) = some (className position) := by
    -- every class of the row is in the graph
    refine Option.filter_eq_some_iff.2 ⟨rfl, Graph.hasClass_ofModel.2 ⟨?_, ?_⟩⟩
    · exact className_ne position (by simp)
    · exact className_mem_classNames (by omega)
  have hwalk : walkFrom (Graph.ofModel (model size)) (MethodIndex.ofModel (model size))
      (className position) (site position).chain =
        { hops := [hop position, hop (position + 1)] } := by
    -- two accessors, and a name that is neither an association nor a method
    rw [site, walkFrom_accessor (by omega), walkFrom_accessor h, walkFrom_name h]
    rfl
  simp only [measure?, hstart, hwalk]
  rfl

/-- Reading a chain for its operations, the standing moves on to the next class. -/
theorem usesFrom_accessor (h : position + 1 < size) (operations : List String) (index : Nat)
    (rest : List String) :
    usesFrom (Graph.ofModel (model size)) (MethodIndex.ofModel (model size)) operations none
        ⟨some (className position), false⟩ index (accessorAt (position + 1) :: rest) =
      usesFrom (Graph.ofModel (model size)) (MethodIndex.ofModel (model size)) operations none
        ⟨some (className (position + 1)), false⟩ (index + 1) rest := by
  have hrole : roleOf (Graph.ofModel (model size)) (MethodIndex.ofModel (model size)) operations
      ⟨some (className position), false⟩ (accessorAt (position + 1)) =
        .association (edge position) := by
    simp [roleOf, edge?_model h]
  rw [usesFrom, hrole]
  rfl

/-- There is no operation in a chain, unless the last name is one. -/
theorem operationUses_site (h : position + 2 < size) {operations : List String}
    (hname : "name" ∉ operations) :
    operationUses (Graph.ofModel (model size)) (MethodIndex.ofModel (model size)) operations
      (site position) (some (className position)) = [] := by
  have hrole : roleOf (Graph.ofModel (model size)) (MethodIndex.ofModel (model size)) operations
      ⟨some (className (position + 2)), false⟩ "name" = .unknown := by
    have hmethod : (decl size (position + 2)).method? "name" = none := rfl
    simp [roleOf, edge?_model_name h, get?_model h, hmethod, plainRole, hname]
  show usesFrom _ _ operations none ⟨some (className position), false⟩ 0
    [accessorAt (position + 1), accessorAt (position + 2), "name"] = []
  rw [usesFrom_accessor (by omega), usesFrom_accessor h, usesFrom, hrole]
  rfl

end Walking

/-! ### Clusters -/

section Clusters

variable {size position : Nat}

/-- How the methods of the row are clustered. -/
def clustering (size : Nat) : Clustering := (Survey.ofModel (model size) .standard).clustering

/-- The clusters of a class: each method is one. -/
def clusters (position : Nat) : List Cluster :=
  [⟨className position, ["find_by_code"], some "finder", ["finder"]⟩,
   ⟨className position, ["to_csv"], some "conversion", ["conversion"]⟩,
   ⟨className position, ["label"], none, []⟩]

theorem firstMethods_decl (size position : Nat) :
    Clustering.firstMethods (decl size position) =
      [finder position, conversion position, label size position] := by
  refine eraseDupsBy_eq_self Method.name ?_
  show ["find_by_code", "to_csv", "label"].Nodup
  decide

theorem categoryOf_finder : (clustering size).categoryOf (finder position) = some "finder" := by
  show Taxonomy.standard.categoryOf "find_by_code" = some "finder"
  decide +kernel

theorem categoryOf_conversion :
    (clustering size).categoryOf (conversion position) = some "conversion" := by
  show Taxonomy.standard.categoryOf "to_csv" = some "conversion"
  decide +kernel

theorem categoryOf_label : (clustering size).categoryOf (label size position) = none := by
  show Taxonomy.standard.categoryOf "label" = none
  decide +kernel

/-- The only class that a method of the row reaches is the next one. -/
theorem methodTargets_label :
    (clustering size).methodTargets (className position) (label size position) =
      if position + 2 < size then [className (position + 1)] else [] := by
  -- the next class is another one
  have hne : className (position + 1) ≠ className position := fun heq => by
    have := className_injective heq
    omega
  show Text.textSet (((sites size position).flatMap _).filter _) = _
  unfold sites
  split
  · next hlt =>
    have hedge := edge?_model (show position + 1 < size by omega)
    have htargets : (clustering size).siteTargets (className position) (site position) =
        [className (position + 1)] := by
      simp [Clustering.siteTargets, site, clustering, Survey.clustering, Survey.ofModel, hedge]
    simp [htargets, hne, Text.textSet, Text.sortTexts, List.eraseDups_cons]
  · simp

theorem invoked_label :
    Clustering.invoked ["find_by_code", "to_csv", "label"] (label size position) = [] := by
  unfold Clustering.invoked label sites
  split
  · simp [site, accessorAt_ne]
  · rfl

/-- No two methods belong together: only one reaches a class, no two have a category in common,
and none calls others. -/
theorem linkedGroups_decl :
    (clustering size).linkedGroups (className position)
        [finder position, conversion position, label size position] =
      (if position + 2 < size then [["label"]] else []) ++
        [["find_by_code"], ["to_csv"], [], [], []] := by
  have htargets : (clustering size).methodTargets (className position) (finder position) = [] ∧
      (clustering size).methodTargets (className position) (conversion position) = [] := by
    simp [Clustering.methodTargets, finder, conversion]
  have hshared : Clustering.sharing ((if position + 2 < size then [className (position + 1)]
      else []).map fun target => (target, "label")) =
        if position + 2 < size then [["label"]] else [] := by
    split <;> rfl
  have hinvoked : [finder position, conversion position, label size position].map
      (Clustering.invoked ["find_by_code", "to_csv", "label"]) = [[], [], []] := by
    rw [List.map_cons, List.map_cons, List.map_cons, invoked_label]
    rfl
  calc (clustering size).linkedGroups (className position)
        [finder position, conversion position, label size position]
    _ = Clustering.sharing ((if position + 2 < size then [className (position + 1)]
          else []).map fun target => (target, "label")) ++
        Clustering.sharing [("finder", "find_by_code"), ("conversion", "to_csv")] ++
        [finder position, conversion position, label size position].map
          (Clustering.invoked ["find_by_code", "to_csv", "label"]) := by
      simp only [Clustering.linkedGroups, List.flatMap_cons, List.flatMap_nil, List.filterMap_cons,
        List.filterMap_nil, htargets, methodTargets_label, categoryOf_finder, categoryOf_conversion,
        categoryOf_label, Option.map_some, Option.map_none, List.map_nil, List.nil_append,
        List.append_nil]
      rfl
    _ = _ := by
      rw [hshared, hinvoked, List.append_assoc]
      rfl

/-- A cluster of one method has the category of that method. -/
theorem clusterOf_singleton (clustering : Clustering) (subject : String) (methods : List Method)
    (name : String) {category : Option String}
    (h : (methods.find? fun method => method.name == name).bind clustering.categoryOf = category) :
    clustering.clusterOf subject methods [name] = ⟨subject, [name], category, category.toList⟩ := by
  have hfound : [name].filterMap (fun name =>
      (methods.find? fun method => method.name == name).bind clustering.categoryOf) =
        category.toList := by
    rw [List.filterMap_cons, h]
    cases category <;> rfl
  unfold Clustering.clusterOf
  rw [hfound]
  cases category with
  | none => simp [Clustering.dominant?]
  | some category => simp [Clustering.dominant?, Text.textSet, Text.sortTexts, List.eraseDups_cons]

theorem clusters_decl : (clustering size).clusters (decl size position) = clusters position := by
  -- whether or not the label reaches another class, it is linked with no other method
  have hcomponents : ∀ groups ∈ [[["label"]], []],
      ((groups ++ [["find_by_code"], ["to_csv"], [], [], []]).foldl DisjointSet.unionAll
        (.ofItems ["find_by_code", "to_csv", "label"])).components
          ["find_by_code", "to_csv", "label"] = [["find_by_code"], ["to_csv"], ["label"]] := by
    decide
  have hgroups : (if position + 2 < size then [["label"]] else []) ∈ [[["label"]], []] := by
    split <;> decide
  have hclusters : (clustering size).clusters (decl size position) =
      [["find_by_code"], ["to_csv"], ["label"]].map
        ((clustering size).clusterOf (className position)
          [finder position, conversion position, label size position]) := by
    rw [← hcomponents _ hgroups, ← linkedGroups_decl, Clustering.clusters, firstMethods_decl]
    rfl
  have hfinder := clusterOf_singleton (clustering size) (className position)
    [finder position, conversion position, label size position] "find_by_code" categoryOf_finder
  have hconversion := clusterOf_singleton (clustering size) (className position)
    [finder position, conversion position, label size position] "to_csv" categoryOf_conversion
  have hlabel := clusterOf_singleton (clustering size) (className position)
    [finder position, conversion position, label size position] "label" categoryOf_label
  rw [hclusters, List.map_cons, List.map_cons, List.map_cons, hfinder, hconversion, hlabel]
  rfl

end Clusters

end SyntheticRow

end ObjectAudit
