/-
ObjectAudit/Proofs/Affinity.lean

Which methods of a class belong together.  `Clustering.Linked` says it of two methods without
any table or set: they reach a common class other than their own, they have the same category,
or a third method calls both.  The groups that clustering joins are exactly the methods linked
so (`exists_linkedGroup_iff`), and joining groups connects what the closure of the links
relates.

Main result: the clusters of a class are the components of its methods under these links, in
order of declaration, each with its leading category (`clusters_eq_components`).
-/
import ObjectAudit.Proofs.AnalysisShape
import ObjectAudit.Proofs.Representatives

namespace ObjectAudit

open Relation Text

/-! ### What methods reach and call -/

/-- The classes that a call site reaches, in code that a class owns. -/
inductive CallSite.Reaches (graph : Graph) (owner : String) (site : CallSite) : String → Prop
  /-- Its target, if known. -/
  | target {name : String} : site.targetClass = some name → Reaches graph owner site name
  /-- What an association of the owner yields. -/
  | association {accessor : String} {edge : Association} :
      site.origin = .self → site.chain.head? = some accessor →
        graph.edge? owner accessor = some edge → Reaches graph owner site edge.target
  /-- The class of a parameter, if known. -/
  | parameter {name : String} :
      site.origin = .parameter → site.rootClass = some name → Reaches graph owner site name
  /-- The class of something from outside, if known. -/
  | externalClass {name : String} :
      site.origin = .external → site.rootClass = some name → name ≠ "" →
        Reaches graph owner site name
  /-- Something from outside, by its own name. -/
  | externalRoot :
      site.origin = .external → site.rootClass.getD "" = "" → Reaches graph owner site site.root

namespace Method

/-- A method reaches what its call sites reach. -/
def Reaches (graph : Graph) (owner : String) (method : Method) (name : String) : Prop :=
  ∃ site ∈ method.callSites, site.Reaches graph owner name

/-- A method calls another one of its class, which is said of it or seen at a call site. -/
def Invokes (method : Method) (name : String) : Prop :=
  name ∈ method.invokedMethods ∨
    ∃ site ∈ method.callSites, site.origin = .self ∧ site.chain.head? = some name

end Method

namespace Clustering

variable {clustering : Clustering}

/-- The class of something from outside is the one given, unless that is empty. -/
theorem receiverClass_external {site : CallSite} (h : site.origin = .external) {name : String} :
    site.receiverClass none = some name ↔
      site.rootClass = some name ∧ name ≠ "" ∨ site.rootClass.getD "" = "" ∧ site.root = name := by
  rw [CallSite.receiverClass, h]
  dsimp only
  cases hclass : site.rootClass with
  | none => simp
  | some given =>
    -- an empty name counts as none, and the receiver itself is taken for the class
    by_cases hempty : given = ""
    · subst hempty
      have hnone : (some "").filter (· != "") = none := rfl
      rw [hnone]
      simp only [Option.getD_none, Option.getD_some, Option.some.injEq, true_and]
      constructor
      · exact .inr
      · rintro (⟨rfl, hne⟩ | hroot)
        · exact absurd rfl hne
        · exact hroot
    · have hsome : (some given).filter (· != "") = some given := by simp [Option.filter, hempty]
      rw [hsome]
      simp only [Option.getD_some, Option.some.injEq, hempty, false_and, or_false]
      constructor
      · rintro rfl
        exact ⟨rfl, hempty⟩
      · exact And.left

theorem mem_siteTargets {owner name : String} {site : CallSite} :
    name ∈ clustering.siteTargets owner site ↔ site.Reaches clustering.graph owner name := by
  rw [siteTargets, List.mem_append, Option.mem_toList]
  constructor
  · rintro (htarget | hroot)
    · exact .target htarget
    · -- each kind of receiver has another way to its class
      cases horigin : site.origin with
      | self =>
        simp only [horigin, Option.mem_toList, Option.bind_eq_some_iff,
          Option.map_eq_some_iff] at hroot
        obtain ⟨accessor, haccessor, edge, hedge, rfl⟩ := hroot
        exact .association horigin haccessor hedge
      | parameter =>
        simp only [horigin, Option.mem_toList] at hroot
        exact .parameter horigin hroot
      | external =>
        simp only [horigin, Option.mem_toList, receiverClass_external horigin] at hroot
        rcases hroot with ⟨hclass, hne⟩ | ⟨hempty, rfl⟩
        · exact .externalClass horigin hclass hne
        · exact .externalRoot horigin hempty
  · intro h
    cases h with
    | target htarget => exact .inl htarget
    | association horigin haccessor hedge =>
      right
      simp [horigin, haccessor, hedge]
    | parameter horigin hclass =>
      right
      simp [horigin, hclass]
    | externalClass horigin hclass hne =>
      right
      simp only [horigin, Option.mem_toList]
      exact (receiverClass_external horigin).2 (.inl ⟨hclass, hne⟩)
    | externalRoot horigin hempty =>
      right
      simp only [horigin, Option.mem_toList]
      exact (receiverClass_external horigin).2 (.inr ⟨hempty, rfl⟩)

theorem mem_methodTargets {owner name : String} {method : Method} :
    name ∈ clustering.methodTargets owner method ↔
      name ≠ owner ∧ method.Reaches clustering.graph owner name := by
  simp only [methodTargets, mem_textSet, List.mem_filter, List.mem_flatMap, mem_siteTargets,
    bne_iff_ne, Method.Reaches, and_comm]

theorem mem_invoked {siblings : List String} {method : Method} {name : String} :
    name ∈ invoked siblings method ↔
      name ∈ siblings ∧ method.Invokes name ∧ name ≠ method.name := by
  have hown : name ∈ method.callSites.filterMap (fun site =>
      if site.origin = .self then site.chain.head? else none) ↔
      ∃ site ∈ method.callSites, site.origin = .self ∧ site.chain.head? = some name := by
    rw [List.mem_filterMap]
    refine exists_congr fun site => and_congr_right fun _ => ?_
    split <;> simp_all
  simp only [invoked, List.mem_filter, List.mem_eraseDups, List.mem_append, hown, bne_iff_ne,
    List.contains_iff_mem, Method.Invokes]
  tauto

/-! ### Links -/

/-- Two methods belong together at once.  Of methods with one name, the first one counts. -/
inductive Linked (clustering : Clustering) (decl : ClassDecl) : String → String → Prop
  /-- They reach a common class other than their own. -/
  | commonTarget {method method' : Method} {target : String} :
      decl.method? method.name = some method → decl.method? method'.name = some method' →
      target ≠ decl.qualifiedName →
      method.Reaches clustering.graph decl.qualifiedName target →
      method'.Reaches clustering.graph decl.qualifiedName target →
      Linked clustering decl method.name method'.name
  /-- They have the same category. -/
  | sameCategory {method method' : Method} {category : String} :
      decl.method? method.name = some method → decl.method? method'.name = some method' →
      clustering.categoryOf method = some category →
      clustering.categoryOf method' = some category →
      Linked clustering decl method.name method'.name
  /-- A third method calls both. -/
  | commonCaller {method method' caller : Method} :
      decl.method? method.name = some method → decl.method? method'.name = some method' →
      decl.method? caller.name = some caller →
      caller.Invokes method.name → caller.Invokes method'.name →
      method.name ≠ caller.name → method'.name ≠ caller.name →
      Linked clustering decl method.name method'.name

theorem mem_firstMethods {decl : ClassDecl} {method : Method} :
    method ∈ firstMethods decl ↔ decl.method? method.name = some method := by
  rw [ClassDecl.method?, ← find?_eraseDupsBy Method.name,
    find?_eq_some_iff_mem Method.name (nodup_map_eraseDupsBy Method.name decl.methods)]
  exact (and_iff_left rfl).symm

theorem map_name_firstMethods (decl : ClassDecl) :
    (firstMethods decl).map Method.name = decl.methodNames.eraseDups :=
  map_eraseDupsBy Method.name decl.methods

/-- Two names stand in one of the groups exactly if they share something. -/
theorem exists_sharing_iff {pairs : List (String × String)} {a b : String} :
    (∃ group ∈ sharing pairs, a ∈ group ∧ b ∈ group) ↔
      ∃ key, (key, a) ∈ pairs ∧ (key, b) ∈ pairs := by
  rw [sharing, Table.values_group]
  constructor
  · rintro ⟨group, hgroup, ha, hb⟩
    obtain ⟨key, -, rfl⟩ := List.mem_map.1 hgroup
    exact ⟨key, Table.mem_valuesOf.1 ha, Table.mem_valuesOf.1 hb⟩
  · rintro ⟨key, ha, hb⟩
    refine ⟨_, List.mem_map.2 ⟨key, ?_, rfl⟩, Table.mem_valuesOf.2 ha, Table.mem_valuesOf.2 hb⟩
    exact List.mem_eraseDups.2 (List.mem_map.2 ⟨(key, a), ha, rfl⟩)

theorem mem_targetPairs {decl : ClassDecl} {target name : String} :
    (target, name) ∈ (firstMethods decl).flatMap (fun method =>
        (clustering.methodTargets decl.qualifiedName method).map fun target =>
          (target, method.name)) ↔
      ∃ method, decl.method? method.name = some method ∧ target ≠ decl.qualifiedName ∧
        method.Reaches clustering.graph decl.qualifiedName target ∧ method.name = name := by
  simp only [List.mem_flatMap, List.mem_map, mem_firstMethods, mem_methodTargets, Prod.mk.injEq]
  constructor
  · rintro ⟨method, hmethod, _, ⟨hne, hreaches⟩, rfl, rfl⟩
    exact ⟨method, hmethod, hne, hreaches, rfl⟩
  · rintro ⟨method, hmethod, hne, hreaches, rfl⟩
    exact ⟨method, hmethod, target, ⟨hne, hreaches⟩, rfl, rfl⟩

theorem mem_categoryPairs {decl : ClassDecl} {category name : String} :
    (category, name) ∈ (firstMethods decl).filterMap (fun method =>
        (clustering.categoryOf method).map fun category => (category, method.name)) ↔
      ∃ method, decl.method? method.name = some method ∧
        clustering.categoryOf method = some category ∧ method.name = name := by
  simp only [List.mem_filterMap, mem_firstMethods, Option.map_eq_some_iff, Prod.mk.injEq]
  constructor
  · rintro ⟨method, hmethod, _, hcategory, rfl, rfl⟩
    exact ⟨method, hmethod, hcategory, rfl⟩
  · rintro ⟨method, hmethod, hcategory, rfl⟩
    exact ⟨method, hmethod, category, hcategory, rfl, rfl⟩

theorem mem_names_firstMethods {decl : ClassDecl} {name : String} :
    name ∈ (firstMethods decl).map Method.name ↔
      ∃ method, decl.method? method.name = some method ∧ method.name = name := by
  simp only [List.mem_map, mem_firstMethods]

/-- Two names stand in one of the joined groups exactly if they are linked. -/
theorem exists_linkedGroup_iff {decl : ClassDecl} {a b : String} :
    (∃ group ∈ clustering.linkedGroups decl.qualifiedName (firstMethods decl),
      a ∈ group ∧ b ∈ group) ↔ clustering.Linked decl a b := by
  simp only [linkedGroups, List.mem_append, or_and_right, exists_or, exists_sharing_iff,
    mem_targetPairs, mem_categoryPairs]
  constructor
  · -- groups come from common targets, from categories and from callers
    rintro ((⟨target, ha, hb⟩ | ⟨category, ha, hb⟩) | ⟨group, hgroup, ha, hb⟩)
    · obtain ⟨method, hmethod, hne, hreaches, rfl⟩ := ha
      obtain ⟨method', hmethod', -, hreaches', rfl⟩ := hb
      exact .commonTarget hmethod hmethod' hne hreaches hreaches'
    · obtain ⟨method, hmethod, hcategory, rfl⟩ := ha
      obtain ⟨method', hmethod', hcategory', rfl⟩ := hb
      exact .sameCategory hmethod hmethod' hcategory hcategory'
    · obtain ⟨caller, hcaller, rfl⟩ := List.mem_map.1 hgroup
      obtain ⟨hname, hinvokes, hne⟩ := mem_invoked.1 ha
      obtain ⟨hname', hinvokes', hne'⟩ := mem_invoked.1 hb
      obtain ⟨method, hmethod, rfl⟩ := mem_names_firstMethods.1 hname
      obtain ⟨method', hmethod', rfl⟩ := mem_names_firstMethods.1 hname'
      exact .commonCaller hmethod hmethod' (mem_firstMethods.1 hcaller) hinvokes hinvokes' hne hne'
  · intro h
    cases h with
    | commonTarget hmethod hmethod' hne hreaches hreaches' =>
      exact .inl (.inl ⟨_, ⟨_, hmethod, hne, hreaches, rfl⟩, ⟨_, hmethod', hne, hreaches', rfl⟩⟩)
    | sameCategory hmethod hmethod' hcategory hcategory' =>
      exact .inl (.inr ⟨_, ⟨_, hmethod, hcategory, rfl⟩, ⟨_, hmethod', hcategory', rfl⟩⟩)
    | commonCaller hmethod hmethod' hcaller hinvokes hinvokes' hne hne' =>
      have hname := mem_names_firstMethods.2 ⟨_, hmethod, rfl⟩
      have hname' := mem_names_firstMethods.2 ⟨_, hmethod', rfl⟩
      exact .inr ⟨_, List.mem_map.2 ⟨_, mem_firstMethods.2 hcaller, rfl⟩,
        mem_invoked.2 ⟨hname, hinvokes, hne⟩, mem_invoked.2 ⟨hname', hinvokes', hne'⟩⟩

/-! ### Leading categories -/

/-- The category of the method that a name stands for. -/
def categoryNamed (clustering : Clustering) (decl : ClassDecl) (name : String) : Option String :=
  (decl.method? name).bind clustering.categoryOf

theorem exists_of_categoryNamed {decl : ClassDecl} {name category : String}
    (h : clustering.categoryNamed decl name = some category) :
    ∃ method, decl.method? method.name = some method ∧
      clustering.categoryOf method = some category ∧ method.name = name := by
  obtain ⟨method, hmethod, hcategory⟩ := Option.bind_eq_some_iff.1 h
  have hname := List.find?_some hmethod
  obtain rfl := eq_of_beq hname
  exact ⟨method, hmethod, hcategory, rfl⟩

/-- How many of some methods have a category. -/
def tally (clustering : Clustering) (decl : ClassDecl) (members : List String)
    (category : String) : Nat :=
  members.countP fun name => clustering.categoryNamed decl name == some category

/-- The place of a category in the taxonomy; one outside comes behind all others. -/
def rank (clustering : Clustering) (category : String) : Nat :=
  clustering.taxonomy.names.idxOf category

/-- A category leads some methods: one of them has it, none is more frequent, and those that
are as frequent come later in the taxonomy. -/
structure Leading (clustering : Clustering) (decl : ClassDecl) (members : List String)
    (category : String) : Prop where
  member : ∃ name ∈ members, clustering.categoryNamed decl name = some category
  most : ∀ other, clustering.tally decl members other ≤ clustering.tally decl members category
  first : ∀ other, other ≠ category →
    clustering.tally decl members other = clustering.tally decl members category →
      clustering.rank category < clustering.rank other

/-- Only the category of callbacks may lie outside the taxonomy. -/
theorem mem_names_of_categoryOf {method : Method} {category : String}
    (h : clustering.categoryOf method = some category) :
    category ∈ clustering.taxonomy.names ∨ clustering.callbackCategory = some category := by
  unfold categoryOf at h
  split at h
  · next hcallback =>
    rw [← h]
    exact .inr hcallback
  · obtain ⟨⟨_, patterns⟩, hfind, rfl⟩ := Option.map_eq_some_iff.1 h
    exact .inl (List.mem_map.2 ⟨_, List.mem_of_find?_eq_some hfind, rfl⟩)

/-- Different categories of methods have different places. -/
theorem rank_ne {decl : ClassDecl} {name name' category category' : String}
    (h : clustering.categoryNamed decl name = some category)
    (h' : clustering.categoryNamed decl name' = some category') (hne : category ≠ category') :
    clustering.rank category ≠ clustering.rank category' := by
  obtain ⟨method, -, h⟩ := Option.bind_eq_some_iff.1 h
  obtain ⟨method', -, h'⟩ := Option.bind_eq_some_iff.1 h'
  intro hrank
  unfold rank at hrank
  by_cases hmem : category ∈ clustering.taxonomy.names
  · exact hne ((List.idxOf_inj hmem).1 hrank)
  · -- both lie outside, so both are the category of callbacks
    have hlength := List.idxOf_eq_length hmem
    have hmem' : category' ∉ clustering.taxonomy.names := by
      intro hmem'
      have hlt := List.idxOf_lt_length_iff.2 hmem'
      omega
    have hcallback := (mem_names_of_categoryOf h).resolve_left hmem
    have hcallback' := (mem_names_of_categoryOf h').resolve_left hmem'
    exact hne (Option.some.inj (hcallback.symm.trans hcallback'))

instance transCmp_leads (found : List String) : Std.TransCmp (clustering.leads found) :=
  haveI : Std.TransCmp fun a b => compare (found.count b) (found.count a) :=
    @Std.TransCmp.opposite _ (compareOn fun a => found.count a) _
  inferInstanceAs (Std.TransCmp (compareLex _ _))

theorem sortsBy_leads (clustering : Clustering) (found : List String) :
    SortsBy fun a b => (clustering.leads found a b).isLE where
  trans _ _ _ hab hbc := Std.TransCmp.isLE_trans hab hbc
  total a b := by
    have hswap : clustering.leads found b a = (clustering.leads found a b).swap :=
      Std.OrientedCmp.eq_swap
    rw [hswap]
    cases clustering.leads found a b <;> rfl

theorem leads_isLE {found : List String} {a b : String}
    (h : (clustering.leads found a b).isLE = true) :
    found.count b ≤ found.count a ∧
      (found.count b = found.count a → clustering.rank a ≤ clustering.rank b) := by
  rw [leads, compareLex, Ordering.isLE_then_iff_or, Nat.compare_eq_lt, Nat.compare_eq_eq,
    compareLex, Ordering.isLE_then_iff_or, compareOn, Nat.compare_eq_lt, Nat.compare_eq_eq] at h
  unfold rank
  omega

/-- What leads stands before everything that was found. -/
theorem leads_of_dominant? {found : List String} {category other : String}
    (h : clustering.dominant? found = some category) (hother : other ∈ found) :
    (clustering.leads found category other).isLE = true := by
  have hsorts := sortsBy_leads clustering found
  have hsorted := List.pairwise_mergeSort hsorts.trans hsorts.total found.eraseDups
  obtain ⟨rest, hrest⟩ := List.head?_eq_some_iff.1 h
  have hmem : other ∈ category :: rest := by
    rw [← hrest, List.mem_mergeSort, List.mem_eraseDups]
    exact hother
  rw [hrest] at hsorted
  rcases List.mem_cons.1 hmem with rfl | hmem
  · exact hsorts.refl other
  · exact List.rel_of_pairwise_cons hsorted hmem

theorem categories_clusterOf (decl : ClassDecl) (members : List String) :
    (clustering.clusterOf decl.qualifiedName (firstMethods decl) members).category =
      clustering.dominant? (members.filterMap (clustering.categoryNamed decl)) := by
  have hnamed : (fun name => ((firstMethods decl).find? fun method => method.name == name).bind
      clustering.categoryOf) = clustering.categoryNamed decl := by
    funext name
    rw [firstMethods, find?_eraseDupsBy Method.name]
    rfl
  rw [← hnamed]
  rfl

theorem count_categories (decl : ClassDecl) (members : List String) (category : String) :
    (members.filterMap (clustering.categoryNamed decl)).count category =
      clustering.tally decl members category :=
  List.count_filterMap

/-- The category of a cluster leads its methods. -/
theorem leading_of_category_clusterOf {decl : ClassDecl} {members : List String}
    {category : String}
    (h : (clustering.clusterOf decl.qualifiedName (firstMethods decl) members).category =
      some category) : clustering.Leading decl members category := by
  rw [categories_clusterOf] at h
  have hmem := mem_of_dominant?_eq_some h
  have hpos : 0 < clustering.tally decl members category := by
    rw [← count_categories]
    exact List.count_pos_iff.2 hmem
  have hbefore : ∀ other ∈ members.filterMap (clustering.categoryNamed decl),
      clustering.tally decl members other ≤ clustering.tally decl members category ∧
        (clustering.tally decl members other = clustering.tally decl members category →
          clustering.rank category ≤ clustering.rank other) := by
    intro other hother
    rw [← count_categories, ← count_categories]
    exact leads_isLE (leads_of_dominant? h hother)
  refine ⟨List.mem_filterMap.1 hmem, ?_, ?_⟩
  · intro other
    by_cases hother : other ∈ members.filterMap (clustering.categoryNamed decl)
    · exact (hbefore other hother).1
    · rw [← count_categories, List.count_eq_zero.2 hother]
      exact Nat.zero_le _
  · intro other hne htie
    -- as frequent as a category that some member has, so some member has it too
    have hother : other ∈ members.filterMap (clustering.categoryNamed decl) := by
      rw [← List.count_pos_iff, count_categories, htie]
      exact hpos
    obtain ⟨name, -, hname⟩ := List.mem_filterMap.1 hmem
    obtain ⟨name', -, hname'⟩ := List.mem_filterMap.1 hother
    exact lt_of_le_of_ne ((hbefore other hother).2 htie) (rank_ne hname hname' hne.symm)

/-- A cluster has no category exactly if none of its methods has one. -/
theorem category_clusterOf_eq_none_iff {decl : ClassDecl} {members : List String} :
    (clustering.clusterOf decl.qualifiedName (firstMethods decl) members).category = none ↔
      ∀ name ∈ members, clustering.categoryNamed decl name = none := by
  rw [categories_clusterOf, ← List.filterMap_eq_nil_iff]
  constructor
  · exact eq_nil_of_dominant?_eq_none
  · intro hnil
    simp [hnil, dominant?]

/-! ### Clusters -/

/-- The clusters of a class, with `rep` for the representatives of its methods: one for the
first method of each representative. -/
theorem exists_clusters_eq (clustering : Clustering) (decl : ClassDecl) :
    ∃ rep : String → String,
      (∀ a b, rep a = rep b ↔ EqvGen (clustering.Linked decl) a b) ∧
      clustering.clusters decl =
        (decl.methodNames.eraseDups.eraseDupsBy fun a b => rep a == rep b).map fun first =>
          clustering.clusterOf decl.qualifiedName (firstMethods decl)
            (decl.methodNames.eraseDups.filter fun name => rep name == rep first) := by
  have hitems := DisjointSet.items_ofItems (nodup_eraseDups decl.methodNames)
  -- groups hold names of methods only, so uniting them adds no item
  have hgroups : ∀ group ∈ clustering.linkedGroups decl.qualifiedName (firstMethods decl),
      ∀ name ∈ group, name ∈ (DisjointSet.ofItems decl.methodNames.eraseDups).items := by
    intro group hgroup name hname
    rw [hitems, ← map_name_firstMethods]
    exact mem_names_of_mem_linkedGroups hgroup hname
  obtain ⟨⟨rep, hrep, hiff⟩, hsame⟩ :=
    (DisjointSet.Connects.ofItems decl.methodNames.eraseDups).foldl_unionAll hgroups
  refine ⟨rep, ?_, ?_⟩
  · simp only [false_or, exists_linkedGroup_iff] at hiff
    exact hiff
  · have hnames : ∀ name ∈ decl.methodNames.eraseDups, name ∈
        ((clustering.linkedGroups decl.qualifiedName (firstMethods decl)).foldl
          DisjointSet.unionAll (DisjointSet.ofItems decl.methodNames.eraseDups)).items := by
      rw [hsame, hitems]
      exact fun _ hname => hname
    unfold clusters
    dsimp only
    rw [map_name_firstMethods, DisjointSet.components_eq hrep hnames, List.map_map]
    rfl

/-- Two names stand in one cluster exactly if they are names of connected methods. -/
theorem exists_cluster_iff {decl : ClassDecl} {a b : String} :
    (∃ cluster ∈ clustering.clusters decl, a ∈ cluster.methods ∧ b ∈ cluster.methods) ↔
      a ∈ decl.methodNames ∧ b ∈ decl.methodNames ∧ EqvGen (clustering.Linked decl) a b := by
  obtain ⟨rep, hiff, hclusters⟩ := clustering.exists_clusters_eq decl
  rw [hclusters, ← hiff]
  constructor
  · rintro ⟨cluster, hcluster, ha, hb⟩
    obtain ⟨first, -, rfl⟩ := List.mem_map.1 hcluster
    obtain ⟨hmem, hrep⟩ := List.mem_filter.1 ha
    obtain ⟨hmem', hrep'⟩ := List.mem_filter.1 hb
    exact ⟨List.mem_eraseDups.1 hmem, List.mem_eraseDups.1 hmem',
      (eq_of_beq hrep).trans (eq_of_beq hrep').symm⟩
  · rintro ⟨ha, hb, hrep⟩
    -- the cluster of the first method with the representative of both
    obtain ⟨first, hfirst, hsame⟩ := exists_mem_eraseDupsBy rep (List.mem_eraseDups.2 ha)
    refine ⟨_, List.mem_map.2 ⟨first, hfirst, rfl⟩, ?_, ?_⟩
    · exact List.mem_filter.2 ⟨List.mem_eraseDups.2 ha, beq_iff_eq.2 hsame.symm⟩
    · exact List.mem_filter.2 ⟨List.mem_eraseDups.2 hb, beq_iff_eq.2 (hrep.symm.trans hsame.symm)⟩

theorem flatMap_methods_perm (decl : ClassDecl) :
    ((clustering.clusters decl).flatMap Cluster.methods).Perm decl.methodNames.eraseDups := by
  obtain ⟨rep, -, hclusters⟩ := clustering.exists_clusters_eq decl
  rw [hclusters, List.flatMap_map]
  exact flatMap_filter_perm rep decl.methodNames.eraseDups

/-- Clusters stand in the order of their first methods. -/
theorem map_head?_sublist (decl : ClassDecl) :
    ((clustering.clusters decl).map fun cluster => cluster.methods.head?).Sublist
      (decl.methodNames.eraseDups.map some) := by
  obtain ⟨rep, -, hclusters⟩ := clustering.exists_clusters_eq decl
  rw [hclusters, List.map_map]
  have hheads : ∀ first ∈ decl.methodNames.eraseDups.eraseDupsBy (fun a b => rep a == rep b),
      ((fun cluster : Cluster => cluster.methods.head?) ∘ fun first =>
        clustering.clusterOf decl.qualifiedName (firstMethods decl)
          (decl.methodNames.eraseDups.filter fun name => rep name == rep first)) first =
      some first :=
    fun first hfirst => head?_filter_eq_some rep hfirst
  rw [List.map_congr_left hheads]
  exact (eraseDupsBy_sublist _ _).map some

/-- A cluster is made of some methods of its class, in order of declaration. -/
theorem exists_of_mem_clusters {decl : ClassDecl} {cluster : Cluster}
    (h : cluster ∈ clustering.clusters decl) :
    cluster = clustering.clusterOf decl.qualifiedName (firstMethods decl) cluster.methods ∧
      cluster.methods.Sublist decl.methodNames.eraseDups := by
  obtain ⟨rep, -, hclusters⟩ := clustering.exists_clusters_eq decl
  rw [hclusters] at h
  obtain ⟨first, -, rfl⟩ := List.mem_map.1 h
  exact ⟨rfl, List.filter_sublist⟩

/-- The clusters of a class are the components of its methods.  Two methods stand in one
cluster exactly if a sequence of links connects them; every method stands in one cluster, once;
clusters stand in the order of their first methods, and methods in order of declaration; and
the category of a cluster leads its methods, if one of them has a category. -/
theorem clusters_eq_components (clustering : Clustering) (decl : ClassDecl) :
    (∀ a b, (∃ cluster ∈ clustering.clusters decl,
        a ∈ cluster.methods ∧ b ∈ cluster.methods) ↔
      a ∈ decl.methodNames ∧ b ∈ decl.methodNames ∧ EqvGen (clustering.Linked decl) a b) ∧
    ((clustering.clusters decl).flatMap Cluster.methods).Perm decl.methodNames.eraseDups ∧
    ((clustering.clusters decl).map fun cluster => cluster.methods.head?).Sublist
      (decl.methodNames.eraseDups.map some) ∧
    ∀ cluster ∈ clustering.clusters decl,
      cluster.methods.Sublist decl.methodNames.eraseDups ∧
      (cluster.category = none ↔
        ∀ name ∈ cluster.methods, clustering.categoryNamed decl name = none) ∧
      ∀ category, cluster.category = some category →
        clustering.Leading decl cluster.methods category := by
  refine ⟨fun a b => exists_cluster_iff, flatMap_methods_perm decl, map_head?_sublist decl, ?_⟩
  intro cluster hcluster
  obtain ⟨heq, hsublist⟩ := exists_of_mem_clusters hcluster
  refine ⟨hsublist, ?_, ?_⟩
  · rw [heq]
    exact category_clusterOf_eq_none_iff
  · intro category hcategory
    rw [heq] at hcategory
    exact leading_of_category_clusterOf hcategory

/-- A finder that reaches a class by its name, an export that reaches it by an association, and
a method that calls itself, an unknown one and two others.  The finder is declared again with
another body. -/
def ledger : ClassDecl :=
  let bank : CallSite := { origin := .external, root := "Bank", chain := ["all"], line := 2 }
  let account : CallSite :=
    { origin := .self, root := "self", chain := ["account", "id"], line := 5 }
  let method (name : String) : Method := { name, owner := some "Ledger" }
  { qualifiedName := "Ledger"
    associations := []
    methods :=
      [{ method "find_open" with callSites := [bank] },
       { method "close" with invokedMethods := ["audit", "close", "gone", "sign"] },
       { method "sign" with isCallback := true },
       { method "to_csv" with callSites := [account] },
       { method "find_open" with invokedMethods := ["to_csv", "sign"] },
       method "audit"]
    layer := .model
    location := ⟨.ofText "app/ledger.rb", 1, 0⟩ }

/-- The association behind the export, and a category of callbacks outside the taxonomy. -/
def ofLedger : Clustering :=
  { graph := .ofEdges
      [{ source := "Ledger", target := "Bank", kind := .belongsTo, accessor := "account" }]
      ["Ledger", "Bank"]
    taxonomy := .standard
    callbackCategory := some "hook" }

theorem clusters_eq_components_ledger :
    (∃ cluster ∈ ofLedger.clusters ledger,
      "find_open" ∈ cluster.methods ∧ "to_csv" ∈ cluster.methods) ∧
    (∃ cluster ∈ ofLedger.clusters ledger,
      "sign" ∈ cluster.methods ∧ "audit" ∈ cluster.methods ∧ cluster.category ≠ none ∧
      cluster.methods.Sublist ["find_open", "close", "sign", "to_csv", "audit"]) ∧
    ((ofLedger.clusters ledger).flatMap Cluster.methods).Perm
      ["find_open", "close", "sign", "to_csv", "audit"] := by
  obtain ⟨hiff, hperm, -, hclusters⟩ := clusters_eq_components ofLedger ledger
  have hnames : ledger.methodNames.eraseDups =
      ["find_open", "close", "sign", "to_csv", "audit"] := by
    decide
  rw [hnames] at hperm hclusters
  have hedge : ofLedger.graph.edge? "Ledger" "account" = some
      { source := "Ledger", target := "Bank", kind := .belongsTo, accessor := "account" } := by
    decide
  have htarget : ofLedger.Linked ledger "find_open" "to_csv" :=
    @Linked.commonTarget ofLedger ledger ledger.methods[0] ledger.methods[3] "Bank" rfl rfl
      (by decide)
      ⟨_, List.mem_singleton_self _, .externalRoot rfl rfl⟩
      ⟨_, List.mem_singleton_self _, .association rfl rfl hedge⟩
  have hcaller : ofLedger.Linked ledger "sign" "audit" :=
    @Linked.commonCaller ofLedger ledger ledger.methods[2] ledger.methods[5] ledger.methods[1]
      rfl rfl rfl (.inl (by decide)) (.inl (by decide)) (by decide) (by decide)
  refine ⟨(hiff _ _).2 ⟨by decide, by decide, EqvGen.rel _ _ htarget⟩, ?_, hperm⟩
  obtain ⟨cluster, hcluster, hsign, haudit⟩ :=
    (hiff "sign" "audit").2 ⟨by decide, by decide, EqvGen.rel _ _ hcaller⟩
  obtain ⟨hsublist, hnone, -⟩ := hclusters cluster hcluster
  refine ⟨cluster, hcluster, hsign, haudit, ?_, hsublist⟩
  intro hcategory
  have hsign' := hnone.1 hcategory "sign" hsign
  exact absurd hsign' (by decide)

end Clustering

end ObjectAudit
