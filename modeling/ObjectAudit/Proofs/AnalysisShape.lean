/-
ObjectAudit/Proofs/AnalysisShape.lean

What the analysis of a unit looks like.  Each analyser has an inversion lemma that says where
its results come from: a chain from a measured call site (`measure?_eq_some`), a finished
cluster from a group that has members (`DisjointSet.ne_nil_of_mem_components`), and so on.
From these follows that every analysis meets its requirements, together with all its parts
(`analysisDefect?_classAnalysis`, `analysisDefect?_templateAnalysis`), whatever the settings
are and however the class is linked to others.
-/
import Mathlib.Algebra.Order.BigOperators.Group.List
import ObjectAudit.Proofs.GraphLookup

namespace ObjectAudit

open Text

/-! ### Chains -/

section Chains

variable {graph : Graph} {methods : MethodIndex}

theorem hasClass_of_startClass? {site : CallSite} {owner : Option String} {start : String}
    (h : startClass? graph site owner = some start) : graph.hasClass start = true := by
  unfold startClass? at h
  split at h
  · exact (Option.filter_eq_some_iff.1 h).2
  · exact (Option.filter_eq_some_iff.1 h).2
  · cases h

/-- The measure of a call site that is walked from a class. -/
def AccessChain.ofWalk (site : CallSite) (subject : String) (method : Option String)
    (start : String) (walk : Walk) : AccessChain :=
  { subject, method, callSite := site, startClass := start, hops := walk.hops
    delegations := walk.delegations, terminalIsMethod := walk.terminalIsMethod }

/-- A call site of at least two names is measured if it starts at an audited class and its walk
crosses an association. -/
theorem measure?_eq_some_iff {site : CallSite} {subject : String} {method owner : Option String}
    {chain : AccessChain} :
    measure? graph methods site subject method owner = some chain ↔
      2 ≤ site.chain.length ∧ ∃ start, startClass? graph site owner = some start ∧
        (walkFrom graph methods start site.chain).hops ≠ [] ∧
        .ofWalk site subject method start (walkFrom graph methods start site.chain) = chain := by
  unfold measure?
  split
  · next hlength => simp [not_le.2 hlength]
  next hlength =>
  cases startClass? graph site owner with
  | none => simp
  | some start =>
    dsimp only
    split
    · next hnil => simp [List.isEmpty_iff.1 hnil]
    · next hhops =>
      have hhops' : (walkFrom graph methods start site.chain).hops ≠ [] :=
        fun hnil => hhops (List.isEmpty_iff.2 hnil)
      simp [not_lt.1 hlength, hhops', AccessChain.ofWalk]

/-- A measured call site starts at an audited class and crosses an association. -/
theorem measure?_eq_some {site : CallSite} {subject : String} {method owner : Option String}
    {chain : AccessChain} (h : measure? graph methods site subject method owner = some chain) :
    chain.subject = subject ∧ chain.method = method ∧ chain.callSite = site ∧
      graph.hasClass chain.startClass = true ∧ chain.hops ≠ [] := by
  obtain ⟨-, start, hstart, hhops, rfl⟩ := measure?_eq_some_iff.1 h
  exact ⟨rfl, rfl, rfl, hasClass_of_startClass? hstart, hhops⟩

theorem AccessChain.mem_of_mem_distinct {chains : List AccessChain} {chain : AccessChain}
    (h : chain ∈ distinct chains) : chain ∈ chains :=
  List.mem_mergeSort.1 ((eraseDupsBy_sublist _ _).subset h)

/-- A chain of a class comes from a call site of one of its methods. -/
theorem AccessChain.exists_of_mem_ofClass {decl : ClassDecl} {chain : AccessChain}
    (h : chain ∈ ofClass graph methods decl) :
    ∃ method ∈ decl.methods, ∃ site ∈ method.callSites,
      measure? graph methods site decl.qualifiedName (some method.name)
        (some decl.qualifiedName) = some chain := by
  obtain ⟨method, hmethod, hchain⟩ := List.mem_flatMap.1 (mem_of_mem_distinct h)
  obtain ⟨site, hsite, hmeasure⟩ := List.mem_filterMap.1 hchain
  exact ⟨method, hmethod, site, hsite, hmeasure⟩

/-- A chain of a template comes from one of its call sites. -/
theorem AccessChain.exists_of_mem_ofTemplate {template : Template} {chain : AccessChain}
    (h : chain ∈ ofTemplate graph methods template) :
    ∃ site ∈ template.callSites,
      measure? graph methods site template.name none none = some chain :=
  List.mem_filterMap.1 (mem_of_mem_distinct h)

end Chains

/-! ### Calls and changes -/

section Calls

variable {graph : Graph} {methods : MethodIndex} {operations : List String}

theorem LayeredCall.wellFormed_ofSite (site : CallSite) {subject : String}
    (hsubject : subject ≠ "") (method : Option String) (layer : Layer) (owner : Option String) :
    WellFormed (ofSite graph methods operations site subject method layer owner) := by
  refine wellFormed_iff.2 ⟨hsubject, ?_⟩
  intro hnone
  -- without operations there is no first one
  have huses : operationUses graph methods operations site owner = [] := List.map_eq_nil_iff.1 hnone
  show (operationUses graph methods operations site owner).head?.bind OperationUse.target = none
  rw [huses]
  rfl

theorem LayeredCall.exists_of_mem_ofClass {decl : ClassDecl} {call : LayeredCall}
    (h : call ∈ ofClass graph methods operations decl) :
    ∃ method ∈ decl.methods, ∃ site ∈ method.callSites,
      call = ofSite graph methods operations site decl.qualifiedName (some method.name) decl.layer
        (some decl.qualifiedName) := by
  obtain ⟨method, hmethod, hcall⟩ := List.mem_flatMap.1 h
  obtain ⟨site, hsite, rfl⟩ := List.mem_map.1 hcall
  exact ⟨method, hmethod, site, hsite, rfl⟩

/-- A change comes from a call site of a method, and names both. -/
theorem mutation?_eq_some {decl : ClassDecl} {method : Method} {site : CallSite}
    {mutation : Mutation}
    (h : mutation? graph methods operations decl method site = some mutation) :
    mutation.method = method.name ∧ mutation.callSite = site := by
  unfold mutation? at h
  obtain ⟨use, -, h⟩ := Option.bind_eq_some_iff.1 h
  obtain ⟨target, -, h⟩ := Option.bind_eq_some_iff.1 h
  obtain rfl := Option.some.inj h
  exact ⟨rfl, rfl⟩

theorem exists_of_mem_mutationsOf {decl : ClassDecl} {mutation : Mutation}
    (h : mutation ∈ mutationsOf graph methods operations decl) :
    ∃ method ∈ decl.methods, mutation.method = method.name ∧
      mutation.callSite ∈ method.callSites := by
  obtain ⟨method, hmethod, hmutation⟩ := List.mem_flatMap.1 h
  obtain ⟨site, hsite, hsome⟩ := List.mem_filterMap.1 hmutation
  obtain ⟨hname, rfl⟩ := mutation?_eq_some hsome
  exact ⟨method, hmethod, hname, hsite⟩

/-- A transaction is that of a method; the classes it counts are a set. -/
theorem exists_of_mem_transactionsOf {countsOwnClass : Bool} {mutations : List Mutation}
    {decl : ClassDecl} {transaction : Transaction}
    (h : transaction ∈ transactionsOf countsOwnClass mutations decl) :
    ∃ method ∈ decl.methods, transaction.method = method.name ∧ transaction.line = method.line ∧
      WellFormed transaction := by
  obtain ⟨method, hmethod, rfl⟩ := List.mem_map.1 h
  have hmem := (eraseDupsBy_sublist _ _).subset hmethod
  refine ⟨method, (List.mem_filter.1 hmem).1, rfl, rfl, ?_⟩
  exact Transaction.wellFormed_iff.2 (textSet_textSet _).symm

end Calls

/-! ### Clusters -/

/-- Components are what a table collects under the representatives of the items. -/
theorem DisjointSet.exists_components_eq (sets : DisjointSet) (items : List String) :
    ∃ roots : List String, roots.length = items.length ∧
      sets.components items = (Table.group (roots.zip items)).values := by
  -- the fold carries the sets along, which change with every look-up; only the roots matter
  suffices ∀ t : Table String (List String), ∃ roots : List String,
      roots.length = items.length ∧
        (items.foldl (fun (state : DisjointSet × Table String (List String)) item =>
          ((state.1.find item).2, state.2.push ((state.1.find item).1.getD item) item))
          (sets, t)).2 =
        (roots.zip items).foldl (fun t pair => t.push pair.1 pair.2) t by
    obtain ⟨roots, hlength, hfold⟩ := this Table.empty
    refine ⟨roots, hlength, ?_⟩
    rw [Table.group, ← hfold]
    rfl
  induction items generalizing sets with
  | nil =>
    intro t
    exact ⟨[], rfl, rfl⟩
  | cons item rest ih =>
    intro t
    obtain ⟨roots, hlength, hfold⟩ :=
      ih (sets.find item).2 (t.push ((sets.find item).1.getD item) item)
    refine ⟨(sets.find item).1.getD item :: roots, by simp [hlength], ?_⟩
    rw [List.foldl_cons, hfold, List.zip_cons_cons, List.foldl_cons]

/-- Every component has a member. -/
theorem DisjointSet.ne_nil_of_mem_components {sets : DisjointSet} {items members : List String}
    (h : members ∈ sets.components items) : members ≠ [] := by
  obtain ⟨roots, -, heq⟩ := sets.exists_components_eq items
  rw [heq, Table.values] at h
  obtain ⟨⟨root, members'⟩, hentry, rfl⟩ := List.mem_map.1 h
  exact (Table.of_mem_entries_group hentry).1

namespace Clustering

variable {clustering : Clustering}

theorem mem_of_dominant?_eq_some {found : List String} {category : String}
    (h : clustering.dominant? found = some category) : category ∈ found := by
  have hmem := List.mem_of_head? h
  rw [List.mem_mergeSort, List.mem_eraseDups] at hmem
  exact hmem

theorem eq_nil_of_dominant?_eq_none {found : List String}
    (h : clustering.dominant? found = none) : found = [] := by
  have hnil := List.head?_eq_none_iff.1 h
  refine List.eq_nil_iff_forall_not_mem.2 ?_
  intro category hmem
  have hsorted : category ∈ found.eraseDups.mergeSort fun a b =>
      (clustering.leads found a b).isLE :=
    List.mem_mergeSort.2 (List.mem_eraseDups.2 hmem)
  rw [hnil] at hsorted
  cases hsorted

/-- The cluster of some members, if there is one, meets its requirements. -/
theorem wellFormed_clusterOf (subject : String) (methods : List Method) {members : List String}
    (h : members ≠ []) : WellFormed (clustering.clusterOf subject methods members) := by
  refine Cluster.wellFormed_iff.2 ⟨h, ?_, ?_⟩
  · intro category hcategory
    exact mem_textSet.2 (mem_of_dominant?_eq_some hcategory)
  · intro hnone
    show textSet _ = []
    rw [eq_nil_of_dominant?_eq_none hnone]
    exact textSet_nil

theorem wellFormed_of_mem_clusters {decl : ClassDecl} {cluster : Cluster}
    (h : cluster ∈ clustering.clusters decl) : WellFormed cluster := by
  obtain ⟨members, hmembers, rfl⟩ := List.mem_map.1 h
  exact wellFormed_clusterOf _ _ (DisjointSet.ne_nil_of_mem_components hmembers)

/-- What shares something is one of the names that were given. -/
theorem exists_of_mem_sharing {pairs : List (String × String)} {group : List String}
    {name : String} (hgroup : group ∈ sharing pairs) (hname : name ∈ group) :
    ∃ key, (key, name) ∈ pairs := by
  obtain ⟨⟨key, group'⟩, hentry, rfl⟩ := List.mem_map.1 hgroup
  exact ⟨key, (Table.of_mem_entries_group hentry).2 name hname⟩

/-- Only methods of the class are linked. -/
theorem mem_names_of_mem_linkedGroups {owner : String} {methods : List Method}
    {group : List String} {name : String}
    (hgroup : group ∈ clustering.linkedGroups owner methods) (hname : name ∈ group) :
    name ∈ methods.map Method.name := by
  simp only [linkedGroups, List.mem_append] at hgroup
  -- a common target, a common category, a common caller
  rcases hgroup with (hgroup | hgroup) | hgroup
  · obtain ⟨target, hpair⟩ := exists_of_mem_sharing hgroup hname
    obtain ⟨method, hmethod, hmem⟩ := List.mem_flatMap.1 hpair
    obtain ⟨target', -, heq⟩ := List.mem_map.1 hmem
    exact List.mem_map.2 ⟨method, hmethod, (Prod.mk.inj heq).2⟩
  · obtain ⟨category, hpair⟩ := exists_of_mem_sharing hgroup hname
    obtain ⟨method, hmethod, hmem⟩ := List.mem_filterMap.1 hpair
    obtain ⟨category', -, heq⟩ := Option.map_eq_some_iff.1 hmem
    exact List.mem_map.2 ⟨method, hmethod, (Prod.mk.inj heq).2⟩
  · obtain ⟨method, -, rfl⟩ := List.mem_map.1 hgroup
    have hmem := List.mem_eraseDups.1 (List.mem_filter.1 hname).1
    exact List.contains_iff_mem.1 (List.mem_filter.1 hmem).2

end Clustering

/-! ### Analyses -/

theorem Audit.firstOf_eq_none_iff {α : Type} [Checked α] {values : List α} :
    Audit.firstOf values = none ↔ ∀ value ∈ values, WellFormed value :=
  List.findSome?_eq_none_iff

theorem Audit.analysisDefect?_eq_none_iff {analysis : UnitAnalysis} :
    Audit.analysisDefect? analysis = none ↔
      (∀ chain ∈ analysis.chains, WellFormed chain) ∧
      (∀ call ∈ analysis.calls, WellFormed call) ∧
      (∀ cluster ∈ analysis.clusters, WellFormed cluster) ∧
      (∀ transaction ∈ analysis.transactions, WellFormed transaction) ∧
      WellFormed analysis := by
  simp only [analysisDefect?, Option.or_eq_none_iff, firstOf_eq_none_iff, and_assoc]
  rfl

namespace Survey

variable {survey : Survey}

/-- The analysis of a class meets its requirements, as do its parts. -/
theorem analysisDefect?_classAnalysis
    (hnames : ∀ name, survey.graph.hasClass name = true → name ≠ "") {decl : ClassDecl}
    (h : decl.Admissible) : Audit.analysisDefect? (survey.classAnalysis decl) = none := by
  have hname : decl.qualifiedName ≠ "" := ClassDecl.wellFormed_iff.1 h.self
  refine Audit.analysisDefect?_eq_none_iff.2 ⟨?_, ?_, ?_, ?_, ?_⟩
  · intro chain hchain
    obtain ⟨method, -, site, -, hmeasure⟩ := AccessChain.exists_of_mem_ofClass hchain
    obtain ⟨hsubject, -, -, hstart, -⟩ := measure?_eq_some hmeasure
    exact AccessChain.wellFormed_iff.2 ⟨hsubject ▸ hname, hnames _ hstart⟩
  · intro call hcall
    obtain ⟨method, -, site, -, rfl⟩ := LayeredCall.exists_of_mem_ofClass hcall
    exact LayeredCall.wellFormed_ofSite site hname _ _ _
  · intro cluster hcluster
    exact Clustering.wellFormed_of_mem_clusters hcluster
  · intro transaction htransaction
    obtain ⟨-, -, -, -, hwf⟩ := exists_of_mem_transactionsOf htransaction
    exact hwf
  · refine UnitAnalysis.wellFormed_iff.2 ⟨hname, ?_, ?_, ?_⟩
    · intro htemplate
      cases htemplate
    · exact Int.natCast_nonneg _
    · refine List.sum_nonneg ?_
      intro count hcount
      obtain ⟨method, -, rfl⟩ := List.mem_map.1 hcount
      exact Int.natCast_nonneg _

/-- The analysis of a template meets its requirements, as do its parts. -/
theorem analysisDefect?_templateAnalysis
    (hnames : ∀ name, survey.graph.hasClass name = true → name ≠ "") {template : Template}
    (h : template.Admissible) :
    Audit.analysisDefect? (survey.templateAnalysis template) = none := by
  have hname : template.name ≠ "" := Template.wellFormed_iff.1 h.self
  refine Audit.analysisDefect?_eq_none_iff.2 ⟨?_, ?_, ?_, ?_, ?_⟩
  · intro chain hchain
    obtain ⟨site, -, hmeasure⟩ := AccessChain.exists_of_mem_ofTemplate hchain
    obtain ⟨hsubject, -, -, hstart, -⟩ := measure?_eq_some hmeasure
    exact AccessChain.wellFormed_iff.2 ⟨hsubject ▸ hname, hnames _ hstart⟩
  · intro call hcall
    obtain ⟨site, -, rfl⟩ := List.mem_map.1 hcall
    exact LayeredCall.wellFormed_ofSite site hname _ _ _
  · intro cluster hcluster
    cases hcluster
  · intro transaction htransaction
    cases htransaction
  · refine UnitAnalysis.wellFormed_iff.2 ⟨hname, ?_, ?_, ?_⟩
    · intro _
      rfl
    · exact Int.le_refl 0
    · exact Int.natCast_nonneg _

end Survey

end ObjectAudit
