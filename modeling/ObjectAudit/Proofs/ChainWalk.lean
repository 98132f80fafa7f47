/-
ObjectAudit/Proofs/ChainWalk.lean

The walk over the names of a call site, as rules over the declared classes.

A stride takes one name.  It crosses the association of that name, or, where the class has
none, goes through a method of that name that forwards (`Strides`).  Behind an unresolved
association, or a method that yields no class, the walk stands nowhere, and no stride is left.
A walk is maximal if it ends there, at the last name, or before a name that no stride takes
(`MaximalWalk`).

From every class there is exactly one maximal walk over given names (`MaximalWalk.unique`), and
it is the one that is computed (`walkFrom_ofModel`), stride by stride (`Strides.walkFrom_eq`).

Main result: a call site has a measure exactly if its walk starts at a declared class and
crosses an association, and the measure lists what the walk comes across
(`measure?_follows_walk`).
-/
import ObjectAudit.Proofs.AnalysisShape

namespace ObjectAudit

/-! ### What a class declares -/

namespace Model

/-- The association of an accessor: the first one in the first class of a name that names this
class as its source.  It is resolved if its target is declared. -/
def edge? (model : Model) (className accessor : String) : Option Association :=
  ((model.class? className).bind fun decl => decl.associations.find? fun edge =>
    edge.source == className && edge.accessor == accessor).map (Graph.resolve model.classNames)

/-- The first method of a name in the first class of a name. -/
def method? (model : Model) (className name : String) : Option Method :=
  (model.class? className).bind fun decl => decl.method? name

/-- Where the method of a name forwards to, if it does. -/
def delegation? (model : Model) (className name : String) : Option Delegation :=
  (model.method? className name).bind Method.delegatesTo

variable {model : Model} {className name : String}

theorem mem_classNames_of_class? {decl : ClassDecl} (h : model.class? className = some decl) :
    className ∈ model.classNames := by
  have hname := List.find?_some h
  exact Graph.mem_classNames.2 ⟨decl, List.mem_of_find?_eq_some h, eq_of_beq hname⟩

/-- An association of a class starts at it, which is declared, and has the accessor; it is
resolved exactly if its target is declared too. -/
theorem of_edge?_eq_some {edge : Association} (h : model.edge? className name = some edge) :
    edge.source = className ∧ edge.accessor = name ∧ className ∈ model.classNames ∧
      (edge.resolved = true ↔ edge.target ∈ model.classNames) := by
  obtain ⟨declared, hdeclared, rfl⟩ := Option.map_eq_some_iff.1 h
  obtain ⟨decl, hdecl, hfind⟩ := Option.bind_eq_some_iff.1 hdeclared
  have hnamed := List.find?_some hfind
  simp only [Bool.and_eq_true, beq_iff_eq] at hnamed
  refine ⟨?_, ?_, mem_classNames_of_class? hdecl, ?_⟩
  · rw [Graph.resolve_source, hnamed.1]
  · rw [Graph.resolve_accessor, hnamed.2]
  · rw [Graph.resolve_resolved, Graph.resolve_target, List.contains_iff_mem]

end Model

/-! ### Strides -/

/-- One step of a walk: over an association, or through a method that forwards. -/
inductive Stride where
  | hop (edge : Association)
  | forward (className name : String)
deriving DecidableEq, Repr

namespace Stride

/-- The name that a stride takes. -/
def name : Stride → String
  | hop edge => edge.accessor
  | forward _ name => name

/-- The hop of a stride over an association.  It counts if it leads to another class. -/
def hop? : Stride → Option Hop
  | hop edge =>
    some ⟨edge, if edge.resolved then edge.target else externalNode, edge.source != edge.target⟩
  | forward _ _ => none

/-- The method of a stride that goes through one. -/
def delegation? : Stride → Option String
  | hop _ => none
  | forward className name => some s!"{className}.{name}"

end Stride

/-- A method that forwards yields a class: both the association and, in the class behind it,
the member are resolved associations. -/
inductive Yields (model : Model) (current : String) (delegation : Delegation) : String → Prop
  | intro {via member : Association} :
      model.edge? current delegation.association = some via → via.resolved = true →
      model.edge? via.target delegation.member = some member → member.resolved = true →
      Yields model current delegation member.target

/-- A stride from a class, and the class from where the walk goes on, if it does. -/
inductive Strides (model : Model) (current : String) : Stride → Option String → Prop
  | cross {edge : Association} :
      model.edge? current edge.accessor = some edge → edge.resolved = true →
      Strides model current (.hop edge) (some edge.target)
  | leave {edge : Association} :
      model.edge? current edge.accessor = some edge → edge.resolved = false →
      Strides model current (.hop edge) none
  | forward {name : String} {delegation : Delegation} {next : String} :
      model.edge? current name = none → model.delegation? current name = some delegation →
      Yields model current delegation next →
      Strides model current (.forward current name) (some next)
  | lose {name : String} {delegation : Delegation} :
      model.edge? current name = none → model.delegation? current name = some delegation →
      (∀ next, ¬ Yields model current delegation next) →
      Strides model current (.forward current name) none

variable {model : Model}

theorem Yields.unique {current next next' : String} {delegation : Delegation}
    (h : Yields model current delegation next) (h' : Yields model current delegation next') :
    next = next' := by
  obtain ⟨hvia, -, hmember, -⟩ := h
  obtain ⟨hvia', -, hmember', -⟩ := h'
  rw [hvia] at hvia'
  obtain rfl := Option.some.inj hvia'
  rw [hmember] at hmember'
  rw [Option.some.inj hmember']

/-- A name is an association or a method that forwards, if a stride takes it. -/
theorem Strides.takes {current : String} {stride : Stride} {next : Option String}
    (h : Strides model current stride next) :
    model.edge? current stride.name ≠ none ∨ model.delegation? current stride.name ≠ none := by
  cases h with
  | cross hedge _ => exact .inl (by simp [Stride.name, hedge])
  | leave hedge _ => exact .inl (by simp [Stride.name, hedge])
  | forward _ hdelegation _ => exact .inr (by simp [Stride.name, hdelegation])
  | lose _ hdelegation _ => exact .inr (by simp [Stride.name, hdelegation])

/-- Some stride takes the name of an association or of a method that forwards. -/
theorem exists_strides {current name : String}
    (h : ¬ (model.edge? current name = none ∧ model.delegation? current name = none)) :
    ∃ stride next, Strides model current stride next ∧ stride.name = name := by
  cases hedge : model.edge? current name with
  | some edge =>
    obtain ⟨-, rfl, -⟩ := Model.of_edge?_eq_some hedge
    cases hresolved : edge.resolved with
    | true => exact ⟨_, _, .cross hedge hresolved, rfl⟩
    | false => exact ⟨_, _, .leave hedge hresolved, rfl⟩
  | none =>
    obtain ⟨delegation, hdelegation⟩ := Option.ne_none_iff_exists'.1 fun hnone => h ⟨hedge, hnone⟩
    by_cases hyields : ∃ next, Yields model current delegation next
    · obtain ⟨next, hyields⟩ := hyields
      exact ⟨_, _, .forward hedge hdelegation hyields, rfl⟩
    · exact ⟨_, _, .lose hedge hdelegation (not_exists.1 hyields), rfl⟩

/-- One stride takes a name, and leads to one place. -/
theorem Strides.unique {current : String} {stride stride' : Stride} {next next' : Option String}
    (h : Strides model current stride next) (h' : Strides model current stride' next')
    (hname : stride.name = stride'.name) : stride = stride' ∧ next = next' := by
  cases h <;> cases h' <;> simp_all [Stride.name]
  -- the same method, and it yields a class both times
  exact Yields.unique (by assumption) (by assumption)

/-- Behind a hop the walk stands at the target, or nowhere if the hop is unresolved. -/
theorem Strides.of_hop {current : String} {edge : Association} {next : Option String}
    (h : Strides model current (.hop edge) next) :
    edge.source = current ∧ current ∈ model.classNames ∧
      (edge.resolved = true ↔ edge.target ∈ model.classNames) ∧
      next = if edge.resolved then some edge.target else none := by
  cases h with
  | cross hedge hresolved =>
    obtain ⟨hsource, -, hmem, hiff⟩ := Model.of_edge?_eq_some hedge
    exact ⟨hsource, hmem, hiff, by rw [hresolved]; rfl⟩
  | leave hedge hresolved =>
    obtain ⟨hsource, -, hmem, hiff⟩ := Model.of_edge?_eq_some hedge
    exact ⟨hsource, hmem, hiff, by rw [hresolved]; rfl⟩

/-- Where no class has the name of the outside node, no hop leads to one. -/
theorem Strides.inside (hexternal : externalNode ∉ model.classNames) {current : String}
    {stride : Stride} {next : Option String} (h : Strides model current stride next) :
    ∀ edge, stride = .hop edge → next ≠ some externalNode := by
  rintro edge rfl hnext
  obtain ⟨-, -, hiff, rfl⟩ := h.of_hop
  split at hnext
  · next hresolved => exact hexternal (Option.some.inj hnext ▸ hiff.1 hresolved)
  · cases hnext

/-! ### Walks -/

/-- A walk from a place to a place; without a class to stand at there is no further stride. -/
inductive Walks (model : Model) : Option String → List Stride → Option String → Prop
  | stay (place : Option String) : Walks model place [] place
  | step {current : String} {stride : Stride} {next last : Option String}
      {strides : List Stride} :
      Strides model current stride next → Walks model next strides last →
      Walks model (some current) (stride :: strides) last

theorem Walks.of_none {strides : List Stride} {last : Option String}
    (h : Walks model none strides last) : strides = [] ∧ last = none := by
  cases h
  exact ⟨rfl, rfl⟩

/-- A walk passes a place before each of its strides. -/
theorem Walks.of_append {place last : Option String} {stride : Stride}
    {before after : List Stride} (h : Walks model place (before ++ stride :: after) last) :
    ∃ current next, Walks model place before (some current) ∧
      Strides model current stride next ∧ Walks model next after last := by
  induction before generalizing place with
  | nil =>
    cases h with
    | step hstride hrest => exact ⟨_, _, .stay _, hstride, hrest⟩
  | cons first before ih =>
    cases h with
    | step hfirst hrest =>
      obtain ⟨current, next, hbefore, hstride, hafter⟩ := ih hrest
      exact ⟨current, next, .step hfirst hbefore, hstride, hafter⟩

/-- An unresolved hop is the last stride and leads to another class. -/
theorem Walks.of_hop {place last : Option String} {edge : Association}
    {before after : List Stride} (h : Walks model place (before ++ .hop edge :: after) last) :
    Walks model place before (some edge.source) ∧ edge.source ∈ model.classNames ∧
      (edge.resolved = false → after = [] ∧ edge.source ≠ edge.target) := by
  obtain ⟨current, next, hbefore, hstride, hafter⟩ := h.of_append
  obtain ⟨rfl, hmem, hiff, rfl⟩ := hstride.of_hop
  refine ⟨hbefore, hmem, ?_⟩
  intro hresolved
  rw [hresolved] at hafter
  refine ⟨hafter.of_none.1, ?_⟩
  -- the source is declared, and the target of an unresolved association is not
  intro heq
  rw [hresolved, ← heq] at hiff
  exact Bool.false_ne_true (hiff.2 hmem)

/-- A walk that ends nowhere got there by its last stride. -/
theorem Walks.to_none {start : String} {strides : List Stride}
    (h : Walks model (some start) strides none) :
    ∃ before stride current, strides = before ++ [stride] ∧ Strides model current stride none := by
  rcases List.eq_nil_or_concat' strides with rfl | ⟨before, stride, rfl⟩
  · cases h
  · obtain ⟨current, next, -, hstride, hafter⟩ := h.of_append
    cases hafter
    exact ⟨before, stride, current, rfl, hstride⟩

/-- A walk that takes some names in order and leaves the rest, and that cannot go on: it stands
nowhere, no name is left, or the class it stands at has neither an association nor a method
that forwards of the next name. -/
structure MaximalWalk (model : Model) (place : Option String) (names : List String)
    (strides : List Stride) (last : Option String) (rest : List String) : Prop where
  walks : Walks model place strides last
  names_eq : names = strides.map Stride.name ++ rest
  ends : ∀ current name, last = some current → rest.head? = some name →
    model.edge? current name = none ∧ model.delegation? current name = none

namespace MaximalWalk

theorem nowhere (names : List String) : MaximalWalk model none names [] none names where
  walks := .stay none
  names_eq := rfl
  ends current name hcurrent _ := by cases hcurrent

theorem step {current : String} {stride : Stride} {next last : Option String}
    {names rest : List String} {strides : List Stride} (hstride : Strides model current stride next)
    (h : MaximalWalk model next names strides last rest) :
    MaximalWalk model (some current) (stride.name :: names) (stride :: strides) last rest where
  walks := .step hstride h.walks
  names_eq := congrArg (stride.name :: ·) h.names_eq
  ends := h.ends

/-- Where a walk over no name is maximal, no stride takes the next name. -/
theorem not_strides {place last next : Option String} {current : String} {stride : Stride}
    {names rest : List String} (h : MaximalWalk model place names [] last rest)
    (hplace : place = some current) (hname : names.head? = some stride.name) :
    ¬ Strides model current stride next := by
  intro hstride
  have hrest : names = rest := h.names_eq
  cases h.walks
  subst hrest
  obtain ⟨hedge, hdelegation⟩ := h.ends current stride.name hplace hname
  rcases hstride.takes with htakes | htakes
  · exact htakes hedge
  · exact htakes hdelegation

/-- There is one maximal walk over given names. -/
theorem unique {place last last' : Option String} {names rest rest' : List String}
    {strides strides' : List Stride} (h : MaximalWalk model place names strides last rest)
    (h' : MaximalWalk model place names strides' last' rest') :
    strides = strides' ∧ last = last' ∧ rest = rest' := by
  induction strides generalizing place names strides' with
  | nil =>
    cases strides' with
    | nil =>
      cases h.walks
      cases h'.walks
      exact ⟨rfl, rfl, h.names_eq.symm.trans h'.names_eq⟩
    | cons stride' strides' =>
      have hwalks' := h'.walks
      cases hwalks' with
      | step hstride' _ =>
        refine absurd hstride' (h.not_strides rfl ?_)
        rw [h'.names_eq]
        rfl
  | cons stride strides ih =>
    have hwalks := h.walks
    cases hwalks with
    | step hstride hrest =>
      cases strides' with
      | nil =>
        refine absurd hstride (h'.not_strides rfl ?_)
        rw [h.names_eq]
        rfl
      | cons stride' strides' =>
        have hwalks' := h'.walks
        cases hwalks' with
        | step hstride' hrest' =>
          -- both take the first name, so they stride to the same place
          have hnames := h.names_eq.symm.trans h'.names_eq
          obtain ⟨hname, htail⟩ := List.cons.inj hnames
          obtain ⟨rfl, rfl⟩ := hstride.unique hstride' hname
          obtain ⟨rfl, hlast, hrests⟩ :=
            ih ⟨hrest, rfl, h.ends⟩ ⟨hrest', htail, h'.ends⟩
          exact ⟨rfl, hlast, hrests⟩

end MaximalWalk

/-- Why a walk stops: no name is left, it crossed an unresolved association, it went through a
method that yields no class, or the next name is neither an association nor a method that
forwards. -/
inductive Stops (model : Model) (strides : List Stride) (last : Option String)
    (rest : List String) : Prop
  | exhausted : rest = [] → Stops model strides last rest
  | left {before : List Stride} {edge : Association} :
      strides = before ++ [.hop edge] → edge.resolved = false → Stops model strides last rest
  | lost {before : List Stride} {current name : String} {delegation : Delegation} :
      strides = before ++ [.forward current name] →
      model.delegation? current name = some delegation →
      (∀ next, ¬ Yields model current delegation next) → Stops model strides last rest
  | untaken {current name : String} :
      last = some current → rest.head? = some name → model.edge? current name = none →
      model.delegation? current name = none → Stops model strides last rest

theorem MaximalWalk.stops {start : String} {last : Option String} {names rest : List String}
    {strides : List Stride} (h : MaximalWalk model (some start) names strides last rest) :
    Stops model strides last rest := by
  cases last with
  | none =>
    obtain ⟨before, stride, current, rfl, hstride⟩ := h.walks.to_none
    cases hstride with
    | leave _ hresolved => exact .left rfl hresolved
    | lose _ hdelegation hlost => exact .lost rfl hdelegation hlost
  | some current =>
    cases hrest : rest.head? with
    | none => exact .exhausted (List.head?_eq_none_iff.1 hrest)
    | some name =>
      obtain ⟨hedge, hdelegation⟩ := h.ends current name rfl hrest
      exact .untaken rfl hrest hedge hdelegation

/-! ### The computed walk -/

/-- What a walk comes across, and whether the name before which it ended is a method. -/
def Walk.ofStrides (model : Model) (strides : List Stride) (last : Option String)
    (rest : List String) : Walk :=
  { hops := strides.filterMap Stride.hop?
    delegations := strides.filterMap Stride.delegation?
    terminalIsMethod :=
      (last.bind fun current => rest.head?.bind fun name => model.method? current name).isSome }

/-- What some strides come across, and then what a walk does. -/
def Walk.behind (strides : List Stride) (walk : Walk) : Walk :=
  { walk with
    hops := strides.filterMap Stride.hop? ++ walk.hops
    delegations := strides.filterMap Stride.delegation? ++ walk.delegations }

theorem Walk.behind_append (strides strides' : List Stride) (walk : Walk) :
    walk.behind (strides ++ strides') = (walk.behind strides').behind strides := by
  simp [behind]

theorem Walk.behind_ofStrides (strides strides' : List Stride) (last : Option String)
    (rest : List String) :
    (ofStrides model strides' last rest).behind strides =
      ofStrides model (strides ++ strides') last rest := by
  simp [behind, ofStrides]

theorem Graph.edge?_ofModel_eq (model : Model) (current name : String) :
    (ofModel model).edge? current name = model.edge? current name :=
  edge?_ofModel model current name

theorem MethodIndex.get?_ofModel_eq (model : Model) (current name : String) :
    (ofModel model).get? current name = model.method? current name :=
  get?_ofModel model current name

theorem MethodIndex.delegation?_ofModel_eq_none {current name : String}
    (h : model.delegation? current name = none) :
    (ofModel model).delegation? current name = none := by
  rw [delegation?, get?_ofModel_eq, Option.filter_eq_none_iff]
  intro method hmethod hforwards
  have hnone := Option.bind_eq_none_iff.1 h method hmethod
  rw [Method.isDelegation, hnone] at hforwards
  cases hforwards

theorem MethodIndex.delegation?_ofModel_eq_some {current name : String} {delegation : Delegation}
    (h : model.delegation? current name = some delegation) :
    ∃ method, (ofModel model).delegation? current name = some method ∧
      method.delegatesTo = some delegation := by
  obtain ⟨method, hmethod, hdelegates⟩ := Option.bind_eq_some_iff.1 h
  refine ⟨method, ?_, hdelegates⟩
  rw [delegation?, get?_ofModel_eq, Option.filter_eq_some_iff]
  exact ⟨hmethod, by rw [Method.isDelegation, hdelegates]; rfl⟩

/-- A method that forwards yields the class that the rules give. -/
theorem delegationResult_ofModel {current next : String} {method : Method}
    {delegation : Delegation} (hdelegation : method.delegatesTo = some delegation) :
    delegationResult (.ofModel model) current method = some next ↔
      Yields model current delegation next := by
  simp only [delegationResult, hdelegation, Graph.edge?_ofModel_eq, Option.bind_eq_bind,
    Option.bind_some, Option.bind_eq_some_iff, Option.filter_eq_some_iff]
  constructor
  · rintro ⟨via, ⟨hvia, hresolved⟩, member, ⟨hmember, hresolved'⟩, hnext⟩
    obtain rfl := Option.some.inj hnext
    exact ⟨hvia, hresolved, hmember, hresolved'⟩
  · rintro ⟨hvia, hresolved, hmember, hresolved'⟩
    exact ⟨_, ⟨hvia, hresolved⟩, _, ⟨hmember, hresolved'⟩, rfl⟩

/-- What is computed over some names from a place on; without a class to stand at nothing is. -/
def Model.walk (model : Model) (place : Option String) (names : List String) : Walk :=
  place.elim {} fun current => walkFrom (.ofModel model) (.ofModel model) current names

/-- The computed walk takes each stride, and goes on where it leads to.  A hop must not lead to a
class that has the name of the outside node. -/
theorem Strides.walkFrom_eq {current : String} {stride : Stride} {next : Option String}
    (h : Strides model current stride next)
    (hinside : ∀ edge, stride = .hop edge → next ≠ some externalNode) (rest : List String) :
    walkFrom (.ofModel model) (.ofModel model) current (stride.name :: rest) =
      (model.walk next rest).behind [stride] := by
  rw [walkFrom, Graph.edge?_ofModel_eq]
  cases h with
  | @cross edge hedge hresolved =>
    have hnode : Graph.targetNode edge = edge.target := by simp [Graph.targetNode, hresolved]
    have hne : Graph.targetNode edge ≠ externalNode := by
      rw [hnode]
      exact fun heq => hinside edge rfl (congrArg some heq)
    rw [Stride.name, hedge]
    dsimp only
    rw [if_neg hne, hnode]
    simp [Walk.addHop, Walk.behind, Stride.hop?, Stride.delegation?, Model.walk, hresolved,
      Association.isSelfReference, bne]
  | @leave edge hedge hresolved =>
    -- the outside node stops the walk
    have hnode : Graph.targetNode edge = externalNode := by simp [Graph.targetNode, hresolved]
    rw [Stride.name, hedge]
    exact if_pos hnode
  | forward hedge hdelegation hyields =>
    obtain ⟨method, hmethod, hdelegates⟩ := MethodIndex.delegation?_ofModel_eq_some hdelegation
    rw [Stride.name, hedge]
    dsimp only
    rw [hmethod]
    dsimp only
    rw [(delegationResult_ofModel hdelegates).2 hyields]
    rfl
  | lose hedge hdelegation hlost =>
    obtain ⟨method, hmethod, hdelegates⟩ := MethodIndex.delegation?_ofModel_eq_some hdelegation
    have hresult : delegationResult (.ofModel model) current method = none := by
      refine Option.eq_none_iff_forall_ne_some.2 ?_
      intro next hnext
      exact hlost next ((delegationResult_ofModel hdelegates).1 hnext)
    rw [Stride.name, hedge]
    dsimp only
    rw [hmethod]
    dsimp only
    rw [hresult]
    rfl

/-- The computed walk ends before a name that no stride takes. -/
theorem walkFrom_of_untaken {current name : String} (hedge : model.edge? current name = none)
    (hdelegation : model.delegation? current name = none) (rest : List String) :
    walkFrom (.ofModel model) (.ofModel model) current (name :: rest) =
      { terminalIsMethod := (model.method? current name).isSome } := by
  rw [walkFrom, Graph.edge?_ofModel_eq, hedge]
  dsimp only
  rw [MethodIndex.delegation?_ofModel_eq_none hdelegation, MethodIndex.get?_ofModel_eq]

/-- The computed walk is the maximal one. -/
theorem walkFrom_ofModel (hexternal : externalNode ∉ model.classNames) (current : String)
    (names : List String) :
    ∃ strides last rest, MaximalWalk model (some current) names strides last rest ∧
      walkFrom (.ofModel model) (.ofModel model) current names =
        Walk.ofStrides model strides last rest := by
  induction names generalizing current with
  | nil =>
    refine ⟨[], some current, [], ⟨.stay _, rfl, ?_⟩, rfl⟩
    intro _ _ _ hhead
    cases hhead
  | cons name names ih =>
    -- a name that is no association and does not forward ends the walk
    by_cases htaken : model.edge? current name = none ∧ model.delegation? current name = none
    · refine ⟨[], some current, name :: names, ⟨.stay _, rfl, ?_⟩,
        walkFrom_of_untaken htaken.1 htaken.2 names⟩
      rintro _ _ ⟨⟩ ⟨⟩
      exact htaken
    · obtain ⟨stride, next, hstride, rfl⟩ := exists_strides htaken
      -- the walk goes on where the stride leads, if that is anywhere
      obtain ⟨strides, last, rest, hmaximal, hwalk⟩ : ∃ strides last rest,
          MaximalWalk model next names strides last rest ∧
            model.walk next names = Walk.ofStrides model strides last rest := by
        cases next with
        | none => exact ⟨[], none, names, .nowhere names, rfl⟩
        | some next => exact ih next
      refine ⟨stride :: strides, last, rest, .step hstride hmaximal, ?_⟩
      rw [hstride.walkFrom_eq (hstride.inside hexternal), hwalk, Walk.behind_ofStrides]
      rfl

/-! ### Measures -/

/-- A call site is walked from a class: that of the object itself, or that of a parameter. -/
def CallSite.StartsAt (site : CallSite) (owner : Option String) (start : String) : Prop :=
  site.origin = .self ∧ owner = some start ∨
    site.origin = .parameter ∧ site.rootClass = some start

theorem startClass?_ofModel (hexternal : externalNode ∉ model.classNames) {site : CallSite}
    {owner : Option String} {start : String} :
    startClass? (.ofModel model) site owner = some start ↔
      site.StartsAt owner start ∧ start ∈ model.classNames := by
  have hclass : (Graph.ofModel model).hasClass start = true ↔ start ∈ model.classNames := by
    rw [Graph.hasClass_ofModel]
    exact and_iff_right_of_imp fun hmem heq => hexternal (heq ▸ hmem)
  unfold startClass? CallSite.StartsAt
  cases site.origin <;> simp [Option.filter_eq_some_iff, hclass]

theorem CallSite.StartsAt.unique {site : CallSite} {owner : Option String} {start start' : String}
    (h : site.StartsAt owner start) (h' : site.StartsAt owner start') : start = start' := by
  unfold StartsAt at h h'
  cases horigin : site.origin <;> simp_all

/-- A measure lists what the maximal walk of its call site comes across. -/
structure AccessChain.Follows (chain : AccessChain) (model : Model) (owner : Option String)
    (strides : List Stride) (last : Option String) (rest : List String) : Prop where
  starts : chain.callSite.StartsAt owner chain.startClass
  declared : chain.startClass ∈ model.classNames
  maximal : MaximalWalk model (some chain.startClass) chain.callSite.chain strides last rest
  hops : chain.hops = strides.filterMap Stride.hop?
  delegations : chain.delegations = strides.filterMap Stride.delegation?
  terminal : chain.terminalIsMethod = true ↔
    ∃ current name found, last = some current ∧ rest.head? = some name ∧
      model.method? current name = some found

/-- A measured call site. -/
theorem follows_of_measure? (hexternal : externalNode ∉ model.classNames) {site : CallSite}
    {subject : String} {method owner : Option String} {chain : AccessChain}
    (h : measure? (.ofModel model) (.ofModel model) site subject method owner = some chain) :
    2 ≤ site.chain.length ∧ ∃ strides last rest, chain.Follows model owner strides last rest := by
  obtain ⟨hlength, start, hstart, -, rfl⟩ := measure?_eq_some_iff.1 h
  obtain ⟨strides, last, rest, hmaximal, hwalk⟩ := walkFrom_ofModel hexternal start site.chain
  obtain ⟨hstarts, hdeclared⟩ := (startClass?_ofModel hexternal).1 hstart
  rw [hwalk]
  refine ⟨hlength, strides, last, rest, hstarts, hdeclared, hmaximal, rfl, rfl, ?_⟩
  simp only [AccessChain.ofWalk, Walk.ofStrides, Option.isSome_iff_exists, Option.bind_eq_some_iff]
  constructor
  · rintro ⟨found, current, hlast, name, hhead, hfound⟩
    exact ⟨current, name, found, hlast, hhead, hfound⟩
  · rintro ⟨current, name, found, hlast, hhead, hfound⟩
    exact ⟨found, current, hlast, name, hhead, hfound⟩

/-- A call site has no measure if its chain has less than two names, its receiver comes from
outside, its walk would not start at a declared class, or its walk crosses no association. -/
theorem measure?_eq_none_iff (hexternal : externalNode ∉ model.classNames) {site : CallSite}
    {subject : String} {method owner : Option String} :
    measure? (.ofModel model) (.ofModel model) site subject method owner = none ↔
      site.chain.length < 2 ∨ site.origin = .external ∨
      (¬ ∃ start, site.StartsAt owner start ∧ start ∈ model.classNames) ∨
      ∃ start strides last rest, site.StartsAt owner start ∧
        MaximalWalk model (some start) site.chain strides last rest ∧
        strides.filterMap Stride.hop? = [] := by
  constructor
  · intro h
    unfold measure? at h
    split at h
    next hlength => exact .inl hlength
    split at h
    next hstart =>
      refine .inr (.inr (.inl ?_))
      rintro ⟨start, hstarts⟩
      rw [(startClass?_ofModel hexternal).2 hstarts] at hstart
      cases hstart
    next start hstart =>
      obtain ⟨strides, last, rest, hmaximal, hwalk⟩ := walkFrom_ofModel hexternal start site.chain
      have hstarts := ((startClass?_ofModel hexternal).1 hstart).1
      rw [hwalk] at h
      dsimp only at h
      split at h
      next hhops =>
        exact .inr (.inr (.inr ⟨start, strides, last, rest, hstarts, hmaximal,
          List.isEmpty_iff.1 hhops⟩))
      · cases h
  · intro h
    refine Option.eq_none_iff_forall_ne_some.2 ?_
    intro chain hchain
    -- a chain that is measured has two names, a start, and a hop
    obtain ⟨-, -, rfl, -, hhops⟩ := measure?_eq_some hchain
    obtain ⟨htwo, strides, last, rest, hfollows⟩ := follows_of_measure? hexternal hchain
    rcases h with hlength | horigin | hnone | ⟨start, strides', last', rest', hstarts, hwalk, hnil⟩
    · omega
    · have hstarts := hfollows.starts
      unfold CallSite.StartsAt at hstarts
      simp [horigin] at hstarts
    · exact hnone ⟨_, hfollows.starts, hfollows.declared⟩
    · obtain rfl := hstarts.unique hfollows.starts
      obtain ⟨rfl, -, -⟩ := hwalk.unique hfollows.maximal
      exact hhops (hfollows.hops.trans hnil)

/-- An unresolved hop comes last and counts. -/
theorem AccessChain.Follows.of_unresolved {chain : AccessChain} {owner last : Option String}
    {strides : List Stride} {rest : List String}
    (h : chain.Follows model owner strides last rest) {hop : Hop} (hhop : hop ∈ chain.hops)
    (hresolved : hop.edge.resolved = false) :
    chain.hops.getLast? = some hop ∧ hop.counted = true := by
  rw [h.hops] at hhop ⊢
  obtain ⟨stride, hstride, hsome⟩ := List.mem_filterMap.1 hhop
  cases stride with
  | forward className name => cases hsome
  | hop edge =>
    obtain rfl := Option.some.inj hsome
    obtain ⟨before, after, rfl⟩ := List.append_of_mem hstride
    obtain ⟨-, -, hlast⟩ := h.maximal.walks.of_hop
    obtain ⟨rfl, hne⟩ := hlast hresolved
    constructor
    · simp [List.filterMap_append, Stride.hop?]
    · exact bne_iff_ne.2 hne

/-- A class belongs to another one. -/
def Association.link (source accessor target : String) : Association :=
  { source, target, kind := .belongsTo, accessor }

/-- Two classes with a cycle of associations, one of them declared twice under its accessor; an
association that leaves the audited code; and methods that forward: one to a class, one to an
attribute, and one that an association of the same name hides. -/
def Model.circular : Model :=
  let place : Location := ⟨.ofText "app/order.rb", 1, 0⟩
  let forwarding (name owner association member : String) : Method :=
    { name, owner := some owner, delegatesTo := some ⟨association, member⟩ }
  { classes :=
      [{ qualifiedName := "Order"
         associations :=
           [.link "Order" "parent" "Order", .link "Order" "customer" "Customer",
            .link "Order" "customer" "Order"]
         methods :=
           [forwarding "latest" "Order" "customer" "order",
            forwarding "customer" "Order" "parent" "parent",
            forwarding "city" "Order" "customer" "city"]
         layer := .model, location := place },
       { qualifiedName := "Customer"
         associations := [.link "Customer" "order" "Order", .link "Customer" "bank" "Bank"]
         methods := [{ name := "city", owner := some "Customer" }]
         layer := .model, location := place }] }

/-- From an order through a method to its customer's order, to the parent of that, to the
customer, and out. -/
def CallSite.wayOut : CallSite :=
  { origin := .self, root := "self", line := 3
    chain := ["latest", "parent", "customer", "bank", "name"] }

/-- Measuring a call site follows the rules of the walk.  There is no measure exactly if the
chain has less than two names, the receiver comes from outside, the walk would not start at a
declared class, or it crosses no association.  Otherwise the measure lists the hops and the
methods of the one maximal walk, whose strides take the first names of the chain in order and
which stops only for one of four reasons.  Every hop starts at the declared class that the walk
has come to, and an unresolved one comes last and counts. -/
theorem measure?_follows_walk {model : Model} (hexternal : externalNode ∉ model.classNames)
    (site : CallSite) (subject : String) (method owner : Option String) :
    (measure? (.ofModel model) (.ofModel model) site subject method owner = none ↔
      site.chain.length < 2 ∨ site.origin = .external ∨
      (¬ ∃ start, site.StartsAt owner start ∧ start ∈ model.classNames) ∨
      ∃ start strides last rest, site.StartsAt owner start ∧
        MaximalWalk model (some start) site.chain strides last rest ∧
        strides.filterMap Stride.hop? = []) ∧
    ∀ chain, measure? (.ofModel model) (.ofModel model) site subject method owner = some chain →
      chain.subject = subject ∧ chain.method = method ∧ chain.callSite = site ∧
      ∃ strides last rest, chain.Follows model owner strides last rest ∧
        Stops model strides last rest ∧
        (∀ strides' last' rest',
          MaximalWalk model (some chain.startClass) site.chain strides' last' rest' →
            strides' = strides ∧ last' = last ∧ rest' = rest) ∧
        (∀ before edge after, strides = before ++ .hop edge :: after →
          Walks model (some chain.startClass) before (some edge.source) ∧
            edge.source ∈ model.classNames ∧ (edge.resolved = false → after = [])) ∧
        ∀ hop ∈ chain.hops, hop.edge.resolved = false →
          chain.hops.getLast? = some hop ∧ hop.counted = true := by
  refine ⟨measure?_eq_none_iff hexternal, ?_⟩
  intro chain hchain
  obtain ⟨hsubject, hmethod, rfl, -, -⟩ := measure?_eq_some hchain
  obtain ⟨-, strides, last, rest, hfollows⟩ := follows_of_measure? hexternal hchain
  refine ⟨hsubject, hmethod, rfl, strides, last, rest, hfollows, hfollows.maximal.stops, ?_, ?_, ?_⟩
  · intro strides' last' rest' hwalk
    exact hwalk.unique hfollows.maximal
  · rintro before edge after rfl
    obtain ⟨hbefore, hmem, hlast⟩ := hfollows.maximal.walks.of_hop
    exact ⟨hbefore, hmem, fun hresolved => (hlast hresolved).1⟩
  · intro hop hhop hresolved
    exact hfollows.of_unresolved hhop hresolved

theorem measure?_follows_walk_circular :
    externalNode ∉ Model.circular.classNames ∧
    ∃ chain, measure? (.ofModel .circular) (.ofModel .circular) .wayOut "Order"
        (some "pay") (some "Order") = some chain ∧
      chain.accessors = ["parent", "customer", "bank"] ∧ chain.delegations = ["Order.latest"] ∧
      chain.path = ["Order", "Order", "Customer", externalNode] ∧ chain.depth = 2 := by
  have hnames : ∀ name, name ∈ Model.circular.classNames ↔ name ∈ ["Order", "Customer"] := by
    intro name
    rw [Graph.mem_classNames]
    simp [Model.circular, eq_comm]
  have hexternal : externalNode ∉ Model.circular.classNames := by
    rw [hnames]
    decide
  -- the set of names is sorted and does not reduce, but only its members matter
  have hresolve : Graph.resolve Model.circular.classNames =
      Graph.resolve ["Order", "Customer"] := by
    funext edge
    simp only [Graph.resolve, List.contains_iff_mem, hnames]
  have hparent : Model.circular.edge? "Order" "parent" =
      some (.link "Order" "parent" "Order") := by
    rw [Model.edge?, hresolve]
    rfl
  have hcustomer : Model.circular.edge? "Order" "customer" =
      some (.link "Order" "customer" "Customer") := by
    rw [Model.edge?, hresolve]
    rfl
  have horder : Model.circular.edge? "Customer" "order" =
      some (.link "Customer" "order" "Order") := by
    rw [Model.edge?, hresolve]
    rfl
  have hbank : Model.circular.edge? "Customer" "bank" =
      some (Graph.resolve [] (.link "Customer" "bank" "Bank")) := by
    rw [Model.edge?, hresolve]
    rfl
  have hyields : Yields .circular "Order" ⟨"customer", "order"⟩ "Order" :=
    @Yields.intro _ _ ⟨"customer", "order"⟩ _ _ hcustomer rfl horder rfl
  have hlatest : Strides .circular "Order" (.forward "Order" "latest") (some "Order") :=
    .forward rfl rfl hyields
  have hup : Strides .circular "Order" (.hop (.link "Order" "parent" "Order")) (some "Order") :=
    .cross hparent rfl
  have hover : Strides .circular "Order" (.hop (.link "Order" "customer" "Customer"))
      (some "Customer") :=
    .cross hcustomer rfl
  have hout : Strides .circular "Customer"
      (.hop (Graph.resolve [] (.link "Customer" "bank" "Bank"))) none :=
    .leave hbank rfl
  have hwalk := MaximalWalk.step hlatest
    (.step hup (.step hover (.step hout (.nowhere ["name"]))))
  have hstarts : CallSite.wayOut.StartsAt (some "Order") "Order" := .inl ⟨rfl, rfl⟩
  obtain ⟨hnone, hsome⟩ :=
    measure?_follows_walk hexternal .wayOut "Order" (some "pay") (some "Order")
  refine ⟨hexternal, ?_⟩
  cases hmeasure : measure? (.ofModel .circular) (.ofModel .circular) .wayOut "Order"
      (some "pay") (some "Order") with
  | none =>
    rcases hnone.1 hmeasure with hlength | horigin | hstart | ⟨_, _, _, _, hstart, hmaximal, hnil⟩
    · exact absurd hlength (by decide)
    · cases horigin
    · exact absurd ⟨"Order", hstarts, (hnames _).2 (by decide)⟩ hstart
    · obtain rfl := hstart.unique hstarts
      obtain ⟨rfl, -, -⟩ := hmaximal.unique hwalk
      cases hnil
  | some chain =>
    obtain ⟨-, -, hsite, _, _, _, hfollows, -⟩ := hsome chain hmeasure
    have hstart := hfollows.starts
    have hmaximal := hfollows.maximal
    rw [hsite] at hstart hmaximal
    rw [hstart.unique hstarts] at hmaximal
    obtain ⟨rfl, -, -⟩ := hmaximal.unique hwalk
    refine ⟨chain, rfl, ?_, ?_, ?_, ?_⟩
    · rw [AccessChain.accessors, hfollows.hops]
      rfl
    · rw [hfollows.delegations]
      rfl
    · rw [AccessChain.path, hfollows.hops, hstart.unique hstarts]
      rfl
    · rw [AccessChain.depth, hfollows.hops]
      rfl

end ObjectAudit
