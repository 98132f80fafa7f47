/-
ObjectAudit/Proofs/Shortcuts.lean

Methods that forward, seen as shortcuts of a walk.

A walk may be cut at every class that it comes to: what is computed from its start is what the
first part comes across, and then what is computed from that class on (`Walks.walk_eq`).  So two
ways from a class to the same class may be exchanged in the middle of a walk, and all that lies
before and behind them stays as it is.

One such pair of ways is a method that forwards over two associations, and these associations
themselves (`Shortcut`).  Taking the method loses the two hops and nothing else
(`measure?_shortcut`).

A method that forwards to another method that forwards is no shortcut.  What it yields is looked
up among associations only, so the walk is lost at it, although the way over the association
and through the other method goes on (`walkFrom_relay`).
-/
import ObjectAudit.Proofs.ChainWalk

namespace ObjectAudit

variable {model : Model}

/-! ### Walks one after the other -/

theorem Walks.append {place middle last : Option String} {strides strides' : List Stride}
    (h : Walks model place strides middle) (h' : Walks model middle strides' last) :
    Walks model place (strides ++ strides') last := by
  induction h with
  | stay => exact h'
  | step hstride _ ih => exact .step hstride (ih h')

/-- A computed walk may be cut where a part of it has come to. -/
theorem Walks.walk_eq (hexternal : externalNode ∉ model.classNames)
    {place middle : Option String} {strides : List Stride} (h : Walks model place strides middle)
    (names : List String) :
    model.walk place (strides.map Stride.name ++ names) =
      (model.walk middle names).behind strides := by
  induction h with
  | stay => rfl
  | @step current stride next middle strides hstride _ ih =>
    calc model.walk (some current) (stride.name :: (strides.map Stride.name ++ names))
      _ = (model.walk next (strides.map Stride.name ++ names)).behind [stride] :=
        hstride.walkFrom_eq (hstride.inside hexternal) _
      _ = ((model.walk middle names).behind strides).behind [stride] := by rw [ih]
      _ = (model.walk middle names).behind (stride :: strides) :=
        (Walk.behind_append [stride] strides _).symm

/-! ### Shortcuts -/

/-- A method that forwards over two resolved associations, the second one declared where the
first one leads to, and that no association of its name hides. -/
structure Shortcut (model : Model) (current name : String) (first second : Association) :
    Prop where
  unhidden : model.edge? current name = none
  forwards : model.delegation? current name = some ⟨first.accessor, second.accessor⟩
  first_declared : model.edge? current first.accessor = some first
  first_resolved : first.resolved = true
  second_declared : model.edge? first.target second.accessor = some second
  second_resolved : second.resolved = true

namespace Shortcut

variable {current name : String} {first second : Association}
variable (h : Shortcut model current name first second)

include h

/-- The way through the method. -/
theorem walks_forward : Walks model (some current) [.forward current name] (some second.target) :=
  .step (.forward h.unhidden h.forwards
    ⟨h.first_declared, h.first_resolved, h.second_declared, h.second_resolved⟩) (.stay _)

/-- The way over the associations. -/
theorem walks_hops :
    Walks model (some current) [.hop first, .hop second] (some second.target) :=
  .step (.cross h.first_declared h.first_resolved)
    (.step (.cross h.second_declared h.second_resolved) (.stay _))

theorem hops_eq :
    [Stride.hop first, .hop second].filterMap Stride.hop? =
      [⟨first, first.target, current != first.target⟩,
       ⟨second, second.target, first.target != second.target⟩] := by
  obtain ⟨hfirst, -⟩ := Model.of_edge?_eq_some h.first_declared
  obtain ⟨hsecond, -⟩ := Model.of_edge?_eq_some h.second_declared
  simp [Stride.hop?, h.first_resolved, h.second_resolved, hfirst, hsecond]

end Shortcut

/-! ### Measures -/

section Measures

variable {graph : Graph} {methods : MethodIndex} {site : CallSite} {owner : Option String}
variable {start : String}

/-- The hops of a call site that is walked from a class; a chain of less than two names is not
measured. -/
theorem hops_measure? (h : startClass? graph site owner = some start) (subject : String)
    (method : Option String) :
    (measure? graph methods site subject method owner).elim [] AccessChain.hops =
      if site.chain.length < 2 then [] else (walkFrom graph methods start site.chain).hops := by
  unfold measure?
  split
  · rfl
  · rw [h]
    dsimp only
    split
    · next hnil => exact (List.isEmpty_iff.1 hnil).symm
    · rfl

theorem depth_eq_countP_hops (measured : Option AccessChain) :
    measured.elim 0 AccessChain.depth =
      (measured.elim [] AccessChain.hops).countP Hop.counted := by
  cases measured <;> rfl

end Measures

/-- The hops of a receiver with names that begin with those of a walk: the hops of this walk, and
those that are found from where it leads to.  A single name must not be that of a hop. -/
theorem hops_measure?_of_walks (hexternal : externalNode ∉ model.classNames) {site : CallSite}
    {owner : Option String} {start next : String}
    (hstart : startClass? (.ofModel model) site owner = some start) {strides : List Stride}
    (h : Walks model (some start) strides (some next)) {names post : List String}
    (hnames : names = strides.map Stride.name ++ post)
    (hsingle : names.length < 2 → strides.filterMap Stride.hop? = [] ∧ post = [])
    (subject : String) (method : Option String) :
    (measure? (.ofModel model) (.ofModel model) { site with chain := names } subject method
        owner).elim [] AccessChain.hops =
      strides.filterMap Stride.hop? ++
        (walkFrom (.ofModel model) (.ofModel model) next post).hops := by
  have hstart' : startClass? (.ofModel model) { site with chain := names } owner = some start :=
    hstart
  rw [hops_measure? hstart']
  split
  · -- a single name is not measured, and then there was no hop
    next hlength =>
    obtain ⟨hnil, rfl⟩ := hsingle hlength
    rw [hnil]
    rfl
  · rw [hnames]
    exact congrArg Walk.hops (h.walk_eq hexternal post)

/-- A method that forwards over two associations loses these two hops and nothing else.  Take a
receiver from whose class a walk over some names comes to the class of the method.  Measured
with the two accessors behind these names, or with the name of the method there, and any other
names behind, it has the same hops before and the same hops behind.  The depths differ by the
number of the two associations that lead to another class. -/
theorem measure?_shortcut {model : Model} (hexternal : externalNode ∉ model.classNames)
    {current name : String} {first second : Association}
    (hshortcut : Shortcut model current name first second)
    {site : CallSite} {owner : Option String} {start : String}
    (hstart : startClass? (.ofModel model) site owner = some start)
    {pre : List String} {strides : List Stride} (hpre : strides.map Stride.name = pre)
    (hwalks : Walks model (some start) strides (some current)) (post : List String)
    (subject : String) (method : Option String) :
    let measured (names : List String) := measure? (.ofModel model) (.ofModel model)
      { site with chain := names } subject method owner
    let long := measured (pre ++ [first.accessor, second.accessor] ++ post)
    let short := measured (pre ++ [name] ++ post)
    let before := strides.filterMap Stride.hop?
    let behind := (walkFrom (.ofModel model) (.ofModel model) second.target post).hops
    long.elim [] AccessChain.hops = before ++
      [⟨first, first.target, current != first.target⟩,
       ⟨second, second.target, first.target != second.target⟩] ++ behind ∧
    short.elim [] AccessChain.hops = before ++ behind ∧
    long.elim 0 AccessChain.depth = short.elim 0 AccessChain.depth +
      ((if current = first.target then 0 else 1) +
        if first.target = second.target then 0 else 1) := by
  subst hpre
  intro measured long short before behind
  have hlong : long.elim [] AccessChain.hops = before ++
      [⟨first, first.target, current != first.target⟩,
       ⟨second, second.target, first.target != second.target⟩] ++ behind := by
    rw [← hshortcut.hops_eq, ← List.filterMap_append]
    apply hops_measure?_of_walks hexternal hstart (hwalks.append hshortcut.walks_hops)
    · simp [Stride.name]
    · -- there are at least the two accessors
      intro hlength
      simp at hlength
      omega
  have hshort : short.elim [] AccessChain.hops = before ++ behind := by
    have hbefore : (strides ++ [Stride.forward current name]).filterMap Stride.hop? = before := by
      rw [List.filterMap_append]
      exact List.append_nil _
    rw [← hbefore]
    apply hops_measure?_of_walks hexternal hstart (hwalks.append hshortcut.walks_forward)
    · simp [Stride.name]
    · -- the method alone is no hop
      intro hlength
      simp only [List.length_append, List.length_map, List.length_singleton] at hlength
      obtain rfl : strides = [] := List.length_eq_zero_iff.1 (by omega)
      obtain rfl : post = [] := List.length_eq_zero_iff.1 (by omega)
      exact ⟨rfl, rfl⟩
  refine ⟨hlong, hshort, ?_⟩
  rw [depth_eq_countP_hops, depth_eq_countP_hops, hlong, hshort]
  simp only [List.countP_append, List.countP_cons, List.countP_nil, bne_iff_ne, ne_eq, ite_not]
  omega

/-- An association to a declared class is found resolved. -/
theorem Model.edge?_eq_asResolved {source accessor : String} {edge : Association}
    (hfind : ((model.class? source).bind fun decl => decl.associations.find? fun edge =>
      edge.source == source && edge.accessor == accessor) = some edge)
    (h : edge.target ∈ model.classNames) :
    model.edge? source accessor = some edge.asResolved := by
  rw [edge?, hfind, Option.map_some, Graph.resolve, if_pos (List.contains_iff_mem.2 h)]

section Links

variable {source accessor target : String}
variable (hfind : ((model.class? source).bind fun decl => decl.associations.find? fun edge =>
  edge.source == source && edge.accessor == accessor) = some (.link source accessor target))

include hfind

/-- An association to a declared class is found as it is declared. -/
theorem Model.edge?_eq_link (h : target ∈ model.classNames) :
    model.edge? source accessor = some (.link source accessor target) :=
  edge?_eq_asResolved hfind h

/-- An association to any other class is found unresolved. -/
theorem Model.edge?_eq_asUnresolved (h : target ∉ model.classNames) :
    model.edge? source accessor =
      some ((Association.link source accessor target).asUnresolved
        (some (Graph.outsideNote target))) := by
  have hcontains :
      ¬ model.classNames.contains (Association.link source accessor target).target = true :=
    fun hcontains => h (List.contains_iff_mem.1 hcontains)
  rw [edge?, hfind, Option.map_some, Graph.resolve, if_neg hcontains]
  rfl

end Links

theorem measure?_shortcut_circular :
    externalNode ∉ Model.circular.classNames ∧
    Shortcut .circular "Order" "latest" (.link "Order" "customer" "Customer")
      (.link "Customer" "order" "Order") ∧
    let measured (names : List String) := measure? (.ofModel .circular) (.ofModel .circular)
      { CallSite.wayOut with chain := names } "Order" (some "pay") (some "Order")
    let long := measured ["parent", "customer", "order", "customer", "bank", "name"]
    let short := measured ["parent", "latest", "customer", "bank", "name"]
    (long.elim [] AccessChain.hops).map (fun hop => hop.edge.accessor) =
      ["parent", "customer", "order", "customer", "bank"] ∧
    (short.elim [] AccessChain.hops).map (fun hop => hop.edge.accessor) =
      ["parent", "customer", "bank"] ∧
    long.elim 0 AccessChain.depth = short.elim 0 AccessChain.depth + 2 := by
  have hclasses : "Order" ∈ Model.circular.classNames ∧ "Customer" ∈ Model.circular.classNames ∧
      "Bank" ∉ Model.circular.classNames ∧ externalNode ∉ Model.circular.classNames := by
    simp only [Graph.mem_classNames]
    decide
  obtain ⟨horder, hcustomer, hbank, hexternal⟩ := hclasses
  have hparent : Model.circular.edge? "Order" "parent" = some (.link "Order" "parent" "Order") :=
    Model.edge?_eq_link rfl horder
  have hover : Model.circular.edge? "Order" "customer" =
      some (.link "Order" "customer" "Customer") :=
    Model.edge?_eq_link rfl hcustomer
  have hback : Model.circular.edge? "Customer" "order" = some (.link "Customer" "order" "Order") :=
    Model.edge?_eq_link rfl horder
  have hout : Model.circular.edge? "Customer" "bank" = _ :=
    Model.edge?_eq_asUnresolved rfl hbank
  have hshortcut : Shortcut .circular "Order" "latest" (.link "Order" "customer" "Customer")
      (.link "Customer" "order" "Order") := ⟨rfl, rfl, hover, rfl, hback, rfl⟩
  refine ⟨hexternal, hshortcut, ?_⟩
  have hstart : startClass? (.ofModel .circular) .wayOut (some "Order") = some "Order" :=
    (startClass?_ofModel hexternal).2 ⟨.inl ⟨rfl, rfl⟩, horder⟩
  have hwalks : Walks .circular (some "Order") [.hop (.link "Order" "parent" "Order")]
      (some "Order") :=
    .step (.cross hparent rfl) (.stay _)
  obtain ⟨hlong, hshort, hdepth⟩ := measure?_shortcut hexternal hshortcut hstart rfl hwalks
    ["customer", "bank", "name"] "Order" (some "pay")
  -- behind the shortcut the walk goes to the customer and out
  have hrest : Walks .circular (some "Order") [.hop (.link "Order" "customer" "Customer"),
      .hop ((Association.link "Customer" "bank" "Bank").asUnresolved
        (some (Graph.outsideNote "Bank")))] none :=
    .step (.cross hover rfl) (.step (.leave hout rfl) (.stay none))
  have hbehind := congrArg Walk.hops (hrest.walk_eq hexternal ["name"])
  refine ⟨?_, ?_, hdepth⟩
  · exact congrArg (List.map _) (hlong.trans (congrArg (_ ++ ·) hbehind))
  · exact congrArg (List.map _) (hshort.trans (congrArg (_ ++ ·) hbehind))

/-! ### Relays -/

/-- A method that forwards to a method of another class, which forwards itself and yields a
class.  Neither is hidden by an association of its name. -/
structure Relay (model : Model) (current name : String) (via : Association)
    (member next : String) : Prop where
  unhidden : model.edge? current name = none
  forwards : model.delegation? current name = some ⟨via.accessor, member⟩
  declared : model.edge? current via.accessor = some via
  resolved : via.resolved = true
  member_unhidden : model.edge? via.target member = none
  member_yields : ∃ delegation, model.delegation? via.target member = some delegation ∧
    Yields model via.target delegation next

namespace Relay

variable {current name member next : String} {via : Association}
variable (h : Relay model current name via member next)

include h

/-- A member that is no association yields nothing, so the walk is lost. -/
theorem strides_name : Strides model current (.forward current name) none := by
  refine .lose h.unhidden h.forwards ?_
  rintro _ ⟨hvia, -, hmember, -⟩
  rw [h.declared] at hvia
  obtain rfl := Option.some.inj hvia
  rw [h.member_unhidden] at hmember
  cases hmember

theorem strides_member : Strides model via.target (.forward via.target member) (some next) := by
  obtain ⟨delegation, hforwards, hyields⟩ := h.member_yields
  exact .forward h.member_unhidden hforwards hyields

/-- Nothing is found behind a relay. -/
theorem walkFrom_name (rest : List String) :
    walkFrom (.ofModel model) (.ofModel model) current (name :: rest) =
      { delegations := [s!"{current}.{name}"] } :=
  h.strides_name.walkFrom_eq (fun _ heq => by cases heq) rest

/-- The way over the association and through the method behind it goes on. -/
theorem walkFrom_via (hinside : via.target ≠ externalNode) (rest : List String) :
    walkFrom (.ofModel model) (.ofModel model) current (via.accessor :: member :: rest) =
      (walkFrom (.ofModel model) (.ofModel model) next rest).behind
        [.hop via, .forward via.target member] := by
  have hcross : Strides model current (.hop via) (some via.target) := .cross h.declared h.resolved
  calc walkFrom (.ofModel model) (.ofModel model) current (via.accessor :: member :: rest)
    _ = (model.walk (some via.target) (member :: rest)).behind [.hop via] :=
      hcross.walkFrom_eq (fun _ _ heq => hinside (Option.some.inj heq)) _
    _ = ((model.walk (some next) rest).behind [.forward via.target member]).behind [.hop via] :=
      congrArg _ (h.strides_member.walkFrom_eq (fun _ heq => by cases heq) rest)
    _ = (model.walk (some next) rest).behind [.hop via, .forward via.target member] :=
      (Walk.behind_append [.hop via] [.forward via.target member] _).symm

end Relay

theorem Walk.addDelegation_eq_iff {name : String} {walk : Walk} :
    addDelegation name walk = { delegations := [name] } ↔ walk = {} := by
  cases walk
  simp [addDelegation]

/-- The city of an order is that of its customer, which is that of the address.  An association
leads to the city, and from there another one to the country. -/
def Model.relayed : Model :=
  let place : Location := ⟨.ofText "app/order.rb", 1, 0⟩
  let entry (name : String) (associations : List Association) (methods : List Method) : ClassDecl :=
    { qualifiedName := name, associations, methods, layer := .model, location := place }
  let forwarding (name owner association member : String) : Method :=
    { name, owner := some owner, delegatesTo := some ⟨association, member⟩ }
  { classes :=
      [entry "Order" [.link "Order" "customer" "Customer"]
         [forwarding "city" "Order" "customer" "city"],
       entry "Customer" [.link "Customer" "address" "Address"]
         [forwarding "city" "Customer" "address" "city"],
       entry "Address" [.link "Address" "city" "City"] [],
       entry "City" [.link "City" "country" "Country"] [],
       entry "Country" [] []] }

theorem Model.relayed_classNames {name : String} :
    name ∈ Model.relayed.classNames ↔
      name ∈ ["Order", "Customer", "Address", "City", "Country"] := by
  rw [Graph.mem_classNames]
  simp [relayed, eq_comm]

theorem Model.relay_relayed :
    Relay .relayed "Order" "city" (.link "Order" "customer" "Customer") "city" "City" where
  unhidden := rfl
  forwards := rfl
  declared := edge?_eq_link rfl (relayed_classNames.2 (by decide))
  resolved := rfl
  member_unhidden := rfl
  member_yields := by
    have haddress : relayed.edge? "Customer" "address" =
        some (.link "Customer" "address" "Address") :=
      edge?_eq_link rfl (relayed_classNames.2 (by decide))
    have hcity : relayed.edge? "Address" "city" = some (.link "Address" "city" "City") :=
      edge?_eq_link rfl (relayed_classNames.2 (by decide))
    have hyields : Yields .relayed "Customer" ⟨"address", "city"⟩ "City" :=
      @Yields.intro _ _ ⟨"address", "city"⟩ _ _ haddress rfl hcity rfl
    exact ⟨_, rfl, hyields⟩

/-- Behind a relay, the country of the city is not found.  The call site has no measure, although
the country is one hop from the city that the relay yields. -/
theorem walkFrom_relay_not_continued :
    Relay .relayed "Order" "city" (.link "Order" "customer" "Customer") "city" "City" ∧
    let walk := walkFrom (.ofModel .relayed) (.ofModel .relayed)
    (walk "City" ["country"]).hops = [⟨.link "City" "country" "Country", "Country", true⟩] ∧
    walk "Order" ["city", "country"] ≠ (walk "City" ["country"]).addDelegation "Order.city" ∧
    measure? (.ofModel .relayed) (.ofModel .relayed)
      { origin := .self, root := "self", chain := ["city", "country"], line := 3 } "Order"
      (some "label") (some "Order") = none := by
  have hexternal : externalNode ∉ Model.relayed.classNames := by
    rw [Model.relayed_classNames]
    decide
  have hlost := Model.relay_relayed.walkFrom_name ["country"]
  -- the same name from the class itself does lead on
  have hcountry : Model.relayed.edge? "City" "country" = some (.link "City" "country" "Country") :=
    Model.edge?_eq_link rfl (Model.relayed_classNames.2 (by decide))
  have hcross : Strides .relayed "City" (.hop (.link "City" "country" "Country"))
      (some "Country") := .cross hcountry rfl
  have hhops := congrArg Walk.hops (hcross.walkFrom_eq (hcross.inside hexternal) [])
  refine ⟨Model.relay_relayed, hhops, ?_, ?_⟩
  · intro heq
    have hsome := (congrArg Walk.hops heq).trans hhops
    exact List.cons_ne_nil _ _ (hsome.symm.trans (congrArg Walk.hops hlost))
  · refine (measure?_eq_none_iff hexternal).2 (.inr (.inr (.inr ?_)))
    exact ⟨"Order", _, _, _, .inl ⟨rfl, rfl⟩,
      .step Model.relay_relayed.strides_name (.nowhere ["country"]), rfl⟩

/-- A relay loses the walk.  Of all that lies behind it nothing is found, although the way over
the association and through the method behind it goes on from the class that this method
yields.  So going on from this class would make no difference only where nothing is found
there. -/
theorem walkFrom_relay {model : Model} {current name member next : String} {via : Association}
    (hrelay : Relay model current name via member next) (rest : List String) :
    let walk := walkFrom (.ofModel model) (.ofModel model)
    walk current (name :: rest) = { delegations := [s!"{current}.{name}"] } ∧
    (via.target ≠ externalNode → walk current (via.accessor :: member :: rest) =
      (walk next rest).behind [.hop via, .forward via.target member]) ∧
    (walk current (name :: rest) = (walk next rest).addDelegation s!"{current}.{name}" ↔
      walk next rest = {}) := by
  intro walk
  have hname : walk current (name :: rest) = { delegations := [s!"{current}.{name}"] } :=
    hrelay.walkFrom_name rest
  refine ⟨hname, fun hinside => hrelay.walkFrom_via hinside rest, ?_⟩
  rw [hname, eq_comm]
  exact Walk.addDelegation_eq_iff

theorem walkFrom_relay_relayed :
    Relay .relayed "Order" "city" (.link "Order" "customer" "Customer") "city" "City" ∧
    let walk := walkFrom (.ofModel .relayed) (.ofModel .relayed)
    walk "Order" ["city", "country"] = { delegations := ["Order.city"] } ∧
    walk "Order" ["customer", "city", "country"] = (walk "City" ["country"]).behind
      [.hop (.link "Order" "customer" "Customer"), .forward "Customer" "city"] := by
  obtain ⟨hname, hvia, -⟩ := walkFrom_relay Model.relay_relayed ["country"]
  exact ⟨Model.relay_relayed, hname, hvia (by decide)⟩

end ObjectAudit
