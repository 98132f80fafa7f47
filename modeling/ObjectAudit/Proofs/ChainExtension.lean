/-
ObjectAudit/Proofs/ChainExtension.lean

Longer chains.  A name either ends the walk, whatever names follow, or it adds one hop or one
method and the walk goes on from a class, over whatever names follow (`walkFrom_cons`).  By this
one step and induction over the names,

    the walk over  names ++ more  starts with the walk over  names    (`walkFrom_append`)
    hops and methods of a walk are no more than its names             (`taken_walkFrom_le`)

for every graph and method index.  A walk that ended early is not taken up again, and one that
ran out of names is.

Main result: names behind a chain of at least two names hide no hop and no method of it, and
never lower its depth (`measure?_extended`).  A chain of two names may have no measure until it is
extended, but never the other way round.
-/
import ObjectAudit.Proofs.Shortcuts

namespace ObjectAudit

/-! ### One name -/

namespace Walk

/-- How many names a walk has taken: each adds a hop or a method. -/
def taken (walk : Walk) : Nat := walk.hops.length + walk.delegations.length

/-- What a walk comes across begins with what another one does. -/
structure StartsWith (walk first : Walk) : Prop where
  hops : first.hops <+: walk.hops
  delegations : first.delegations <+: walk.delegations

variable {walk first : Walk}

theorem StartsWith.refl (walk : Walk) : walk.StartsWith walk :=
  ⟨List.prefix_refl _, List.prefix_refl _⟩

theorem startsWith_empty (walk : Walk) : walk.StartsWith {} := by
  constructor <;> exact List.nil_prefix

theorem StartsWith.addHop (h : walk.StartsWith first) (hop : Hop) :
    (walk.addHop hop).StartsWith (first.addHop hop) :=
  ⟨(List.prefix_cons_inj hop).2 h.hops, h.delegations⟩

theorem StartsWith.addDelegation (h : walk.StartsWith first) (name : String) :
    (walk.addDelegation name).StartsWith (first.addDelegation name) :=
  ⟨h.hops, (List.prefix_cons_inj name).2 h.delegations⟩

theorem taken_addHop (hop : Hop) (walk : Walk) : (walk.addHop hop).taken = walk.taken + 1 := by
  simp only [taken, Walk.addHop, List.length_cons]
  omega

theorem taken_addDelegation (name : String) (walk : Walk) :
    (walk.addDelegation name).taken = walk.taken + 1 := by
  simp only [taken, Walk.addDelegation, List.length_cons]
  omega

end Walk

section Names

variable (graph : Graph) (methods : MethodIndex)

/-- What one name does.  It ends the walk, or the walk goes on from a class behind one hop or
behind one method.  Which of these, and where, does not depend on the names that follow. -/
theorem walkFrom_cons (current name : String) :
    (∃ walk : Walk, walk.taken ≤ 1 ∧ ∀ rest, walkFrom graph methods current (name :: rest) = walk) ∨
    (∃ hop next, ∀ rest, walkFrom graph methods current (name :: rest) =
      (walkFrom graph methods next rest).addHop hop) ∨
    ∃ delegated next, ∀ rest, walkFrom graph methods current (name :: rest) =
      (walkFrom graph methods next rest).addDelegation delegated := by
  simp only [walkFrom]
  -- an association comes before a method of the same name
  cases graph.edge? current name with
  | some edge =>
    by_cases hnode : Graph.targetNode edge = externalNode
    · simp only [if_pos hnode]
      exact .inl ⟨_, (Walk.taken_addHop _ _).le, fun _ => rfl⟩
    · simp only [if_neg hnode]
      exact .inr (.inl ⟨_, _, fun _ => rfl⟩)
  | none =>
    cases methods.delegation? current name with
    | some method =>
      cases hresult : delegationResult graph current method with
      | none =>
        simp only [hresult]
        exact .inl ⟨_, (Walk.taken_addDelegation _ _).le, fun _ => rfl⟩
      | some next =>
        simp only [hresult]
        exact .inr (.inr ⟨_, next, fun _ => rfl⟩)
    | none =>
      refine .inl ⟨_, ?_, fun _ => rfl⟩
      exact Nat.zero_le 1

/-! ### All names -/

/-- More names behind those of a walk leave all that it came across. -/
theorem walkFrom_append (current : String) (names more : List String) :
    (walkFrom graph methods current (names ++ more)).StartsWith
      (walkFrom graph methods current names) := by
  induction names generalizing current with
  | nil => exact Walk.startsWith_empty _
  | cons name names ih =>
    rw [List.cons_append]
    -- a walk that ends at this name ends there whatever follows
    rcases walkFrom_cons graph methods current name with
      ⟨walk, -, hends⟩ | ⟨hop, next, hgoes⟩ | ⟨delegated, next, hgoes⟩
    · rw [hends, hends]
      exact .refl walk
    · rw [hgoes, hgoes]
      exact (ih next).addHop hop
    · rw [hgoes, hgoes]
      exact (ih next).addDelegation delegated

theorem taken_walkFrom_le (current : String) (names : List String) :
    (walkFrom graph methods current names).taken ≤ names.length := by
  induction names generalizing current with
  | nil => exact Nat.le_refl 0
  | cons name names ih =>
    rw [List.length_cons]
    rcases walkFrom_cons graph methods current name with
      ⟨walk, htaken, hends⟩ | ⟨hop, next, hgoes⟩ | ⟨delegated, next, hgoes⟩
    · rw [hends]
      omega
    · rw [hgoes, Walk.taken_addHop]
      exact Nat.succ_le_succ (ih next)
    · rw [hgoes, Walk.taken_addDelegation]
      exact Nat.succ_le_succ (ih next)

end Names

/-! ### Measures -/

/-- Two call sites have the same receiver. -/
structure CallSite.SameReceiver (a b : CallSite) : Prop where
  origin : a.origin = b.origin
  root : a.root = b.root
  rootClass : a.rootClass = b.rootClass

section Measures

variable {graph : Graph} {methods : MethodIndex} {a b : CallSite} {owner : Option String}

theorem CallSite.SameReceiver.startClass?_eq (h : a.SameReceiver b) :
    startClass? graph a owner = startClass? graph b owner := by
  unfold startClass?
  rw [h.origin, h.rootClass]

theorem measure?_of_startClass?_eq_none (h : startClass? graph a owner = none) (subject : String)
    (method : Option String) : measure? graph methods a subject method owner = none := by
  refine Option.eq_none_iff_forall_ne_some.2 ?_
  intro chain hchain
  obtain ⟨-, start, hstart, -⟩ := measure?_eq_some_iff.1 hchain
  rw [h] at hstart
  cases hstart

variable {more : List String} (hreceiver : a.SameReceiver b) (hchain : b.chain = a.chain ++ more)

include hreceiver hchain

theorem hops_measure?_startsWith (htwo : 2 ≤ a.chain.length) (subject subject' : String)
    (method method' : Option String) :
    (measure? graph methods a subject method owner).elim [] AccessChain.hops <+:
      (measure? graph methods b subject' method' owner).elim [] AccessChain.hops := by
  cases hstart : startClass? graph a owner with
  | none =>
    rw [measure?_of_startClass?_eq_none hstart]
    exact List.nil_prefix
  | some start =>
    have hstart' : startClass? graph b owner = some start := by
      rw [← hreceiver.startClass?_eq, hstart]
    -- the longer chain has two names as well
    have hlength : ¬ b.chain.length < 2 := by
      rw [hchain, List.length_append]
      omega
    rw [hops_measure? hstart, hops_measure? hstart', if_neg (not_lt.2 htwo), if_neg hlength, hchain]
    exact (walkFrom_append graph methods start a.chain more).hops

theorem delegations_measure?_startsWith {subject subject' : String} {method method' : Option String}
    {first whole : AccessChain} (h : measure? graph methods a subject method owner = some first)
    (h' : measure? graph methods b subject' method' owner = some whole) :
    first.delegations <+: whole.delegations := by
  obtain ⟨-, start, hstart, -, rfl⟩ := measure?_eq_some_iff.1 h
  obtain ⟨-, start', hstart', -, rfl⟩ := measure?_eq_some_iff.1 h'
  rw [← hreceiver.startClass?_eq, hstart] at hstart'
  obtain rfl := Option.some.inj hstart'
  rw [hchain]
  exact (walkFrom_append graph methods start a.chain more).delegations

/-- A chain of less than two names has no measure, and so no depth to lower. -/
theorem depth_measure?_le (subject subject' : String) (method method' : Option String) :
    (measure? graph methods a subject method owner).elim 0 AccessChain.depth ≤
      (measure? graph methods b subject' method' owner).elim 0 AccessChain.depth := by
  by_cases htwo : 2 ≤ a.chain.length
  · rw [depth_eq_countP_hops, depth_eq_countP_hops]
    exact (hops_measure?_startsWith hreceiver hchain htwo _ _ _ _).sublist.countP_le
  · have hnone : measure? graph methods a subject method owner = none := if_pos (not_le.1 htwo)
    rw [hnone]
    exact Nat.zero_le _

end Measures

/-- Names behind a chain hide nothing of it.  Take two call sites on one receiver, in whatever
methods, the names of the one followed by more names in the other.  If the shorter chain has at
least two names, the hops of the longer one start with its hops, where a chain without a measure
has none; if both have a measure, so do their methods.  So the depth never gets lower.  And hops
and methods of a chain are together no more than its names. -/
theorem measure?_extended (model : Model) {a b : CallSite} (hreceiver : a.SameReceiver b)
    {more : List String} (hchain : b.chain = a.chain ++ more) (owner : Option String)
    (subject subject' : String) (method method' : Option String) :
    let short := measure? (.ofModel model) (.ofModel model) a subject method owner
    let long := measure? (.ofModel model) (.ofModel model) b subject' method' owner
    (2 ≤ a.chain.length → short.elim [] AccessChain.hops <+: long.elim [] AccessChain.hops) ∧
    (∀ first whole, short = some first → long = some whole →
      first.delegations <+: whole.delegations) ∧
    short.elim 0 AccessChain.depth ≤ long.elim 0 AccessChain.depth ∧
    ∀ whole, long = some whole →
      whole.hops.length + whole.delegations.length ≤ b.chain.length := by
  intro short long
  refine ⟨fun htwo => hops_measure?_startsWith hreceiver hchain htwo _ _ _ _, ?_,
    depth_measure?_le hreceiver hchain _ _ _ _, ?_⟩
  · intro first whole hfirst hwhole
    exact delegations_measure?_startsWith hreceiver hchain hfirst hwhole
  · intro whole hwhole
    obtain ⟨-, start, -, -, rfl⟩ := measure?_eq_some_iff.1 hwhole
    exact taken_walkFrom_le _ _ start b.chain

/-- The beginning of the way out, in another line. -/
def CallSite.wayUp : CallSite := { CallSite.wayOut with chain := ["latest", "parent"], line := 9 }

/-- The way up stays within orders, so its depth is zero, and the way out begins with it. -/
theorem measure?_extended_circular :
    CallSite.SameReceiver .wayUp .wayOut ∧
    CallSite.wayOut.chain = CallSite.wayUp.chain ++ ["customer", "bank", "name"] ∧
    ∃ first whole,
      measure? (.ofModel .circular) (.ofModel .circular) .wayUp "Order" (some "ship")
        (some "Order") = some first ∧
      measure? (.ofModel .circular) (.ofModel .circular) .wayOut "Order" (some "pay")
        (some "Order") = some whole ∧
      first.accessors = ["parent"] ∧ first.delegations = ["Order.latest"] ∧ first.depth = 0 ∧
      first.hops <+: whole.hops ∧ first.delegations <+: whole.delegations ∧
      first.depth ≤ whole.depth ∧ whole.hops.length + whole.delegations.length ≤ 5 := by
  have horder : "Order" ∈ Model.circular.classNames := by
    simp only [Graph.mem_classNames]
    decide
  have hcustomer : "Customer" ∈ Model.circular.classNames := by
    simp only [Graph.mem_classNames]
    decide
  have hexternal : externalNode ∉ Model.circular.classNames := by
    simp only [Graph.mem_classNames]
    decide
  have hparent : Model.circular.edge? "Order" "parent" = some (.link "Order" "parent" "Order") :=
    Model.edge?_eq_link rfl horder
  have hshortcut : Shortcut .circular "Order" "latest" (.link "Order" "customer" "Customer")
      (.link "Customer" "order" "Order") :=
    ⟨rfl, rfl, Model.edge?_eq_link rfl hcustomer, rfl, Model.edge?_eq_link rfl horder, rfl⟩
  have hwalks : Walks .circular (some "Order")
      [.forward "Order" "latest", .hop (.link "Order" "parent" "Order")] (some "Order") :=
    hshortcut.walks_forward.append (.step (.cross hparent rfl) (.stay _))
  have hstart : startClass? (.ofModel .circular) .wayUp (some "Order") = some "Order" :=
    (startClass?_ofModel hexternal).2 ⟨.inl ⟨rfl, rfl⟩, horder⟩
  have hwalk : walkFrom (.ofModel .circular) (.ofModel .circular) "Order" CallSite.wayUp.chain =
      { hops := [⟨.link "Order" "parent" "Order", "Order", false⟩]
        delegations := ["Order.latest"] } :=
    hwalks.walk_eq hexternal []
  have hreceiver : CallSite.SameReceiver .wayUp .wayOut := ⟨rfl, rfl, rfl⟩
  have hchain : CallSite.wayOut.chain = CallSite.wayUp.chain ++ ["customer", "bank", "name"] := rfl
  obtain ⟨hhops, hdelegations, hdepth, hlength⟩ := measure?_extended .circular hreceiver hchain
    (some "Order") "Order" "Order" (some "ship") (some "pay")
  obtain ⟨first, hfirst, hup, hlatest⟩ : ∃ first, measure? (.ofModel .circular) (.ofModel .circular)
      .wayUp "Order" (some "ship") (some "Order") = some first ∧
      first.hops = [⟨.link "Order" "parent" "Order", "Order", false⟩] ∧
      first.delegations = ["Order.latest"] := by
    refine ⟨_, measure?_eq_some_iff.2 ⟨Nat.le_refl 2, "Order", hstart, ?_, rfl⟩, ?_⟩
    · rw [hwalk]
      exact List.cons_ne_nil _ _
    · rw [hwalk]
      exact ⟨rfl, rfl⟩
  rw [hfirst] at hhops hdepth
  have hhops' := hhops (Nat.le_refl 2)
  refine ⟨hreceiver, hchain, first, ?_⟩
  -- the longer chain has a measure, because it has the hop of the shorter one
  cases hwhole : measure? (.ofModel .circular) (.ofModel .circular) .wayOut "Order" (some "pay")
      (some "Order") with
  | none =>
    rw [hwhole] at hhops'
    have hnil : first.hops = [] := List.prefix_nil.1 hhops'
    rw [hup] at hnil
    cases hnil
  | some whole =>
    rw [hwhole] at hhops' hdepth
    refine ⟨whole, hfirst, rfl, ?_, hlatest, ?_, hhops', hdelegations first whole hfirst hwhole,
      hdepth, hlength whole hwhole⟩
    · rw [AccessChain.accessors, hup]
      rfl
    · rw [AccessChain.depth, hup]
      rfl

end ObjectAudit
