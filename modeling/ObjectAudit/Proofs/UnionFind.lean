/-
ObjectAudit/Proofs/UnionFind.lean

Look-ups and unions of disjoint sets, one after the other.

A look-up is a loop.  In each turn an item that is not a root is tied to its grandparent, and the
look-up goes on there (`halve?`).  So the loop changes the parents that it follows.  Nothing but the
shape of the parents makes it end: they form a forest, and every turn leaves that forest with the
same roots and comes nearer to one of them (`Forest.insert`).

The root above an item is said by its parents alone (`RootAbove`).  It is where the loop stops, and
it stays the root above the item (`rootAbove_find_iff`).

Main result: `find_after_run`.  After any look-ups and unions of items, every look-up ends at the
root above its item and leaves all roots as they are, and two items have the same root exactly if
the equivalence closure of the united pairs relates them.
-/
import Mathlib.Computability.StateTransition
import ObjectAudit.Proofs.Representatives

namespace ObjectAudit

open Relation StateTransition

namespace DisjointSet

/-! ### The loop of a look-up -/

/-- One turn of a look-up that has come to an item: unless the item is a root, it is tied to its
grandparent, and the look-up comes there. -/
def halve? (state : DisjointSet × String) : Option (DisjointSet × String) :=
  let up := state.1.parent state.2
  if up = state.2 then none
  else
    let grand := state.1.parent up
    some (⟨state.1.parents.insert state.2 grand⟩, grand)

/-- The loop stops at roots. -/
theorem halve?_eq_none_iff {sets : DisjointSet} {item : String} :
    halve? (sets, item) = none ↔ sets.parent item = item := by
  simp [halve?]

/-- Climbing takes turns of the loop. -/
theorem reaches_climb (steps : Nat) (sets : DisjointSet) (item : String) :
    Reaches halve? (sets, item) (climb steps sets item).swap := by
  induction steps generalizing sets item with
  | zero => exact ReflTransGen.refl
  | succ steps ih =>
    unfold climb
    dsimp only
    split
    · exact ReflTransGen.refl
    · next hne =>
      refine ReflTransGen.head ?_ (ih _ _)
      exact if_neg hne

/-! ### Roots -/

/-- The root above an item: parents lead from the item to it, and it is its own parent. -/
def RootAbove (sets : DisjointSet) (item root : String) : Prop :=
  (∃ n, sets.parent^[n] item = root) ∧ sets.parent root = root

theorem RootAbove.of_parent {sets : DisjointSet} {item root : String}
    (h : RootAbove sets (sets.parent item) root) : RootAbove sets item root := by
  obtain ⟨⟨n, hn⟩, hroot⟩ := h
  exact ⟨⟨n + 1, hn⟩, hroot⟩

theorem Forest.rep_iterate {sets : DisjointSet} {rep : String → String} {height : String → Nat}
    (h : Forest sets rep height) (n : Nat) (item : String) :
    rep (sets.parent^[n] item) = rep item := by
  induction n with
  | zero => rfl
  | succ n ih => rw [Function.iterate_succ_apply', h.rep_parent, ih]

/-- What represents an item is the one root above it. -/
theorem Represents.rootAbove_iff {sets : DisjointSet} {rep : String → String}
    (h : Represents sets rep) {item root : String} :
    RootAbove sets item root ↔ rep item = root := by
  obtain ⟨height, hforest⟩ := h
  constructor
  · rintro ⟨⟨n, rfl⟩, hroot⟩
    rw [← hforest.rep_iterate n]
    exact hforest.rep_root _ hroot
  · rintro rfl
    -- along the way to the root, on which the height falls
    induction hn : height item using Nat.strongRecOn generalizing item with
    | ind n ih =>
      by_cases hroot : sets.parent item = item
      · rw [hforest.rep_root item hroot]
        exact ⟨⟨0, rfl⟩, hroot⟩
      · have hlt := hforest.height_lt item hroot
        rw [← hforest.rep_parent item]
        exact (ih _ (hn ▸ hlt) rfl).of_parent

section Lookup

variable {sets : DisjointSet} {rep : String → String} (h : Represents sets rep) {item : String}
variable (hitem : item ∈ sets.items)

include h hitem

/-- The loop of a look-up ends, at the root above the item. -/
theorem eval_halve? : eval halve? (sets, item) = Part.some ((sets.find item).2, rep item) := by
  obtain ⟨hroot, ⟨height, hafter⟩, -⟩ := find_spec h hitem
  apply Part.eq_some_iff.2
  refine mem_eval.2 ⟨?_, halve?_eq_none_iff.2 (hafter.parent_rep item)⟩
  have hclimb := reaches_climb sets.parents.entries.length sets item
  rw [find, if_pos (contains_iff.2 hitem)] at hroot ⊢
  rwa [← Option.some.inj hroot]

/-- A look-up leaves the root above every item as it is. -/
theorem rootAbove_find_iff {other root : String} :
    RootAbove (sets.find item).2 other root ↔ RootAbove sets other root := by
  obtain ⟨-, hafter, -⟩ := find_spec h hitem
  rw [hafter.rootAbove_iff, h.rootAbove_iff]

end Lookup

/-! ### Look-ups and unions -/

/-- A step: a look-up of an item, or a union of the sets of two. -/
inductive Step where
  | find (item : String)
  | union (a b : String)
deriving DecidableEq, Repr

/-- The items that a step is about. -/
def Step.items : Step → List String
  | find item => [item]
  | union a b => [a, b]

/-- The sets behind a step. -/
def take (sets : DisjointSet) : Step → DisjointSet
  | .find item => (sets.find item).2
  | .union a b => (sets.union a b).2

/-- The sets behind some steps, taken one after the other. -/
def run (sets : DisjointSet) (steps : List Step) : DisjointSet := steps.foldl take sets

/-- A step connects what it unites, and nothing else that does not follow. -/
theorem Connects.take {sets : DisjointSet} {r : String → String → Prop} (h : Connects sets r)
    {step : Step} (hstep : ∀ item ∈ step.items, item ∈ sets.items) :
    Connects (sets.take step) (fun x y => r x y ∨ step = .union x y) ∧
      (sets.take step).items = sets.items := by
  cases step with
  | find item =>
    obtain ⟨rep, hrep, hiff⟩ := h
    obtain ⟨-, hafter, hitems⟩ := find_spec hrep (hstep item List.mem_cons_self)
    -- a lookup links nothing
    have hlinks : (fun x y => r x y ∨ Step.find item = .union x y) = r := by
      funext x y
      simp
    refine ⟨?_, hitems⟩
    rw [hlinks]
    exact ⟨rep, hafter, hiff⟩
  | union a b =>
    have ha := hstep a List.mem_cons_self
    have hb := hstep b (List.mem_cons_of_mem a List.mem_cons_self)
    have hlinks : (fun x y => r x y ∨ x = a ∧ y = b) =
        fun x y => r x y ∨ Step.union a b = .union x y := by
      funext x y
      rw [Step.union.injEq, eq_comm (a := x), eq_comm (a := y)]
    exact ⟨hlinks ▸ h.union ha hb, h.items_union ha hb⟩

/-- Steps, taken one after the other, connect what they unite. -/
theorem Connects.run {sets : DisjointSet} {r : String → String → Prop} (h : Connects sets r)
    {steps : List Step} (hsteps : ∀ step ∈ steps, ∀ item ∈ step.items, item ∈ sets.items) :
    Connects (sets.run steps) (fun x y => r x y ∨ .union x y ∈ steps) ∧
      (sets.run steps).items = sets.items := by
  induction steps generalizing sets r with
  | nil => exact ⟨by simpa [DisjointSet.run] using h, rfl⟩
  | cons step rest ih =>
    obtain ⟨hstep, hrest⟩ := List.forall_mem_cons.1 hsteps
    obtain ⟨hconnects, hitems⟩ := h.take hstep
    obtain ⟨hrun, hsame⟩ := ih hconnects (hitems.symm ▸ hrest)
    refine ⟨?_, hsame.trans hitems⟩
    -- a link is an old one, that of this step, or one of the others
    have hlinks : (fun x y => (r x y ∨ step = .union x y) ∨ .union x y ∈ rest) =
        fun x y => r x y ∨ .union x y ∈ step :: rest := by
      funext x y
      rw [or_assoc, List.mem_cons, eq_comm (a := step)]
    rwa [← hlinks]

/-- Disjoint sets after any look-ups and unions of their items.  The loop of a look-up ends, and the
look-up returns what it ends with: the root above the item.  The shortened ways lead every item to
the root that was above it before.  A look-up of an item and then of another one returns the same
root exactly if the equivalence closure of the united pairs relates them. -/
theorem find_after_run {names : List String} (hnodup : names.Nodup) {steps : List Step}
    (hsteps : ∀ step ∈ steps, ∀ item ∈ step.items, item ∈ names) :
    let sets := (ofItems names).run steps
    (∀ item ∈ names, ∃ root ∈ names,
      (sets.find item).1 = some root ∧
      eval halve? (sets, item) = Part.some ((sets.find item).2, root) ∧
      RootAbove sets item root ∧
      ∀ other above, RootAbove (sets.find item).2 other above ↔ RootAbove sets other above) ∧
    ∀ a ∈ names, ∀ b ∈ names,
      (sets.find a).1 = ((sets.find a).2.find b).1 ↔
        EqvGen (fun x y => .union x y ∈ steps) a b := by
  intro sets
  have hitems := items_ofItems hnodup
  obtain ⟨⟨rep, hrep, hiff⟩, hsame⟩ := (Connects.ofItems names).run (hitems.symm ▸ hsteps)
  have hmem : ∀ {item}, item ∈ names → item ∈ sets.items := by
    intro item hitem
    rwa [hsame, hitems]
  constructor
  · intro item hitem
    obtain ⟨hroot, -, -⟩ := find_spec hrep (hmem hitem)
    refine ⟨rep item, ?_, hroot, eval_halve? hrep (hmem hitem), hrep.rootAbove_iff.2 rfl, ?_⟩
    · obtain ⟨height, hforest⟩ := hrep
      rw [← hitems, ← hsame]
      exact hforest.rep_mem (hmem hitem)
    · intro other above
      exact rootAbove_find_iff hrep (hmem hitem)
  · intro a ha b hb
    obtain ⟨hrootA, hafter, hafterItems⟩ := find_spec hrep (hmem ha)
    -- the second lookup is made in the sets that the first one left
    obtain ⟨hrootB, -, -⟩ := find_spec hafter (hafterItems.symm ▸ hmem hb)
    rw [hrootA, hrootB, Option.some.injEq, hiff]
    simp only [false_or]

theorem find_after_run_four_of_five :
    let names := ["pay", "post", "print", "purge", "ping"]
    let steps : List Step :=
      [.union "print" "purge", .union "post" "print", .find "print", .union "pay" "post"]
    let sets := (ofItems names).run steps
    names.Nodup ∧ (∀ step ∈ steps, ∀ item ∈ step.items, item ∈ names) ∧
      eval halve? (sets, "purge") = Part.some ((sets.find "purge").2, "pay") ∧
      RootAbove sets "purge" "pay" ∧ RootAbove (sets.find "purge").2 "print" "pay" ∧
      (sets.find "print").1 = ((sets.find "print").2.find "pay").1 ∧
      ¬ EqvGen (fun x y => .union x y ∈ steps) "purge" "ping" := by
  intro names steps sets
  have hnodup : names.Nodup := by decide
  have hsteps : ∀ step ∈ steps, ∀ item ∈ step.items, item ∈ names := by decide
  obtain ⟨hlookups, hequal⟩ := find_after_run hnodup hsteps
  obtain ⟨root, -, hroot, heval, habove, hkept⟩ := hlookups "purge" (by decide)
  have hpay : (sets.find "purge").1 = some "pay" := by decide
  obtain rfl := Option.some.inj (hroot.symm.trans hpay)
  refine ⟨hnodup, hsteps, heval, habove, ?_, ?_, ?_⟩
  · exact (hkept "print" "pay").2 ⟨⟨2, by decide⟩, by decide⟩
  · -- both are united with the post
    have hlink : ∀ {x y}, .union x y ∈ steps → EqvGen (fun x y => .union x y ∈ steps) y x :=
      fun h => EqvGen.symm _ _ (EqvGen.rel _ _ h)
    exact (hequal "print" (by decide) "pay" (by decide)).2
      (EqvGen.trans _ "post" _ (hlink (by decide)) (hlink (by decide)))
  · intro hgen
    have hsame := (hequal "purge" (by decide) "ping" (by decide)).2 hgen
    exact absurd hsame (by decide)

end DisjointSet

end ObjectAudit
