/-
ObjectAudit/Proofs/Representatives.lean

What disjoint sets say.  Parents form a forest: `Forest sets rep height` says that `rep`
names the root above each item and that `height` falls along every way to a root.  No way
is longer than the number of items (`Forest.exists_height_le`), so a look-up never runs
out of steps; it returns the root, and the ways that it shortens on the way still lead to
the same roots (`find_spec`).  A union makes one root the parent of another, and merges
what they represent (`union_spec`).

Main result: after any joining of groups, two items have the same representative exactly
if the equivalence closure of "both in one group" relates them (`Connects.foldl_unionAll`).
-/
import Mathlib.Data.Finset.Card
import Mathlib.Logic.Relation
import ObjectAudit.DisjointSet
import ObjectAudit.Proofs.Tables

namespace ObjectAudit

open Relation

namespace DisjointSet

/-! ### Parents -/

/-- The items. -/
def items (sets : DisjointSet) : List String := sets.parents.keys

theorem contains_iff {sets : DisjointSet} {item : String} :
    sets.parents.contains item = true ↔ item ∈ sets.items := by
  rw [Table.contains, Option.isSome_iff_ne_none, ne_eq, Table.get?, Table.lookup_eq_none, not_not]
  rfl

/-- What is no item has no parent but itself. -/
theorem parent_eq_self {sets : DisjointSet} {item : String} (h : item ∉ sets.items) :
    sets.parent item = item := by
  have hnone : sets.parents.get? item = none := Table.lookup_eq_none.2 h
  rw [parent, hnone, Option.getD_none]

theorem parent_insert (sets : DisjointSet) (item up other : String) :
    parent ⟨sets.parents.insert item up⟩ other =
      if other = item then up else sets.parent other := by
  rw [parent, Table.get?_insert]
  by_cases h : other = item
  · simp [h]
  · simp [h, parent]

theorem items_insert {sets : DisjointSet} {item : String} (h : item ∈ sets.items) (up : String) :
    items ⟨sets.parents.insert item up⟩ = sets.items := by
  show (Table.write item up sets.parents.entries).map Prod.fst = _
  rw [Table.map_fst_write, if_neg]
  · rfl
  · rw [Table.lookup_eq_none, not_not]
    exact h

/-! ### Forests -/

/-- Parents lead to roots: `rep` names the root above each item, and `height` falls on the
way there. -/
structure Forest (sets : DisjointSet) (rep : String → String) (height : String → Nat) :
    Prop where
  rep_parent : ∀ item, rep (sets.parent item) = rep item
  rep_root : ∀ item, sets.parent item = item → rep item = item
  parent_mem : ∀ item ∈ sets.items, sets.parent item ∈ sets.items
  height_lt : ∀ item, sets.parent item ≠ item → height (sets.parent item) < height item

namespace Forest

variable {sets : DisjointSet} {rep : String → String} {height : String → Nat}

theorem mem_of_parent_ne {item : String} (hne : sets.parent item ≠ item) : item ∈ sets.items := by
  by_contra hnot
  exact hne (parent_eq_self hnot)

/-- What represents an item is a root. -/
theorem parent_rep (h : Forest sets rep height) (item : String) :
    sets.parent (rep item) = rep item := by
  -- along the way to the root, on which the height falls
  induction hn : height item using Nat.strongRecOn generalizing item with
  | ind n ih =>
    by_cases hroot : sets.parent item = item
    · rw [h.rep_root item hroot, hroot]
    · have hlt := h.height_lt item hroot
      rw [← h.rep_parent item]
      exact ih _ (hn ▸ hlt) _ rfl

theorem rep_rep (h : Forest sets rep height) (item : String) : rep (rep item) = rep item :=
  h.rep_root _ (h.parent_rep item)

theorem rep_mem (h : Forest sets rep height) {item : String} (hitem : item ∈ sets.items) :
    rep item ∈ sets.items := by
  induction hn : height item using Nat.strongRecOn generalizing item with
  | ind n ih =>
    by_cases hroot : sets.parent item = item
    · rwa [h.rep_root item hroot]
    · have hlt := h.height_lt item hroot
      rw [← h.rep_parent item]
      exact ih _ (hn ▸ hlt) (h.parent_mem item hitem) rfl

/-- Heights can be chosen so that none exceeds the number of items: count the items that
are lower. -/
theorem exists_height_le (h : Forest sets rep height) :
    ∃ height', Forest sets rep height' ∧ ∀ item, height' item ≤ sets.items.length := by
  refine ⟨fun item => (sets.items.toFinset.filter fun other => height other < height item).card,
    ⟨h.rep_parent, h.rep_root, h.parent_mem, ?_⟩, ?_⟩
  · intro item hne
    have hlt := h.height_lt item hne
    have hmem := h.parent_mem item (mem_of_parent_ne hne)
    -- the parent itself is lower than the item, and not lower than itself
    refine Finset.card_lt_card (Finset.ssubset_iff_of_subset ?_ |>.2 ⟨sets.parent item, ?_, ?_⟩)
    · intro other hother
      obtain ⟨hother, hlower⟩ := Finset.mem_filter.1 hother
      exact Finset.mem_filter.2 ⟨hother, hlower.trans hlt⟩
    · exact Finset.mem_filter.2 ⟨List.mem_toFinset.2 hmem, hlt⟩
    · intro hself
      exact lt_irrefl _ (Finset.mem_filter.1 hself).2
  · intro item
    exact (Finset.card_filter_le _ _).trans (List.toFinset_card_le _)

/-- An item may be tied to a lower one of the same set. -/
theorem insert (h : Forest sets rep height) {item up : String} (hitem : item ∈ sets.items)
    (hup : up ∈ sets.items) (hrep : rep up = rep item) (hlt : height up < height item) :
    Forest ⟨sets.parents.insert item up⟩ rep height where
  rep_parent other := by
    rw [parent_insert]
    split
    · next heq => rw [heq, hrep]
    · exact h.rep_parent other
  rep_root other := by
    rw [parent_insert]
    split
    · next heq =>
      intro hself
      rw [hself, heq] at hlt
      exact absurd hlt (lt_irrefl _)
    · exact h.rep_root other
  parent_mem other := by
    rw [items_insert hitem, parent_insert]
    intro hother
    split
    · exact hup
    · exact h.parent_mem other hother
  height_lt other := by
    rw [parent_insert]
    split
    · next heq =>
      intro _
      rwa [heq]
    · exact h.height_lt other

/-- A root may be tied to another one, which then represents the items of both. -/
theorem merge (h : Forest sets rep height) {rootA rootB : String} (hA : rootA ∈ sets.items)
    (hB : rootB ∈ sets.items) (hrootA : rep rootA = rootA) (hrootB : rep rootB = rootB)
    (hne : rootA ≠ rootB) :
    Forest ⟨sets.parents.insert rootB rootA⟩
      (fun item => if rep item = rootB then rootA else rep item)
      (fun item => if rep item = rootB then height item + height rootA + 1 else height item) where
  rep_parent other := by
    rw [parent_insert]
    split
    · next heq => rw [heq, hrootB, hrootA, if_neg hne, if_pos rfl]
    · rw [h.rep_parent other]
  rep_root other := by
    rw [parent_insert]
    split
    · next heq =>
      intro hself
      exact absurd (hself.trans heq) hne
    · next hother =>
      intro hself
      have hroot := h.rep_root other hself
      rw [hroot, if_neg hother]
  parent_mem other := by
    rw [items_insert hB, parent_insert]
    intro hother
    split
    · exact hA
    · exact h.parent_mem other hother
  height_lt other := by
    rw [parent_insert]
    split
    · next heq =>
      intro _
      rw [heq, hrootB, hrootA, if_neg hne, if_pos rfl]
      omega
    · intro hself
      have hlt := h.height_lt other hself
      rw [h.rep_parent other]
      split <;> omega

end Forest

/-- Every item is the root of a set of its own. -/
theorem forest_ofItems (names : List String) : Forest (ofItems names) id fun _ => 0 := by
  have hparent : ∀ item, (ofItems names).parent item = item := by
    suffices ∀ t : Table String String, (∀ item, (t.get? item).getD item = item) →
        ∀ item, (((names.map fun name => (name, name)).foldl
          (fun t pair => t.insert pair.1 pair.2) t).get? item).getD item = item from
      this Table.empty fun _ => rfl
    induction names with
    | nil => exact fun t ht => ht
    | cons name rest ih =>
      intro t ht
      refine ih (t.insert name name) ?_
      intro item
      rw [Table.get?_insert]
      split
      · next heq => exact (eq_of_beq heq).symm
      · exact ht item
  refine ⟨?_, ?_, ?_, ?_⟩
  · intro item
    exact hparent item
  · intro item _
    rfl
  · intro item hitem
    rwa [hparent item]
  · intro item hne
    exact absurd (hparent item) hne

theorem items_ofItems {names : List String} (h : names.Nodup) : (ofItems names).items = names := by
  have hpairs : (names.map fun name => (name, name)).map Prod.fst = names := by
    rw [List.map_map]
    exact List.map_id names
  show (Table.ofList _).entries.map Prod.fst = names
  rw [Table.entries_ofList (hpairs.symm ▸ h), hpairs]

/-! ### Looking up -/

/-- Climbing ends at the root above an item, and leaves all roots as they are. -/
theorem climb_spec {rep : String → String} {height : String → Nat} (steps : Nat)
    {sets : DisjointSet} (h : Forest sets rep height) {item : String} (hitem : item ∈ sets.items)
    (hsteps : height item ≤ steps) :
    (climb steps sets item).1 = rep item ∧ Forest (climb steps sets item).2 rep height ∧
      (climb steps sets item).2.items = sets.items := by
  induction steps generalizing sets item with
  | zero =>
    have hroot : sets.parent item = item := by
      by_contra hne
      have := h.height_lt item hne
      omega
    exact ⟨(h.rep_root item hroot).symm, h, rfl⟩
  | succ steps ih =>
    unfold climb
    dsimp only
    split
    · next hroot => exact ⟨(h.rep_root item hroot).symm, h, rfl⟩
    · next hne =>
      -- the grandparent is an item of the same set, and lower
      have hup := h.parent_mem item hitem
      have hgrand := h.parent_mem _ hup
      have hrep : rep (sets.parent (sets.parent item)) = rep item := by
        rw [h.rep_parent, h.rep_parent]
      have hlt : height (sets.parent (sets.parent item)) < height item := by
        have hfirst := h.height_lt item hne
        by_cases hroot : sets.parent (sets.parent item) = sets.parent item
        · rwa [hroot]
        · exact (h.height_lt _ hroot).trans hfirst
      have hitems := items_insert hitem (sets.parent (sets.parent item))
      obtain ⟨hroot, hforest, hsame⟩ := ih (h.insert hitem hgrand hrep hlt)
        (hitems.symm ▸ hgrand) (by omega)
      exact ⟨hroot.trans hrep, hforest, hsame.trans hitems⟩

/-- `rep` names the representative of every item. -/
def Represents (sets : DisjointSet) (rep : String → String) : Prop :=
  ∃ height, Forest sets rep height

/-- A look-up returns the representative, and leaves all representatives as they are. -/
theorem find_spec {sets : DisjointSet} {rep : String → String} (h : Represents sets rep)
    {item : String} (hitem : item ∈ sets.items) :
    (sets.find item).1 = some (rep item) ∧ Represents (sets.find item).2 rep ∧
      (sets.find item).2.items = sets.items := by
  obtain ⟨_, hforest⟩ := h
  obtain ⟨height, hforest, hbound⟩ := hforest.exists_height_le
  have hlength : sets.parents.entries.length = sets.items.length :=
    (List.length_map (f := Prod.fst)).symm
  obtain ⟨hroot, hforest', hsame⟩ :=
    climb_spec sets.parents.entries.length hforest hitem (hlength ▸ hbound item)
  rw [find, if_pos (contains_iff.2 hitem)]
  exact ⟨congrArg some hroot, ⟨height, hforest'⟩, hsame⟩

/-- A union gives the items of the second set the representative of the first. -/
theorem union_spec {sets : DisjointSet} {rep : String → String} (h : Represents sets rep)
    {a b : String} (ha : a ∈ sets.items) (hb : b ∈ sets.items) :
    Represents (sets.union a b).2 (fun item => if rep item = rep b then rep a else rep item) ∧
      (sets.union a b).2.items = sets.items := by
  obtain ⟨hrootA, hafterA, hitemsA⟩ := find_spec h ha
  obtain ⟨hrootB, hafterB, hitemsB⟩ := find_spec hafterA (hitemsA.symm ▸ hb)
  have hunion : sets.union a b = (true, if rep a = rep b then ((sets.find a).2.find b).2
      else ⟨((sets.find a).2.find b).2.parents.insert (rep b) (rep a)⟩) := by
    unfold union
    rw [← Prod.eta (sets.find a), hrootA]
    dsimp only
    rw [← Prod.eta ((sets.find a).2.find b), hrootB]
  have hitems := hitemsB.trans hitemsA
  rw [hunion]
  obtain ⟨height, hforest⟩ := hafterB
  have hmem : ∀ {item}, item ∈ sets.items → rep item ∈ ((sets.find a).2.find b).2.items :=
    fun hitem => hforest.rep_mem (hitems.symm ▸ hitem)
  dsimp only
  split
  · next heq =>
    -- already one set
    have hsame : (fun item => if rep item = rep b then rep a else rep item) = rep := by
      funext item
      split
      · next hitem => rw [hitem, heq]
      · rfl
    exact ⟨hsame.symm ▸ ⟨height, hforest⟩, hitems⟩
  · next hne =>
    refine ⟨⟨_, hforest.merge (hmem ha) (hmem hb) (hforest.rep_rep a) (hforest.rep_rep b) hne⟩, ?_⟩
    rw [items_insert (hmem hb), hitems]

/-! ### Connected items -/

/-- The items with one representative are those that the equivalence closure of a relation
relates. -/
def Connects (sets : DisjointSet) (r : String → String → Prop) : Prop :=
  ∃ rep, Represents sets rep ∧ ∀ a b, rep a = rep b ↔ EqvGen r a b

namespace Connects

variable {sets : DisjointSet} {r r' : String → String → Prop}

theorem congr (h : Connects sets r) (hle : r ≤ EqvGen r') (hge : r' ≤ EqvGen r) :
    Connects sets r' := by
  obtain ⟨rep, hrep, hiff⟩ := h
  refine ⟨rep, hrep, ?_⟩
  intro a b
  rw [hiff]
  exact ⟨EqvGen.eqvGen_le hle a b, EqvGen.eqvGen_le hge a b⟩

/-- At first every item is connected to itself only. -/
theorem ofItems (names : List String) :
    Connects (DisjointSet.ofItems names) fun _ _ => False := by
  refine ⟨id, ⟨_, forest_ofItems names⟩, ?_⟩
  intro a b
  constructor
  · rintro rfl
    exact EqvGen.refl _
  · intro h
    induction h with
    | rel _ _ hfalse => exact hfalse.elim
    | refl => rfl
    | symm _ _ _ ih => exact ih.symm
    | trans _ _ _ _ _ ih ih' => exact ih.trans ih'

/-- A union connects two items, and nothing else that does not follow. -/
theorem union (h : Connects sets r) {a b : String} (ha : a ∈ sets.items) (hb : b ∈ sets.items) :
    Connects (sets.union a b).2 fun x y => r x y ∨ x = a ∧ y = b := by
  obtain ⟨rep, hrep, hiff⟩ := h
  refine ⟨_, (union_spec hrep ha hb).1, ?_⟩
  have hold : ∀ {x y}, rep x = rep y → EqvGen (fun x y => r x y ∨ x = a ∧ y = b) x y := by
    intro x y heq
    exact EqvGen.mono (fun _ _ hr => .inl hr) x y ((hiff x y).1 heq)
  have hnew : EqvGen (fun x y => r x y ∨ x = a ∧ y = b) a b :=
    EqvGen.rel a b (.inr ⟨rfl, rfl⟩)
  intro x y
  constructor
  · -- what got a new representative was connected to `b`, and is now connected to `a`
    intro heq
    split at heq
    · next hx =>
      have hxa := EqvGen.trans _ _ _ (hold hx) (EqvGen.symm _ _ hnew)
      split at heq
      · next hy => exact hold (hx.trans hy.symm)
      · exact EqvGen.trans _ _ _ hxa (hold heq)
    · next hx =>
      split at heq
      · next hy =>
        have hay := EqvGen.trans _ _ _ hnew (EqvGen.symm _ _ (hold hy))
        exact EqvGen.trans _ _ _ (hold heq) hay
      · exact hold heq
  · intro hgen
    induction hgen with
    | rel x y hxy =>
      rcases hxy with hr | ⟨rfl, rfl⟩
      · rw [(hiff x y).2 (EqvGen.rel x y hr)]
      · rw [if_pos rfl]
        split <;> rfl
    | refl => rfl
    | symm _ _ _ ih => exact ih.symm
    | trans _ _ _ _ _ ih ih' => exact ih.trans ih'

theorem items_union (h : Connects sets r) {a b : String} (ha : a ∈ sets.items)
    (hb : b ∈ sets.items) : (sets.union a b).2.items = sets.items := by
  obtain ⟨rep, hrep, -⟩ := h
  exact (union_spec hrep ha hb).2

/-- Tying others to an item, one after the other, connects it to each of them. -/
theorem foldl_union (h : Connects sets r) {first : String} (hfirst : first ∈ sets.items)
    {others : List String} (hothers : ∀ name ∈ others, name ∈ sets.items) :
    Connects (others.foldl (fun sets other => (sets.union first other).2) sets)
        (fun x y => r x y ∨ x = first ∧ y ∈ others) ∧
      (others.foldl (fun sets other => (sets.union first other).2) sets).items = sets.items := by
  induction others generalizing sets r with
  | nil => exact ⟨by simpa using h, rfl⟩
  | cons other rest ih =>
    have hother := hothers other List.mem_cons_self
    have hitems := h.items_union hfirst hother
    obtain ⟨hconnects, hsame⟩ := ih (h.union hfirst hother) (hitems.symm ▸ hfirst)
      (fun name hname => hitems.symm ▸ hothers name (List.mem_cons_of_mem other hname))
    refine ⟨?_, hsame.trans hitems⟩
    have hlinks : (fun x y => (r x y ∨ x = first ∧ y = other) ∨ x = first ∧ y ∈ rest) =
        fun x y => r x y ∨ x = first ∧ y ∈ other :: rest := by
      funext x y
      rw [or_assoc, ← and_or_left, List.mem_cons]
    rwa [← hlinks]

/-- Joining a group connects its members. -/
theorem unionAll (h : Connects sets r) {group : List String}
    (hgroup : ∀ name ∈ group, name ∈ sets.items) :
    Connects (sets.unionAll group) (fun x y => r x y ∨ x ∈ group ∧ y ∈ group) ∧
      (sets.unionAll group).items = sets.items := by
  cases group with
  | nil => exact ⟨by simpa [DisjointSet.unionAll] using h, rfl⟩
  | cons first others =>
    obtain ⟨hconnects, hsame⟩ := h.foldl_union (hgroup first List.mem_cons_self)
      (fun name hname => hgroup name (List.mem_cons_of_mem first hname))
    refine ⟨hconnects.congr ?_ ?_, hsame⟩
    · rintro x y (hr | ⟨rfl, hy⟩)
      · exact EqvGen.rel x y (.inl hr)
      · exact EqvGen.rel x y (.inr ⟨List.mem_cons_self, List.mem_cons_of_mem x hy⟩)
    · -- two members are connected through the first one
      have hfirst : ∀ {name}, name ∈ first :: others →
          EqvGen (fun x y => r x y ∨ x = first ∧ y ∈ others) first name := by
        intro name hname
        rcases List.mem_cons.1 hname with rfl | hname
        · exact EqvGen.refl _
        · exact EqvGen.rel _ _ (.inr ⟨rfl, hname⟩)
      rintro x y (hr | ⟨hx, hy⟩)
      · exact EqvGen.rel x y (.inl hr)
      · exact EqvGen.trans _ _ _ (EqvGen.symm _ _ (hfirst hx)) (hfirst hy)

/-- Joining groups connects what they connect together. -/
theorem foldl_unionAll (h : Connects sets r) {groups : List (List String)}
    (hgroups : ∀ group ∈ groups, ∀ name ∈ group, name ∈ sets.items) :
    Connects (groups.foldl DisjointSet.unionAll sets)
        (fun x y => r x y ∨ ∃ group ∈ groups, x ∈ group ∧ y ∈ group) ∧
      (groups.foldl DisjointSet.unionAll sets).items = sets.items := by
  induction groups generalizing sets r with
  | nil => exact ⟨by simpa using h, rfl⟩
  | cons group rest ih =>
    obtain ⟨hconnects, hsame⟩ := h.unionAll (hgroups group List.mem_cons_self)
    obtain ⟨hrest, hsame'⟩ := ih hconnects (fun group' hgroup' name hname =>
      hsame.symm ▸ hgroups group' (List.mem_cons_of_mem group hgroup') name hname)
    refine ⟨?_, hsame'.trans hsame⟩
    have hlinks : (fun x y => (r x y ∨ x ∈ group ∧ y ∈ group) ∨
          ∃ group' ∈ rest, x ∈ group' ∧ y ∈ group') =
        fun x y => r x y ∨ ∃ group' ∈ group :: rest, x ∈ group' ∧ y ∈ group' := by
      funext x y
      simp only [List.exists_mem_cons_iff, or_assoc]
    rwa [← hlinks]

end Connects

/-! ### Components -/

/-- There is one component for the first item of each representative, and it holds all items
with that representative. -/
theorem components_eq {sets : DisjointSet} {rep : String → String} (h : Represents sets rep)
    {names : List String} (hnames : ∀ name ∈ names, name ∈ sets.items) :
    sets.components names =
      (names.eraseDupsBy fun a b => rep a == rep b).map fun first =>
        names.filter fun name => rep name == rep first := by
  -- every look-up of the fold returns the representative, though it shortens the ways
  have hfold : ∀ t : Table String (List String),
      (names.foldl (fun (state : DisjointSet × Table String (List String)) name =>
        ((state.1.find name).2, state.2.push ((state.1.find name).1.getD name) name))
        (sets, t)).2 =
      (names.map fun name => (rep name, name)).foldl (fun t pair => t.push pair.1 pair.2) t := by
    induction names generalizing sets with
    | nil => exact fun _ => rfl
    | cons name rest ih =>
      intro t
      obtain ⟨hroot, hrep, hitems⟩ := find_spec h (hnames name List.mem_cons_self)
      rw [List.foldl_cons, hroot, ih hrep]
      · rfl
      · intro name' hname'
        rw [hitems]
        exact hnames name' (List.mem_cons_of_mem name hname')
  have hgroup : sets.components names =
      (Table.group (names.map fun name => (rep name, name))).values := by
    rw [Table.group, ← hfold]
    rfl
  rw [hgroup, Table.values_group, List.map_map]
  have hkeys : names.map (Prod.fst ∘ fun name => (rep name, name)) = names.map rep := rfl
  rw [hkeys, ← map_eraseDupsBy, List.map_map]
  refine List.map_congr_left ?_
  intro first _
  simp [Table.valuesOf, List.filter_map, Function.comp_def, BEq.comm]

end DisjointSet

/-! ### Groups by key -/

section Groups

variable {α κ : Type} [BEq κ] [LawfulBEq κ]

/-- Grouping by key loses nothing and repeats nothing. -/
theorem flatMap_filter_perm (key : α → κ) (l : List α) :
    ((l.eraseDupsBy fun a b => key a == key b).flatMap fun first =>
      l.filter fun a => key a == key first).Perm l := by
  match l with
  | [] => exact .nil
  | a :: rest =>
    have hrest := flatMap_filter_perm key (rest.filter fun b => decide ((key b == key a) = false))
    rw [List.eraseDupsBy_cons, List.flatMap_cons]
    -- behind the group of `a` the other groups are those of what is left
    have hothers : ∀ first ∈ (rest.filter fun b => decide ((key b == key a) = false)).eraseDupsBy
          fun b c => key b == key c,
        (a :: rest).filter (fun b => key b == key first) =
          (rest.filter fun b => decide ((key b == key a) = false)).filter
            fun b => key b == key first := by
      intro first hfirst
      have hne : (key first == key a) = false := by
        simpa using (List.mem_filter.1 ((eraseDupsBy_sublist _ _).subset hfirst)).2
      rw [List.filter_cons_of_neg (by rw [BEq.comm, hne]; exact Bool.false_ne_true),
        List.filter_filter]
      refine List.filter_congr ?_
      intro b _
      cases hb : key b == key first with
      | false => rfl
      | true => rw [eq_of_beq hb, hne]; rfl
    rw [List.flatMap_congr hothers]
    refine ((List.Perm.refl _).append hrest).trans ?_
    have hsplit := List.filter_append_perm (fun b => key b == key a) (a :: rest)
    rw [List.filter_cons_of_neg (p := fun b => !(key b == key a)) (by simp)] at hsplit
    simpa using hsplit
termination_by l.length
decreasing_by exact Nat.lt_succ_of_le (List.length_filter_le _ rest)

/-- The first element of a key is the first of its group. -/
theorem head?_filter_eq_some (key : α → κ) {l : List α} {first : α}
    (h : first ∈ l.eraseDupsBy fun a b => key a == key b) :
    (l.filter fun a => key a == key first).head? = some first := by
  rw [List.head?_filter, ← find?_eraseDupsBy,
    find?_eq_some_iff_mem key (nodup_map_eraseDupsBy key l)]
  exact ⟨h, rfl⟩

end Groups

end ObjectAudit
