/-
ObjectAudit/DisjointSet.lean

Disjoint sets of texts.  Every item has a parent, and an item that is its own parent
represents its set.  Looking up the representative shortens the way: each item on it that
is not yet there is tied to its grandparent.
-/
import ObjectAudit.Table

namespace ObjectAudit

/-- Disjoint sets of texts. -/
structure DisjointSet where
  parents : Table String String
deriving DecidableEq, Repr

namespace DisjointSet

/-- Every item in a set of its own. -/
def ofItems (items : List String) : DisjointSet :=
  ⟨Table.ofList (items.map fun item => (item, item))⟩

/-- The parent of an item; what is no item has none but itself. -/
def parent (sets : DisjointSet) (item : String) : String := (sets.parents.get? item).getD item

/-- Follow parents for at most so many steps, tying each item passed to its
grandparent. -/
def climb : Nat → DisjointSet → String → String × DisjointSet
  | 0, sets, item => (item, sets)
  | steps + 1, sets, item =>
    let up := sets.parent item
    if up = item then (item, sets)
    else
      let grand := sets.parent up
      climb steps ⟨sets.parents.insert item grand⟩ grand

/-- The representative of an item, and the sets with the way there shortened; nothing for
what is no item.  No way is longer than the number of items. -/
def find (sets : DisjointSet) (item : String) : Option String × DisjointSet :=
  if sets.parents.contains item then
    let (root, sets) := climb sets.parents.entries.length sets item
    (some root, sets)
  else (none, sets)

/-- Join the sets of two items: the representative of the first one represents both.
Tells whether both are items. -/
def union (sets : DisjointSet) (a b : String) : Bool × DisjointSet :=
  match sets.find a with
  | (none, sets) => (false, sets)
  | (some rootA, sets) =>
    match sets.find b with
    | (none, sets) => (false, sets)
    | (some rootB, sets) =>
      -- the representative of the first item stays one
      (true, if rootA = rootB then sets else ⟨sets.parents.insert rootB rootA⟩)

/-- Join all members to the first one. -/
def unionAll (sets : DisjointSet) : List String → DisjointSet
  | [] => sets
  | first :: others => others.foldl (fun sets other => (sets.union first other).2) sets

/-- The items, grouped by their representatives. -/
def components (sets : DisjointSet) (items : List String) : List (List String) :=
  let step (state : DisjointSet × Table String (List String)) (item : String) :=
    -- a search shortens the ways behind it, so the next one starts from its sets
    let (root, sets) := state.1.find item
    (sets, state.2.push (root.getD item) item)
  (items.foldl step (sets, Table.empty)).2.values

end DisjointSet

end ObjectAudit
