/-
ObjectAudit/Snapshot/Synthetic.lean

Snapshots of any size: a row of classes, each associated with the next one and reaching to
the one after it.
-/
import ObjectAudit.Json.Basic

namespace ObjectAudit.Snapshot

def accessorAt (position : Nat) : String := s!"next{position}"

/-- The class at a position in a row of so many. -/
def syntheticClass (size position : Nat) : Json :=
  let associations := if position + 1 < size then
      [.obj [("accessor", .str (accessorAt (position + 1))),
             ("target", .str s!"Model{position + 1}"),
             ("kind", .str "belongs-to")]]
    else []
  let callSites := if position + 2 < size then
      [.obj [("origin", .str "self"),
             ("chain", .ofTexts [accessorAt (position + 1), accessorAt (position + 2), "name"]),
             ("line", .int 5)]]
    else []
  .obj
    [("name", .str s!"Model{position}"),
     ("layer", .str "model"),
     ("file", .str s!"app/models/model{position}.rb"),
     ("associations", .arr associations),
     ("methods", .arr
       [.obj [("name", .str "find_by_code"), ("class_level", .bool true), ("line", .int 2)],
        .obj [("name", .str "to_csv"), ("line", .int 3)],
        .obj [("name", .str "label"), ("line", .int 4), ("call_sites", .arr callSites)]])]

/-- A row of so many classes; none if the number is not above zero. -/
def synthetic (size : Int) : Json :=
  .obj [("classes", .arr ((List.range size.toNat).map (syntheticClass size.toNat)))]

end ObjectAudit.Snapshot
