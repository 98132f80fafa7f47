/-
ObjectAudit/Association.lean

Associations: a class declares an accessor that yields objects of another class.  An
association is resolved if that class belongs to the audited code; if not, it carries a
note.
-/
import ObjectAudit.Defect

namespace ObjectAudit

/-- How two classes are associated. -/
inductive AssociationKind where
  | ownsOne
  | ownsMany
  | belongsTo
  | composedOf
deriving DecidableEq, Repr

namespace AssociationKind

def all : List AssociationKind := [ownsOne, ownsMany, belongsTo, composedOf]

def name : AssociationKind → String
  | ownsOne => "owns-one"
  | ownsMany => "owns-many"
  | belongsTo => "belongs-to"
  | composedOf => "composed-of"

end AssociationKind

/-- An association between two classes. -/
structure Association where
  /-- The class that declares it. -/
  source : String
  /-- The class whose objects it yields. -/
  target : String
  kind : AssociationKind
  accessor : String
  resolved : Bool := true
  note : Option String := none
deriving DecidableEq, Repr

namespace Association

instance : Checked Association where
  defect? edge := firstDefect
    [nonempty "source" edge.source,
     nonempty "target" edge.target,
     nonempty "accessor" edge.accessor,
     (edge.resolved && edge.note.isSome, .noteOnResolved)]

def isSelfReference (edge : Association) : Bool := edge.source == edge.target

/-- The association, unresolved for a reason, if one is given. -/
def asUnresolved (edge : Association) (note : Option String) : Association :=
  { edge with resolved := false, note }

def asResolved (edge : Association) : Association :=
  { edge with resolved := true, note := none }

def text (edge : Association) : String :=
  s!"{edge.source}.{edge.accessor} -[{edge.kind.name}]-> {edge.target}"

end Association

end ObjectAudit
