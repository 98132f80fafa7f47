/-
ObjectAudit/Snapshot/Field.lean

Reading the fields of an object.  Each reader says where it stands, so that a fault can
name the place.  A required field has to be there; an optional one has a value of its own
that stands in for it.
-/
import ObjectAudit.Snapshot.Fault

namespace ObjectAudit.Snapshot

abbrev Reading := Except ShapeFault

/-- The fields of an object, and the way to it. -/
structure Place where
  path : Path
  fields : List (Text × Json)

/-- Let a value pass that breaks no requirement, in the object it was read from. -/
def build {α : Type} [Checked α] (path : Path) (value : α) : Reading α :=
  match checked value with
  | .ok value => .ok value
  | .error defect => .error ⟨path, .broken defect⟩

def readObject (path : Path) : Json → Reading Place
  | .obj fields => .ok ⟨path, fields⟩
  | other => .error ⟨path, .notObject other.kindName⟩

/-- Read all items of a list, each at its position from a start on. -/
def readItems {α : Type} (path : Path) (read : Path → Json → Reading α) (position : Nat) :
    List Json → Reading (List α)
  | [] => .ok []
  | item :: rest => do
    let value ← read (path ++ [.item position]) item
    let values ← readItems path read (position + 1) rest
    return value :: values

namespace Place

variable (place : Place)

def pathTo (key : String) : Path := place.path ++ [.key key]

def field? (key : String) : Option Json := place.fields.lookup (key : Text)

/-- A field that has to be there. -/
def required (key : String) : Reading Json :=
  match place.field? key with
  | some value => .ok value
  | none => .error ⟨place.pathTo key, .missingField⟩

def asText (key : String) (value : Json) : Reading Text :=
  match value.text? with
  | some s => .ok s
  | none => .error ⟨place.pathTo key, .notText value.kindName⟩

def text (key : String) : Reading String := do
  return (← place.asText key (← place.required key)).shown

/-- A text, with one that stands in for it. -/
def textOr (key own : String) : Reading String :=
  match place.field? key with
  | some value => (place.asText key value).map Text.shown
  | none => .ok own

/-- A text or null, with what stands in for it. -/
def optionalText (key : String) (own : Option String) : Reading (Option String) :=
  match place.field? key with
  | none => .ok own
  | some .null => .ok none
  | some value =>
    match value.text? with
    | some s => .ok (some s.shown)
    | none => .error ⟨place.pathTo key, .notTextOrNull value.kindName⟩

def asInteger (key : String) : Json → Reading Int
  | .int n => .ok n
  | other => .error ⟨place.pathTo key, .notInteger other.kindName⟩

def integer (key : String) : Reading Int := do
  place.asInteger key (← place.required key)

def integerOr (key : String) (own : Int) : Reading Int :=
  match place.field? key with
  | some value => place.asInteger key value
  | none => .ok own

/-- A truth value, false if it is not there. -/
def flag (key : String) : Reading Bool :=
  match place.field? key with
  | none => .ok false
  | some (.bool b) => .ok b
  | some other => .error ⟨place.pathTo key, .notBoolean other.kindName⟩

/-- A list, empty if it is not there. -/
def list (key : String) : Reading (List Json) :=
  match place.field? key with
  | none => .ok []
  | some (.arr items) => .ok items
  | some other => .error ⟨place.pathTo key, .notList other.kindName⟩

def listOf {α : Type} (key : String) (read : Path → Json → Reading α) :
    Reading (List α) := do
  readItems (place.pathTo key) read 0 (← place.list key)

def texts (key : String) : Reading (List String) :=
  place.listOf key fun path item => match item.text? with
    | some s => .ok s.shown
    | none => .error ⟨path, .notText item.kindName⟩

def choice {α : Type} (key : String) (all : List α) (name : α → String) : Reading α := do
  let got ← place.required key
  let value ← place.asText key got
  match all.find? fun a => (name a : Text) == value with
  | some a => return a
  | none => throw ⟨place.pathTo key, .unknownValue got (all.map name)⟩

end Place

end ObjectAudit.Snapshot
