/-
ObjectAudit/Snapshot/Fault.lean

Why a snapshot, or an entry of it, cannot be read: a path into the snapshot and a cause.
What a cause quotes is quoted as it was given, also where a text holds half a character
and the model would hold another one in its place.
-/
import ObjectAudit.Defect
import ObjectAudit.Json.Display

namespace ObjectAudit.Snapshot

open Text

/-- A step into a value. -/
inductive Step where
  /-- The value of a field. -/
  | key (name : String)
  /-- The item at a position. -/
  | item (position : Nat)
deriving DecidableEq, Repr

/-- A way into a snapshot. -/
abbrev Path := List Step

/-- The text of the steps behind the first. -/
def Step.text : Step → String
  | key name => s!".{name}"
  | item position => s!"[{position}]"

def pathText : Path → String
  | [] => ""
  | .key name :: rest => name ++ String.join (rest.map Step.text)
  | steps => String.join (steps.map Step.text)

/-- Why a value is not what it should be. -/
inductive ShapeCause where
  | notObject (kind : String)
  | notList (kind : String)
  | notText (kind : String)
  | notTextOrNull (kind : String)
  | notInteger (kind : String)
  | notBoolean (kind : String)
  | missingField
  | unknownValue (got : Json) (known : List String)
  | unknownOrigin (got : Json) (known : List String)
  /-- A call on the object itself starts at something else. -/
  | selfRoot (got : Json)
  /-- A call site applies an empty name. -/
  | emptyName (got : List Json)
  | broken (defect : Defect)
deriving DecidableEq, Repr

def ShapeCause.reason : ShapeCause → String
  | notObject kind => s!"expected an object, got {kind}"
  | notList kind => s!"expected a list, got {kind}"
  | notText kind => s!"expected a string, got {kind}"
  | notTextOrNull kind => s!"expected a string or null, got {kind}"
  | notInteger kind => s!"expected an integer, got {kind}"
  | notBoolean kind => s!"expected a boolean, got {kind}"
  | missingField => "required field is missing"
  | unknownValue got known =>
    s!"unknown value {got.display} (expected one of: {commaList known})"
  | unknownOrigin got known =>
    s!"unknown origin {got.display} (expected one of: {commaList known})"
  | selfRoot got => Defect.selfRootMessage got.display
  | emptyName got => Defect.emptyNameMessage (got.map Json.display)
  | broken defect => defect.message

/-- Why a value in a snapshot is not what it should be. -/
structure ShapeFault where
  path : Path
  cause : ShapeCause
deriving DecidableEq, Repr

def malformedMessage (subject reason : String) : String := s!"{subject}: {reason}"

def ShapeFault.message (fault : ShapeFault) : String :=
  malformedMessage (pathText fault.path) fault.cause.reason

end ObjectAudit.Snapshot
