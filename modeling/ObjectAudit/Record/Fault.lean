/-
ObjectAudit/Record/Fault.lean

Records are the JSON form of single values: an object with the fields of the value by
name.  Here is why a record describes no value.
-/
import ObjectAudit.Defect
import ObjectAudit.Settings.Fault

namespace ObjectAudit.Record

/-- Why a record describes no value. -/
inductive Fault where
  /-- The type has no field of this name. -/
  | unknownField (name : Text)
  /-- A field that has to be given is not. -/
  | missingField (name : String)
  /-- A field that holds a number holds something else. -/
  | notNumber (name : Text)
  /-- A field that holds a path holds something else. -/
  | notPath (name : String)
  /-- A name that may be spelled in any case is none of those known. -/
  | unknownName (got : Json)
  /-- A value is none of the values of an enumeration. -/
  | notValid (enumeration : String) (got : Json)
  /-- A category with its patterns is given as so many values, which are not two. -/
  | notPair (count : Nat)
  | defect (defect : Defect)
  | settings (fault : SettingsFault)
deriving DecidableEq, Repr

def notValidMessage (enumeration : String) (got : Json) : String :=
  s!"{got.display} is not a valid {enumeration}"

def notPairMessage (count : Nat) : String :=
  if count < 2 then s!"not enough values to unpack (expected 2, got {count})"
  else "too many values to unpack (expected 2)"

end ObjectAudit.Record
