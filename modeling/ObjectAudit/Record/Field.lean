/-
ObjectAudit/Record/Field.lean

Reading the fields of a record.  A field that is not given, or holds nothing of use, reads
as the empty value of its type; whether it had to be given is said once, by the shape of
the record.  What a record holds inside is read first, in the order of the fields; then the
record has to have its shape, and the value has to meet its requirements.
-/
import ObjectAudit.Number.Quantity
import ObjectAudit.Record.Fault
import ObjectAudit.Text.Order
import ObjectAudit.Text.UpperCase

namespace ObjectAudit.Record

/-- The outcome of reading a record. -/
abbrev Reading := Except Fault

/-! ### Values -/

def fieldsOf : Json → List (Text × Json)
  | .obj fields => fields
  | _ => []

def itemsOf : Json → List Json
  | .arr items => items
  | _ => []

def textOf (value : Json) : String := (value.text?.map Text.shown).getD ""

def textsOf (value : Json) : List String := (itemsOf value).map textOf

def nameSetOf (value : Json) : List String := Text.textSet (textsOf value)

def ruleSetOf (value : Json) : List Text := 
  Text.set ((itemsOf value).map fun item => item.text?.getD "")

def listOf {α : Type} (read : Json → Reading α) (value : Json) : Reading (List α) :=
  (itemsOf value).mapM read

def optionOf {α : Type} (read : Json → Reading α) : Json → Reading (Option α)
  | .null => .ok none
  | value => (read value).map some

/-- One of some named values. -/
def choice {α : Type} (enumeration : String) (all : List α) (name : α → String)
    (value : Json) : Reading α :=
  match all.find? fun a => value.text? == some (name a) with
  | some a => .ok a
  | none => .error (.notValid enumeration value)

/-- One of some values whose names may be spelled in any case. -/
def spelled {α : Type} (all : List α) (capitalName : α → String) (value : Json) : Reading α :=
  match all.find? fun a => (value.text?.map fun text => text.spells (capitalName a)).getD false with
  | some a => .ok a
  | none => .error (.unknownName value)

/-! ### Fields -/

def given (record : Json) (name : String) : Json := (record.field? name).getD .null

def text (record : Json) (name : String) : String := textOf (given record name)

def text? (record : Json) (name : String) : Option String :=
  (given record name).text?.map Text.shown

def texts (record : Json) (name : String) : List String := textsOf (given record name)

def integer? (record : Json) (name : String) : Option Int :=
  match given record name with
  | .int n => some n
  | _ => none

/-- An integer, with one that stands in for it. -/
def integer (record : Json) (name : String) (own : Int) : Int :=
  (integer? record name).getD own

def flag (record : Json) (name : String) (own : Bool) : Bool :=
  match given record name with
  | .bool b => b
  | _ => own

def quantity (record : Json) (name : String) : Quantity :=
  match given record name with
  | .int n => .whole n
  | .float x => .binary x
  | _ => .zero

/-! ### Shapes -/

/-- The names of the fields of a record. -/
structure Shape where
  /-- Those that have to be given. -/
  required : List String := []
  /-- Those that may be given. -/
  optional : List String := []
  /-- Those that hold a number, if they are given. -/
  numbers : List String := []
  /-- Those that hold a number or null, if they are given. -/
  limits : List String := []

def isNumber : Json → Bool
  | .int _ | .float _ => true
  | _ => false

def isAmong (names : List String) (text : Text) : Bool := names.any fun name => text == name

/-- Does a field of this name and value lack a number that it has to hold? -/
def Shape.lacksNumber (shape : Shape) (name : Text) (value : Json) : Bool :=
  (isAmong shape.numbers name && !isNumber value) ||
    (isAmong shape.limits name && value != .null && !isNumber value)

def Shape.fault? (shape : Shape) (fields : List (Text × Json)) : Option Fault :=
  let unknown := fields.find? fun (name, _) => !isAmong (shape.required ++ shape.optional) name
  let missing := shape.required.find? fun name => (fields.lookup (.whole name)).isNone
  let uncounted := fields.find? fun (name, value) => shape.lacksNumber name value
  (unknown.map fun (name, _) => .unknownField name)
    |>.or (missing.map .missingField)
    |>.or (uncounted.map fun (name, _) => .notNumber name)

/-- Let a record pass that has a shape. -/
def Shape.demand (shape : Shape) (record : Json) : Reading Unit :=
  match shape.fault? (fieldsOf record) with
  | some fault => .error fault
  | none => .ok ()

/-- Let a value pass that meets its requirements. -/
def sound {α : Type} [Checked α] (value : α) : Reading α :=
  match checked value with
  | .ok value => .ok value
  | .error defect => .error (.defect defect)

/-- Read a record of a shape: complete a value by the fields, one after the other. -/
def fill {α : Type} (shape : Shape) (record : Json) (start : α)
    (set : α → Json → String → Reading α) : Reading α := do
  let value ← (fieldsOf record).foldlM (fun a (name, field) => set a field name.shown) start
  shape.demand record
  return value

/-- Read a record of a shape whose value has requirements. -/
def build {α : Type} [Checked α] (shape : Shape) (record : Json) (start : α)
    (set : α → Json → String → Reading α) : Reading α := do
  sound (← fill shape record start set)

end ObjectAudit.Record
