/-
ObjectAudit/Json/Basic.lean

JSON values.  Integers and binary numbers are kept apart, because a description of a
code base counts in integers and `2.0` is none; the fields of an object keep their order.
-/
import ObjectAudit.Number.Shortest
import ObjectAudit.Table
import ObjectAudit.Text.Piece

namespace ObjectAudit

/-- A JSON value. -/
inductive Json where
  | null
  | bool (value : Bool)
  | int (value : Int)
  | float (value : Double)
  | str (value : Text)
  | arr (items : List Json)
  | obj (fields : List (Text × Json))
deriving Repr, Inhabited

namespace Json

/-- The most digits of an integer in a file that is read or written. -/
def mostDigits : Nat := 4300

/-! ### Equality -/

mutual

def decEq (a b : Json) : Decidable (a = b) :=
  match a with
  | .null => match b with
    | .null => isTrue rfl
    | .bool _ | .int _ | .float _ | .str _ | .arr _ | .obj _ => isFalse (by simp)
  | .bool a => match b with
    | .bool b => decidable_of_iff (a = b) (by simp)
    | .null | .int _ | .float _ | .str _ | .arr _ | .obj _ => isFalse (by simp)
  | .int a => match b with
    | .int b => decidable_of_iff (a = b) (by simp)
    | .null | .bool _ | .float _ | .str _ | .arr _ | .obj _ => isFalse (by simp)
  | .float a => match b with
    | .float b => decidable_of_iff (a = b) (by simp)
    | .null | .bool _ | .int _ | .str _ | .arr _ | .obj _ => isFalse (by simp)
  | .str a => match b with
    | .str b => decidable_of_iff (a = b) (by simp)
    | .null | .bool _ | .int _ | .float _ | .arr _ | .obj _ => isFalse (by simp)
  | .arr a => match b with
    | .arr b =>
      haveI := decEqItems a b
      decidable_of_iff (a = b) (by simp)
    | .null | .bool _ | .int _ | .float _ | .str _ | .obj _ => isFalse (by simp)
  | .obj a => match b with
    | .obj b =>
      haveI := decEqFields a b
      decidable_of_iff (a = b) (by simp)
    | .null | .bool _ | .int _ | .float _ | .str _ | .arr _ => isFalse (by simp)

def decEqItems (as bs : List Json) : Decidable (as = bs) :=
  match as, bs with
  | [], [] => isTrue rfl
  | a :: as, b :: bs =>
    haveI := decEq a b
    haveI := decEqItems as bs
    decidable_of_iff (a = b ∧ as = bs) (by simp)
  | [], _ :: _ | _ :: _, [] => isFalse (by simp)

def decEqFields (as bs : List (Text × Json)) : Decidable (as = bs) :=
  match as, bs with
  | [], [] => isTrue rfl
  | (name, a) :: as, (name', b) :: bs =>
    haveI := decEq a b
    haveI := decEqFields as bs
    decidable_of_iff ((name = name' ∧ a = b) ∧ as = bs) (by simp)
  | [], _ :: _ | _ :: _, [] => isFalse (by simp)

end

instance : DecidableEq Json := decEq

/-! ### Views and construction -/

def kindName : Json → String
  | null => "NoneType"
  | bool _ => "bool"
  | int _ => "int"
  | float _ => "float"
  | str _ => "str"
  | arr _ => "list"
  | obj _ => "dict"

def text? : Json → Option Text
  | str value => some value
  | _ => none

/-- The text of a value, if it is one that is not empty. -/
def word? (value : Json) : Option Text := value.text?.filter (· != .whole "")

def field? (name : Text) : Json → Option Json
  | obj fields => fields.lookup name
  | _ => none

/-- Does the value count as present: not null, false, zero or empty? -/
def isTruthy : Json → Bool
  | null => false
  | bool value => value
  | int value => value != 0
  | float value => !value.isZero
  | str value => value != .whole ""
  | arr items => !items.isEmpty
  | obj fields => !fields.isEmpty

/-- The object with the given fields, in which a later value of a name replaces an
earlier one. -/
def ofFields (fields : List (Text × Json)) : Json := obj (Table.ofList fields).entries

def ofOption (text : Option String) : Json := text.elim null (str ∘ Text.whole)

def ofTexts (texts : List String) : Json := arr (texts.map (str ∘ Text.whole))

end Json

end ObjectAudit
