/-
ObjectAudit/Json/Display.lean

The text of a JSON value inside a message: texts are quoted, lists and tables written
with their brackets, and the three constants spelled out.
-/
import ObjectAudit.Json.Basic

namespace ObjectAudit.Json

open Text

mutual

/-- The text of a value inside a message. -/
def display : Json → String
  | null => "None"
  | bool true => "True"
  | bool false => "False"
  | int value => toString value
  | float value => value.text messageStyle
  | str value => value.inQuotes
  | arr items => "[" ++ commaList (displayItems items) ++ "]"
  | obj fields => "\x7b" ++ commaList (displayFields fields) ++ "\x7d"

def displayItems : List Json → List String
  | [] => []
  | item :: rest => display item :: displayItems rest

def displayFields : List (Text × Json) → List String
  | [] => []
  | (name, value) :: rest => (name.inQuotes ++ ": " ++ display value) :: displayFields rest

end

/-- The text of a value on its own: a text stands without quotes. -/
def plainText (value : Json) : Text := value.text?.getD value.display

end ObjectAudit.Json
