/-
ObjectAudit/Taxonomy.lean

The taxonomy of method names.  Categories are tried in their order, and the first one
with a matching pattern is the category of a name.
-/
import ObjectAudit.Settings.Fault
import ObjectAudit.Text.Glob

namespace ObjectAudit

/-- The patterns of a category: a list, or a table whose names are the patterns. -/
inductive Patterns where
  | list (patterns : List String)
  | table (fields : List (Text × Json))
deriving DecidableEq, Repr

def Patterns.texts : Patterns → List String
  | list patterns => patterns
  | table fields => fields.map (·.1.shown)

/-- Categories of method names, each with its patterns. -/
structure Taxonomy where
  categories : List (String × Patterns)
deriving DecidableEq, Repr

namespace Taxonomy

def standard : Taxonomy :=
  ⟨[("finder", .list ["find*", "search*", "lookup*", "by_*", "*_by_*", "where_*", "scope_*"]),
    ("conversion", .list ["to_*", "as_*", "serialize*", "format_*", "export_*", "*_as_json"]),
    ("callback", .list ["before_*", "after_*", "around_*"]),
    ("validation", .list ["validate*", "valid_*", "*_valid", "check_*", "ensure_*"])]⟩

def names (taxonomy : Taxonomy) : List String := taxonomy.categories.map Prod.fst

def has (taxonomy : Taxonomy) (category : String) : Bool := taxonomy.names.contains category

/-- The category of a method name. -/
def categoryOf (taxonomy : Taxonomy) (name : String) : Option String :=
  (taxonomy.categories.find? fun (_, patterns) =>
    patterns.texts.any fun pattern => Glob.isMatch pattern name).map Prod.fst

/-! ### Reading -/

def keyOf (category : Text) : Text := category.behind "taxonomy."

/-- Read the patterns of a category. -/
def patternsOf (category : Text) (patterns : Json) : Except SettingsFault Patterns :=
  let key := keyOf category
  let read := readWords fun item => .entry key (.invalidPattern item)
  if !patterns.isTruthy then .error (.entry key .noPatterns)
  else
    match patterns with
    -- a text could be gone through, but its characters are no patterns
    | .str _ => .error (.entry key .noPatterns)
    | .arr items => (read items).map fun patterns => .list (patterns.map Text.shown)
    -- going through a table gives its keys
    | .obj fields => (read (fields.map fun field => .str field.1)).map fun _ => .table fields
    | _ => .error .unusable

/-- Read categories behind those already seen. -/
def readCategories (seen : List Text) :
    List (Json × Json) → Except SettingsFault (List (Text × Patterns))
  | [] => .ok []
  | (name, patterns) :: rest =>
    match name.word? with
    | none => .error (.entry "taxonomy" .emptyCategory)
    | some category =>
      if seen.contains category then .error (.entry (keyOf category) .repeatedCategory)
      else do
        let patterns ← patternsOf category patterns
        let rest ← readCategories (category :: seen) rest
        return (category, patterns) :: rest

/-- The taxonomy of categories under the names that were given. -/
def ofGiven (given : List (Text × Patterns)) : Taxonomy :=
  ⟨given.map fun (category, patterns) => (category.shown, patterns)⟩

def given (taxonomy : Taxonomy) : List (Text × Patterns) :=
  taxonomy.categories.map fun (category, patterns) => (category, patterns)

/-- The first category of a table whose patterns are not a list. -/
def unlisted? (fields : List (Text × Json)) : Option Text :=
  (fields.find? fun field => match field.2 with
    | .arr _ => false
    | _ => true).map Prod.fst

/-- Read a table of categories. -/
def readTable : Json → Except SettingsFault (List (Text × Patterns))
  | .obj [] => .error (.entry "taxonomy" .noCategories)
  | .obj fields =>
    match unlisted? fields with
    | some category => .error (.entry (keyOf category) .notPatterns)
    | none => readCategories [] (fields.map fun field => (.str field.1, field.2))
  | _ => .error (.entry "taxonomy" .notCategories)

end Taxonomy

end ObjectAudit
