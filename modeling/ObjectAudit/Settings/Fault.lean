/-
ObjectAudit/Settings/Fault.lean

Why settings are refused: a key and a cause.  A value that cannot be gone through at all
has no key to blame.
-/
import ObjectAudit.Json.Display

namespace ObjectAudit

open Text

/-- Why an entry of the settings is refused. -/
inductive SettingsCause where
  | unknownKey
  | notNames (got : Json)
  | invalidName (got : Json)
  | notInteger (got : Json)
  | notBoolean (got : Json)
  | notText (got : Json)
  | notCategories
  | noCategories
  | emptyCategory
  | repeatedCategory
  | notPatterns
  | noPatterns
  | invalidPattern (got : Json)
  | notRuleTable
  | notSeverityName (got : Json)
  | unknownSeverity (got : Json) (known : List String)
  | notSeverity (got : Json)
  | belowLeast (least got : Int)
  | unknownCategory (category : Text)
  | emptyList
  | unknownRule (ruleId : Text) (known : List String)
deriving DecidableEq, Repr

def unknownRuleReason (ruleId : Text) (known : List String) : String :=
  s!"unknown rule id {ruleId.inQuotes} (known: {commaList known})"

def SettingsCause.reason : SettingsCause → String
  | unknownKey => "unknown configuration key"
  | notNames got => s!"expected a list of names, got {got.display}"
  | invalidName got => s!"invalid name {got.display}"
  | notInteger got => s!"expected an integer, got {got.display}"
  | notBoolean got => s!"expected a boolean, got {got.display}"
  | notText got => s!"expected a string, got {got.display}"
  | notCategories => "expected a table of categories"
  | noCategories => "at least one category is required"
  | emptyCategory => "category name must be non-empty"
  | repeatedCategory => "category declared twice"
  | notPatterns => "expected a list of patterns"
  | noPatterns => "expected a non-empty list of patterns"
  | invalidPattern got => s!"invalid pattern {got.display}"
  | notRuleTable => "expected a table of rule ids"
  | notSeverityName got => s!"expected a severity name, got {got.display}"
  | unknownSeverity got known =>
    s!"unknown severity {got.display} (expected one of: {commaList known})"
  | notSeverity got => s!"expected Severity, got {got.display}"
  | belowLeast least got => s!"must be >= {least}, got {got}"
  | unknownCategory category => s!"{category.inQuotes} is not a taxonomy category"
  | emptyList => "must not be empty"
  | unknownRule ruleId known => unknownRuleReason ruleId known

/-- Why settings are refused. -/
inductive SettingsFault where
  /-- The entry under a key is wrong. -/
  | entry (key : Text) (cause : SettingsCause)
  /-- A value that has to be gone through cannot be. -/
  | unusable
deriving DecidableEq, Repr

/-- Read texts that are not empty; the first item that is none is at fault. -/
def readWords (fault : Json → SettingsFault) : List Json → Except SettingsFault (List Text)
  | [] => .ok []
  | item :: rest =>
    match item.word? with
    | some word => (readWords fault rest).map (word :: ·)
    | none => .error (fault item)

def settingsMessage (key : Text) (reason : String) : String :=
  s!"invalid configuration at {key.inQuotes}: {reason}"

end ObjectAudit
