/-
ObjectAudit/Settings/Reader.lean

Reading settings.  A key that is not known is refused before anything is read; then the
entries are read in a fixed order, whatever order they are given in, and the requirements
on the settings as a whole come last.
-/
import ObjectAudit.Settings.Basic
import ObjectAudit.Text.UpperCase

namespace ObjectAudit.Settings

/-- The keys that settings may have. -/
def knownKeys : List Text :=
  ["enabled_rules", "disabled_rules", "min_demeter_depth", "taxonomy",
   "min_responsibility_categories", "callback_category", "severity", "query_operations",
   "mutation_operations", "transaction_counts_own_class", "min_transaction_classes",
   "max_workers"]

def readNames (key : Text) : Json → Except SettingsFault (List Text)
  | .arr items => readWords (fun item => .entry key (.invalidName item)) items
  | other => .error (.entry key (.notNames other))

def readRules (key : Text) (value : Json) : Except SettingsFault (List Text) :=
  (readNames key value).map Text.set

def readOperations (key : Text) (value : Json) : Except SettingsFault (List String) :=
  (readNames key value).map fun names => Text.textSet (names.map Text.shown)

def readInteger (key : Text) : Json → Except SettingsFault Int
  | .int n => .ok n
  | other => .error (.entry key (.notInteger other))

/-- Read an integer, or null. -/
def readLimit (key : Text) : Json → Except SettingsFault (Option Int)
  | .null => .ok none
  | value => (readInteger key value).map some

def readFlag (key : Text) : Json → Except SettingsFault Bool
  | .bool b => .ok b
  | other => .error (.entry key (.notBoolean other))

def readText (key : Text) : Json → Except SettingsFault (Option Text)
  | .null => .ok none
  | value =>
    match value.text? with
    | some s => .ok (some s)
    | none => .error (.entry key (.notText value))

/-- The severity that a name spells, in any case. -/
def severityOf? (name : Text) : Option Severity :=
  Severity.all.find? fun severity => Text.spells name severity.capitalName

/-- Read the severities of some rules. -/
def readSeverities : List (Text × Json) → Except SettingsFault (List (Text × GivenSeverity))
  | [] => .ok []
  | (id, value) :: rest =>
    match value.text? with
    | none => .error (.entry (severityKey id) (.notSeverityName value))
    | some name =>
      match severityOf? name with
      | some severity => (readSeverities rest).map ((id, .severity severity) :: ·)
      | none =>
        .error (.entry (severityKey id) (.unknownSeverity value (Severity.all.map Severity.name)))

def readSeverityTable : Json → Except SettingsFault (List (Text × GivenSeverity))
  | .obj fields => readSeverities fields
  | _ => .error (.entry "severity" .notRuleTable)

/-- What is read under a key, or a value of its own if the key is not there. -/
def entryOr {α : Type} (fields : List (Text × Json)) (key : Text) (own : α)
    (reader : Text → Json → Except SettingsFault α) : Except SettingsFault α :=
  match fields.lookup key with
  | some value => reader key value
  | none => .ok own

/-- What a table of known keys gives for settings. -/
def readDraft (fields : List (Text × Json)) : Except SettingsFault Draft := do
  -- only the first fault is told, so the order of the entries counts
  let enabledRules ← entryOr fields "enabled_rules" standard.enabledRules fun key value =>
    (readRules key value).map some
  let disabledRules ← entryOr fields "disabled_rules" standard.disabledRules readRules
  let queryOperations ← entryOr fields "query_operations" standard.queryOperations readOperations
  let mutationOperations ←
    entryOr fields "mutation_operations" standard.mutationOperations readOperations
  let minDemeterDepth ← entryOr fields "min_demeter_depth" standard.minDemeterDepth readInteger
  let minResponsibilityCategories ← entryOr fields "min_responsibility_categories"
    standard.minResponsibilityCategories readInteger
  let minTransactionClasses ←
    entryOr fields "min_transaction_classes" standard.minTransactionClasses readInteger
  let maxWorkers ← entryOr fields "max_workers" standard.maxWorkers readLimit
  let transactionCountsOwnClass ← entryOr fields "transaction_counts_own_class"
    standard.transactionCountsOwnClass readFlag
  let callback ←
    entryOr fields "callback_category" (standard.callbackCategory.map .whole) readText
  let categories ← entryOr fields "taxonomy" standard.taxonomy.given fun _ => Taxonomy.readTable
  let severities ← entryOr fields "severity" [] fun _ => readSeverityTable
  return { enabledRules, disabledRules, minDemeterDepth, minResponsibilityCategories,
           queryOperations, mutationOperations, transactionCountsOwnClass, minTransactionClasses,
           maxWorkers, categories, callback, severities }

/-- The settings that a table of known keys describes. -/
def ofFields (fields : List (Text × Json)) : Except SettingsFault Settings := do
  (← readDraft fields).complete

/-- The keys that a value has when gone through, if it can be. -/
def keysOf : Json → Except SettingsFault (List Json)
  | .obj fields => .ok (fields.map fun field => .str field.1)
  | .arr items => .ok items
  | .str text => .ok (text.pieces.map fun piece => .str (.ofPieces [piece]))
  | _ => .error .unusable

def isKnown (key : Json) : Bool := (key.text?.map knownKeys.contains).getD false

/-- The settings that a value describes.  Any value that has no keys leaves all as it is. -/
def ofJson (value : Json) : Except SettingsFault Settings := do
  let keys ← keysOf value
  match keys.find? fun key => !isKnown key with
  -- before any entry is read
  | some key => throw (.entry key.plainText .unknownKey)
  | none =>
    match value with
    | .obj fields => ofFields fields
    -- a list of known keys has no entries under them
    | _ => if keys.isEmpty then ofFields [] else throw .unusable

end ObjectAudit.Settings
