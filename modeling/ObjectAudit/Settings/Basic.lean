/-
ObjectAudit/Settings/Basic.lean

The settings of an audit: which rules run, their thresholds and severities, the taxonomy
of method names, and the names of operations that query or change persisted state.
-/
import ObjectAudit.Taxonomy
import ObjectAudit.Text.Order
import ObjectAudit.Violation

namespace ObjectAudit

/-- The settings that name no category.  Sets of names are sorted lists without
repetitions. -/
structure Settings.Options where
  /-- The rules that run; all of them if absent. -/
  enabledRules : Option (List Text) := none
  /-- Rules that do not run. -/
  disabledRules : List Text := []
  /-- The number of steps to other classes from which a chain is reported. -/
  minDemeterDepth : Int := 2
  /-- The number of categories from which a class is reported. -/
  minResponsibilityCategories : Int := 2
  queryOperations : List String :=
    ["distinct", "exclude", "filter", "filter_by", "group", "group_by", "having", "includes",
     "joins", "limit", "offset", "order", "order_by", "reorder", "where"]
  mutationOperations : List String :=
    ["create", "create!", "decrement!", "delete", "delete_all", "destroy", "destroy!",
     "destroy_all", "increment!", "insert", "insert_all", "persist", "save", "save!", "toggle!",
     "touch", "update", "update!", "update_all", "update_attribute", "update_attributes",
     "update_column", "upsert"]
  /-- Does a class count among those that its own transactions change? -/
  transactionCountsOwnClass : Bool := false
  /-- The number of changed classes from which a transaction is reported. -/
  minTransactionClasses : Int := 2
  /-- How many units may be analysed at a time. -/
  maxWorkers : Option Int := none
deriving DecidableEq, Repr

/-- The settings of an audit. -/
structure Settings extends Settings.Options where
  taxonomy : Taxonomy := .standard
  /-- The category of all callbacks; by name only if absent. -/
  callbackCategory : Option String := some "callback"
  severityOverrides : List (Text × Severity) := []
deriving DecidableEq, Repr

namespace Settings

def standard : Settings := {}

/-- Does a rule run? -/
def isEnabled (settings : Settings) (ruleId : String) : Bool :=
  !settings.disabledRules.contains (ruleId : Text) &&
    match settings.enabledRules with
    | none => true
    | some rules => rules.contains (ruleId : Text)

/-- The severity of a rule, which has one of its own. -/
def severityFor (settings : Settings) (ruleId : String) (own : Severity) : Severity :=
  (settings.severityOverrides.lookup (ruleId : Text)).getD own

def severityKey (ruleId : Text) : Text := ruleId.behind "severity."

/-- Every rule that the settings name, with the key under which they do. -/
def referencedRules (settings : Settings) : List (Text × Text) :=
  let under (key : Text) (ids : List Text) := (Text.sort ids).map fun id => (key, id)
  under "enabled_rules" (settings.enabledRules.getD []) ++
    under "disabled_rules" settings.disabledRules ++
    (Text.sort (settings.severityOverrides.map Prod.fst)).map fun id => (severityKey id, id)

/-! ### Requirements -/

/-- What may be given as the severity of a rule. -/
inductive GivenSeverity where
  | severity (severity : Severity)
  | other (value : Json)
deriving DecidableEq, Repr

/-- The severities that were given, if all are. -/
def readGiven : List (Text × GivenSeverity) → Except SettingsFault (List (Text × Severity))
  | [] => .ok []
  | (id, .severity severity) :: rest => (readGiven rest).map ((id, severity) :: ·)
  | (id, .other value) :: _ => .error (.entry (severityKey id) (.notSeverity value))

/-- Settings as they are given.  Categories still have the names that were given, so that none
is taken for another that shows alike. -/
structure Draft extends Options where
  categories : List (Text × Patterns)
  callback : Option Text
  severities : List (Text × GivenSeverity)

namespace Draft

/-- The first broken requirement on thresholds and the callback category. -/
def thresholdFault? (draft : Draft) : Option SettingsFault :=
  let least (key : String) (least got : Int) : Option SettingsFault :=
    if got < least then some (.entry key (.belowLeast least got)) else none
  (least "min_demeter_depth" 1 draft.minDemeterDepth)
    |>.or (least "min_responsibility_categories" 2 draft.minResponsibilityCategories)
    |>.or (least "min_transaction_classes" 1 draft.minTransactionClasses)
    |>.or (draft.maxWorkers.bind (least "max_workers" 1))
    -- compared as given: two names that show alike are two categories
    |>.or (draft.callback.bind fun category =>
      if (draft.categories.map Prod.fst).contains category then none
      else some (.entry "callback_category" (.unknownCategory category)))

def operationFault? (draft : Draft) : Option SettingsFault :=
  if draft.queryOperations.isEmpty then some (.entry "query_operations" .emptyList)
  else if draft.mutationOperations.isEmpty then some (.entry "mutation_operations" .emptyList)
  else none

/-- The settings that are given, with the severities of rules. -/
def settings (draft : Draft) (severityOverrides : List (Text × Severity)) : Settings :=
  { draft.toOptions with
    taxonomy := .ofGiven draft.categories
    callbackCategory := draft.callback.map Text.shown
    severityOverrides }

/-- Let settings pass that meet all requirements. -/
def complete (draft : Draft) : Except SettingsFault Settings := do
  match draft.thresholdFault? with
  | some fault => throw fault
  | none => pure ()
  -- severities are looked at between the two kinds of requirements
  let severityOverrides ← readGiven draft.severities
  match draft.operationFault? with
  | some fault => throw fault
  | none => return draft.settings severityOverrides

end Draft

/-- Let settings pass that meet all requirements, with the severities given for rules. -/
def complete (settings : Settings) (given : List (Text × GivenSeverity)) :
    Except SettingsFault Settings :=
  Draft.complete
    { settings.toOptions with
      categories := settings.taxonomy.given
      callback := settings.callbackCategory.map .whole
      severities := given }

end Settings

end ObjectAudit
