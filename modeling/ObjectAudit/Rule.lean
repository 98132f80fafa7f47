/-
ObjectAudit/Rule.lean

The rules.  A rule looks at the analysis of one unit at a time and at the method index, and
says what it finds; its severity only labels the findings.  Rules are tried in the order of
`RuleCheck.registry`, and within a rule units are taken by name.
-/
import ObjectAudit.UnitAnalysis

namespace ObjectAudit

open Text

/-- What a rule checks. -/
inductive RuleCheck where
  /-- A chain reaches through at least so many other classes. -/
  | lawOfDemeter (minDepth : Int)
  /-- View or controller code builds a query. -/
  | queryOutsideModel
  /-- A model builds a query on the objects of another class. -/
  | neighborQuery
  /-- A class has responsibilities of at least so many categories. -/
  | fatModel (minCategories : Int)
  /-- A transaction changes at least so many classes. -/
  | transactionOrchestration (minClasses : Int)
  /-- A callback changes another class. -/
  | callbackSideEffects
deriving DecidableEq, Repr

namespace RuleCheck

/-- The name by which settings and reports know a rule. -/
def id : RuleCheck → String
  | lawOfDemeter _ => "law-of-demeter"
  | queryOutsideModel => "query-outside-model"
  | neighborQuery => "neighbor-query"
  | fatModel _ => "fat-model"
  | transactionOrchestration _ => "transaction-orchestration"
  | callbackSideEffects => "callback-side-effects"

def description : RuleCheck → String
  | lawOfDemeter _ => "receiver chain reaches through an intermediate object"
  | queryOutsideModel => "query built outside the model layer"
  | neighborQuery => "model builds a query on another model's collection"
  | fatModel _ => "class carries several unrelated responsibilities"
  | transactionOrchestration _ => "one transaction persists several models"
  | callbackSideEffects => "lifecycle callback persists another model"

/-- The severity of a rule when the settings give none. -/
def ownSeverity : RuleCheck → Severity
  | queryOutsideModel => .error
  | _ => .warning

/-- All rules, with the thresholds of some settings. -/
def registry (settings : Settings) : List RuleCheck :=
  [lawOfDemeter settings.minDemeterDepth, queryOutsideModel, neighborQuery,
   fatModel settings.minResponsibilityCategories,
   transactionOrchestration settings.minTransactionClasses, callbackSideEffects]

def knownIds : List String := (registry .standard).map id

end RuleCheck

/-- A rule: what it checks, and how grave its violations are. -/
structure Rule where
  check : RuleCheck
  severity : Severity
deriving DecidableEq, Repr

def Rule.id (rule : Rule) : String := rule.check.id

instance : Checked Rule where
  defect? rule := match rule.check with
    | .lawOfDemeter minDepth => firstDefect [atLeast "min_depth" 1 minDepth]
    | .fatModel minCategories => firstDefect [atLeast "min_categories" 2 minCategories]
    | .transactionOrchestration minClasses => firstDefect [atLeast "min_classes" 1 minClasses]
    | _ => none

/-! ### Findings -/

/-- What a rule finds in a unit. -/
structure Finding where
  message : String
  method : Option String := none
  line : Option Int := none
  remedy : Remedy
deriving DecidableEq, Repr

def AccessChain.finding (chain : AccessChain) : Finding :=
  let way := " -> ".intercalate chain.path
  -- the class next to the one where the chain starts
  let neighbor := chain.path.getD 1 ""
  { message := s!"'{chain.callSite.expression}' reaches through {way} (depth {chain.depth}); " ++
      s!"ask {neighbor} for what is needed instead"
    method := chain.method
    line := some chain.callSite.line
    remedy := if chain.terminalIsMethod then .wrapperMethod else .delegation }

/-- A query built outside the model layer. -/
def LayeredCall.outsideFinding (call : LayeredCall) : Finding :=
  let owner := (call.queryTarget.filter (· != "")).getD "the model"
  { message :=
      s!"{call.layer.name} code builds a query ({commaList call.queryOperations}) " ++
      s!"in '{call.callSite.expression}'; move it into a named scope on {owner}"
    method := call.method
    line := some call.callSite.line
    remedy := .scopeRelocation }

/-- A query on the objects of another class. -/
def LayeredCall.neighborFinding (call : LayeredCall) (target : String) : Finding :=
  { message :=
      s!"builds a query ({commaList call.queryOperations}) on {target}'s collection " ++
      s!"in '{call.callSite.expression}'; {target} should own it as a scope"
    method := call.method
    line := some call.callSite.line
    remedy := .scopeRelocation }

def Cluster.groupText (cluster : Cluster) : String :=
  let category := cluster.category.getD ""
  s!"{category} [{commaList cluster.methods}]"

/-- The modules that the methods of some clusters were mixed in from, as a set. -/
def includedModules (methods : MethodIndex) (subject : String) (clusters : List Cluster) :
    List String :=
  textSet <| clusters.flatMap fun cluster => cluster.methods.filterMap fun name =>
    (methods.get? subject name).bind Method.includedFrom

def distinctCategories (clusters : List Cluster) : List String :=
  (clusters.filterMap Cluster.category).eraseDups

def fatModelFinding (methods : MethodIndex) (subject : String) (clusters : List Cluster) :
    Finding :=
  let count := (distinctCategories clusters).length
  let groups := "; ".intercalate (clusters.map Cluster.groupText)
  let included := includedModules methods subject clusters
  let note := if included.isEmpty then "" else s!" (including methods from {commaList included})"
  { message := s!"mixes {count} unrelated responsibilities: {groups}" ++ note
    remedy := .extractedCollaborator }

def Transaction.finding (transaction : Transaction) : Finding :=
  { message := s!"one transaction persists {commaList transaction.countedClasses}; " ++
      "let the associations save together or move the orchestration into a dedicated collaborator"
    method := some transaction.method
    line := some transaction.line
    remedy := .extractedCollaborator }

def Mutation.callbackFinding (mutation : Mutation) : Finding :=
  { message := s!"callback calls {mutation.operation} on {mutation.targetClass} " ++
      s!"in '{mutation.callSite.expression}'; make the side effect an explicit call"
    method := some mutation.method
    line := some mutation.callSite.line
    remedy := .callbackRemoval }

/-- The changes of other classes that callbacks make, the first for each method and class. -/
def callbackMutations (methods : MethodIndex) (analysis : UnitAnalysis) : List Mutation :=
  let isCallback (mutation : Mutation) : Bool :=
    (methods.get? analysis.subject mutation.method).any Method.isCallback
  (analysis.mutations.filter fun mutation => !mutation.isOwn && isCallback mutation).eraseDupsBy
    fun a b => a.method == b.method && a.targetClass == b.targetClass

/-- What a rule finds in a unit. -/
def RuleCheck.findings (methods : MethodIndex) (analysis : UnitAnalysis) :
    RuleCheck → List Finding
  | lawOfDemeter minDepth =>
    (analysis.chains.filter fun chain => minDepth ≤ chain.depth).map AccessChain.finding
  | queryOutsideModel =>
    (analysis.calls.filter fun call =>
      call.isQuery && (call.layer == .view || call.layer == .controller)).map
        LayeredCall.outsideFinding
  | neighborQuery =>
    analysis.calls.filterMap fun call =>
      if call.layer == .model && call.isQuery then
        (call.queryTarget.filter (· != call.subject)).map call.neighborFinding
      else none
  | fatModel minCategories =>
    let clusters := Cluster.nonTrivial analysis.clusters
    -- a template has no responsibilities of its own
    if analysis.isTemplate || (distinctCategories clusters).length < minCategories then []
    else [fatModelFinding methods analysis.subject clusters]
  | transactionOrchestration minClasses =>
    (analysis.transactions.filter fun transaction =>
      minClasses ≤ transaction.countedClasses.length).map Transaction.finding
  | callbackSideEffects => (callbackMutations methods analysis).map Mutation.callbackFinding

/-! ### Violations -/

/-- The violation that reports a finding. -/
def Finding.toViolation (finding : Finding) (rule : Rule) (analysis : UnitAnalysis) :
    Violation :=
  { ruleId := rule.id
    severity := rule.severity
    className := analysis.subject
    message := finding.message
    location := match finding.line with
      | none => analysis.location
      | some line => analysis.location.atLine line
    method := finding.method
    line := finding.line
    remedy := some finding.remedy }

/-- The violations of a rule in some units. -/
def Rule.evaluate (rule : Rule) (methods : MethodIndex) (analyses : List UnitAnalysis) :
    List Violation :=
  analyses.flatMap fun analysis =>
    (rule.check.findings methods analysis).map fun finding => finding.toViolation rule analysis

/-! ### Selection -/

namespace Rule

/-- The rules that settings select, with the severities that they give. -/
def select (settings : Settings) : List Rule :=
  ((RuleCheck.registry settings).filter fun check => settings.isEnabled check.id).map fun check =>
    ⟨check, settings.severityFor check.id check.ownSeverity⟩

def standard : List Rule := select .standard

/-- Every rule that settings name has to be known. -/
def checkIds (settings : Settings) : Except SettingsFault Unit :=
  let known := RuleCheck.knownIds.map Text.whole
  match settings.referencedRules.find? fun (_, id) => !known.contains id with
  | some (key, id) => .error (.entry key (.unknownRule id RuleCheck.knownIds))
  | none => .ok ()

def ofSettings (settings : Settings) : Except SettingsFault (List Rule) := do
  checkIds settings
  return select settings

end Rule

end ObjectAudit
