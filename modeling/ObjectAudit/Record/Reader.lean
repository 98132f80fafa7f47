/-
ObjectAudit/Record/Reader.lean

Reading the record of each type.  Layers, kinds of association and remedies go by their
exact name; origins and severities may be spelled in any case.
-/
import ObjectAudit.Audit
import ObjectAudit.Record.Field
import ObjectAudit.Report.Console
import ObjectAudit.Settings.Reader

namespace ObjectAudit.Record

/-! ### Enumerations -/

def layer : Json → Reading Layer := choice "Layer" Layer.all Layer.name

def associationKind : Json → Reading AssociationKind :=
  choice "AssociationKind" AssociationKind.all AssociationKind.name

def remedy : Json → Reading Remedy := choice "Remediation" Remedy.all Remedy.name

def origin : Json → Reading Origin := spelled Origin.all Origin.capitalName

def severity : Json → Reading Severity := spelled Severity.all Severity.capitalName

/-! ### The model -/

def path (value : Json) : Reading SourcePath :=
  match value.text? with
  | some s => .ok (.ofText s.shown)
  | none => .error (.notPath "file")

def location (v : Json) : Reading Location := do
  let file ← optionOf path (given v "file")
  Shape.demand
    { required := ["file", "line"], optional := ["column"], numbers := ["line", "column"] } v
  match Location.within file (integer v "line" 0) (integer v "column" 0) with
  | .ok location => return location
  | .error defect => throw (.defect defect)

/-- The place of what is still to be placed. -/
def nowhere : Location := { file := .ofText "", line := 1 }

def callSite (v : Json) : Reading CallSite :=
  build
    { required := ["origin", "root", "chain", "line"]
      optional := ["root_class", "target_class"]
      numbers := ["line"] } v
    { origin := .self
      root := text v "root"
      chain := texts v "chain"
      line := integer v "line" 0
      rootClass := text? v "root_class"
      targetClass := text? v "target_class" } fun site x => fun
    | "origin" => return { site with origin := ← origin x }
    | _ => return site

/-- The call site of what is still to be called. -/
def noCall : CallSite := { origin := .self, root := "self", chain := [], line := 1 }

def association (v : Json) : Reading Association :=
  build
    { required := ["source", "target", "kind", "accessor"]
      optional := ["resolved", "note"] } v
    { source := text v "source"
      target := text v "target"
      kind := .ownsOne
      accessor := text v "accessor"
      resolved := flag v "resolved" true
      note := text? v "note" } fun edge x => fun
    | "kind" => return { edge with kind := ← associationKind x }
    | _ => return edge

def delegation (v : Json) : Reading Delegation := do
  Shape.demand { required := ["association", "member"] } v
  sound { association := text v "association", member := text v "member" }

def method (v : Json) : Reading Method :=
  build
    { required := ["name", "owner"]
      optional := ["call_sites", "line", "is_class_level", "is_callback",
          "wraps_transaction", "delegates_to", "included_from", "invoked_methods"]
      numbers := ["line"] } v
    { name := text v "name"
      owner := text? v "owner"
      line := integer v "line" 1
      isClassLevel := flag v "is_class_level" false
      isCallback := flag v "is_callback" false
      wrapsTransaction := flag v "wraps_transaction" false
      includedFrom := text? v "included_from"
      invokedMethods := texts v "invoked_methods" } fun m x => fun
    | "call_sites" => return { m with callSites := ← listOf callSite x }
    | "delegates_to" => return { m with delegatesTo := ← optionOf delegation x }
    | _ => return m

def classDecl (v : Json) : Reading ClassDecl :=
  build
    { required := ["qualified_name", "associations", "methods", "layer", "location"]
      optional := ["included_modules"] } v
    { qualifiedName := text v "qualified_name"
      associations := []
      methods := []
      layer := .model
      location := nowhere
      includedModules := texts v "included_modules" } fun decl x => fun
    | "associations" => return { decl with associations := ← listOf association x }
    | "methods" => return { decl with methods := ← listOf method x }
    | "layer" => return { decl with layer := ← layer x }
    | "location" => return { decl with location := ← location x }
    | _ => return decl

def template (v : Json) : Reading Template :=
  build { required := ["name", "location"], optional := ["call_sites"] } v
    { name := text v "name", location := nowhere } fun t x => fun
    | "location" => return { t with location := ← location x }
    | "call_sites" => return { t with callSites := ← listOf callSite x }
    | _ => return t

def skipped (v : Json) : Reading Skipped :=
  build { required := ["class_name", "reason", "location"] } v
    { className := text v "class_name", reason := text v "reason", location := nowhere }
    fun s x => fun
    | "location" => return { s with location := ← location x }
    | _ => return s

def model (v : Json) : Reading Model :=
  fill { optional := ["classes", "templates", "rejected"] } v {} fun m x => fun
    | "classes" => return { m with classes := ← listOf classDecl x }
    | "templates" => return { m with templates := ← listOf template x }
    | "rejected" => return { m with rejected := ← listOf skipped x }
    | _ => return m

/-! ### Reports -/

def violation (v : Json) : Reading Violation :=
  build
    { required := ["rule_id", "severity", "class_name", "message", "location"]
      optional := ["method", "line", "remediation"]
      limits := ["line"] } v
    { ruleId := text v "rule_id"
      severity := .error
      className := text v "class_name"
      message := text v "message"
      location := nowhere
      method := text? v "method"
      line := integer? v "line" } fun a x => fun
    | "severity" => return { a with severity := ← severity x }
    | "location" => return { a with location := ← location x }
    | "remediation" => return { a with remedy := ← optionOf remedy x }
    | _ => return a

/-- The names of the counters and of the time. -/
def statsFields : List String := Stats.empty.counters.map Prod.fst ++ ["analysis_time_ms"]

def stats (v : Json) : Reading Stats :=
  if flag v "empty" false then .ok .empty
  else do
    Shape.demand { required := statsFields, numbers := statsFields } v
    let count (name : String) := integer v name 0
    sound
      { classesAnalyzed := count "classes_analyzed"
        classesSkipped := count "classes_skipped"
        templatesAnalyzed := count "templates_analyzed"
        methodsAnalyzed := count "methods_analyzed"
        callSitesAnalyzed := count "call_sites_analyzed"
        associationEdges := count "association_edges"
        unresolvedEdges := count "unresolved_edges"
        rulesRun := count "rules_run"
        timeMs := quantity v "analysis_time_ms" }

def report (v : Json) : Reading Report :=
  build { required := ["violations", "skipped", "stats"] } v .empty fun r x => fun
    | "violations" => return { r with violations := ← listOf violation x }
    | "skipped" => return { r with skipped := ← listOf skipped x }
    | "stats" => return { r with stats := ← stats x }
    | _ => return r

def consoleStyle (v : Json) : Reading ConsoleStyle :=
  let standard : ConsoleStyle := {}
  build
    { optional := ["show_stats", "show_remediation", "max_violations", "include_rules",
          "width"]
      numbers := ["width"]
      limits := ["max_violations"] } v
    { showStats := flag v "show_stats" standard.showStats
      showRemedy := flag v "show_remediation" standard.showRemedy
      maxViolations := integer? v "max_violations"
      width := integer v "width" standard.width } fun s x => fun
    | "include_rules" => return { s with includeRules := ← optionOf (.ok ∘ nameSetOf) x }
    | _ => return s

/-! ### Findings -/

def cluster (v : Json) : Reading Cluster := do
  Shape.demand { required := ["subject", "methods", "category"], optional := ["categories"] } v
  sound
    { subject := text v "subject"
      methods := texts v "methods"
      category := text? v "category"
      categories := nameSetOf (given v "categories") }

def hop (v : Json) : Reading Hop := do
  let edge ← optionOf association (given v "edge")
  Shape.demand { required := ["edge", "to_node", "counted"] } v
  match edge with
  | some edge => return { edge, toNode := text v "to_node", counted := flag v "counted" false }
  | none => throw (.missingField "edge")

def accessChain (v : Json) : Reading AccessChain :=
  build
    { required := ["subject", "method", "call_site", "start_class", "hops"]
      optional := ["delegations", "terminal_is_method"] } v
    { subject := text v "subject"
      method := text? v "method"
      callSite := noCall
      startClass := text v "start_class"
      hops := []
      delegations := texts v "delegations"
      terminalIsMethod := flag v "terminal_is_method" false } fun c x => fun
    | "call_site" => return { c with callSite := ← callSite x }
    | "hops" => return { c with hops := ← listOf hop x }
    | _ => return c

def layeredCall (v : Json) : Reading LayeredCall :=
  build
    { required := ["subject", "method", "layer", "call_site"]
      optional := ["query_operations", "query_target"] } v
    { subject := text v "subject"
      method := text? v "method"
      layer := .model
      callSite := noCall
      queryOperations := texts v "query_operations"
      queryTarget := text? v "query_target" } fun c x => fun
    | "layer" => return { c with layer := ← layer x }
    | "call_site" => return { c with callSite := ← callSite x }
    | _ => return c

def mutation (v : Json) : Reading Mutation :=
  fill { required := ["subject", "method", "operation", "target_class", "call_site"] } v
    { subject := text v "subject"
      method := text v "method"
      operation := text v "operation"
      targetClass := text v "target_class"
      callSite := noCall } fun m x => fun
    | "call_site" => return { m with callSite := ← callSite x }
    | _ => return m

def transaction (v : Json) : Reading Transaction :=
  build
    { required := ["subject", "method", "line", "mutations", "counted_classes"]
      numbers := ["line"] } v
    { subject := text v "subject"
      method := text v "method"
      line := integer v "line" 0
      mutations := []
      countedClasses := texts v "counted_classes" } fun t x => fun
    | "mutations" => return { t with mutations := ← listOf mutation x }
    | _ => return t

/-- Read the analysis of a unit, apart from its findings. -/
def unitAnalysis (v : Json) : Reading UnitAnalysis :=
  build
    { required := ["subject", "layer", "location"]
      optional := ["is_template", "method_count", "call_site_count", "chains",
          "tagged_calls", "clusters", "mutations", "transactions"]
      numbers := ["method_count", "call_site_count"] } v
    { subject := text v "subject"
      layer := .model
      location := nowhere
      isTemplate := flag v "is_template" false
      methodCount := integer v "method_count" 0
      callSiteCount := integer v "call_site_count" 0 } fun a x => fun
    | "layer" => return { a with layer := ← layer x }
    | "location" => return { a with location := ← location x }
    | _ => return a

/-! ### Graphs -/

def edgeTable (v : Json) : Reading (Table String (List Association)) := do
  let entries ← (fieldsOf v).mapM fun (node, edges) =>
    return (node.shown, ← listOf association edges)
  return .ofList entries

def accessorEntry (v : Json) : Reading ((String × String) × Association) :=
  match v with
  | .arr [source, accessor, edge] => do
    return ((textOf source, textOf accessor), ← association edge)
  | _ => .error (.missingField "by_accessor")

/-- Read a graph as it stands, whether it is one or not. -/
def graph (v : Json) : Reading Graph :=
  (fieldsOf v).foldlM
    (fun g (name, x) => match name with
      | "nodes" => return { g with nodes := nameSetOf x }
      | "edges" => return { g with edges := ← listOf association x }
      | "outgoing" => return { g with outgoing := ← edgeTable x }
      | "incoming" => return { g with incoming := ← edgeTable x }
      | "by_accessor" =>
        return { g with byAccessor := Graph.accessorTable (← listOf accessorEntry x) }
      | _ => return g)
    ⟨[], [], .empty, .empty, .empty⟩

/-! ### Settings -/

/-- Let settings pass. -/
def settled {α : Type} : Except SettingsFault α → Reading α
  | .ok a => .ok a
  | .error fault => .error (.settings fault)

def categoryPair (v : Json) : Reading (Json × Json) := do
  match ← settled (Settings.keysOf v) with
  | [name, patterns] => return (name, patterns)
  | values => throw (.notPair values.length)

/-- Read the categories of a taxonomy; the usual ones if none are given. -/
def categories (v : Json) : Reading (List (Text × Patterns)) :=
  match v.field? "categories" with
  | some categories => do
    let pairs ← (← settled (Settings.keysOf categories)).mapM categoryPair
    settled (Taxonomy.readCategories [] pairs)
  | none => .ok Taxonomy.standard.given

def givenSeverity : Json → Reading Settings.GivenSeverity
  | .obj [("raw", value)] => .ok (.other value)
  | value => (severity value).map .severity

/-- The numbers among the settings that have to be one. -/
def thresholds : List String :=
  ["min_demeter_depth", "min_responsibility_categories", "min_transaction_classes"]

/-- Read settings. -/
def settings (v : Json) : Reading Settings := do
  let standard := Settings.standard
  let set (name : String) (own : List String) := ((v.field? name).map nameSetOf).getD own
  let start : Settings.Draft :=
    { enabledRules := match v.field? "enabled_rules" with
        | none | some .null => none
        | some rules => some (ruleSetOf rules)
      disabledRules := ruleSetOf (given v "disabled_rules")
      minDemeterDepth := integer v "min_demeter_depth" standard.minDemeterDepth
      minResponsibilityCategories :=
        integer v "min_responsibility_categories" standard.minResponsibilityCategories
      queryOperations := set "query_operations" standard.queryOperations
      mutationOperations := set "mutation_operations" standard.mutationOperations
      transactionCountsOwnClass := flag v "transaction_counts_own_class" false
      minTransactionClasses := integer v "min_transaction_classes" standard.minTransactionClasses
      maxWorkers := integer? v "max_workers"
      categories := standard.taxonomy.given
      -- null takes the category away, leaving it out does not
      callback := match v.field? "callback_category" with
        | none => standard.callbackCategory.map .whole
        | some category => category.text?
      severities := [] }
  let shape : Shape :=
    { optional := ["enabled_rules", "disabled_rules", "taxonomy", "callback_category",
        "severity_overrides", "query_operations", "mutation_operations",
        "transaction_counts_own_class", "max_workers"] ++ thresholds
      numbers := thresholds
      limits := ["max_workers"] }
  -- only what can fail is read here
  let draft ← fill shape v start fun draft x => fun
    | "taxonomy" => return { draft with categories := ← categories x }
    | "severity_overrides" =>
      return { draft with severities :=
        ← (fieldsOf x).mapM fun (id, level) => return (id, ← givenSeverity level) }
    | _ => return draft
  settled draft.complete

/-- Read what a rule checks, and the fields that belong to it. -/
def ruleCheck (v : Json) : Reading (RuleCheck × List String) :=
  match text v "rule" with
  | "law-of-demeter" => .ok (.lawOfDemeter (integer v "min_depth" 2), ["min_depth"])
  | "query-outside-model" => .ok (.queryOutsideModel, [])
  | "neighbor-query" => .ok (.neighborQuery, [])
  | "fat-model" => .ok (.fatModel (integer v "min_categories" 2), ["min_categories"])
  | "transaction-orchestration" =>
    .ok (.transactionOrchestration (integer v "min_classes" 2), ["min_classes"])
  | "callback-side-effects" => .ok (.callbackSideEffects, [])
  | _ => .error (.unknownName (given v "rule"))

def rule (v : Json) : Reading Rule := do
  let (check, fields) ← ruleCheck v
  let chosen ← optionOf severity (given v "severity")
  Shape.demand { required := ["rule"], optional := "severity" :: fields, numbers := fields } v
  sound { check, severity := chosen.getD check.ownSeverity }

end ObjectAudit.Record
