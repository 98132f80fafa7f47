/-
ObjectAudit/Record/Writer.lean

The record of each type: all fields by name, and with them what is computed from them.
-/
import ObjectAudit.Audit
import ObjectAudit.Report.Console

namespace ObjectAudit

/-- A type whose values have a JSON form. -/
class Recorded (α : Type) where
  /-- The JSON form of a value. -/
  record : α → Json

export Recorded (record)

namespace Record

def field {α : Type} [Recorded α] (name : Text) (value : α) : Text × Json :=
  (name, record value)

end Record

open Record (field)

/-! ### Plain values -/

instance : Recorded Json := ⟨id⟩
instance : Recorded Text := ⟨.str⟩
instance : Recorded String := ⟨fun s => .str s⟩
instance : Recorded Bool := ⟨.bool⟩
instance : Recorded Int := ⟨.int⟩
instance : Recorded Nat := ⟨fun n => .int n⟩
instance {α : Type} [Recorded α] : Recorded (Option α) := ⟨fun a => a.elim .null record⟩
instance {α : Type} [Recorded α] : Recorded (List α) := ⟨fun as => .arr (as.map record)⟩

instance : Recorded Quantity where
  record
    | .whole n => .int n
    | .binary x => .float x

instance : Recorded Origin := ⟨fun origin => .str origin.name⟩
instance : Recorded AssociationKind := ⟨fun kind => .str kind.name⟩
instance : Recorded Layer := ⟨fun layer => .str layer.name⟩
instance : Recorded Severity := ⟨fun severity => .str severity.name⟩
instance : Recorded Remedy := ⟨fun remedy => .str remedy.name⟩

/-! ### The model -/

instance : Recorded Location where
  record l := .obj
    [field "file" l.file.text, field "line" l.line, field "column" l.column, field "str" l.text]

instance : Recorded CallSite where
  record s := .obj
    [field "origin" s.origin, field "root" s.root, field "chain" s.chain, field "line" s.line,
     field "root_class" s.rootClass, field "target_class" s.targetClass,
     field "length" s.chain.length, field "terminal" s.terminal,
     field "expression" s.expression, field "str" s.text]

instance : Recorded Association where
  record e := .obj
    [field "source" e.source, field "target" e.target, field "kind" e.kind,
     field "accessor" e.accessor, field "resolved" e.resolved, field "note" e.note,
     field "is_self_reference" e.isSelfReference, field "str" e.text]

instance : Recorded Delegation where
  record d := .obj [field "association" d.association, field "member" d.member]

instance : Recorded Method where
  record m := .obj
    [field "name" m.name, field "owner" m.owner, field "call_sites" m.callSites,
     field "line" m.line, field "is_class_level" m.isClassLevel,
     field "is_callback" m.isCallback, field "wraps_transaction" m.wrapsTransaction,
     field "delegates_to" m.delegatesTo, field "included_from" m.includedFrom,
     field "invoked_methods" m.invokedMethods, field "is_delegation" m.isDelegation,
     field "fqn" m.qualifiedName]

instance : Recorded ClassDecl where
  record c := .obj
    [field "qualified_name" c.qualifiedName, field "associations" c.associations,
     field "methods" c.methods, field "layer" c.layer, field "location" c.location,
     field "included_modules" c.includedModules, field "name" c.shortName,
     field "method_names" c.methodNames]

instance : Recorded Template where
  record t := .obj
    [field "name" t.name, field "location" t.location, field "call_sites" t.callSites]

instance : Recorded Skipped where
  record s := .obj
    [field "class_name" s.className, field "reason" s.reason, field "location" s.location]

def Model.recordFields (m : Model) : List (Text × Json) :=
  [field "classes" m.classes, field "templates" m.templates, field "rejected" m.rejected,
   field "class_count" m.classes.length, field "class_names" m.classNames]

instance : Recorded Model := ⟨fun m => .obj m.recordFields⟩

/-! ### Reports -/

instance : Recorded Violation where
  record v := .obj
    [field "rule_id" v.ruleId, field "severity" v.severity, field "class_name" v.className,
     field "message" v.message, field "location" v.location, field "method" v.method,
     field "line" v.line, field "remediation" v.remedy,
     field "sort_key" [record v.location.file.text, record v.location.line,
       record v.location.column, record v.ruleId, record v.className, record v.methodText,
       record v.message],
     field "str" v.text]

instance : Recorded Stats where
  record s := .obj
    (s.counters.map (fun (name, count) => field name count) ++
      [field "analysis_time_ms" s.timeMs])

instance : Recorded Report where
  record r := .obj
    [field "violations" r.violations, field "skipped" r.skipped, field "stats" r.stats,
     field "passed" r.passed, field "violation_count" r.violations.length,
     field "error_count" (r.countOf .error), field "warning_count" (r.countOf .warning)]

instance : Recorded ConsoleStyle where
  record s := .obj
    [field "show_stats" s.showStats, field "show_remediation" s.showRemedy,
     field "max_violations" s.maxViolations, field "include_rules" s.includeRules,
     field "width" s.width]

/-! ### Findings -/

instance : Recorded Cluster where
  record c := .obj
    [field "subject" c.subject, field "methods" c.methods, field "category" c.category,
     field "categories" c.categories, field "size" c.methods.length]

instance : Recorded Hop where
  record h := .obj [field "edge" h.edge, field "to_node" h.toNode, field "counted" h.counted]

instance : Recorded AccessChain where
  record c :=
    let (subject, method, expression) := c.key
    .obj
      [field "subject" c.subject, field "method" c.method, field "call_site" c.callSite,
       field "start_class" c.startClass, field "hops" c.hops,
       field "delegations" c.delegations, field "terminal_is_method" c.terminalIsMethod,
       field "depth" c.depth, field "path" c.path, field "accessors" c.accessors,
       field "key" [subject, method, expression]]

instance : Recorded LayeredCall where
  record c := .obj
    [field "subject" c.subject, field "method" c.method, field "layer" c.layer,
     field "call_site" c.callSite, field "query_operations" c.queryOperations,
     field "query_target" c.queryTarget, field "is_query" c.isQuery]

instance : Recorded Mutation where
  record m := .obj
    [field "subject" m.subject, field "method" m.method, field "operation" m.operation,
     field "target_class" m.targetClass, field "call_site" m.callSite, field "is_own" m.isOwn]

instance : Recorded Transaction where
  record t := .obj
    [field "subject" t.subject, field "method" t.method, field "line" t.line,
     field "mutations" t.mutations, field "counted_classes" t.countedClasses]

instance : Recorded UnitAnalysis where
  record a := .obj
    [field "subject" a.subject, field "layer" a.layer, field "location" a.location,
     field "is_template" a.isTemplate, field "chains" a.chains, field "tagged_calls" a.calls,
     field "clusters" a.clusters, field "mutations" a.mutations,
     field "transactions" a.transactions, field "method_count" a.methodCount,
     field "call_site_count" a.callSiteCount]

/-! ### Settings -/

instance : Recorded Patterns where
  record
    | .list patterns => record patterns
    | .table fields => .obj fields

instance : Recorded Taxonomy where
  record t := .obj
    [field "categories" (t.categories.map fun (name, patterns) =>
       [record name, record patterns]),
     field "names" t.names]

instance : Recorded Settings where
  record s := .obj
    [field "enabled_rules" s.enabledRules, field "disabled_rules" s.disabledRules,
     field "min_demeter_depth" s.minDemeterDepth, field "taxonomy" s.taxonomy,
     field "min_responsibility_categories" s.minResponsibilityCategories,
     field "callback_category" s.callbackCategory,
     field "severity_overrides"
       (Json.obj (s.severityOverrides.map fun (id, level) => field id level)),
     field "query_operations" s.queryOperations,
     field "mutation_operations" s.mutationOperations,
     field "transaction_counts_own_class" s.transactionCountsOwnClass,
     field "min_transaction_classes" s.minTransactionClasses,
     field "max_workers" s.maxWorkers]

instance : Recorded Rule where
  record r := record [r.id, r.severity.name, r.check.description]

end ObjectAudit
