/-
ObjectAudit/LogEvent.lean

What is logged beside reading a snapshot and auditing a model.
-/
import ObjectAudit.Audit
import ObjectAudit.Snapshot.Reader

namespace ObjectAudit

/-- How much an event matters. -/
inductive LogLevel where
  | debug
  | info
  | warning
deriving DecidableEq, Repr

def LogLevel.name : LogLevel → String
  | debug => "DEBUG"
  | info => "INFO"
  | warning => "WARNING"

/-- Which part of the work logs an event. -/
inductive LogSource where
  | snapshot
  | graph
  | mutations
  | audit
deriving DecidableEq, Repr

/-- Something that is logged. -/
inductive LogEvent where
  | rejected (path message : String)
  | loaded (classes templates rejected : Nat)
  | unresolved (edge : Association)
  | graphBuilt (classes edges unresolved : Nat)
  | untargeted (site : CallSite) (method : Method)
  | analysed (name : String)
  | skipping (name reason : String)
  | ruleDone (id : String) (violations : Nat)
  | auditDone (classes templates violations skipped : Int)
deriving DecidableEq, Repr

namespace LogEvent

def level : LogEvent → LogLevel
  | rejected _ _ | skipping _ _ => .warning
  | auditDone _ _ _ _ => .info
  | _ => .debug

def source : LogEvent → LogSource
  | rejected _ _ | loaded _ _ _ => .snapshot
  | unresolved _ | graphBuilt _ _ _ => .graph
  | untargeted _ _ => .mutations
  | analysed _ | skipping _ _ | ruleDone _ _ | auditDone _ _ _ _ => .audit

def message : LogEvent → String
  | rejected path text => s!"rejected {path}: {text}"
  | loaded classes templates bad =>
    s!"loaded snapshot: {classes} classes, {templates} templates, {bad} rejected"
  | unresolved edge => s!"unresolved association {edge.text}"
  | graphBuilt classes edges outside =>
    s!"association graph: {classes} classes, {edges} edges ({outside} unresolved)"
  | untargeted site method =>
    s!"unresolved mutation target {site.text} in {method.qualifiedName}"
  | analysed name => s!"analyzed {name}"
  | skipping name reason => s!"skipping {name}: {reason}"
  | ruleDone id violations => s!"rule {id}: {violations} violations"
  | auditDone classes templates violations skipped =>
    s!"checked {classes} classes and {templates} templates: {violations} violations, " ++
      s!"{skipped} skipped"

end LogEvent

/-- What is logged when a snapshot is read. -/
def Snapshot.Contents.events (contents : Snapshot.Contents) : List LogEvent :=
  (contents.rejected.map fun rejection =>
      .rejected (Snapshot.pathText rejection.path) rejection.fault.message) ++
    [.loaded contents.model.classes.length contents.model.templates.length
      contents.rejected.length]

def Graph.events (graph : Graph) (classCount : Nat) : List LogEvent :=
  graph.unresolved.map .unresolved ++
    [.graphBuilt classCount graph.edges.length graph.unresolved.length]

def AuditUnit.events (survey : Survey) (unit : AuditUnit) : List LogEvent :=
  match unit.outcome survey, unit with
  | .skipped skipped, _ => [.skipping skipped.className skipped.reason]
  | .analysed _, .classUnit decl _ =>
    (untargetedCalls survey.graph survey.methods survey.settings.mutationOperations decl).map
      (fun (method, site) => .untargeted site method) ++ [.analysed decl.qualifiedName]
  | .analysed _, .templateUnit template _ => [.analysed template.name]

/-- What is logged when a model is audited, one unit after the other. -/
def Audit.events (audit : Audit) (model : Model) : List LogEvent :=
  audit.survey.graph.events model.classNames.length ++
    audit.units.flatMap (AuditUnit.events audit.survey) ++
    (audit.verdicts.map fun (rule, violations) => .ruleDone rule.id violations.length) ++
    [.auditDone audit.report.stats.classesAnalyzed audit.report.stats.templatesAnalyzed
      audit.report.violations.length audit.report.stats.classesSkipped]

end ObjectAudit
