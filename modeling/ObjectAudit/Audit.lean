/-
ObjectAudit/Audit.lean

An audit.  Every unit is analysed or skipped; what the rules find, and the skipped units,
become the violations of the report.  Units may be completed in any order: each outcome is
kept under the position of its unit, and outcomes are put together by position.  After each
completed unit the audit may be cancelled, and then there is no outcome at all.
-/
import ObjectAudit.Report
import ObjectAudit.Rule

namespace ObjectAudit

/-- Settings and the rules that run. -/
structure Auditor where
  settings : Settings
  rules : List Rule
deriving DecidableEq, Repr

namespace Auditor

def ofSettings (settings : Settings) : Except SettingsFault Auditor :=
  (Rule.ofSettings settings).map (⟨settings, ·⟩)

/-- The auditor with rules of its own; the settings still have to name known ones. -/
def withRules (settings : Settings) (rules : List Rule) : Except SettingsFault Auditor :=
  (Rule.checkIds settings).map fun _ => ⟨settings, rules⟩

def standard : Auditor := ⟨.standard, Rule.standard⟩

end Auditor

/-! ### Outcomes of units -/

inductive Outcome where
  | analysed (analysis : UnitAnalysis)
  | skipped (skipped : Skipped)
deriving DecidableEq, Repr

namespace Outcome

def analysis? : Outcome → Option UnitAnalysis
  | analysed analysis => some analysis
  | skipped _ => none

def skipped? : Outcome → Option Skipped
  | analysed _ => none
  | skipped skip => some skip

end Outcome

/-- Analyse a unit, or skip it if it is malformed. -/
def AuditUnit.outcome (survey : Survey) (unit : AuditUnit) : Outcome :=
  match unit.analyse survey with
  | .ok analysis => .analysed analysis
  | .error malformed => .skipped ⟨unit.name, malformed.reason, unit.location⟩

/-- An audit was cancelled when so many of all units were completed. -/
structure Cancelled where
  completed : Int
  total : Int
deriving DecidableEq, Repr

def Cancelled.message (cancelled : Cancelled) : String :=
  s!"analysis cancelled after {cancelled.completed} of {cancelled.total} units"

/-- Whether cancellation is seen when so many units are completed. -/
abbrev Cancellation := Nat → Bool

def Cancellation.never : Cancellation := fun _ => false

/-- Cancellation is seen from a certain look on. -/
def Cancellation.fromLook (look : Int) : Cancellation := fun completed => look ≤ completed

/-- Complete units by their positions, and look for cancellation after each one. -/
def completeUnits (outcomeAt : Nat → Option Outcome) (total : Nat) (cancel : Cancellation)
    (done : Table Nat Outcome) : List Nat → Except Cancelled (Table Nat Outcome)
  | [] => .ok done
  | position :: rest =>
    let done := match outcomeAt position with
      | some outcome => done.insert position outcome
      | none => done
    -- a position that comes twice completes nothing new
    let completed := done.entries.length
    if cancel completed then .error ⟨completed, total⟩
    else completeUnits outcomeAt total cancel done rest

/-- The outcomes of units that are completed in some order of their positions, put
together by position. -/
def outcomesInOrder (survey : Survey) (units : List AuditUnit) (cancel : Cancellation)
    (order : List Nat) : Except Cancelled (List Outcome) :=
  let outcomeAt (position : Nat) := (units[position]?).map (AuditUnit.outcome survey)
  (completeUnits outcomeAt units.length cancel Table.empty order).map fun done =>
    (List.range units.length).filterMap done.get?

/-! ### The audit of a model -/

/-- All that an audit finds out. -/
structure Audit where
  survey : Survey
  units : List AuditUnit
  outcomes : List Outcome
  /-- The analyses by the names of their units. -/
  analyses : Table String UnitAnalysis
  /-- What each rule reports. -/
  verdicts : List (Rule × List Violation)
  report : Report

/-- The analyses among some outcomes, by the names of their units. -/
def analysesOf (outcomes : List Outcome) : Table String UnitAnalysis :=
  Table.ofList <| (outcomes.filterMap Outcome.analysis?).map fun analysis =>
    (analysis.subject, analysis)

def inNameOrder (analyses : Table String UnitAnalysis) : List UnitAnalysis :=
  analyses.values.mergeSort fun a b => decide (a.subject ≤ b.subject)

/-- What is counted. -/
def statsOf (graph : Graph) (analyses : List UnitAnalysis) (skipped : List Skipped)
    (rules : List Rule) : Stats :=
  { classesAnalyzed := analyses.countP fun analysis => !analysis.isTemplate
    classesSkipped := skipped.length
    templatesAnalyzed := analyses.countP UnitAnalysis.isTemplate
    methodsAnalyzed := (analyses.map UnitAnalysis.methodCount).foldr (· + ·) 0
    callSitesAnalyzed := (analyses.map UnitAnalysis.callSiteCount).foldr (· + ·) 0
    associationEdges := graph.edges.length
    unresolvedEdges := graph.unresolved.length
    rulesRun := rules.length
    timeMs := .zero }

namespace Audit

/-- The audit that follows from the outcomes of the units of a model. -/
def ofOutcomes (auditor : Auditor) (model : Model) (outcomes : List Outcome) : Audit :=
  let survey := Survey.ofModel model auditor.settings
  let analyses := analysesOf outcomes
  -- entries that could not be read come before units that failed
  let skipped := model.rejected ++ outcomes.filterMap Outcome.skipped?
  let verdicts := auditor.rules.map fun rule =>
    (rule, rule.evaluate survey.methods (inNameOrder analyses))
  let violations := verdicts.flatMap Prod.snd ++ skipped.map Skipped.toViolation
  { survey
    units := AuditUnit.schedule model
    outcomes
    analyses
    verdicts
    report :=
      { violations := Violation.sort violations
        skipped
        stats := statsOf survey.graph analyses.values skipped auditor.rules } }

/-- The audit of a model whose units are completed one after the other. -/
def ofModel (auditor : Auditor) (model : Model) : Audit :=
  let survey := Survey.ofModel model auditor.settings
  ofOutcomes auditor model ((AuditUnit.schedule model).map (AuditUnit.outcome survey))

/-! ### Requirements -/

/-- The first broken requirement among some values. -/
def firstOf {α : Type} [Checked α] (values : List α) : Option Defect :=
  values.findSome? Checked.defect?

/-- The first broken requirement in an analysis and its parts. -/
def analysisDefect? (analysis : UnitAnalysis) : Option Defect :=
  (firstOf analysis.chains)
    |>.or (firstOf analysis.calls)
    |>.or (firstOf analysis.clusters)
    |>.or (firstOf analysis.transactions)
    |>.or (Checked.defect? analysis)

instance : Checked Audit where
  defect? audit :=
    -- in the order in which the parts are made
    (firstOf audit.survey.graph.edges)
      |>.or (Checked.defect? audit.survey.graph)
      |>.or ((audit.outcomes.filterMap Outcome.analysis?).findSome? analysisDefect?)
      |>.or (firstOf audit.report.skipped)
      |>.or (firstOf (audit.report.violations.map Violation.location))
      |>.or (firstOf audit.report.violations)
      |>.or (Checked.defect? audit.report.stats)
      |>.or (Checked.defect? audit.report)

end Audit

/-- Why an audit has no outcome. -/
inductive AuditFault where
  | cancelled (cancelled : Cancelled)
  | defect (defect : Defect)
deriving DecidableEq, Repr

namespace Auditor

/-- Audit a model, its units completed in some order of their positions. -/
def auditInOrder (auditor : Auditor) (model : Model) (cancel : Cancellation)
    (order : List Nat) : Except AuditFault Audit :=
  let survey := Survey.ofModel model auditor.settings
  match outcomesInOrder survey (AuditUnit.schedule model) cancel order with
  | .error cancelled => .error (.cancelled cancelled)
  | .ok outcomes =>
    match checked (Audit.ofOutcomes auditor model outcomes) with
    | .ok audit => .ok audit
    | .error defect => .error (.defect defect)

/-- Audit a model, one unit after the other. -/
def audit (auditor : Auditor) (model : Model) (cancel : Cancellation) :
    Except AuditFault Audit :=
  auditor.auditInOrder model cancel (List.range (AuditUnit.schedule model).length)

end Auditor

end ObjectAudit
