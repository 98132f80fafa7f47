/-
ObjectAudit/Report/Console.lean

A report for the console: a headline, a table of the violations, the skipped units and the
statistics, all within a width.
-/
import ObjectAudit.Report
import ObjectAudit.Report.Grid
import ObjectAudit.Text.Markup

namespace ObjectAudit

open Text

/-- What a console report shows. -/
structure ConsoleStyle where
  showStats : Bool := true
  showRemedy : Bool := true
  /-- How many violations are shown; all if absent. -/
  maxViolations : Option Int := none
  /-- The rules whose violations are shown; all if absent or empty. -/
  includeRules : Option (List String) := none
  width : Int := 120
deriving DecidableEq, Repr

namespace ConsoleStyle

instance : Checked ConsoleStyle where
  defect? style := firstDefect
    [atLeast "max_violations" 0 (style.maxViolations.getD 0),
     atLeast "width" 40 style.width]

/-- The violations that are shown. -/
def select (style : ConsoleStyle) (violations : List Violation) : List Violation :=
  let chosen := violations.filter fun violation =>
    match style.includeRules with
    -- an empty selection is none
    | none | some [] => true
    | some rules => rules.contains violation.ruleId
  match style.maxViolations with
  | none => chosen
  | some limit => chosen.take limit.toNat

end ConsoleStyle

namespace Console

/-- The headline: a title in the middle of a line. -/
def headline (width : Nat) : List Char :=
  let title := "OBJECT MODEL CHECK".toList
  let lead := List.replicate ((width - title.length) / 2 - 1) '─' ++ ' ' :: title ++ [' ']
  lead ++ List.replicate (width - lead.length) '─'

/-- A text with tags, in lines. -/
def print (width : Nat) (text : String) : List (List Char) :=
  wrap width .cut (showMarkup text.toList)

/-- A text that stands for itself inside one with tags. -/
def escaped (text : String) : String := String.ofList (escapeMarkup text.toList)

def cell (text : String) : List Char := showMarkup (escapeMarkup text.toList)

def columnNames (style : ConsoleStyle) : List String :=
  ["Location", "Rule", "Severity", "Class", "Method", "Message"] ++
    if style.showRemedy then ["Remediation"] else []

def row (style : ConsoleStyle) (violation : Violation) : List (List Char) :=
  [cell violation.location.text, cell violation.ruleId, violation.severity.name.toList,
   cell violation.className, cell violation.methodText, cell violation.message] ++
    if style.showRemedy then [(violation.remedy.elim "" Remedy.name).toList] else []

/-- The lines about the outcome as a whole. -/
def statusLines (width : Nat) (report : Report) : List (List Char) :=
  let status := if report.passed then "PASS" else "FAIL"
  let errors := report.countOf .error
  let warnings := report.countOf .warning
  [[], headline width, []] ++
    print width (s!"{status}  Violations: {report.violations.length} " ++
      s!"(errors: {errors}, warnings: {warnings})") ++ [[]]

def violationLines (width : Nat) (style : ConsoleStyle) (report : Report) : List (List Char) :=
  match style.select report.violations with
  | [] => []
  | shown =>
    Grid.draw width ((columnNames style).map String.toList) (shown.map (row style)) ++ [[]]

def skippedLines (width : Nat) (report : Report) : List (List Char) :=
  if report.skipped.isEmpty then []
  else print width s!"SKIPPED ({report.skipped.length})" ++ [[]] ++
    report.skipped.flatMap (fun skipped => print width
      s!"  [yellow]{escaped skipped.className}[/yellow] {escaped skipped.reason}") ++ [[]]

def statsLines (width : Nat) (style : ConsoleStyle) (stats : Stats) : List (List Char) :=
  let time := stats.timeMs.toDouble.fixed 1
  if style.showStats then
    print width "STATS" ++
    print width (s!"  classes: {stats.classesAnalyzed}, templates: {stats.templatesAnalyzed}, " ++
      s!"methods: {stats.methodsAnalyzed}, call sites: {stats.callSitesAnalyzed}") ++
    print width (s!"  edges: {stats.associationEdges} ({stats.unresolvedEdges} unresolved), " ++
      s!"rules: {stats.rulesRun}, time: {time} ms") ++ [[]]
  else []

end Console

/-- A report for the console. -/
def Report.consoleText (report : Report) (style : ConsoleStyle) : String :=
  let width := style.width.toNat
  let lines := Console.statusLines width report ++ Console.violationLines width style report ++
    Console.skippedLines width report ++ Console.statsLines width style report.stats
  String.ofList (lines.flatMap fun line => line ++ ['\n'])

end ObjectAudit
