/-
ObjectAudit/Report/Plain.lean

A report as plain text.
-/
import ObjectAudit.Report

namespace ObjectAudit

def ruleLine (c : Char) : String := String.ofList (List.replicate 70 c)

def heading (title : String) : List String := ["", ruleLine '-', title, ruleLine '-']

/-- The lines of a violation under its number. -/
def Violation.plainLines (violation : Violation) (number : Nat) : List String :=
  ["",
   s!"{number}. [{violation.severity.capitalName}] {violation.ruleId}",
   s!"   {violation.message}",
   s!"   At: {violation.subjectText} ({violation.location.text})"] ++
    violation.remedy.toList.map fun remedy => s!"   Remediation: {remedy.name}"

namespace Report

def summaryLines (report : Report) : List String :=
  let status := if report.passed then "PASS" else "FAIL"
  let errors := report.countOf .error
  let warnings := report.countOf .warning
  ["",
   "Summary:",
   s!"  Classes: {report.stats.classesAnalyzed} analyzed, {report.stats.classesSkipped} skipped",
   s!"  Templates: {report.stats.templatesAnalyzed}",
   s!"  Violations: {report.violations.length}",
   s!"    Errors: {errors}",
   s!"    Warnings: {warnings}",
   s!"  Status: {status}"]

def violationLines (report : Report) : List String :=
  if report.violations.isEmpty then []
  else heading s!"Violations ({report.violations.length}):" ++
    (report.violations.zipIdx 1).flatMap fun (violation, number) => violation.plainLines number

def skippedLines (report : Report) : List String :=
  if report.skipped.isEmpty then []
  else heading s!"Skipped ({report.skipped.length}):" ++
    report.skipped.map fun skipped => s!"  {skipped.className}: {skipped.reason}"

def footerLines (report : Report) : List String :=
  let status := if report.passed then "PASSED" else "FAILED"
  ["", ruleLine '=', s!"Result: {status}", ruleLine '=']

/-- A report as plain text. -/
def plainText (report : Report) : String :=
  let lines := [ruleLine '=', "Object Model Check Results", ruleLine '='] ++
    report.summaryLines ++ report.violationLines ++ report.skippedLines ++ report.footerLines
  String.join (lines.map (· ++ "\n"))

end Report

end ObjectAudit
