/-
ObjectAudit/Report/Record.lean

A report as a JSON value.  Every record has all its fields; the time is left out, so that
two audits of the same code give the same text.
-/
import ObjectAudit.Json.Writer
import ObjectAudit.Report

namespace ObjectAudit

def Json.ofLine (line : Option Int) : Json := line.elim .null .int

def Violation.toJson (violation : Violation) : Json :=
  .obj
    [("rule_id", .str violation.ruleId),
     ("severity", .str violation.severity.name),
     ("class", .str violation.className),
     ("method", .ofOption violation.method),
     ("line", .ofLine violation.line),
     ("message", .str violation.message),
     ("remediation_category", .ofOption (violation.remedy.map Remedy.name))]

def Skipped.toJson (skipped : Skipped) : Json :=
  .obj
    [("class", .str skipped.className),
     ("reason", .str skipped.reason),
     ("file", .str skipped.location.file.text),
     ("line", .int skipped.location.line)]

namespace Report

def toJson (report : Report) : Json :=
  .obj
    [("passed", .bool report.passed),
     ("summary", .obj
       [("violation_count", .int report.violations.length),
        ("error_count", .int (report.countOf .error)),
        ("warning_count", .int (report.countOf .warning)),
        ("skipped_count", .int report.skipped.length)]),
     ("violations", .arr (report.violations.map Violation.toJson)),
     ("skipped", .arr (report.skipped.map Skipped.toJson)),
     ("stats", .obj (report.stats.counters.map fun (name, count) => (.whole name, .int count)))]

/-- Print the record of a report, with a line end behind it. -/
def print (report : Report) (layout : Json.Layout) : Json.Printout :=
  let printout := report.toJson.print layout
  match printout.fault? with
  | none => { printout with text := printout.text ++ ['\n'] }
  | some _ => printout

end Report

end ObjectAudit
