/-
ObjectAudit/Report.lean

The outcome of an audit: violations in order, skipped units and statistics.
-/
import ObjectAudit.Stats
import ObjectAudit.Violation

namespace ObjectAudit

/-- The outcome of an audit. -/
structure Report where
  violations : List Violation
  skipped : List Skipped
  stats : Stats
deriving DecidableEq, Repr

namespace Report

instance : Checked Report where
  defect? report := firstDefect
    [(!Violation.inOrder report.violations, .unorderedViolations)]

def empty : Report := ⟨[], [], .empty⟩

/-- Were no violations found? -/
def passed (report : Report) : Bool := report.violations.isEmpty

def countOf (report : Report) (severity : Severity) : Nat :=
  report.violations.countP fun violation => violation.severity == severity

def byRule (report : Report) (ruleId : String) : List Violation :=
  report.violations.filter fun violation => violation.ruleId == ruleId

end Report

end ObjectAudit
