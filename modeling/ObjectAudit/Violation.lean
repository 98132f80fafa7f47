/-
ObjectAudit/Violation.lean

Violations of the rules, and units that were skipped.  Violations are reported in the
order of their places (the path compared as text), then by rule, class, method and
message.
-/
import ObjectAudit.ClassDecl

namespace ObjectAudit

/-- How grave a violation is. -/
inductive Severity where
  | error
  | warning
  | info
deriving DecidableEq, Repr

namespace Severity

def all : List Severity := [error, warning, info]

def name : Severity → String
  | error => "error"
  | warning => "warning"
  | info => "info"

def capitalName : Severity → String
  | error => "ERROR"
  | warning => "WARNING"
  | info => "INFO"

end Severity

inductive Remedy where
  | wrapperMethod
  | delegation
  | extractedCollaborator
  | scopeRelocation
  | callbackRemoval
deriving DecidableEq, Repr

namespace Remedy

def all : List Remedy :=
  [wrapperMethod, delegation, extractedCollaborator, scopeRelocation, callbackRemoval]

def name : Remedy → String
  | wrapperMethod => "wrapper-method"
  | delegation => "delegation"
  | extractedCollaborator => "extracted-collaborator"
  | scopeRelocation => "scope-relocation"
  | callbackRemoval => "callback-removal"

end Remedy

/-- A violation of a rule. -/
structure Violation where
  ruleId : String
  severity : Severity
  /-- The class or template it is about. -/
  className : String
  message : String
  location : Location
  method : Option String := none
  line : Option Int := none
  remedy : Option Remedy := none
deriving DecidableEq, Repr

namespace Violation

instance : Checked Violation where
  defect? violation := firstDefect
    [nonempty "rule_id" violation.ruleId,
     nonempty "class_name" violation.className,
     nonempty "message" violation.message,
     atLeast "line" 1 (violation.line.getD 1)]

def methodText (violation : Violation) : String := violation.method.getD ""

/-- The order in which violations are reported. -/
def order : Violation → Violation → Ordering :=
  compareLex (compareOn fun v => v.location.file.text)
    (compareLex (compareOn fun v => v.location.line)
      (compareLex (compareOn fun v => v.location.column)
        (compareLex (compareOn fun v => v.ruleId)
          (compareLex (compareOn fun v => v.className)
            (compareLex (compareOn fun v => v.methodText)
              (compareOn fun v => v.message))))))

def before (a b : Violation) : Bool := (order a b).isLE

/-- Sort violations; equal ones keep their order. -/
def sort (violations : List Violation) : List Violation := violations.mergeSort before

def inOrder : List Violation → Bool
  | a :: b :: rest => before a b && inOrder (b :: rest)
  | _ => true

/-- The class, and the method if there is one. -/
def subjectText (violation : Violation) : String :=
  match violation.method with
  | none => violation.className
  | some method => s!"{violation.className}#{method}"

def text (violation : Violation) : String :=
  let lines :=
    [s!"[{violation.severity.capitalName}] {violation.ruleId}: {violation.message}",
     s!"  at {violation.location.text} ({violation.subjectText})"]
  let remedies := violation.remedy.toList.map fun remedy => s!"  remediation: {remedy.name}"
  "\n".intercalate (lines ++ remedies)

end Violation

/-- The rule under which skipped units are reported. -/
def malformedInput : String := "malformed-input"

/-- A unit that was skipped, and why. -/
structure Skipped where
  className : String
  reason : String
  location : Location
deriving DecidableEq, Repr

namespace Skipped

instance : Checked Skipped where
  defect? skipped := firstDefect
    [nonempty "class_name" skipped.className,
     nonempty "reason" skipped.reason]

/-- The violation that keeps a skipped unit visible. -/
def toViolation (skipped : Skipped) : Violation :=
  { ruleId := malformedInput
    severity := .error
    className := skipped.className
    message := s!"not analyzed: {skipped.reason}"
    location := skipped.location }

end Skipped

end ObjectAudit
