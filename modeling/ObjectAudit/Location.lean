/-
ObjectAudit/Location.lean

Places in source files.  Lines count from one and columns from zero.  Places are ordered
by the parts of their path, then by line and column.
-/
import ObjectAudit.Defect
import ObjectAudit.SourcePath

namespace ObjectAudit

/-- A place in a source file. -/
structure Location where
  file : SourcePath
  line : Int
  column : Int := 0
deriving DecidableEq, Repr

namespace Location

instance : Checked Location where
  defect? location := firstDefect
    [(location.line ≤ 0, .notPositive "line" location.line),
     atLeast "column" 0 location.column]

/-- A place in a file that has to be there. -/
def within (file : Option SourcePath) (line column : Int) : Except Defect Location :=
  match file with
  | none => .error (.missing "file")
  | some file => checked { file, line, column }

def atLine (location : Location) (line : Int) : Location :=
  { file := location.file, line }

def text (location : Location) : String :=
  s!"{location.file.text}:{location.line}:{location.column}"

/-- The order of places. -/
def order : Location → Location → Ordering :=
  compareLex (compareOn fun location => location.file.parts)
    (compareLex (compareOn fun location => location.line)
      (compareOn fun location => location.column))

/-- Sort places; equal ones keep their order. -/
def sort (locations : List Location) : List Location :=
  locations.mergeSort fun a b => (order a b).isLE

end Location

end ObjectAudit
