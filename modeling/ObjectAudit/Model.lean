/-
ObjectAudit/Model.lean

The audited code: classes, templates, and the entries that could not be read.
-/
import ObjectAudit.Violation
import ObjectAudit.Text.Order

namespace ObjectAudit

/-- The audited code. -/
structure Model where
  classes : List ClassDecl := []
  templates : List Template := []
  /-- Entries that could not be read; they are reported as skipped. -/
  rejected : List Skipped := []
deriving DecidableEq, Repr

namespace Model

def empty : Model := {}

/-- A model has to be there. -/
def require : Option Model → Except Defect Model
  | some model => .ok model
  | none => .error (.missing "model")

def classNames (model : Model) : List String :=
  Text.textSet (model.classes.map ClassDecl.qualifiedName)

/-- The first class of a name. -/
def class? (model : Model) (name : String) : Option ClassDecl :=
  model.classes.find? fun decl => decl.qualifiedName == name

def methods (model : Model) : List Method := model.classes.flatMap ClassDecl.methods

end Model

end ObjectAudit
