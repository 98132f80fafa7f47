/-
ObjectAudit/MethodIndex.lean

The methods of every class by name.  Of several declarations of a class, and of several
methods of a name, the first one counts.
-/
import ObjectAudit.Model
import ObjectAudit.Table

namespace ObjectAudit

/-- The methods of every class by name. -/
structure MethodIndex where
  classes : Table String (Table String Method)
deriving DecidableEq, Repr

namespace MethodIndex

def get? (index : MethodIndex) (className methodName : String) : Option Method :=
  (index.classes.get? className).bind fun methods => methods.get? methodName

def names (index : MethodIndex) (className : String) : List String :=
  Text.textSet ((index.classes.get? className).elim [] Table.keys)

/-- The method of a name on a class, if it only forwards. -/
def delegation? (index : MethodIndex) (className methodName : String) : Option Method :=
  (index.get? className methodName).filter Method.isDelegation

def ofMethods (methods : List Method) : Table String Method :=
  Table.ofListNew (methods.map fun method => (method.name, method))

def ofModel (model : Model) : MethodIndex :=
  ⟨Table.ofListNew (model.classes.map fun decl => (decl.qualifiedName, ofMethods decl.methods))⟩

end MethodIndex

end ObjectAudit
