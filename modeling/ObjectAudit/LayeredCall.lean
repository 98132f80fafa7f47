/-
ObjectAudit/LayeredCall.lean

Call sites with the layer of the code they stand in, and the queries that they build.
-/
import ObjectAudit.Receiver

namespace ObjectAudit

/-- A call site with its layer and the query it builds. -/
structure LayeredCall where
  subject : String
  method : Option String
  layer : Layer
  callSite : CallSite
  /-- The query operations in its chain. -/
  queryOperations : List String := []
  /-- The class whose objects are queried, if known. -/
  queryTarget : Option String := none
deriving DecidableEq, Repr

namespace LayeredCall

instance : Checked LayeredCall where
  defect? call := firstDefect
    [nonempty "subject" call.subject,
     (call.queryTarget.isSome && call.queryOperations.isEmpty, .targetWithoutQuery)]

def isQuery (call : LayeredCall) : Bool := !call.queryOperations.isEmpty

section

variable (graph : Graph) (methods : MethodIndex) (operations : List String)

/-- A call site in code of a layer.  The query acts on what its first operation acts on. -/
def ofSite (site : CallSite) (subject : String) (method : Option String) (layer : Layer)
    (owner : Option String) : LayeredCall :=
  let uses := operationUses graph methods operations site owner
  { subject, method, layer, callSite := site
    queryOperations := uses.map OperationUse.operation
    queryTarget := uses.head?.bind OperationUse.target }

/-- The call sites of a class, which take its layer. -/
def ofClass (decl : ClassDecl) : List LayeredCall :=
  decl.methods.flatMap fun method => method.callSites.map fun site =>
    ofSite graph methods operations site decl.qualifiedName (some method.name) decl.layer
      (some decl.qualifiedName)

/-- The call sites of a template, which are view code. -/
def ofTemplate (template : Template) : List LayeredCall :=
  template.callSites.map fun site =>
    ofSite graph methods operations site template.name none .view none

end

end LayeredCall

end ObjectAudit
