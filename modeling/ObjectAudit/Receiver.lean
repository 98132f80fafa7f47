/-
ObjectAudit/Receiver.lean

What the names of a call site act on.  The chain is read from the class of its receiver
on.  On a single object a name is an association, or a method of the class, or an
operation.  Behind an association to many objects, or behind an operation, stands a whole
collection, on which associations and methods of single objects mean nothing; methods of
the class itself and operations keep the class.  Once the class is lost it stays lost, and
an operation then acts on the target of the call site, if that is known.
-/
import ObjectAudit.Graph
import ObjectAudit.MethodIndex

namespace ObjectAudit

/-- The class of the receiver of a call site, in code owned by a class or by none. -/
def CallSite.receiverClass (site : CallSite) (owner : Option String) : Option String :=
  match site.origin with
  | .self => owner
  | .parameter => site.rootClass
  | .external => some ((site.rootClass.filter (· != "")).getD site.root)

/-- What a name in a chain stands for. -/
inductive NameRole where
  /-- An association of the class. -/
  | association (edge : Association)
  /-- A method of the class itself; the class stays the same. -/
  | scope
  /-- A method of single objects; what it yields is not known. -/
  | method
  /-- An operation. -/
  | operation
  /-- None of these; what it yields is not known. -/
  | unknown
deriving DecidableEq, Repr

/-- What is known of the object that the next name is applied to. -/
structure Standing where
  /-- Its class, unless that was lost. -/
  current : Option String
  /-- Is it a whole collection? -/
  isCollection : Bool
deriving DecidableEq, Repr

/-- An operation in a chain. -/
structure OperationUse where
  /-- The position of its name. -/
  index : Nat
  operation : String
  /-- The class it acts on, if known. -/
  target : Option String
deriving DecidableEq, Repr

section

variable (graph : Graph) (methods : MethodIndex) (operations : List String)

/-- What a name stands for where a class cannot say. -/
def plainRole (name : String) : NameRole :=
  if operations.contains name then .operation else .unknown

/-- What a name stands for. -/
def roleOf (standing : Standing) (name : String) : NameRole :=
  match standing.current with
  | none => plainRole operations name
  | some current =>
    -- associations belong to single objects
    match if standing.isCollection then none else graph.edge? current name with
    | some edge => .association edge
    | none =>
      match methods.get? current name with
      | some method =>
        if method.isClassLevel then .scope
        -- so do methods that are no scopes
        else if standing.isCollection then plainRole operations name
        else .method
      | none => plainRole operations name

/-- What is known behind a name. -/
def Standing.next (standing : Standing) : NameRole → Standing
  | .association edge => ⟨some edge.target, edge.kind == .ownsMany⟩
  | .scope => standing
  | .operation => ⟨standing.current, true⟩
  | .method | .unknown => ⟨none, standing.isCollection⟩

/-- The operations among the names from a position on. -/
def usesFrom (target : Option String) (standing : Standing) (index : Nat) :
    List String → List OperationUse
  | [] => []
  | name :: rest =>
    let role := roleOf graph methods operations standing name
    let further := usesFrom target (standing.next role) (index + 1) rest
    match role with
    | .operation => ⟨index, name, standing.current.or target⟩ :: further
    | _ => further

/-- The operations in the chain of a call site. -/
def operationUses (site : CallSite) (owner : Option String) : List OperationUse :=
  usesFrom graph methods operations site.targetClass ⟨site.receiverClass owner, false⟩ 0 site.chain

end

end ObjectAudit
