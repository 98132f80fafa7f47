/-
ObjectAudit/Integrity.lean

What makes a class or a template malformed: it is declared before, an association names
another source or repeats an accessor, a method is not owned by its class, or a forwarding
method goes through an association that is not declared.
-/
import ObjectAudit.ClassDecl

namespace ObjectAudit

open Text

/-- What makes a unit malformed. -/
inductive Flaw where
  | repeatedClass (name : String)
  | foreignSource (accessor source name : String)
  | repeatedAccessor (accessor : String)
  | noOwner (method : String)
  | foreignOwner (method owner name : String)
  | danglingDelegation (method association : String)
  | repeatedTemplate (name : String)
deriving DecidableEq, Repr

/-- What a flaw says. -/
def Flaw.message : Flaw → String
  | repeatedClass name => s!"class {quoted name} is declared more than once"
  | foreignSource accessor source name =>
    s!"association {quoted accessor} declares source {quoted source}, not {quoted name}"
  | repeatedAccessor accessor =>
    s!"association accessor {quoted accessor} is declared more than once"
  | noOwner method => s!"method {quoted method} has no owning class"
  | foreignOwner method owner name =>
    s!"method {quoted method} is owned by {quoted owner}, not {quoted name}"
  | danglingDelegation method association =>
    s!"delegation {quoted method} forwards through undeclared association {quoted association}"
  | repeatedTemplate name => s!"template {quoted name} is declared more than once"

/-- The flaws of associations behind those whose accessors were already seen. -/
def associationFlaws (name : String) (seen : List String) : List Association → List Flaw
  | [] => []
  | edge :: rest =>
    -- both flaws of one association are told
    (if edge.source != name then [.foreignSource edge.accessor edge.source name] else []) ++
      (if seen.contains edge.accessor then [.repeatedAccessor edge.accessor] else []) ++
      associationFlaws name (edge.accessor :: seen) rest

def ownerFlaws (name : String) (method : Method) : List Flaw :=
  match method.owner with
  | none => [.noOwner method.name]
  | some owner => if owner != name then [.foreignOwner method.name owner name] else []

def delegationFlaws (accessors : List String) (method : Method) : List Flaw :=
  match method.delegatesTo with
  | some delegation =>
    if accessors.contains delegation.association then []
    else [.danglingDelegation method.name delegation.association]
  | none => []

/-- The flaws of a class, which may be declared before. -/
def ClassDecl.flaws (decl : ClassDecl) (repeated : Bool) : List Flaw :=
  let name := decl.qualifiedName
  let accessors := decl.associations.map Association.accessor
  (if repeated then [.repeatedClass name] else []) ++
    associationFlaws name [] decl.associations ++
    decl.methods.flatMap fun method =>
      ownerFlaws name method ++ delegationFlaws accessors method

def Template.flaws (template : Template) (repeated : Bool) : List Flaw :=
  if repeated then [.repeatedTemplate template.name] else []

/-- A unit that is malformed, with its flaws. -/
structure Malformed where
  subject : String
  flaws : List Flaw
deriving DecidableEq, Repr

def Malformed.reason (malformed : Malformed) : String :=
  "; ".intercalate (malformed.flaws.map Flaw.message)

end ObjectAudit
