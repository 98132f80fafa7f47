/-
ObjectAudit/Method.lean

Methods of a class.  The owner may be missing: that is a fault of the class it stands in,
found when the class is analysed.
-/
import ObjectAudit.CallSite

namespace ObjectAudit

/-- Where a method forwards to: a member of what an association yields. -/
structure Delegation where
  association : String
  member : String
deriving DecidableEq, Repr

instance : Checked Delegation where
  defect? delegation := firstDefect
    [nonempty "association" delegation.association,
     nonempty "member" delegation.member]

/-- A method of a class. -/
structure Method where
  name : String
  owner : Option String
  callSites : List CallSite := []
  line : Int := 1
  /-- Does it belong to the class and not to its objects? -/
  isClassLevel : Bool := false
  /-- Does the life cycle of an object call it? -/
  isCallback : Bool := false
  /-- Does its body run as one transaction? -/
  wrapsTransaction : Bool := false
  delegatesTo : Option Delegation := none
  /-- The module that it was mixed in from. -/
  includedFrom : Option String := none
  /-- The methods of the same class that it calls. -/
  invokedMethods : List String := []
deriving DecidableEq, Repr

namespace Method

instance : Checked Method where
  defect? method := firstDefect
    [nonempty "method name" method.name,
     atLeast "line" 1 method.line]

def isDelegation (method : Method) : Bool := method.delegatesTo.isSome

def qualifiedName (method : Method) : String :=
  match method.owner with
  | none => method.name
  | some owner => s!"{owner}.{method.name}"

end Method

end ObjectAudit
