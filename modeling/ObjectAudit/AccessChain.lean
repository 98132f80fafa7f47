/-
ObjectAudit/AccessChain.lean

How far a call site reaches.  The chain is walked name by name from the class of its
receiver.  An association is a hop, which counts unless it stays within its class; behind
an unresolved one the walk ends.  A method that only forwards is no hop: the walk goes on
from the class that it yields, or ends if it yields none.  Any other name ends the walk.

Of chains with the same expression in the same method only the first one is kept.
-/
import ObjectAudit.Receiver

namespace ObjectAudit

/-- An association that a walk crosses. -/
structure Hop where
  edge : Association
  /-- The node that is reached. -/
  toNode : String
  /-- Does it lead to another class? -/
  counted : Bool
deriving DecidableEq, Repr

/-- How far a call site reaches. -/
structure AccessChain where
  /-- The class or template it stands in. -/
  subject : String
  method : Option String
  callSite : CallSite
  startClass : String
  hops : List Hop
  /-- The forwarding methods that the walk went through. -/
  delegations : List String := []
  /-- Is the name that ended the walk a method? -/
  terminalIsMethod : Bool := false
deriving DecidableEq, Repr

namespace AccessChain

instance : Checked AccessChain where
  defect? chain := firstDefect
    [nonempty "subject" chain.subject,
     nonempty "start_class" chain.startClass]

/-- The number of hops to other classes. -/
def depth (chain : AccessChain) : Nat := chain.hops.countP Hop.counted

/-- The classes on the way, the first one included. -/
def path (chain : AccessChain) : List String := chain.startClass :: chain.hops.map Hop.toNode

def accessors (chain : AccessChain) : List String := chain.hops.map fun hop => hop.edge.accessor

def methodText (chain : AccessChain) : String := chain.method.getD ""

/-- What makes two chains the same. -/
def key (chain : AccessChain) : String × String × String :=
  (chain.subject, chain.methodText, chain.callSite.expression)

end AccessChain

/-- What a walk comes across. -/
structure Walk where
  hops : List Hop := []
  delegations : List String := []
  terminalIsMethod : Bool := false
deriving DecidableEq, Repr

def Walk.addHop (hop : Hop) (walk : Walk) : Walk := { walk with hops := hop :: walk.hops }

def Walk.addDelegation (name : String) (walk : Walk) : Walk :=
  { walk with delegations := name :: walk.delegations }

section

variable (graph : Graph) (methods : MethodIndex)

/-- The class that a forwarding method of a class yields: its member has to be a resolved
association of what its association yields. -/
def delegationResult (current : String) (method : Method) : Option String := do
  let delegation ← method.delegatesTo
  let via ← (graph.edge? current delegation.association).filter Association.resolved
  let member ← (graph.edge? via.target delegation.member).filter Association.resolved
  return member.target

/-- Walk over names from a class. -/
def walkFrom (current : String) : List String → Walk
  | [] => {}
  | name :: rest =>
    match graph.edge? current name with
    | some edge =>
      let toNode := Graph.targetNode edge
      -- a step from a class to itself is on the way, but is not counted
      let hop : Hop := ⟨edge, toNode, !edge.isSelfReference⟩
      -- nothing is known beyond the classes of the model
      if toNode = externalNode then Walk.addHop hop {}
      else (walkFrom toNode rest).addHop hop
    | none =>
      -- associations come before methods of the same name
      match methods.delegation? current name with
      | some method =>
        let delegated := s!"{current}.{name}"
        match delegationResult graph current method with
        | none => Walk.addDelegation delegated {}
        | some next => (walkFrom next rest).addDelegation delegated
      | none => { terminalIsMethod := (methods.get? current name).isSome }

/-- The audited class from which a call site is walked. -/
def startClass? (site : CallSite) (owner : Option String) : Option String :=
  match site.origin with
  | .self => owner.filter graph.hasClass
  | .parameter => site.rootClass.filter graph.hasClass
  | .external => none

/-- Measure a call site of at least two names; one that crosses no association has no
measure. -/
def measure? (site : CallSite) (subject : String) (method owner : Option String) :
    Option AccessChain :=
  if site.chain.length < 2 then none
  else
    match startClass? graph site owner with
    | none => none
    | some start =>
      let walk := walkFrom graph methods start site.chain
      if walk.hops.isEmpty then none
      else some
        { subject, method, callSite := site, startClass := start, hops := walk.hops
          delegations := walk.delegations, terminalIsMethod := walk.terminalIsMethod }

end

namespace AccessChain

/-- The order in which chains are listed: by line, then by method. -/
def order : AccessChain → AccessChain → Ordering :=
  compareLex (compareOn fun chain => chain.callSite.line)
    (compareOn fun chain => chain.methodText)

/-- Chains in order, the first of each key. -/
def distinct (chains : List AccessChain) : List AccessChain :=
  (chains.mergeSort fun a b => (order a b).isLE).eraseDupsBy fun a b => a.key == b.key

def ofClass (graph : Graph) (methods : MethodIndex) (decl : ClassDecl) : List AccessChain :=
  distinct <| decl.methods.flatMap fun method => method.callSites.filterMap fun site =>
    measure? graph methods site decl.qualifiedName (some method.name) (some decl.qualifiedName)

def ofTemplate (graph : Graph) (methods : MethodIndex) (template : Template) :
    List AccessChain :=
  distinct <| template.callSites.filterMap fun site =>
    measure? graph methods site template.name none none

end AccessChain

end ObjectAudit
