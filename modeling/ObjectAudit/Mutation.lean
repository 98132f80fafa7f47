/-
ObjectAudit/Mutation.lean

Calls that change persisted state, and the transactions that hold them.  A call changes
the class on which the first mutating operation of its chain acts; if that class is not
known, the call is left out.  A transaction counts the classes that its own calls change,
its declaring class only if the settings say so.
-/
import ObjectAudit.Receiver

namespace ObjectAudit

/-- A call that changes persisted state. -/
structure Mutation where
  subject : String
  method : String
  operation : String
  /-- The class whose state is changed. -/
  targetClass : String
  callSite : CallSite
deriving DecidableEq, Repr

def Mutation.isOwn (mutation : Mutation) : Bool := mutation.targetClass == mutation.subject

/-- A method that runs as one transaction. -/
structure Transaction where
  subject : String
  method : String
  line : Int
  mutations : List Mutation
  /-- The classes that count, as a set. -/
  countedClasses : List String
deriving DecidableEq, Repr

instance : Checked Transaction where
  defect? transaction := firstDefect
    [(transaction.countedClasses != Text.textSet transaction.countedClasses, .unsortedClasses)]

section

variable (graph : Graph) (methods : MethodIndex) (operations : List String)

def firstMutation? (decl : ClassDecl) (site : CallSite) : Option OperationUse :=
  (operationUses graph methods operations site (some decl.qualifiedName)).head?

/-- The change that a call site of a method makes, if its target is known. -/
def mutation? (decl : ClassDecl) (method : Method) (site : CallSite) : Option Mutation := do
  let use ← firstMutation? graph methods operations decl site
  let targetClass ← use.target
  return { subject := decl.qualifiedName, method := method.name, operation := use.operation
           targetClass, callSite := site }

/-- The changes that a class makes, in order of methods and call sites. -/
def mutationsOf (decl : ClassDecl) : List Mutation :=
  decl.methods.flatMap fun method =>
    method.callSites.filterMap (mutation? graph methods operations decl method)

/-- The mutating calls of a class whose target is not known. -/
def untargetedCalls (decl : ClassDecl) : List (Method × CallSite) :=
  decl.methods.flatMap fun method => method.callSites.filterMap fun site =>
    match firstMutation? graph methods operations decl site with
    | some ⟨_, _, none⟩ => some (method, site)
    | _ => none

end

/-- The transaction of a method, given the changes that its class makes. -/
def transactionOf (countsOwnClass : Bool) (mutations : List Mutation) (decl : ClassDecl)
    (method : Method) : Transaction :=
  -- by name, so methods of one name share their changes
  let own := mutations.filter fun mutation => mutation.method == method.name
  let counted := own.filter fun mutation => countsOwnClass || !mutation.isOwn
  { subject := decl.qualifiedName, method := method.name, line := method.line
    mutations := own, countedClasses := Text.textSet (counted.map Mutation.targetClass) }

/-- The transactions of a class: one for each name of a transactional method. -/
def transactionsOf (countsOwnClass : Bool) (mutations : List Mutation) (decl : ClassDecl) :
    List Transaction :=
  let transactional := (decl.methods.filter Method.wrapsTransaction).eraseDupsBy
    fun a b => a.name == b.name
  transactional.map (transactionOf countsOwnClass mutations decl)

end ObjectAudit
