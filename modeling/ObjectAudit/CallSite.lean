/-
ObjectAudit/CallSite.lean

Call sites: a receiver and the names applied to it, one after the other, as in
`invoice.customer.address`.
-/
import ObjectAudit.Defect

namespace ObjectAudit

/-- Where the receiver of a call comes from. -/
inductive Origin where
  /-- The object itself. -/
  | self
  /-- A parameter, or a local of a template. -/
  | parameter
  /-- Something known from outside, such as a class. -/
  | external
deriving DecidableEq, Repr

namespace Origin

def all : List Origin := [self, parameter, external]

def name : Origin → String
  | self => "self"
  | parameter => "parameter"
  | external => "external"

def capitalName : Origin → String
  | self => "SELF"
  | parameter => "PARAMETER"
  | external => "EXTERNAL"

end Origin

/-- A receiver and the names applied to it. -/
structure CallSite where
  origin : Origin
  /-- What the receiver is called. -/
  root : String
  /-- The names applied to it, in order. -/
  chain : List String
  line : Int
  /-- The class of the receiver, if known. -/
  rootClass : Option String := none
  /-- The class on which the last call lands, if known. -/
  targetClass : Option String := none
deriving DecidableEq, Repr

namespace CallSite

instance : Checked CallSite where
  defect? site := firstDefect
    [nonempty "root" site.root,
     (site.chain.isEmpty, .noNames),
     (site.chain.any (· == ""), .emptyName site.chain),
     atLeast "line" 1 site.line,
     (site.origin == .self && site.root != "self", .selfRoot site.root)]

def terminal (site : CallSite) : String := site.chain.getLastD ""

/-- The receiver and its names, joined by points. -/
def expression (site : CallSite) : String := ".".intercalate (site.root :: site.chain)

def text (site : CallSite) : String := s!"{site.expression}@{site.line}"

end CallSite

end ObjectAudit
