/-
ObjectAudit/Number/Quantity.lean

A number as it was given: an integer, or a binary number.  The two are told apart in
what is written back.
-/
import ObjectAudit.Number.Shortest

namespace ObjectAudit

/-- A number as it was given. -/
inductive Quantity where
  | whole (n : Int)
  | binary (x : Double)
deriving DecidableEq, Repr

namespace Quantity

def zero : Quantity := .binary (Double.zero false)

def text : Quantity → String
  | whole n => toString n
  | binary x => x.text messageStyle

def isNegative : Quantity → Bool
  | whole n => n < 0
  | binary x => x.isNegative

def toDouble : Quantity → Double
  | whole n => Double.ofInt n
  | binary x => x

end Quantity

end ObjectAudit
