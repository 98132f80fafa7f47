/-
ObjectAudit/Number/Double.lean

Binary floating-point numbers of 64 bits, as exact data.  A finite number is
`± significand * 2 ^ exponent` with a significand below `2 ^ 53` and an exponent
of at least `-1074`; only numbers too small for that keep fewer than 53 bits.
A decimal is read to the nearest such number in exact integer arithmetic, so
nothing here depends on the machine's own arithmetic.
-/
import ObjectAudit.Number.Rounding

namespace ObjectAudit

/-- A binary floating-point number of 64 bits. -/
inductive Double where
  /-- The number `± significand * 2 ^ exponent`. -/
  | finite (negative : Bool) (significand : Nat) (exponent : Int)
  /-- Plus or minus infinity. -/
  | infinite (negative : Bool)
  /-- Not a number. -/
  | nan
deriving DecidableEq, Repr

namespace Double

/-- The smallest exponent of a finite number. -/
def minExponent : Int := -1074

def maxExponent : Int := 971

/-- Zero, which keeps a sign. -/
def zero (negative : Bool) : Double := .finite negative 0 minExponent

/-- The exponent at which `num / den` has 53 bits, or the smallest one.  The
quotient lies strictly between `2 ^ (lead - 1)` and `2 ^ (lead + 1)`. -/
def exponentOf (num den : Nat) : Int :=
  let lead : Int := (num.log2 : Int) - (den.log2 : Int)
  let reaches := den * Nat.pow 2 lead.toNat ≤ num * Nat.pow 2 (-lead).toNat
  max (if reaches then lead - 52 else lead - 53) minExponent

/-- The number nearest to `± num / den`; beyond the largest one it is infinite. -/
def ofRatio (negative : Bool) (num den : Nat) : Double :=
  if num = 0 then zero negative
  else
    let exponent := exponentOf num den
    let significand :=
      roundQuotient (num * Nat.pow 2 (-exponent).toNat) (den * Nat.pow 2 exponent.toNat)
    let carried := significand = Nat.pow 2 53
    let exponent := if carried then exponent + 1 else exponent
    if maxExponent < exponent then .infinite negative
    else .finite negative (if carried then Nat.pow 2 52 else significand) exponent

/-- The number nearest to the decimal `± digits * 10 ^ power`.  Powers far outside
the range are answered without computing them. -/
def ofDecimal (negative : Bool) (digits : Nat) (power : Int) : Double :=
  if digits = 0 then zero negative
  else if 310 < power then .infinite negative
  else if power + (digits.log2 / 3 + 1 : Nat) < -330 then zero negative
  else ofRatio negative (digits * Nat.pow 10 power.toNat) (Nat.pow 10 (-power).toNat)

def ofInt (n : Int) : Double := ofRatio (decide (n < 0)) n.natAbs 1

/-- Is the number below zero?  A negative zero is not. -/
def isNegative : Double → Bool
  | .finite negative significand _ => negative && significand != 0
  | .infinite negative => negative
  | .nan => false

def isZero : Double → Bool
  | .finite _ significand _ => significand == 0
  | _ => false

end Double

end ObjectAudit
