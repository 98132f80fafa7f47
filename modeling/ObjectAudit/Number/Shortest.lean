/-
ObjectAudit/Number/Shortest.lean

The text of a binary number: the fewest decimal digits that read back as the same
number, the nearest such decimal among those.  For one digit, two digits and so on
the two neighbours of the value on that decimal grid are tested against the
interval of reals that round to the number; 17 digits always suffice.

How the digits are laid out (where the exponent form starts, how the exponent is
written) is one record, `DecimalStyle`.
-/
import ObjectAudit.Number.Double

namespace ObjectAudit

/-- Decimal digits `0.digits * 10 ^ point`. -/
structure Digits where
  /-- The digits, most significant first, without trailing zeros. -/
  digits : List Char
  /-- How many of the digits stand before the decimal point. -/
  point : Int
deriving DecidableEq, Repr

def decimalDigits (n : Nat) : List Char := Nat.toDigits 10 n

namespace Double

/-- The finite number `significand * 2 ^ exponent` measured on the grid `10 ^ grid`:
`quarters` quarter units of the number, over a common denominator. -/
private def gridNum (exponent grid : Int) (quarters : Nat) : Nat :=
  quarters * Nat.pow 2 (exponent - 2).toNat * Nat.pow 10 (-grid).toNat

private def gridDen (exponent grid : Int) : Nat :=
  Nat.pow 2 (2 - exponent).toNat * Nat.pow 10 grid.toNat

/-- Does the grid point `n` read back as the number?  The interval of reals that
round to it reaches half a unit up and half a unit down, a quarter at a power of
two; its ends belong to it if the significand is even. -/
private def readsBack (significand : Nat) (exponent grid : Int) (n : Nat) : Bool :=
  -- at a power of two the neighbour below is half as far away
  let lowerGap := if significand = Nat.pow 2 52 ∧ minExponent < exponent then 1 else 2
  let low := gridNum exponent grid (4 * significand - lowerGap)
  let high := gridNum exponent grid (4 * significand + 2)
  let here := n * gridDen exponent grid
  if significand % 2 = 0 then low ≤ here && here ≤ high else low < here && here < high

/-- The grid point nearest to the number among those of its two neighbours on the
grid that read back as it. -/
private def onGrid? (significand : Nat) (exponent grid : Int) : Option Nat :=
  let den := gridDen exponent grid
  let value := gridNum exponent grid (4 * significand)
  let below := value / den
  let above := below + 1
  match readsBack significand exponent grid below, readsBack significand exponent grid above with
  -- both will do: the nearer one
  | true, true => some (roundQuotient value den)
  | true, false => some below
  | false, true => some above
  | false, false => none

/-- How many digits the integer part of the number has; below one, minus the
number of zeros after the point. -/
private def pointOf (significand : Nat) (exponent : Int) : Int :=
  let scaled :=
    significand * Nat.pow 2 exponent.toNat * Nat.pow 10 400 / Nat.pow 2 (-exponent).toNat
  (decimalDigits scaled).length - 400

/-- The shortest digits of `significand * 2 ^ exponent`, a number above zero. -/
def shortestDigits (significand : Nat) (exponent : Int) : Digits :=
  let point := pointOf significand exponent
  let attempt (count : Nat) : Option (Nat × Int) :=
    let grid := point - count
    (onGrid? significand exponent grid).map fun n => (n, grid)
  -- seventeen digits always do
  let (n, grid) := ((List.range 17).map (· + 1)).findSome? attempt |>.getD (0, 0)
  let written := decimalDigits n
  { digits := (written.reverse.dropWhile (· == '0')).reverse
    point := grid + written.length }

end Double

/-- How decimal digits are laid out. -/
structure DecimalStyle where
  /-- The least decimal exponent that is written positionally. -/
  leastPositional : Int
  /-- The first decimal exponent above those written positionally. -/
  firstScientific : Int
  /-- An exponent is written with at least this many digits. -/
  exponentWidth : Nat
deriving Repr

/-- Numbers in messages: positional from `0.0001` up to below `10 ^ 16`, else with a
signed exponent of at least two digits. -/
def messageStyle : DecimalStyle :=
  { leastPositional := -4, firstScientific := 16, exponentWidth := 2 }

private def padZeros (width : Nat) (cs : List Char) : List Char :=
  List.replicate (width - cs.length) '0' ++ cs

/-- Lay out digits in a style.  A positional number always has a digit after the
point. -/
def Digits.layout (style : DecimalStyle) (d : Digits) : List Char :=
  let exponent := d.point - 1
  if style.leastPositional ≤ exponent ∧ exponent < style.firstScientific then
    if d.point ≤ 0 then
      '0' :: '.' :: List.replicate (-d.point).toNat '0' ++ d.digits
    else
      let whole := d.point.toNat
      if d.digits.length ≤ whole then
        d.digits ++ List.replicate (whole - d.digits.length) '0' ++ ['.', '0']
      else d.digits.take whole ++ '.' :: d.digits.drop whole
  else
    let mantissa := match d.digits with
      | [] => ['0']
      | [c] => [c]
      | c :: cs => c :: '.' :: cs
    let sign := if exponent < 0 then '-' else '+'
    mantissa ++ 'e' :: sign :: padZeros style.exponentWidth (decimalDigits exponent.natAbs)

namespace Double

private def signed (negative : Bool) (cs : List Char) : String :=
  String.ofList (if negative then '-' :: cs else cs)

/-- The text of a number: its shortest digits in a style. -/
def text (style : DecimalStyle) : Double → String
  | .nan => "nan"
  | .infinite negative => signed negative ['i', 'n', 'f']
  | .finite negative 0 _ => signed negative ['0', '.', '0']
  | .finite negative significand exponent =>
    signed negative ((shortestDigits significand exponent).layout style)

/-- The text of a number with a fixed number of decimal places, its exact value
rounded to the nearest and a half to the even neighbour. -/
def fixed (places : Nat) : Double → String
  | .nan => "nan"
  | .infinite negative => signed negative ['i', 'n', 'f']
  | .finite negative significand exponent =>
    let scaled := roundQuotient (significand * Nat.pow 2 exponent.toNat * Nat.pow 10 places)
      (Nat.pow 2 (-exponent).toNat)
    let cs := padZeros (places + 1) (decimalDigits scaled)
    let whole := cs.length - places
    signed negative (cs.take whole ++ (if places = 0 then [] else '.' :: cs.drop whole))

end Double

end ObjectAudit
