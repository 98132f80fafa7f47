/-
ObjectAudit/Number/Rounding.lean

Rounding of an exact quotient.  Every rounded number of the library (binary
numbers read from text, times shown with one decimal, shares of a column width)
goes through `roundQuotient`: nearest, and a half goes to the even neighbour.
-/

namespace ObjectAudit

/-- The natural number nearest to `num / den`; a half goes to the even neighbour. -/
def roundQuotient (num den : Nat) : Nat :=
  let below := num / den
  let rest := num % den
  if 2 * rest < den then below
  else if den < 2 * rest then below + 1
  else if below % 2 = 0 then below
  else below + 1

end ObjectAudit
