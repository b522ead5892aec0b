/-! Powers of the two bases, and rounding an exact quotient to an integer. -/
namespace XPath

def pow2 (n : Nat) : Nat := Nat.pow 2 n
def pow10 (n : Nat) : Nat := Nat.pow 10 n

/-- The quotient rounded to the nearest integer, a half to the even neighbour. -/
def roundHalfEven (num den : Nat) : Nat :=
  let q := num / den
  let twice := 2 * (num % den)
  if den < twice || (twice == den && q % 2 == 1) then q + 1 else q

/-- The quotient rounded to the nearest integer, a half away from zero. -/
def roundHalfUp (num den : Nat) : Nat :=
  if den ≤ 2 * (num % den) then num / den + 1 else num / den

/-- The number of decimal digits, at least one. -/
def digitCount (n : Nat) : Nat := (Nat.toDigits 10 n).length

end XPath
