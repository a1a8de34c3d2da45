import GoalModel.Number.Basic
import GoalModel.Text.Digits

/-! # Literals read in steps

A reader that takes a literal one digit at a time keeps an integer of 64 bits and the power of ten
that is still missing, and scales the one by the other at the end (`Number.stepwise?`). The
integer, the power and what comes of the two are each rounded for themselves, so the outcome is
not always the nearest number, which `Number.ofDecimal` is: `1e-30` becomes a neighbour of it. -/

namespace GoalModel.Number

/-! ## Scaling by powers of ten -/

/-- The product of two finite magnitudes, rounded. -/
def product (a b : Nat) : Fin (infinityRank + 1) :=
  rankOfQuotient (units a * units b) (unitsOfOne * unitsOfOne)

/-- The quotient of two finite magnitudes, rounded. -/
def quotient (a b : Nat) : Fin (infinityRank + 1) := rankOfQuotient (units a) (units b)

/-- The magnitude nearest to `10 ^ n`. -/
def powerOfTen (n : Nat) : Fin (infinityRank + 1) := rankOfQuotient (Nat.pow 10 n) 1

/-- The exponent of the greatest power of ten that is finite. -/
def maxPower : Nat := 308

/-- A magnitude times `10 ^ n`, unless this is infinite. -/
def raised? (rank : Fin (infinityRank + 1)) (n : Nat) : Option (Fin (infinityRank + 1)) :=
  if n ≤ maxPower then
    let result := product rank (powerOfTen n)
    if result.val < infinityRank then some result else none
  else if rank.val = 0 then some rank
  else none

/-- A magnitude divided by the greatest power of ten so many times, or until nothing is left. -/
def loweredByMax : Nat → Fin (infinityRank + 1) → Fin (infinityRank + 1)
  | 0, rank => rank
  | times + 1, rank =>
    if rank.val = 0 then rank else loweredByMax times (quotient rank (powerOfTen maxPower))

/-- A magnitude divided by `10 ^ (n + 1)`: by the greatest power for as long as more than this is
asked for, and then by the rest, which is never `10 ^ 0`. -/
def lowered (rank : Fin (infinityRank + 1)) (n : Nat) : Fin (infinityRank + 1) :=
  quotient (loweredByMax (n / maxPower) rank) (powerOfTen (n % maxPower + 1))

/-- A magnitude times a power of ten, unless this is infinite. -/
def scaledByTen? (rank : Fin (infinityRank + 1)) : Int → Option (Fin (infinityRank + 1))
  | .ofNat n => raised? rank n
  | .negSucc n => some (lowered rank n)

/-! ## Literals -/

/-- The greatest integer of 64 bits. -/
def maxHeld : Nat := 0xFFFFFFFFFFFFFFFF

/-- Takes in digits until the next one would not fit 64 bits: the integer that they make behind
the one held so far, and the digits left over. -/
def hold (held : Nat) : List Char → Nat × List Char
  | [] => (held, [])
  | digit :: digits =>
    let next := held * 10 + (digit.toNat - '0'.toNat)
    if next ≤ maxHeld then hold next digits else (held, digit :: digits)

/-- The number of a literal, unless it is infinite: the digits before and after its point, and its
exponent. Digits left over before the point count for the exponent, those after it do not. The
first digit after the point may fit where one before it did not. -/
def stepwise? (negative : Bool) (whole fraction : List Char) (exponent : Int) : Option Number :=
  let (held, wholeLeft) := hold 0 whole
  let (significand, fractionLeft) := hold held fraction
  let missing := exponent + wholeLeft.length - (fraction.length - fractionLeft.length : Nat)
  (scaledByTen? (rankOfQuotient significand 1) missing).map (ranked negative)

end GoalModel.Number
