/-! # Binary floating-point numbers

A `Number` is a value of the 64-bit binary floating-point format. The model reads numbers,
compares them and writes them, and computes with them nowhere but in `Number.stepwise?`. So a
number is not a bit pattern but its place in the order: the non-negative values are ranked
`0, 1, 2, ...` upwards from zero, the rank `Number.infinityRank` is infinity, and a sign makes the
negative half.

The value of a finite rank is `significand * 2 ^ scale / 2 ^ 1074` (`Number.units`). Reading
goes the other way: `Number.rankOfQuotient` is the rank nearest to a quotient, a tie going to
the even rank, and `Number.ofDecimal` is the number nearest to `coefficient * 10 ^ exponent`. -/

namespace GoalModel

/-- How many magnitudes lie between a power of two and the next: `2 ^ 52`. -/
def Number.binade : Nat := 0x10000000000000

/-- The rank of infinity: there are `2047` binades of finite magnitudes, zero included. -/
def Number.infinityRank : Nat := 2047 * Number.binade

/-- A number of the 64-bit binary format: not-a-number, or a sign and the rank of a magnitude. -/
inductive Number where
  | nan
  | ranked (negative : Bool) (rank : Fin (Number.infinityRank + 1))
  deriving DecidableEq, Repr

namespace Number

/-- The positive zero. -/
def zero : Number := .ranked false 0

/-- The number one, which stands `1023` binades above the smallest positive value. -/
def one : Number := .ranked false ⟨1023 * binade, by decide⟩

def infinity (negative : Bool) : Number := .ranked negative ⟨infinityRank, Nat.lt_succ_self _⟩

instance : Inhabited Number := ⟨zero⟩

/-- The place of a number in the order of all numbers. Both zeros stand at `0`. -/
def position : Number → Option Int
  | .nan => none
  | .ranked false rank => some rank.val
  | .ranked true rank => some (-(rank.val : Int))

/-- Comparison. Not-a-number is neither below nor above anything. -/
def lt (x y : Number) : Bool :=
  match x.position, y.position with
  | some a, some b => decide (a < b)
  | _, _ => false

def le (x y : Number) : Bool :=
  match x.position, y.position with
  | some a, some b => decide (a ≤ b)
  | _, _ => false

/-- Equality as numbers: the two zeros are equal, and not-a-number differs from itself. -/
def same (x y : Number) : Bool :=
  match x.position, y.position with
  | some a, some b => decide (a = b)
  | _, _ => false

def isFinite : Number → Bool
  | .nan => false
  | .ranked _ rank => decide (rank.val < infinityRank)

/-! ## The value of a rank -/

/-- The integer that a rank scales: below the first binade the rank itself, above it the rank
within its binade with the leading bit put back. -/
def significand (rank : Nat) : Nat :=
  if rank < binade then rank else binade + rank % binade

/-- The power of two, counted from `2 ^ (-1074)`, that the significand is scaled by. -/
def scale (rank : Nat) : Nat := rank / binade - 1

/-- The value of a rank as a multiple of `2 ^ (-1074)`. -/
def units (rank : Nat) : Nat := significand rank <<< scale rank

/-- How many units make one: `2 ^ 1074`. -/
def unitsOfOne : Nat := 1 <<< 1074

/-! ## Rounding -/

/-- The integer nearest to `n / d`; of two equally near ones, the even one. -/
def roundHalfEven (n d : Nat) : Nat :=
  if 2 * (n % d) < d ∨ (2 * (n % d) = d ∧ n / d % 2 = 0) then n / d else n / d + 1

/-- The rank nearest to `n / d`, where a significand has 53 bits unless the scale is the least
one. A significand that rounds up to `2 ^ 53` is the first of the next binade, so the carry
needs no case of its own, and neither does the step to infinity. -/
def rankOfQuotient (n d : Nat) : Fin (infinityRank + 1) :=
  let scaled := n * unitsOfOne
  let s := (scaled / d).log2 - 52
  ⟨min (s * binade + roundHalfEven scaled (d <<< s)) infinityRank,
    Nat.lt_succ_of_le (Nat.min_le_right _ _)⟩

/-- How many decimal digits a natural number has; `0` has one. -/
def decimalLength (n : Nat) : Nat := (Nat.toDigits 10 n).length

/-- The rank nearest to `coefficient * 10 ^ exponent`. A product of at least `10 ^ 310` is beyond
every finite magnitude and one below `10 ^ (-325)` is below half the least positive one, so the
powers that are computed stay small. -/
def rankOfDecimal (coefficient : Nat) (exponent : Int) : Fin (infinityRank + 1) :=
  if coefficient = 0 then 0
  else if 310 < decimalLength coefficient + exponent then
    ⟨infinityRank, Nat.lt_succ_self _⟩
  else if decimalLength coefficient + exponent < -324 then 0
  else if 0 ≤ exponent then rankOfQuotient (coefficient * Nat.pow 10 exponent.toNat) 1
  else rankOfQuotient coefficient (Nat.pow 10 (-exponent).toNat)

/-- The number nearest to `coefficient * 10 ^ exponent` in magnitude, with the given sign. -/
def ofDecimal (negative : Bool) (coefficient : Nat) (exponent : Int) : Number :=
  .ranked negative (rankOfDecimal coefficient exponent)

/-- The number nearest to an integer. -/
def ofInt (n : Int) : Number := ofDecimal (decide (n < 0)) n.natAbs 0

end Number

end GoalModel
