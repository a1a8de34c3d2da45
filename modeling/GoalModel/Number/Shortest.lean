import GoalModel.Number.Basic

/-! # The fewest digits that read back

`Decimal.shortest` writes a finite rank with as few decimal digits as read back to it. For
`1, 2, ... 17` digits it takes the two neighbours of the value on that decimal grid and tests
literally whether they read back; the first grid with a hit wins, of two hits the nearer one.
Whatever the search finds reads back (`Decimal.rank_withDigits?`). Seventeen digits are always
enough; the exact value stands behind the search. -/

namespace GoalModel

/-- The decimal `coefficient * 10 ^ exponent`. -/
structure Decimal where
  coefficient : Nat
  exponent : Int
  deriving DecidableEq, Repr

/-- Which of two equally near decimals is written. -/
inductive Tie where
  | up
  | even
  deriving DecidableEq, Repr

namespace Decimal

/-- The rank that a decimal reads as. -/
def rank (d : Decimal) : Nat := (Number.rankOfDecimal d.coefficient d.exponent).val

/-- The exponent of the leading decimal digit of `units / 2 ^ 1074`, for `units` not zero. The
least positive value is above `10 ^ (-330)`, so the digits of the integer part of its multiple
by `10 ^ 330` tell the exponent. -/
def leadingExponent (units : Nat) : Int :=
  (Number.decimalLength (units * Nat.pow 10 330 / Number.unitsOfOne) : Int) - 331

/-- The value written with steps of `10 ^ exponent`, as a quotient of two naturals. -/
def steps (units : Nat) (exponent : Int) : Nat × Nat :=
  if 0 ≤ exponent then (units, Number.unitsOfOne * Nat.pow 10 exponent.toNat)
  else (units * Nat.pow 10 (-exponent).toNat, Number.unitsOfOne)

/-- Whether the upper one of the two neighbours `q` and `q + 1` of `n / d` is to be taken. -/
def takesUpper (tie : Tie) (n d : Nat) : Bool :=
  if 2 * (n % d) = d then
    match tie with
    | .up => true
    | .even => n / d % 2 == 1
  else decide (d < 2 * (n % d))

/-- The two neighbours of the value on the grid with the given number of digits, the nearer one
first. -/
def neighbours (tie : Tie) (target count : Nat) : List Decimal :=
  let units := Number.units target
  let exponent := leadingExponent units - count + 1
  let (n, d) := steps units exponent
  let lower : Decimal := ⟨n / d, exponent⟩
  let upper : Decimal := ⟨n / d + 1, exponent⟩
  if takesUpper tie n d then [upper, lower] else [lower, upper]

/-- The nearest decimal with the given number of digits that reads back, if one does. -/
def withDigits? (tie : Tie) (target count : Nat) : Option Decimal :=
  (neighbours tie target count).find? fun d => d.rank == target

/-- The exact value of a rank: `units / 2 ^ 1074 = units * 5 ^ 1074 / 10 ^ 1074`. -/
def exact (target : Nat) : Decimal := ⟨Number.units target * Nat.pow 5 1074, -1074⟩

/-- The shortest decimal that reads back to `target`. -/
def shortest (tie : Tie) (target : Nat) : Decimal :=
  ((List.range 17).findSome? fun n => withDigits? tie target (n + 1)).getD (exact target)

/-- The digits of a decimal without its trailing zeros, and the power of ten of the last one. -/
def significantDigits (d : Decimal) : List Char × Int :=
  let digits := Nat.toDigits 10 d.coefficient
  let kept := (digits.reverse.dropWhile (· == '0')).reverse
  if kept.isEmpty then (['0'], 0) else (kept, d.exponent + (digits.length - kept.length : Nat))

theorem rank_withDigits? {tie : Tie} {target count : Nat} {d : Decimal}
    (h : withDigits? tie target count = some d) : d.rank = target := by
  rw [withDigits?] at h
  have hit := List.find?_some h
  exact eq_of_beq hit

end Decimal

end GoalModel
