/-! # Digits

The values of decimal and hexadecimal digits. -/

namespace GoalModel.Text

/-- The natural number that a list of decimal digits stands for. -/
def decimalValue (digits : List Char) : Nat :=
  digits.foldl (fun n c => n * 10 + (c.toNat - '0'.toNat)) 0

def hexDigitValue? (c : Char) : Option Nat :=
  if '0' ≤ c ∧ c ≤ '9' then some (c.toNat - '0'.toNat)
  else if 'a' ≤ c ∧ c ≤ 'f' then some (c.toNat - 'a'.toNat + 10)
  else if 'A' ≤ c ∧ c ≤ 'F' then some (c.toNat - 'A'.toNat + 10)
  else none

/-- The natural number that hexadecimal digits stand for. -/
def hexValue? (digits : List Char) : Option Nat := do
  let values ← digits.mapM hexDigitValue?
  return values.foldl (fun n d => n * 16 + d) 0

end GoalModel.Text
