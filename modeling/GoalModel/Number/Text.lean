import GoalModel.Number.Shortest
import GoalModel.Text.Digits

/-! # Numbers as text

Writing: `NumberFormat` holds what a place of use decides about the text of a number, and
`Number.write` does the rest with the fewest digits that read back. Four places write numbers:
an inspection of a model (`NumberFormat.inspection`), the generated program
(`NumberFormat.program`), a message (`NumberFormat.message`) and JSON text
(`NumberFormat.json`).

Reading: `Number.ofText?` reads a number written alone, `Number.ofLiteral` turns the digits of a
literal that some grammar has found into the nearest number. -/

namespace GoalModel

/-- How a place of use writes numbers. A number whose leading digit has a decimal exponent in
`positional` is written with its digits in place, all others with an exponent. -/
structure NumberFormat where
  /-- The least and the greatest exponent of the leading digit in positional form; without them
  all numbers are positional. -/
  positional : Option (Int × Int)
  /-- Whole numbers in positional form end in `.0`. -/
  wholeFraction : Bool
  /-- A single digit before an exponent is followed by `.0`. -/
  exponentFraction : Bool
  /-- Positive exponents have a sign. -/
  exponentPlus : Bool
  tie : Tie

namespace NumberFormat

/-- An inspected number shows that it is one: `1.0`, `0.5`, `1e-5`, `1.5e16`. -/
def inspection : NumberFormat := ⟨some (-4, 15), true, false, false, .up⟩

/-- A program's number has a fraction also before an exponent: `1.0e-5`. -/
def program : NumberFormat := ⟨some (-4, 15), true, true, false, .up⟩

/-- A message writes every digit in its place and whole numbers without a point. -/
def message : NumberFormat := ⟨none, false, false, false, .up⟩

/-- JSON text writes `0.00001`, `1.0`, `1.5e-7`, `1e+22`. -/
def json : NumberFormat := ⟨some (-5, 15), true, false, true, .even⟩

end NumberFormat

namespace Number

def zeros (n : Nat) : List Char := List.replicate n '0'

/-- Digits in their places; `last` is the power of ten of the last digit. -/
def positionalText (format : NumberFormat) (digits : List Char) (last : Int) : List Char :=
  let point := digits.length + last
  if 0 ≤ last then
    digits ++ zeros last.toNat ++ (if format.wholeFraction then ['.', '0'] else [])
  else if 0 < point then
    digits.take point.toNat ++ '.' :: digits.drop point.toNat
  else '0' :: '.' :: (zeros (-point).toNat ++ digits)

/-- One digit, the others after a point, and the exponent of the first digit. -/
def exponentText (format : NumberFormat) (digits : List Char) (leading : Int) : List Char :=
  let mantissa :=
    match digits with
    | [digit] => digit :: (if format.exponentFraction then ['.', '0'] else [])
    | digit :: rest => digit :: '.' :: rest
    | [] => []
  let sign :=
    if leading < 0 then ['-'] else if format.exponentPlus then ['+'] else []
  mantissa ++ 'e' :: (sign ++ Nat.toDigits 10 leading.natAbs)

/-- Digits in positional form where the format has it, and with an exponent otherwise. -/
def digitsText (format : NumberFormat) (digits : List Char) (last : Int) : List Char :=
  let leading := digits.length + last - 1
  match format.positional with
  | none => positionalText format digits last
  | some (least, greatest) =>
    if least ≤ leading ∧ leading ≤ greatest then positionalText format digits last
    else exponentText format digits leading

/-- The text of a finite magnitude. -/
def magnitudeText (format : NumberFormat) (rank : Nat) : List Char :=
  let written := (Decimal.shortest format.tie rank).significantDigits
  digitsText format written.1 written.2

/-- The text of a number in a format. -/
def write (format : NumberFormat) : Number → String
  | .nan => "NaN"
  | .ranked negative rank =>
    let text :=
      if rank.val = infinityRank then ['i', 'n', 'f']
      else if rank.val = 0 then positionalText format ['0'] 0
      else magnitudeText format rank.val
    String.ofList (if negative then '-' :: text else text)

/-! ## Reading -/

/-- The number nearest to a literal: the digits before and after its point, and its exponent. -/
def ofLiteral (negative : Bool) (whole fraction : List Char) (exponent : Int) : Number :=
  ofDecimal negative (Text.decimalValue (whole ++ fraction)) (exponent - fraction.length)

/-- An optional sign: whether it is a minus, and the rest. -/
def takeSign : List Char → Bool × List Char
  | '-' :: rest => (true, rest)
  | '+' :: rest => (false, rest)
  | cs => (false, cs)

/-- An exponent with its mark, or nothing at all. -/
def exponentPart? : List Char → Option Int
  | [] => some 0
  | mark :: cs =>
    let (negative, digits) := takeSign cs
    if (mark == 'e' || mark == 'E') && !digits.isEmpty && digits.all Char.isDigit then
      some (if negative then -(Text.decimalValue digits : Int) else Text.decimalValue digits)
    else none

/-- Digits with an optional point among or beside them, and an optional exponent. -/
def unsignedLiteral? (negative : Bool) (cs : List Char) : Option Number :=
  let whole := cs.takeWhile Char.isDigit
  let afterWhole := cs.dropWhile Char.isDigit
  let (fraction, rest) :=
    match afterWhole with
    | '.' :: r => (r.takeWhile Char.isDigit, r.dropWhile Char.isDigit)
    | r => ([], r)
  if whole.isEmpty && fraction.isEmpty then none
  else (exponentPart? rest).map (ofLiteral negative whole fraction)

/-- Reads a number written alone: a sign, then `inf`, `infinity` or `nan` in any case of letters,
or a decimal literal. -/
def ofText? (text : String) : Option Number :=
  let (negative, body) := takeSign text.toList
  let word := body.map Char.toLower
  if word = ['i', 'n', 'f'] ∨ word = ['i', 'n', 'f', 'i', 'n', 'i', 't', 'y'] then
    some (infinity negative)
  else if word = ['n', 'a', 'n'] then some .nan
  else unsignedLiteral? negative body

end Number

end GoalModel
