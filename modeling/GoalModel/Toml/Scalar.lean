import GoalModel.Number.Text

/-! # Numbers and dates in TOML

Which runs of characters are integers, floating-point numbers, dates and times. Digits may be
set apart by single underscores in numbers, never in dates. An integer has at most 128 bits, and
no digits make an infinite number. -/

namespace GoalModel.Toml

/-- Digits with single underscores between them. -/
def isDigitRun (isDigit : Char → Bool) : List Char → Bool
  | [] => false
  | [c] => isDigit c
  | '_' :: _ => false
  | c :: '_' :: rest => isDigit c && isDigitRun isDigit rest
  | c :: rest => isDigit c && isDigitRun isDigit rest

def dropSign : List Char → List Char
  | '+' :: rest => rest
  | '-' :: rest => rest
  | cs => cs

/-- Decimal digits without a leading zero. -/
def isWhole (cs : List Char) : Bool :=
  isDigitRun Char.isDigit cs && (cs.length = 1 || cs.head? != some '0')

/-- The natural number that digits in a base stand for. -/
def valueIn (base : Nat) (digits : List Char) : Nat :=
  (digits.filterMap Text.hexDigitValue?).foldl (fun n d => n * base + d) 0

/-- The digits of an unsigned integer in a base. -/
def isUnsigned (base : Nat) (digits : List Char) : Bool :=
  isDigitRun (fun c => (Text.hexDigitValue? c).any (· < base)) digits &&
    (valueIn base digits).log2 < 128

def isInteger (cs : List Char) : Bool :=
  match cs with
  | '0' :: 'x' :: digits => isUnsigned 16 digits
  | '0' :: 'o' :: digits => isUnsigned 8 digits
  | '0' :: 'b' :: digits => isUnsigned 2 digits
  | '-' :: digits => isWhole digits && (valueIn 10 digits - 1).log2 < 127
  | cs => isWhole (dropSign cs) && (valueIn 10 cs).log2 < 128

/-- An exponent behind its mark. -/
def isExponent (cs : List Char) : Bool := isDigitRun Char.isDigit (dropSign cs)

/-- Whether the number of a literal is a finite one. -/
def isFiniteLiteral (cs : List Char) : Bool :=
  (Number.unsignedLiteral? false (cs.filter (· ≠ '_'))).any Number.isFinite

def isFloat (cs : List Char) : Bool :=
  let body := dropSign cs
  if body = ['i', 'n', 'f'] ∨ body = ['n', 'a', 'n'] then true
  else
    let isMark (c : Char) : Bool := c == 'e' || c == 'E'
    let mantissa := body.takeWhile fun c => !isMark c
    let exponent := body.dropWhile fun c => !isMark c
    let whole := mantissa.takeWhile (· ≠ '.')
    let hasExponent := !exponent.isEmpty
    isWhole whole &&
      (match mantissa.dropWhile (· ≠ '.') with
        | '.' :: fraction => isDigitRun Char.isDigit fraction
        | _ => hasExponent) &&
      (!hasExponent || isExponent (exponent.drop 1)) && isFiniteLiteral body

/-! ## Dates and times -/

/-- The number of a fixed count of digits. -/
def fixedDigits? (count : Nat) (cs : List Char) : Option Nat :=
  if cs.length = count ∧ cs.all Char.isDigit then
    some (Text.decimalValue cs)
  else none

def isLeapYear (year : Nat) : Bool := year % 4 = 0 && (year % 100 != 0 || year % 400 = 0)

def daysIn (year month : Nat) : Nat :=
  if month = 2 then (if isLeapYear year then 29 else 28)
  else if month = 4 ∨ month = 6 ∨ month = 9 ∨ month = 11 then 30
  else 31

/-- `1979-05-27`. -/
def isDate (cs : List Char) : Bool :=
  match fixedDigits? 4 (cs.take 4), (cs.drop 4).take 1, fixedDigits? 2 ((cs.drop 5).take 2),
    (cs.drop 7).take 1, fixedDigits? 2 (cs.drop 8) with
  | some year, ['-'], some month, ['-'], some day =>
    1 ≤ month && month ≤ 12 && 1 ≤ day && day ≤ daysIn year month
  | _, _, _, _, _ => false

/-- `07:32`. -/
def isHourMinute (cs : List Char) : Bool :=
  match fixedDigits? 2 (cs.take 2), (cs.drop 2).take 1, fixedDigits? 2 (cs.drop 3) with
  | some hour, [':'], some minute => hour ≤ 23 && minute ≤ 59
  | _, _, _ => false

/-- `07:32`, `07:32:00` or `07:32:00.5`. -/
def isTime (cs : List Char) : Bool :=
  isHourMinute (cs.take 5) &&
    match cs.drop 5 with
    | [] => true
    | ':' :: seconds =>
      (match fixedDigits? 2 (seconds.take 2) with
        | some second => second ≤ 60
        | none => false) &&
      (match seconds.drop 2 with
        | [] => true
        | '.' :: fraction => !fraction.isEmpty && fraction.all Char.isDigit
        | _ => false)
    | _ => false

/-- A time with the offset of its zone, or without one. -/
def isZonedTime (cs : List Char) : Bool :=
  let isZone (c : Char) : Bool := c == 'Z' || c == 'z' || c == '+' || c == '-'
  isTime (cs.takeWhile fun c => !isZone c) &&
    match cs.dropWhile fun c => !isZone c with
    | [] => true
    | ['Z'] => true
    | ['z'] => true
    | '+' :: offset => isHourMinute offset
    | '-' :: offset => isHourMinute offset
    | _ => false

def isDateTime (cs : List Char) : Bool :=
  isDate (cs.take 10) &&
    match cs.drop 10 with
    | [] => true
    | c :: time => (c == 'T' || c == 't' || c == ' ') && isZonedTime time

/-- Whether a run of characters is a number, a date or a time. -/
def isNumberOrDate (cs : List Char) : Bool :=
  isInteger cs || isFloat cs || isDateTime cs || isTime cs

end GoalModel.Toml
