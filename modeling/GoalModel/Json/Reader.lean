import GoalModel.Json.Basic
import GoalModel.Number.Stepwise
import GoalModel.Number.Text
import GoalModel.Text.Digits

/-! # Reading JSON text

A reader by recursive descent over the characters, strict in everything: no byte order mark, no
control character in a string, no lone half of a surrogate pair, no number beyond the finite
ones, nothing but blanks behind the value, and no more levels of arrays and objects than the
reader is asked for. Numbers that are no integers are rounded step by step
(`Number.stepwise?`). Every step takes at least one character, so the length of the text bounds
the number of steps (the first argument of `readValue`). -/

namespace GoalModel.Json

def isBlank (c : Char) : Bool := c == ' ' || c == '\t' || c == '\n' || c == '\r'

def skipBlanks (cs : List Char) : List Char := cs.dropWhile isBlank

/-! ## Strings -/

/-- The character of an escape with one letter. -/
def escapedChar? (c : Char) : Option Char :=
  if c = '"' ∨ c = '\\' ∨ c = '/' then some c
  else if c = 'b' then some (Char.ofNat 8)
  else if c = 'f' then some (Char.ofNat 12)
  else if c = 'n' then some '\n'
  else if c = 'r' then some '\r'
  else if c = 't' then some '\t'
  else none

/-- The character of a surrogate pair. -/
def pairedChar? (high low : Nat) : Option Char :=
  if 0xD800 ≤ high ∧ high < 0xDC00 ∧ 0xDC00 ≤ low ∧ low < 0xE000 then
    some (Char.ofNat (0x10000 + (high - 0xD800) * 0x400 + (low - 0xDC00)))
  else none

/-- The character of a unit that is no half of a pair. -/
def singleChar? (unit : Nat) : Option Char :=
  if 0xD800 ≤ unit ∧ unit < 0xE000 then none else some (Char.ofNat unit)

/-- Reads up to the closing quote; `read` holds the characters so far, the last one first. -/
def readString (read : List Char) : List Char → Option (String × List Char)
  | [] => none
  | '"' :: rest => some (String.ofList read.reverse, rest)
  | '\\' :: 'u' :: a :: b :: c :: d :: '\\' :: 'u' :: e :: f :: g :: h :: rest =>
    match Text.hexValue? [a, b, c, d] with
    | none => none
    | some unit =>
      match singleChar? unit with
      | some char => readString (char :: read) ('\\' :: 'u' :: e :: f :: g :: h :: rest)
      | none =>
        match (Text.hexValue? [e, f, g, h]).bind (pairedChar? unit) with
        | some char => readString (char :: read) rest
        | none => none
  | '\\' :: 'u' :: a :: b :: c :: d :: rest =>
    match (Text.hexValue? [a, b, c, d]).bind singleChar? with
    | some char => readString (char :: read) rest
    | none => none
  | '\\' :: c :: rest =>
    match escapedChar? c with
    | some char => readString (char :: read) rest
    | none => none
  | c :: rest => if c.toNat < 32 ∨ c = '\\' then none else readString (c :: read) rest

/-! ## Numbers -/

/-- Digits after a point; a point without digits is refused. -/
def readFraction : List Char → Option (List Char × List Char)
  | '.' :: cs =>
    if (cs.takeWhile Char.isDigit).isEmpty then none
    else some (cs.takeWhile Char.isDigit, cs.dropWhile Char.isDigit)
  | cs => some ([], cs)

/-- An exponent, if there is one; a mark without digits is refused. -/
def readExponent : List Char → Option (Option Int × List Char)
  | [] => some (none, [])
  | c :: cs =>
    if c = 'e' ∨ c = 'E' then
      let (negative, digits) := Number.takeSign cs
      if (digits.takeWhile Char.isDigit).isEmpty then none
      else
        let value : Int := Text.decimalValue (digits.takeWhile Char.isDigit)
        some (some (if negative then -value else value), digits.dropWhile Char.isDigit)
    else some (none, c :: cs)

/-- Whether an integer is kept as one: it fits 64 bits, signed or not. -/
def fitsInteger (n : Int) : Bool := decide (-0x8000000000000000 ≤ n ∧ n ≤ 0xFFFFFFFFFFFFFFFF)

/-- The value of a literal without a fraction and an exponent. The negative zero is no integer. -/
def wholeNumber (negative : Bool) (digits : List Char) : Option Json :=
  let magnitude := Text.decimalValue digits
  let value : Int := if negative then -(magnitude : Int) else magnitude
  if fitsInteger value && !(negative && magnitude == 0) then some (.int value)
  else (Number.stepwise? negative digits [] 0).map .float

/-- A number: digits without a leading zero, a fraction, an exponent. -/
def readNumber (cs : List Char) : Option (Json × List Char) := do
  let (negative, cs) := match cs with
    | '-' :: rest => (true, rest)
    | cs => (false, cs)
  let whole := cs.takeWhile Char.isDigit
  if whole.isEmpty || (whole.length > 1 && whole.head? == some '0') then none
  else
    let (fraction, cs) ← readFraction (cs.dropWhile Char.isDigit)
    let (exponent, cs) ← readExponent cs
    if fraction.isEmpty && exponent.isNone then
      return (← wholeNumber negative whole, cs)
    else
      return (.float (← Number.stepwise? negative whole fraction (exponent.getD 0)), cs)

/-! ## Values -/

/-- A value without members or items that starts at the first character. -/
def readScalar (cs : List Char) : Option (Json × List Char) :=
  match cs with
  | '"' :: rest => (readString [] rest).map fun (s, rest) => (.string s, rest)
  | 't' :: 'r' :: 'u' :: 'e' :: rest => some (.bool true, rest)
  | 'f' :: 'a' :: 'l' :: 's' :: 'e' :: rest => some (.bool false, rest)
  | 'n' :: 'u' :: 'l' :: 'l' :: rest => some (.null, rest)
  | cs => readNumber cs

mutual

/-- Reads a value after blanks. `levels` is how many arrays and objects may still be opened. -/
def readValue : (steps levels : Nat) → List Char → Option (Json × List Char)
  | 0, _, _ => none
  | steps + 1, levels, cs =>
    match skipBlanks cs, levels with
    | '[' :: _, 0 => none
    | '\x7b' :: _, 0 => none
    | '[' :: rest, levels + 1 =>
      match skipBlanks rest with
      | ']' :: rest => some (.array [], rest)
      | rest => readItems steps levels [] rest
    | '\x7b' :: rest, levels + 1 =>
      match skipBlanks rest with
      | '\x7d' :: rest => some (.object [], rest)
      | rest => readMembers steps levels [] rest
    | cs, _ => readScalar cs

/-- Reads the items of an array up to its end; `read` holds those so far, the last one first. -/
def readItems : (steps levels : Nat) → List Json → List Char → Option (Json × List Char)
  | 0, _, _, _ => none
  | steps + 1, levels, read, cs =>
    match readValue steps levels cs with
    | none => none
    | some (item, rest) =>
      match skipBlanks rest with
      | ',' :: rest => readItems steps levels (item :: read) rest
      | ']' :: rest => some (.array (item :: read).reverse, rest)
      | _ => none

/-- Reads the members of an object up to its end. -/
def readMembers :
    (steps levels : Nat) → List (String × Json) → List Char → Option (Json × List Char)
  | 0, _, _, _ => none
  | steps + 1, levels, read, cs =>
    match skipBlanks cs with
    | '"' :: rest =>
      match readString [] rest with
      | none => none
      | some (name, rest) =>
        match skipBlanks rest with
        | ':' :: rest =>
          match readValue steps levels rest with
          | none => none
          | some (value, rest) =>
            match skipBlanks rest with
            | ',' :: rest => readMembers steps levels (setMember name value read) rest
            | '\x7d' :: rest => some (.object (setMember name value read), rest)
            | _ => none
        | _ => none
    | _ => none

end

/-- Reads a text that holds one value with at most `levels` levels of arrays and objects. -/
def readWithin? (levels : Nat) (text : String) : Option Json :=
  let cs := text.toList
  match readValue (2 * cs.length + 1) levels cs with
  | some (value, rest) => if (skipBlanks rest).isEmpty then some value else none
  | none => none

/-- The most levels of arrays and objects that a text may have. -/
def maxDepth : Nat := 127

/-- Reads a text that holds one value. -/
def read? (text : String) : Option Json := readWithin? maxDepth text

end GoalModel.Json
