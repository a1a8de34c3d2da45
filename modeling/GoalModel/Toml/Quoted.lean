import GoalModel.Text.Digits

/-! # Strings in TOML

Basic strings between double quotes have escapes, literal strings between single quotes have
none; three quotes make a string that may go over several lines. Every function here starts
behind the opening quotes and gives the characters of the string and what follows it. -/

namespace GoalModel.Toml

/-- Control characters may not stand in a string or a comment; a tab is none. -/
def isControl (c : Char) : Bool := (c.toNat < 32 && c != '\t') || c.toNat == 127

/-- The character with the number that some hexadecimal digits stand for. -/
def numberedChar? (digits : List Char) : Option Char := do
  let n ← Text.hexValue? digits
  if n.isValidChar then some (Char.ofNat n) else none

/-- The character of an escape with one letter. -/
def escapedChar? (c : Char) : Option Char :=
  if c = '"' ∨ c = '\\' then some c
  else if c = 'b' then some (Char.ofNat 8)
  else if c = 't' then some '\t'
  else if c = 'n' then some '\n'
  else if c = 'f' then some (Char.ofNat 12)
  else if c = 'r' then some '\r'
  else if c = 'e' then some (Char.ofNat 27)
  else none

/-- The character of an escape, behind its backslash. -/
def readEscape : List Char → Option (Char × List Char)
  | 'x' :: a :: b :: rest => (numberedChar? [a, b]).map fun c => (c, rest)
  | 'u' :: a :: b :: c :: d :: rest => (numberedChar? [a, b, c, d]).map fun c => (c, rest)
  | 'U' :: a :: b :: c :: d :: e :: f :: g :: h :: rest =>
    (numberedChar? [a, b, c, d, e, f, g, h]).map fun c => (c, rest)
  | c :: rest => (escapedChar? c).map fun c => (c, rest)
  | [] => none

/-- A basic string on one line. -/
def readBasic : (steps : Nat) → (read : List Char) → List Char → Option (List Char × List Char)
  | 0, _, _ => none
  | _ + 1, _, [] => none
  | _ + 1, read, '"' :: rest => some (read.reverse, rest)
  | steps + 1, read, '\\' :: rest =>
    (readEscape rest).bind fun (c, rest) => readBasic steps (c :: read) rest
  | steps + 1, read, c :: rest =>
    if isControl c then none else readBasic steps (c :: read) rest

/-- A literal string on one line. -/
def readLiteral (cs : List Char) : Option (List Char × List Char) :=
  let text := cs.takeWhile (· ≠ '\'')
  match cs.dropWhile (· ≠ '\'') with
  | [] => none
  | _ :: rest => if text.any isControl then none else some (text, rest)

/-- The rest of a string of several lines without a line break at its very start. -/
def dropFirstBreak : List Char → List Char
  | '\n' :: rest => rest
  | '\r' :: '\n' :: rest => rest
  | cs => cs

def isLineBlank (c : Char) : Bool := c == ' ' || c == '\t'

/-- What follows a backslash at the end of a line: the rest without blanks and line breaks. -/
def afterLineEnd? (cs : List Char) : Option (List Char) :=
  match cs.dropWhile isLineBlank with
  | '\n' :: rest => some (rest.dropWhile fun c => isLineBlank c || c == '\n' || c == '\r')
  | '\r' :: '\n' :: rest =>
    some (rest.dropWhile fun c => isLineBlank c || c == '\n' || c == '\r')
  | _ => none

/-- A string of several lines between three quotes each. Up to two quotes more at its end belong
to the string. -/
def readLines (quote : Char) (escapes : Bool) :
    (steps : Nat) → (read : List Char) → List Char → Option (List Char × List Char)
  | 0, _, _ => none
  | _ + 1, _, [] => none
  | steps + 1, read, c :: rest =>
    if c = quote then
      let quotes := (c :: rest).takeWhile (· = quote)
      let behind := (c :: rest).dropWhile (· = quote)
      if quotes.length < 3 then readLines quote escapes steps (quotes ++ read) behind
      else if quotes.length ≤ 5 then some ((quotes.drop 3 ++ read).reverse, behind)
      else none
    else if c = '\\' ∧ escapes then
      match afterLineEnd? rest with
      | some rest => readLines quote escapes steps read rest
      | none =>
        (readEscape rest).bind fun (c, rest) => readLines quote escapes steps (c :: read) rest
    else if c = '\r' then
      if rest.head? = some '\n' then readLines quote escapes steps (c :: read) rest else none
    else if isControl c ∧ c ≠ '\n' then none
    else readLines quote escapes steps (c :: read) rest

/-- A string from its opening quotes on; `lines` allows it to go over several lines. -/
def readString (lines : Bool) (cs : List Char) : Option (String × List Char) :=
  let found := match cs with
    | '"' :: '"' :: '"' :: rest =>
      if lines then readLines '"' true (rest.length + 1) [] (dropFirstBreak rest) else none
    | '\'' :: '\'' :: '\'' :: rest =>
      if lines then readLines '\'' false (rest.length + 1) [] (dropFirstBreak rest) else none
    | '"' :: rest => readBasic (rest.length + 1) [] rest
    | '\'' :: rest => readLiteral rest
    | _ => none
  found.map fun (text, rest) => (String.ofList text, rest)

end GoalModel.Toml
