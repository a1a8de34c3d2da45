import GoalModel.Toml.Basic
import GoalModel.Toml.Quoted
import GoalModel.Toml.Scalar

/-! # Reading TOML

`Toml.read?` reads a text line by line into statements and builds their table. Every step takes
at least one character, so the length of the text bounds the number of steps. -/

namespace GoalModel.Toml

def skipBlanks (cs : List Char) : List Char := cs.dropWhile isLineBlank

/-! ## Keys -/

def isBareKeyChar (c : Char) : Bool := c.isAlphanum || c == '_' || c == '-'

/-- One part of a key: bare, or a string on one line. -/
def readKeyPart (cs : List Char) : Option (String × List Char) :=
  match cs with
  | '"' :: _ => readString false cs
  | '\'' :: _ => readString false cs
  | _ =>
    let key := cs.takeWhile isBareKeyChar
    if key.isEmpty then none
    else some (String.ofList key, cs.dropWhile isBareKeyChar)

/-- The parts of a key, with dots between them. -/
def readKey : (steps : Nat) → List Char → Option (List String × List Char)
  | 0, _ => none
  | steps + 1, cs => do
    let (part, rest) ← readKeyPart (skipBlanks cs)
    match skipBlanks rest with
    | '.' :: rest =>
      let (parts, rest) ← readKey steps rest
      return (part :: parts, rest)
    | rest => return ([part], rest)

/-! ## Blank lines and comments -/

/-- The rest behind a comment, which ends before the line does. -/
def skipComment (cs : List Char) : Option (List Char) :=
  match cs with
  | '#' :: rest =>
    let isEnd (c : Char) : Bool := c == '\n' || c == '\r'
    if (rest.takeWhile fun c => !isEnd c).any isControl then none
    else some (rest.dropWhile fun c => !isEnd c)
  | cs => some cs

/-- The rest behind the end of a line, or the end of the text. -/
def endLine (cs : List Char) : Option (List Char) := do
  match ← skipComment (skipBlanks cs) with
  | [] => return []
  | '\n' :: rest => return rest
  | '\r' :: '\n' :: rest => return rest
  | _ => none

/-- The rest behind blanks, comments and line breaks. -/
def skipSpace : (steps : Nat) → List Char → Option (List Char)
  | 0, cs => some cs
  | steps + 1, cs => do
    match ← skipComment (skipBlanks cs) with
    | '\n' :: rest => skipSpace steps rest
    | '\r' :: '\n' :: rest => skipSpace steps rest
    | cs => return cs

/-! ## Values -/

def isScalarChar (c : Char) : Bool :=
  c.isAlphanum || c == '+' || c == '-' || c == '_' || c == '.' || c == ':'

/-- A scalar that is no string. A date may have a blank before its time. -/
def readScalar (cs : List Char) : Option (Value × List Char) :=
  let word := cs.takeWhile isScalarChar
  let rest := cs.dropWhile isScalarChar
  let (word, rest) := match rest with
    | ' ' :: c :: time =>
      if isDate word && c.isDigit then
        (word ++ ' ' :: (c :: time).takeWhile isScalarChar, (c :: time).dropWhile isScalarChar)
      else (word, rest)
    | _ => (word, rest)
  if word = ['t', 'r', 'u', 'e'] then some (.bool true, rest)
  else if word = ['f', 'a', 'l', 's', 'e'] then some (.bool false, rest)
  else if isNumberOrDate word then some (.other, rest)
  else none

mutual

def readValue : (steps : Nat) → List Char → Option (Value × List Char)
  | 0, _ => none
  | steps + 1, cs =>
    match cs with
    | '"' :: _ => (readString true cs).map fun (s, rest) => (.string s, rest)
    | '\'' :: _ => (readString true cs).map fun (s, rest) => (.string s, rest)
    | '[' :: rest => (readItems steps rest).map fun rest => (.other, rest)
    | '\x7b' :: rest => do
      let (assignments, rest) ← readMembers steps [] rest
      let _ ← Statement.table? assignments.reverse
      return (.other, rest)
    | cs => readScalar cs

/-- The rest behind the items of an array. -/
def readItems : (steps : Nat) → List Char → Option (List Char)
  | 0, _ => none
  | steps + 1, cs => do
    match ← skipSpace cs.length cs with
    | ']' :: rest => return rest
    | cs =>
      let (_, rest) ← readValue steps cs
      match ← skipSpace rest.length rest with
      | ',' :: rest => readItems steps rest
      | ']' :: rest => return rest
      | _ => none

/-- The members of an inline table, the last one first. -/
def readMembers : (steps : Nat) → List Statement → List Char →
    Option (List Statement × List Char)
  | 0, _, _ => none
  | steps + 1, read, cs => do
    match ← skipSpace cs.length cs with
    | '\x7d' :: rest => return (read, rest)
    | cs =>
      let (path, rest) ← readKey cs.length cs
      match rest with
      | '=' :: rest =>
        let (value, rest) ← readValue steps (skipBlanks rest)
        let read := .assignment path value :: read
        match ← skipSpace rest.length rest with
        | ',' :: rest => readMembers steps read rest
        | '\x7d' :: rest => return (read, rest)
        | _ => none
      | _ => none

end

/-! ## Documents -/

/-- The path and the last part of a key. -/
def splitLast (parts : List String) : Option (List String × String) :=
  match parts.reverse with
  | [] => none
  | last :: before => some (before.reverse, last)

/-- A header or an assignment at the start of a line. -/
def readStatement (cs : List Char) : Option (Statement × List Char) := do
  match cs with
  | '[' :: '[' :: rest =>
    let (parts, rest) ← readKey rest.length rest
    let (path, key) ← splitLast parts
    match rest with
    | ']' :: ']' :: rest => return (.arrayHeader path key, rest)
    | _ => none
  | '[' :: rest =>
    let (parts, rest) ← readKey rest.length rest
    let (path, key) ← splitLast parts
    match rest with
    | ']' :: rest => return (.header path key, rest)
    | _ => none
  | cs =>
    let (path, rest) ← readKey cs.length cs
    match rest with
    | '=' :: rest =>
      let (value, rest) ← readValue (rest.length + 1) (skipBlanks rest)
      return (.assignment path value, rest)
    | _ => none

/-- The statements of a text, a line each; empty lines and comments hold none. -/
def readStatements : (steps : Nat) → List Char → Option (List Statement)
  | 0, _ => none
  | steps + 1, cs => do
    match ← skipSpace cs.length cs with
    | [] => return []
    | cs =>
      let (statement, rest) ← readStatement cs
      let rest ← endLine rest
      return statement :: (← readStatements steps rest)

/-- The table in a text. A byte order mark at its start is passed over. -/
def read? (text : String) : Option Entries := do
  let cs := match text.toList with
    | '\uFEFF' :: rest => rest
    | cs => cs
  Statement.table? (← readStatements (cs.length + 1) cs)

end GoalModel.Toml
