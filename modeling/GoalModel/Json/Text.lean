import GoalModel.Json.Basic
import GoalModel.Number.Text

/-! # JSON values as text

`Json.text` is the compact text of a value, with its members in the order in which the value has
them. `Json.indented` is the same over several lines, two blanks for each level. -/

namespace GoalModel.Json

def hexDigit (n : Nat) : Char :=
  if n < 10 then Char.ofNat ('0'.toNat + n) else Char.ofNat ('a'.toNat + n - 10)

/-- A character of a string: quotes, backslashes and control characters are escaped, everything
else stands for itself. -/
def escapeChar (c : Char) : List Char :=
  if c = '"' then ['\\', '"']
  else if c = '\\' then ['\\', '\\']
  else if c = '\n' then ['\\', 'n']
  else if c = '\r' then ['\\', 'r']
  else if c = '\t' then ['\\', 't']
  else if c.toNat = 8 then ['\\', 'b']
  else if c.toNat = 12 then ['\\', 'f']
  else if c.toNat < 32 then
    ['\\', 'u', '0', '0', hexDigit (c.toNat / 16), hexDigit (c.toNat % 16)]
  else [c]

/-- A string between quotes. -/
def quoted (s : String) : String :=
  "\"" ++ String.ofList (s.toList.flatMap escapeChar) ++ "\""

/-- Only finite numbers have a text of their own. -/
def numberText (x : Number) : String :=
  if x.isFinite then x.write .json else "null"

mutual

/-- The compact text of a value. -/
def text : Json → String
  | .null => "null"
  | .bool true => "true"
  | .bool false => "false"
  | .int n => toString n
  | .float x => numberText x
  | .string s => quoted s
  | .array items => "[" ++ String.intercalate "," (itemTexts items) ++ "]"
  | .object members => "\x7b" ++ String.intercalate "," (memberTexts members) ++ "\x7d"

def itemTexts : List Json → List String
  | [] => []
  | a :: as => text a :: itemTexts as

def memberTexts : List (String × Json) → List String
  | [] => []
  | (name, a) :: rest => (quoted name ++ ":" ++ text a) :: memberTexts rest

end

/-- The start of a line at a level. -/
def newLine (level : Nat) : String := "\n" ++ String.ofList (List.replicate (2 * level) ' ')

/-- Entries between brackets, each on a line of its own one level further in. -/
def block (level : Nat) (opening closing : String) (entries : List String) : String :=
  if entries.isEmpty then opening ++ closing
  else
    opening ++ newLine (level + 1) ++ String.intercalate ("," ++ newLine (level + 1)) entries ++
      newLine level ++ closing

mutual

/-- The text of a value over several lines, for a value that stands at a level. -/
def indented (level : Nat) : Json → String
  | .array items => block level "[" "]" (indentedItems (level + 1) items)
  | .object members => block level "\x7b" "\x7d" (indentedMembers (level + 1) members)
  | .null => "null"
  | .bool true => "true"
  | .bool false => "false"
  | .int n => toString n
  | .float x => numberText x
  | .string s => quoted s

def indentedItems (level : Nat) : List Json → List String
  | [] => []
  | a :: as => indented level a :: indentedItems level as

def indentedMembers (level : Nat) : List (String × Json) → List String
  | [] => []
  | (name, a) :: rest =>
    (quoted name ++ ": " ++ indented level a) :: indentedMembers level rest

end

end GoalModel.Json
