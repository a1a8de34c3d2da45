import GoalModel.Text.Unprintable

/-! # Text between quotes in a message

`Text.quoted` shows a text so that every character of it can be told: quotes and backslashes are
escaped, and what would not be visible is written by name or by number. -/

namespace GoalModel.Text

/-- The lower-case hexadecimal number of a character between braces. -/
def byNumber (c : Char) : List Char :=
  '\\' :: 'u' :: '\x7b' :: (Nat.toDigits 16 c.toNat ++ ['\x7d'])

def quoteChar (c : Char) : List Char :=
  if c = '"' then ['\\', '"']
  else if c = '\\' then ['\\', '\\']
  else if c = '\n' then ['\\', 'n']
  else if c = '\r' then ['\\', 'r']
  else if c = '\t' then ['\\', 't']
  else if c.toNat = 0 then ['\\', '0']
  else if c.toNat < 32 then byNumber c
  else if c.toNat < 127 then [c]
  else if isUnprintable c then byNumber c
  else [c]

/-- A text between quotes, with every character visible. -/
def quoted (s : String) : String :=
  "\"" ++ String.ofList (s.toList.flatMap quoteChar) ++ "\""

end GoalModel.Text
