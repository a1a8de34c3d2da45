/-! # Paths

A path is a text with components between slashes. Slashes and single dots at the end name
nothing and are passed over (`Path.trimReversed`); a leading dot is a component of its own. Only a
component that is no dot and no pair of dots is a file name. -/

namespace GoalModel

structure Path where
  text : String
  deriving DecidableEq, Repr

namespace Path

/-- The characters of a path, the last one first, without slashes and dots that name nothing.
The root keeps its slash. -/
def trimReversed : List Char → List Char
  | ['/'] => ['/']
  | '/' :: rest => trimReversed rest
  | '.' :: '/' :: rest => trimReversed ('/' :: rest)
  | cs => cs

def ofReversed (cs : List Char) : Path := ⟨String.ofList cs.reverse⟩

/-- The characters of the path up to its last component, the last one first. -/
def reversed (p : Path) : List Char := trimReversed p.text.toList.reverse

/-- The last component, the last character first; nothing for the root and the empty path. -/
def lastReversed (p : Path) : List Char := p.reversed.takeWhile (· ≠ '/')

/-- What stands before the last component. -/
def beforeLast (p : Path) : List Char := p.reversed.dropWhile (· ≠ '/')

/-- The directory that a path lies in. The root and the empty path lie in none. -/
def parent? (p : Path) : Option Path :=
  if p.reversed = [] ∨ p.reversed = ['/'] then none
  else some (ofReversed (trimReversed p.beforeLast))

/-- The last component, if it names a file. -/
def fileName? (p : Path) : Option String :=
  let name := p.lastReversed
  if name = [] ∨ name = ['.'] ∨ name = ['.', '.'] then none
  else some (String.ofList name.reverse)

/-- A file name, reversed, at its last dot: the extension and the stem, both reversed. A name
whose only dot is its first character has no extension. -/
def splitReversed (name : List Char) : Option (List Char) × List Char :=
  match name.dropWhile (· ≠ '.') with
  | '.' :: stem =>
    if stem.isEmpty then (none, name) else (some (name.takeWhile (· ≠ '.')), stem)
  | _ => (none, name)

/-- The extension of the file name. -/
def extension? (p : Path) : Option String := do
  let _ ← p.fileName?
  return String.ofList (← (splitReversed p.lastReversed).1).reverse

/-- The file name without its extension. -/
def fileStem? (p : Path) : Option String := do
  let _ ← p.fileName?
  return String.ofList (splitReversed p.lastReversed).2.reverse

/-- Puts another extension behind the stem of the file name; an empty one leaves the stem. -/
def setExtension (p : Path) (extension : String) : Path :=
  match p.fileName? with
  | none => p
  | some _ =>
    let stem := ofReversed ((splitReversed p.lastReversed).2 ++ p.beforeLast)
    if extension.isEmpty then stem else ⟨stem.text ++ "." ++ extension⟩

/-- The path with another extension. The old one is first cut off, with as many characters as it
has from the end of the path; where that leaves no file name (`..a`), nothing is added. -/
def withExtension (p : Path) (extension : String) : Path :=
  match p.extension? with
  | none => p.setExtension extension
  | some old => (ofReversed (p.text.toList.reverse.drop old.length)).setExtension extension

/-- A path below this one. -/
def join (p : Path) (name : String) : Path :=
  if p.text.isEmpty then ⟨name⟩
  else if p.text = "/" then ⟨"/" ++ name⟩
  else ⟨p.text ++ "/" ++ name⟩

/-- The path with another last component. -/
def withFileName (p : Path) (name : String) : Path :=
  match p.fileName? with
  | none => p.join name
  | some _ => (p.parent?.getD ⟨""⟩).join name

end Path

end GoalModel
