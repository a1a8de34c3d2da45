/-! # Names of elements

An element is named by an identifier: letters, digits and underscores, the first no digit. The
generated program derives further names from it by adding an ending, so an identifier that has
such an ending already could meet a derived name and is reserved. -/

namespace GoalModel.Identifier

def isStart (c : Char) : Bool :=
  ('A' ≤ c ∧ c ≤ 'Z') ∨ ('a' ≤ c ∧ c ≤ 'z') ∨ c = '_'

def isPart (c : Char) : Bool := isStart c || ('0' ≤ c && c ≤ '9')

/-- Whether a name consists of ASCII letters, digits and underscores and starts with no digit. -/
def isValid (name : String) : Bool :=
  match name.toList with
  | [] => false
  | c :: cs => isStart c && cs.all isPart

/-- What the program adds to the name of an element. -/
inductive Ending where
  /-- The fluent of a predicate. -/
  | fluent
  /-- Satisfaction of a goal or task. -/
  | satisfied
  /-- Attempt of a goal or task. -/
  | attempted
  /-- Satisfaction of a goal or task before the run. -/
  | preRun
  /-- A value at the initial situation. -/
  | initial
  deriving DecidableEq, Repr

namespace Ending

def text : Ending → String
  | .fluent => "_fl"
  | .satisfied => "_Sat"
  | .attempted => "_Att"
  | .preRun => "_Pre"
  | .initial => "_init"

def all : List Ending := [.fluent, .satisfied, .attempted, .preRun, .initial]

/-- Whether a name has the ending. -/
def ends (ending : Ending) (name : String) : Bool :=
  ending.text.toList.isSuffixOf name.toList

end Ending

/-- The ending that makes a name reserved, if it has one. -/
def reservedEnding? (name : String) : Option Ending :=
  Ending.all.find? fun ending => ending.ends name

end GoalModel.Identifier
