import GoalModel.Formula
import GoalModel.Number.Text

/-! # Diagnostics

A formula with a part that means nothing where it stands is rendered all the same, with a
placeholder, and a diagnostic says so. Diagnostics go to a sink that remembers which element is
being rendered; they never reach the program. -/

namespace GoalModel.Golog

/-- A message about the rendering of an element. -/
structure Diagnostic where
  element : String
  message : String
  deriving DecidableEq, Repr

def Diagnostic.text (d : Diagnostic) : String := d.element ++ ": " ++ d.message

/-- What is wrong with a part of a formula in its place. -/
inductive Degradation where
  | numberAsCondition (value : Number)
  | arithmeticAsCondition (operator : String)
  | effectAsCondition (name : String)
  | booleanAsQuantity (operator : String)
  | effectAsQuantity (name : String)
  /-- `previous` of something that is no element. -/
  | previousOfFormula
  deriving DecidableEq, Repr

def Degradation.message : Degradation → String
  | .numberAsCondition value => "number " ++ value.write .message ++ " used as a condition"
  | .arithmeticAsCondition operator =>
    "arithmetic operator '" ++ operator ++ "' used as a condition"
  | .effectAsCondition name =>
    "'" ++ name ++ "' is an effect and cannot be evaluated; using its name"
  | .booleanAsQuantity operator =>
    "boolean operator '" ++ operator ++ "' in a quantity expression"
  | .effectAsQuantity name => "'" ++ name ++ "' is an effect and has no value; using its name"
  | .previousOfFormula => "previous applies only to an element reference"

/-- A sink for diagnostics: the element that is being rendered, and what was reported so far. -/
structure Diagnostics where
  context : String
  entries : List Diagnostic
  deriving DecidableEq, Repr

namespace Diagnostics

def empty : Diagnostics := ⟨"", []⟩

/-- Further reports are about another element. -/
def enter (sink : Diagnostics) (element : String) : Diagnostics :=
  { sink with context := element }

def add (sink : Diagnostics) (message : String) : Diagnostics :=
  { sink with entries := sink.entries ++ [⟨sink.context, message⟩] }

end Diagnostics

/-- Rendering, which may report to a sink. -/
abbrev Render (α : Type) := StateM Diagnostics α

def enter (element : String) : Render Unit := modify (·.enter element)

def report (degradation : Degradation) : Render Unit := modify (·.add degradation.message)

/-- Renders into a new sink for an element: the result and what was reported. -/
def Render.alone {α : Type} (element : String) (render : Render α) : α × List Diagnostic :=
  let (a, sink) := render.run (Diagnostics.empty.enter element)
  (a, sink.entries)

end GoalModel.Golog
