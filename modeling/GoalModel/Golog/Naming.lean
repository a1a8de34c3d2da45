import GoalModel.Golog.Term
import GoalModel.Identifier
import GoalModel.Model.Basic

/-! # Names in the program

What the program calls an element, in the situation at hand or in the initial one. Derived names
add one of the reserved endings to the name of an element. -/

namespace GoalModel.Golog

/-- The situation that a value belongs to. -/
inductive Situation where
  | current
  | initial
  deriving DecidableEq, Repr

/-- The variable for the current situation, and the constant for the initial one. -/
def Situation.text : Situation → String
  | .current => "S"
  | .initial => "s0"

/-- A name with an ending. -/
def ended (name : String) (ending : Identifier.Ending) : String := name ++ ending.text

/-- Something that holds in a situation: `p_fl(S)`. -/
def holdsIn (name : String) (situation : Situation) : Term := .applyWord name situation.text

/-- The state term of an element: the fluent of a predicate, the satisfaction of a goal or task,
and the bare name otherwise. -/
def stateName (m : Model) (h : Handle) : String :=
  match m.role? h with
  | some .predicate => ended (m.nameOf h) .fluent
  | some .goal => ended (m.nameOf h) .satisfied
  | some .task => ended (m.nameOf h) .satisfied
  | _ => m.nameOf h

def stateTerm (m : Model) (h : Handle) : Term := .word (stateName m h)

def nameTerm (m : Model) (h : Handle) : Term := .word (m.nameOf h)

/-- The variable that the value of a state term is bound to. -/
def bindingVariable (state : String) (situation : Situation) : String :=
  match situation with
  | .current => "R_" ++ state
  | .initial => ended ("R_" ++ state) .initial

def initialValueTerm : InitialValue → Term
  | .bool value => .word (if value then "true" else "false")
  | .number value => .number value
  | .text value => .word value

end GoalModel.Golog
