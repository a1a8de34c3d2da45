import GoalModel.Golog.Naming
import GoalModel.Model.Tree

/-! # Preconditions

An effect is possible as long as neither its own task nor anything that competes with the task
has been attempted; a task is possible if one of its effects is. -/

namespace GoalModel.Golog

/-- `poss(x,S)`. -/
def possible (name : String) : Term := .apply "poss" [.word name, .word Situation.current.text]

/-- That a goal or task has not been attempted. -/
def notAttempted (m : Model) (h : Handle) : Term :=
  .unary .negation (holdsIn (ended (m.nameOf h) .attempted) .current)

/-- The goals and tasks that must not have been attempted when an effect of the task occurs. -/
def guards (m : Model) (task : Handle) : List Handle := task :: m.competingAlternatives task

/-- The precondition of an effect; other elements have none. -/
def effectPrecondition? (m : Model) (effect : Handle) : Option Clause :=
  (m.effect? effect).map fun data =>
    .rule (possible (m.nameOf effect))
      (.chain .listing (.word "true") ((guards m data.task).map (notAttempted m)))

/-- The precondition of a task. A task without effects is always possible. -/
def taskPrecondition (m : Model) (task : Handle) : Clause :=
  let head := possible (m.nameOf task)
  match m.effectsOf task with
  | [] => .fact head
  | effects =>
    .rule head
      (.chain .disjunction (.word "fail") (effects.map fun e => possible (m.nameOf e)))

end GoalModel.Golog
