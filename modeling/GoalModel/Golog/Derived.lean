import GoalModel.Golog.Naming
import GoalModel.Model.Tree

/-! # Satisfaction and attempt

Goals and tasks are satisfied, attempted, and satisfied before the run by derived clauses. A
task refers to the fluents that its effects turn true; a goal combines its children as it is
refined, but is attempted as soon as one child is. -/

namespace GoalModel.Golog

/-- What is derived for goals and tasks. -/
inductive Derived where
  | satisfied
  | attempted
  /-- Satisfied before the run. -/
  | preRun
  deriving DecidableEq, Repr

namespace Derived

def all : List Derived := [.satisfied, .attempted, .preRun]

def ending : Derived → Identifier.Ending
  | .satisfied => .satisfied
  | .attempted => .attempted
  | .preRun => .preRun

/-- The situation whose fluents the clause of a task reads. -/
def situation : Derived → Situation
  | .preRun => .initial
  | _ => .current

/-- Whether an effect of a task counts. One that turns nothing true leaves no trace. -/
def counts (derived : Derived) (effect : Effect) : Bool :=
  (derived == .attempted || effect.satisfying) && !effect.turnsTrue.isEmpty

/-- How a goal combines its children. -/
def operator (derived : Derived) (kind : Refinement) : Operator :=
  match derived, kind with
  | .attempted, _ => .disjunction
  | _, .or => .disjunction
  | _, _ => .conjunction

end Derived

/-- The fluents that an effect turns true, all in one situation. -/
def effectTrace (m : Model) (situation : Situation) (effect : Effect) : Term :=
  .groupedConjunction
    (effect.turnsTrue.map fun p => holdsIn (ended (m.nameOf p) .fluent) situation)

/-- The body of the derived clause of a goal or task. -/
def derivedBody (m : Model) (derived : Derived) (h : Handle) : Term :=
  match (m.element? h).map Element.kind with
  | some (.task task) =>
    .chain .disjunction (.word "fail")
      (((task.effects.filterMap m.effect?).filter derived.counts).map
        (effectTrace m derived.situation))
  | some (.goal node) =>
    .chain (derived.operator node.kind) (.word "fail")
      (node.children.map fun child => holdsIn (ended (m.nameOf child) derived.ending) .current)
  | _ => .word "fail"

/-- The derived clause of a goal or task. -/
def derivedClause (m : Model) (derived : Derived) (h : Handle) : Clause :=
  .rule (holdsIn (ended (m.nameOf h) derived.ending) .current) (derivedBody m derived h)

end GoalModel.Golog
