import GoalModel.Formula
import GoalModel.StateValue

/-! # Linked goal models

A model keeps its elements in one list. A `Handle` is the position of an element in it, and
every link between elements (parent, children, effects, atoms of formulas) is a handle, so that
following a link never searches. Handles that no element has read as an element without a name
and a role of its own; a model made by linking has none. -/

namespace GoalModel

/-- The position of an element in a model. -/
structure Handle where
  index : Nat
  deriving DecidableEq, Repr

/-- How a goal or task is refined. -/
inductive Refinement where
  | and | or | leaf
  deriving DecidableEq, Repr

def Refinement.name : Refinement → String
  | .and => "and"
  | .or => "or"
  | .leaf => "leaf"

/-- The place of a goal or task in the decomposition tree. -/
structure Decomposition where
  kind : Refinement
  children : List Handle
  parent : Option Handle
  deriving DecidableEq, Repr

structure Task where
  node : Decomposition
  /-- The outcomes of the task, in the order of declaration. -/
  effects : List Handle
  deriving DecidableEq, Repr

structure Effect where
  task : Handle
  probability : Number
  satisfying : Bool
  /-- The predicates that the effect makes true. -/
  turnsTrue : List Handle
  deriving DecidableEq, Repr

structure Quality where
  formula : Formula Handle
  /-- The root quality is the reward of a run. -/
  root : Bool
  deriving DecidableEq, Repr

/-- What an element is, without its links. -/
inductive Role where
  | predicate | stateVariable | goal | task | effect | quality | condition
  deriving DecidableEq, Repr

def Role.name : Role → String
  | .predicate => "predicate"
  | .stateVariable => "variable"
  | .goal => "goal"
  | .task => "task"
  | .effect => "effect"
  | .quality => "quality"
  | .condition => "condition"

inductive ElementKind where
  | predicate
  | stateVariable
  | goal (node : Decomposition)
  | task (task : Task)
  | effect (effect : Effect)
  | quality (quality : Quality)
  | condition (formula : Formula Handle)
  deriving DecidableEq, Repr

def ElementKind.role : ElementKind → Role
  | .predicate => .predicate
  | .stateVariable => .stateVariable
  | .goal _ => .goal
  | .task _ => .task
  | .effect _ => .effect
  | .quality _ => .quality
  | .condition _ => .condition

structure Element where
  name : String
  kind : ElementKind
  deriving DecidableEq, Repr

namespace Element

variable (element : Element)

/-- Goals and tasks have a place in the decomposition tree. -/
def decomposition? : Option Decomposition :=
  match element.kind with
  | .goal node => some node
  | .task task => some task.node
  | _ => none

def task? : Option Task :=
  match element.kind with
  | .task task => some task
  | _ => none

def effect? : Option Effect :=
  match element.kind with
  | .effect effect => some effect
  | _ => none

def quality? : Option Quality :=
  match element.kind with
  | .quality quality => some quality
  | _ => none

/-- The formula of a condition. -/
def condition? : Option (Formula Handle) :=
  match element.kind with
  | .condition formula => some formula
  | _ => none

end Element

/-- An actor and the elements that it declares, in the order of declaration. -/
structure Actor where
  name : String
  predicates : List Handle
  stateVariables : List Handle
  goals : List Handle
  tasks : List Handle
  qualities : List Handle
  conditions : List Handle
  deriving DecidableEq, Repr

structure Export where
  element : Handle
  domain : Domain
  min : Option Number
  max : Option Number
  deriving DecidableEq, Repr

structure Initialization where
  element : Handle
  value : InitialValue
  deriving DecidableEq, Repr

structure Model where
  name : String
  elements : List Element
  actors : List Actor
  /-- The elements whose values persist from run to run. -/
  crossRun : List Handle
  exported : List Export
  initializations : List Initialization
  deriving DecidableEq, Repr

namespace Model

def element? (m : Model) (h : Handle) : Option Element := m.elements[h.index]?

def role? (m : Model) (h : Handle) : Option Role := (m.element? h).map fun e => e.kind.role

def nameOf (m : Model) (h : Handle) : String := ((m.element? h).map (·.name)).getD ""

/-- The first element with a name. -/
def find? (m : Model) (name : String) : Option Handle :=
  (m.elements.findIdx? fun element => element.name == name).map Handle.mk

def decomposition? (m : Model) (h : Handle) : Option Decomposition :=
  (m.element? h).bind (·.decomposition?)

def task? (m : Model) (h : Handle) : Option Task := (m.element? h).bind (·.task?)

def effect? (m : Model) (h : Handle) : Option Effect := (m.element? h).bind (·.effect?)

def quality? (m : Model) (h : Handle) : Option Quality := (m.element? h).bind (·.quality?)

/-- The formula of a condition. -/
def condition? (m : Model) (h : Handle) : Option (Formula Handle) :=
  (m.element? h).bind (·.condition?)

def predicates (m : Model) : List Handle := m.actors.flatMap (·.predicates)

def goals (m : Model) : List Handle := m.actors.flatMap (·.goals)

def tasks (m : Model) : List Handle := m.actors.flatMap (·.tasks)

def qualities (m : Model) : List Handle := m.actors.flatMap (·.qualities)

def conditions (m : Model) : List Handle := m.actors.flatMap (·.conditions)

def effectsOf (m : Model) (task : Handle) : List Handle :=
  ((m.task? task).map (·.effects)).getD []

/-- The effects of every task, task by task. -/
def effects (m : Model) : List Handle := m.tasks.flatMap m.effectsOf

/-- The predicates that an effect makes true; none for other elements. -/
def turnsTrue (m : Model) (effect : Handle) : List Handle :=
  ((m.effect? effect).map (·.turnsTrue)).getD []

/-- The listed goals that have no parent. -/
def rootGoals (m : Model) : List Handle :=
  m.goals.filter fun h => (m.decomposition? h).any (·.parent.isNone)

def rootQuality? (m : Model) : Option Handle :=
  m.qualities.find? fun h => (m.quality? h).any (·.root)

def isCrossRun (m : Model) (h : Handle) : Bool := decide (h ∈ m.crossRun)

end Model

end GoalModel
