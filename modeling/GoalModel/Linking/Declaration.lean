import GoalModel.Document.Basic
import GoalModel.Linking.Scope

/-! # The declarations of a document

Linking numbers what a document declares: actor by actor the predicates, variables, goals, each
task followed by its effects, qualities and conditions. `Document.declarations` lists the
declarations in this order, so that a handle is a position in the list, and `ActorEntry.place`
gives the handles of an actor that starts at a position. -/

namespace GoalModel

inductive Declaration where
  | predicate (name : String)
  | stateVariable (name : String)
  | goal (entry : GoalEntry)
  | task (entry : TaskEntry)
  /-- An effect, with the handle of its task. -/
  | effect (task : Handle) (entry : EffectEntry)
  | quality (entry : QualityEntry)
  | condition (entry : ConditionEntry)
  deriving DecidableEq, Repr

namespace Declaration

def name : Declaration → String
  | .predicate name => name
  | .stateVariable name => name
  | .goal entry => entry.name
  | .task entry => entry.name
  | .effect _ entry => entry.name
  | .quality entry => entry.name
  | .condition entry => entry.name

def role : Declaration → Role
  | .predicate _ => .predicate
  | .stateVariable _ => .stateVariable
  | .goal _ => .goal
  | .task _ => .task
  | .effect _ _ => .effect
  | .quality _ => .quality
  | .condition _ => .condition

end Declaration

/-- The tasks and their effects, the first task being declared at `base`. -/
def TaskEntry.declarations : (base : Nat) → List TaskEntry → List Declaration
  | _, [] => []
  | base, task :: rest =>
    .task task :: task.effects.map (.effect ⟨base⟩) ++
      TaskEntry.declarations (base + task.effects.length + 1) rest

/-- The handles of the tasks, the first of which is declared at `base`. -/
def TaskEntry.handles : (base : Nat) → List TaskEntry → List Handle
  | _, [] => []
  | base, task :: rest => ⟨base⟩ :: TaskEntry.handles (base + task.effects.length + 1) rest

/-- Consecutive handles. -/
def Handle.range (base count : Nat) : List Handle :=
  (List.range count).map fun i => ⟨base + i⟩

namespace ActorEntry

/-- Where the goals of an actor begin that starts at `base`. -/
def goalBase (base : Nat) (actor : ActorEntry) : Nat :=
  base + actor.predicates.length + actor.stateVariables.length

/-- Where the tasks of an actor begin. -/
def taskBase (base : Nat) (actor : ActorEntry) : Nat :=
  actor.goalBase base + actor.goals.length

/-- Where the qualities of an actor begin. -/
def qualityBase (base : Nat) (actor : ActorEntry) : Nat :=
  actor.taskBase base + (TaskEntry.declarations 0 actor.tasks).length

/-- The declarations of an actor that starts at `base`. -/
def declarations (base : Nat) (actor : ActorEntry) : List Declaration :=
  actor.predicates.map .predicate ++
  actor.stateVariables.map .stateVariable ++
  actor.goals.map .goal ++
  TaskEntry.declarations (actor.taskBase base) actor.tasks ++
  actor.qualities.map .quality ++
  actor.conditions.map .condition

/-- How many elements an actor declares. -/
def size (actor : ActorEntry) : Nat := (actor.declarations 0).length

/-- The handles of an actor that starts at `base`. -/
def place (base : Nat) (actor : ActorEntry) : Actor where
  name := actor.name
  predicates := Handle.range base actor.predicates.length
  stateVariables := Handle.range (base + actor.predicates.length) actor.stateVariables.length
  goals := Handle.range (actor.goalBase base) actor.goals.length
  tasks := TaskEntry.handles (actor.taskBase base) actor.tasks
  qualities := Handle.range (actor.qualityBase base) actor.qualities.length
  conditions :=
    Handle.range (actor.qualityBase base + actor.qualities.length) actor.conditions.length

/-- The declarations of consecutive actors, the first of which starts at `base`. -/
def allDeclarations : (base : Nat) → List ActorEntry → List Declaration
  | _, [] => []
  | base, actor :: rest => actor.declarations base ++ allDeclarations (base + actor.size) rest

/-- The handles of consecutive actors. -/
def placeAll : (base : Nat) → List ActorEntry → List Actor
  | _, [] => []
  | base, actor :: rest => actor.place base :: placeAll (base + actor.size) rest

end ActorEntry

namespace Document

def declarations (document : Document) : List Declaration :=
  ActorEntry.allDeclarations 0 document.actors

def scope (document : Document) : Scope :=
  ⟨document.declarations.map fun declaration => (declaration.name, declaration.role)⟩

end Document

/-! ## Errors of declarations -/

/-- What is wrong with a name that is declared after some others. -/
def nameErrors (seen : List String) (name : String) : List LinkError :=
  (if Identifier.isValid name then [] else [.invalidName name]) ++
  (match Identifier.reservedEnding? name with
    | some ending => [.reservedName name ending]
    | none => []) ++
  (if name ∈ seen then [.duplicateName name] else [])

/-- A probability is positive and at most one. -/
def isProbability (x : Number) : Bool := Number.zero.lt x && x.le .one

def Declaration.errors (seen : List String) (declaration : Declaration) : List LinkError :=
  (match declaration with
    | .effect _ entry =>
      if isProbability entry.probability then []
      else [.improbable entry.name entry.probability]
    | _ => []) ++
  nameErrors seen declaration.name

/-- The errors of declarations that follow some declared names. -/
def declarationErrors : (seen : List String) → List Declaration → List LinkError
  | _, [] => []
  | seen, declaration :: rest =>
    declaration.errors seen ++ declarationErrors (declaration.name :: seen) rest

end GoalModel
