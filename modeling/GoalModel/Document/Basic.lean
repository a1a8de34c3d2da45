import GoalModel.Formula
import GoalModel.StateValue

/-! # Model documents

A document is a goal model as it is written down: elements are declared by name inside actors,
and refer to each other by name. Nothing is resolved yet; a document may name what it never
declares. -/

namespace GoalModel

/-- A goal and its refinement: all of `and`, or one of `or`. -/
structure GoalEntry where
  name : String
  and : List String
  or : List String
  deriving DecidableEq, Repr

/-- An outcome of a task. -/
structure EffectEntry where
  name : String
  probability : Number
  satisfying : Bool
  turnsTrue : List String
  deriving DecidableEq, Repr

structure TaskEntry where
  name : String
  effects : List EffectEntry
  deriving DecidableEq, Repr

structure QualityEntry where
  name : String
  root : Bool
  formula : Formula String
  deriving DecidableEq, Repr

structure ConditionEntry where
  name : String
  formula : Formula String
  deriving DecidableEq, Repr

structure ActorEntry where
  name : String
  predicates : List String
  stateVariables : List String
  goals : List GoalEntry
  tasks : List TaskEntry
  qualities : List QualityEntry
  conditions : List ConditionEntry
  deriving DecidableEq, Repr

/-- An element whose value leaves a run, with optional bounds. -/
structure ExportEntry where
  name : String
  domain : Domain
  min : Option Number
  max : Option Number
  deriving DecidableEq, Repr

structure InitialEntry where
  name : String
  value : InitialValue
  deriving DecidableEq, Repr

structure Document where
  name : String
  actors : List ActorEntry
  crossRun : List String
  exported : List ExportEntry
  initializations : List InitialEntry
  deriving DecidableEq, Repr

end GoalModel
