import GoalModel.Identifier
import GoalModel.Model.Basic
import GoalModel.Number.Text

/-! # Why a document cannot be linked -/

namespace GoalModel

/-- What a reference stands in. -/
inductive Referrer where
  | goal (name : String)
  | effect (name : String)
  | quality (name : String)
  | condition (name : String)
  | crossRun
  | exported
  | initializations
  /-- A formula that belongs to no element. -/
  | formula
  | other (text : String)
  deriving DecidableEq, Repr

def Referrer.text : Referrer → String
  | .goal name => "goal '" ++ name ++ "'"
  | .effect name => "effect '" ++ name ++ "'"
  | .quality name => "quality '" ++ name ++ "'"
  | .condition name => "condition '" ++ name ++ "'"
  | .crossRun => "crossRun"
  | .exported => "exported"
  | .initializations => "initializations"
  | .formula => "formula"
  | .other text => text

/-- What a reference must lead to. -/
inductive Requirement where
  /-- A goal or a task. -/
  | node
  | predicate
  /-- Anything that has a value in a situation, which an effect has not. -/
  | stateful
  deriving DecidableEq, Repr

namespace Requirement

def text : Requirement → String
  | .node => "a goal or task"
  | .predicate => "a predicate"
  | .stateful => "a stateful element"

def accepts : Requirement → Role → Bool
  | .node, role => decide (role = .goal ∨ role = .task)
  | .predicate, role => decide (role = .predicate)
  | .stateful, role => decide (role ≠ .effect)

end Requirement

inductive LinkError where
  | invalidName (name : String)
  | reservedName (name : String) (ending : Identifier.Ending)
  | duplicateName (name : String)
  | improbable (effect : String) (probability : Number)
  | unresolved (referrer : Referrer) (name : String)
  | wrongRole (referrer : Referrer) (name : String) (role : Role) (requirement : Requirement)
  | mixedRefinement (goal : String)
  | repeatedChild (goal name : String)
  | severalParents (name first second : String)
  | repeatedPredicate (effect name : String)
  | severalRootQualities (names : List String)
  | repeatedCrossRun (name : String)
  | invertedBounds (name : String) (min max : Number)
  deriving DecidableEq, Repr

namespace LinkError

def message : LinkError → String
  | .invalidName name => "invalid name '" ++ name ++ "': expected [A-Za-z_][A-Za-z0-9_]*"
  | .reservedName name ending =>
    "invalid name '" ++ name ++ "': suffix '" ++ ending.text ++
      "' is reserved for generated terms"
  | .duplicateName name => "duplicate element name '" ++ name ++ "'"
  | .improbable effect probability =>
    "effect '" ++ effect ++ "': probability " ++ probability.write .message ++ " outside (0, 1]"
  | .unresolved referrer name =>
    referrer.text ++ ": unresolved reference '" ++ name ++ "'"
  | .wrongRole referrer name role requirement =>
    referrer.text ++ ": '" ++ name ++ "' (" ++ role.name ++ ") is not " ++ requirement.text
  | .mixedRefinement goal =>
    (Referrer.goal goal).text ++ ": mixes and-children with or-children"
  | .repeatedChild goal name =>
    (Referrer.goal goal).text ++ ": child '" ++ name ++ "' listed twice"
  | .severalParents name first second =>
    "'" ++ name ++ "' has more than one parent ('" ++ first ++ "' and '" ++ second ++ "')"
  | .repeatedPredicate effect name =>
    (Referrer.effect effect).text ++ ": predicate '" ++ name ++ "' listed twice"
  | .severalRootQualities names =>
    "more than one root quality: " ++ String.intercalate ", " names
  | .repeatedCrossRun name => "crossRun: '" ++ name ++ "' listed twice"
  | .invertedBounds name min max =>
    "exported: '" ++ name ++ "' has min " ++ min.write .message ++ " above max " ++
      max.write .message

end LinkError

end GoalModel
