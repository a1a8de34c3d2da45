import GoalModel.Model.Tree

/-! # Invariants of a whole model

What linking cannot rule out, or what editing may have broken: a single root goal, parent and
child links that agree, refinements that match the children, and no cycle. -/

namespace GoalModel

inductive InvariantViolation where
  | noRootGoal
  | severalRootGoals (names : List String)
  | notAChild (name parent : String)
  | notAParent (name child : String)
  | refinementMismatch (name : String) (kind : Refinement) (count : Nat)
  | cycle (name : String)
  deriving DecidableEq, Repr

namespace InvariantViolation

def message : InvariantViolation → String
  | .noRootGoal => "model has no root goal"
  | .severalRootGoals names =>
    "model has more than one root goal: " ++ String.intercalate ", " names
  | .notAChild name parent => name ++ ": parent '" ++ parent ++ "' does not list it as a child"
  | .notAParent name child => name ++ ": child '" ++ child ++ "' does not point back to it"
  | .refinementMismatch name kind count =>
    name ++ ": decomposition '" ++ kind.name ++ "' does not match " ++ toString count ++
      " children"
  | .cycle name => name ++ ": decomposition cycle"

end InvariantViolation

namespace Model

/-- A model has exactly one root goal. -/
def rootViolations (m : Model) : List InvariantViolation :=
  match m.rootGoals with
  | [] => [.noRootGoal]
  | [_] => []
  | roots => [.severalRootGoals (roots.map m.nameOf)]

/-- The violations at one goal or task. -/
def nodeViolations (m : Model) (h : Handle) : List InvariantViolation :=
  match m.decomposition? h with
  | none => []
  | some node =>
    let name := m.nameOf h
    (match node.parent with
      | some up => if h ∈ m.children up then [] else [.notAChild name (m.nameOf up)]
      | none => []) ++
    ((node.children.filter fun child => m.parent? child ≠ some h).map fun child =>
      .notAParent name (m.nameOf child)) ++
    (if (node.kind = .leaf) ↔ node.children = [] then []
      else [.refinementMismatch name node.kind node.children.length]) ++
    (if m.hasCycleAbove h then [.cycle name] else [])

/-- Every violated invariant: first the root goals, then the listed goals and tasks. -/
def invariantViolations (m : Model) : List InvariantViolation :=
  m.rootViolations ++ (m.goals ++ m.tasks).flatMap m.nodeViolations

/-- Whether some listed goal or task has no way up to a root. -/
def hasCycle (m : Model) : Bool :=
  (m.goals ++ m.tasks).any fun h => (m.decomposition? h).isSome && m.hasCycleAbove h

end Model

end GoalModel
