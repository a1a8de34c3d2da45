import GoalModel.Linking.Declaration

/-! # Which goal refines into which element

A goal claims its children, and an element can be claimed only once: a second claim by the same
goal repeats a child, one by another goal gives the element several parents. So the claims that
were accepted, in their order, hold the whole decomposition tree (`Claims.children`,
`Claims.parent?`). -/

namespace GoalModel

/-- The accepted claims, each as a child and the goal that claims it. -/
abbrev Claims := List (Handle × Handle)

namespace Claims

/-- The goal that has claimed an element. -/
def parent? (claims : Claims) (child : Handle) : Option Handle := claims.lookup child

/-- What a goal has claimed, in the order of its claims. -/
def children (claims : Claims) (goal : Handle) : List Handle :=
  (claims.filter fun claim => claim.2 = goal).map (·.1)

/-- The child that a goal may claim under a name. -/
def candidate (scope : Scope) (claims : Claims) (goal : Handle) (name : String) :
    Except LinkError Handle := do
  let goalName := scope.nameOf goal
  let child ← scope.resolveAs (.goal goalName) .node name
  match claims.parent? child with
  | none => return child
  | some owner =>
    if owner = goal then throw (.repeatedChild goalName name)
    else throw (.severalParents name (scope.nameOf owner) goalName)

/-- Adds the claims of a goal on the elements with some names. -/
def addAll (scope : Scope) (goal : Handle) : Claims → List String → Claims × List LinkError
  | claims, [] => (claims, [])
  | claims, name :: rest =>
    match claims.candidate scope goal name with
    | .ok child => addAll scope goal (claims ++ [(child, goal)]) rest
    | .error e =>
      let (claims, errors) := addAll scope goal claims rest
      (claims, e :: errors)

/-- Adds the claims of a goal. One that is refined in both ways claims nothing. -/
def addGoal (scope : Scope) (claims : Claims) (goal : Handle) (entry : GoalEntry) :
    Claims × List LinkError :=
  if !entry.and.isEmpty && !entry.or.isEmpty then
    (claims, [.mixedRefinement (scope.nameOf goal)])
  else addAll scope goal claims (entry.and ++ entry.or)

/-- Adds the claims of consecutive goals, the first of which has the given handle. -/
def addGoals (scope : Scope) : (base : Nat) → Claims → List GoalEntry → Claims × List LinkError
  | _, claims, [] => (claims, [])
  | base, claims, entry :: rest =>
    let (claims, errors) := claims.addGoal scope ⟨base⟩ entry
    let (claims, further) := addGoals scope (base + 1) claims rest
    (claims, errors ++ further)

end Claims

end GoalModel
