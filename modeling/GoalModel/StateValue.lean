import GoalModel.Number.Basic

/-! # Values that leave and enter a planning run

What a run exports is declared with a domain, what it starts from is declared with an initial
value. -/

namespace GoalModel

/-- The domain of an exported element. -/
inductive Domain where
  | discrete
  | continuous
  deriving DecidableEq, Repr

/-- The text of a domain in a document. -/
def Domain.name : Domain → String
  | .discrete => "discrete"
  | .continuous => "continuous"

def Domain.all : List Domain := [.discrete, .continuous]

/-- What an element is before a run starts. -/
inductive InitialValue where
  | bool (value : Bool)
  | number (value : Number)
  | text (value : String)
  deriving DecidableEq, Repr

end GoalModel
