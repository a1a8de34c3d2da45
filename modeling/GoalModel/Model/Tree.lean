import GoalModel.Model.Basic

/-! # The decomposition tree

Moving through the tree by the links of a model. Walks upwards are bounded by the number of
elements: a chain of parents that is longer has met a handle twice and never ends
(`Model.hasCycleAbove`), any other chain is walked to its end. -/

namespace GoalModel.Model

variable (m : Model)

def parent? (h : Handle) : Option Handle := (m.decomposition? h).bind (·.parent)

def children (h : Handle) : List Handle := ((m.decomposition? h).map (·.children)).getD []

/-- The refinement of an element; one outside the tree is a leaf. -/
def refinement (h : Handle) : Refinement := ((m.decomposition? h).map (·.kind)).getD .leaf

def isRoot (h : Handle) : Bool := (m.parent? h).isNone

/-- The other children of the parent, in the order of declaration. -/
def siblings (h : Handle) : List Handle :=
  match m.parent? h with
  | some up => (m.children up).filter (· ≠ h)
  | none => []

/-- Whether at most `steps` parent links lead to an element without a parent, the last of them
being the missing one. -/
def endsWithin : (steps : Nat) → Handle → Bool
  | 0, _ => false
  | steps + 1, h =>
    match m.parent? h with
    | some up => endsWithin steps up
    | none => true

/-- Whether the parent links above an element never end. -/
def hasCycleAbove (h : Handle) : Bool := !m.endsWithin (m.elements.length + 1) h

/-- The first `steps` links of the chain upwards, each as a node and its parent. -/
def upwardLinks : (steps : Nat) → Handle → List (Handle × Handle)
  | 0, _ => []
  | steps + 1, h =>
    match m.parent? h with
    | some up => (h, up) :: upwardLinks steps up
    | none => []

/-- What else could be done instead of an element: its siblings below an or-refined parent, and
those of its ancestors, the nearest first. -/
def competingAlternatives (h : Handle) : List Handle :=
  (m.upwardLinks (m.elements.length + 1) h).flatMap fun (node, up) =>
    if m.refinement up = .or then m.siblings node else []

end GoalModel.Model
