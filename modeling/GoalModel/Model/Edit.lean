import GoalModel.Model.Basic

/-! # Editing a model

Each edit changes the one field that it names. Links in the other direction are not kept up; the
invariants tell what an edit has broken. An edit that an element of that kind does not have
gives nothing. -/

namespace GoalModel

/-- Which list of an actor an element is added to. -/
inductive ActorList where
  | goals | tasks | predicates | qualities | conditions
  deriving DecidableEq, Repr

/-- Changes the place of a goal or task in the tree. -/
def Element.mapDecomposition? (element : Element) (f : Decomposition → Decomposition) :
    Option Element :=
  match element.kind with
  | .goal node => some { element with kind := .goal (f node) }
  | .task task => some { element with kind := .task { task with node := f task.node } }
  | _ => none

def Actor.append (actor : Actor) (list : ActorList) (h : Handle) : Actor :=
  match list with
  | .goals => { actor with goals := actor.goals ++ [h] }
  | .tasks => { actor with tasks := actor.tasks ++ [h] }
  | .predicates => { actor with predicates := actor.predicates ++ [h] }
  | .qualities => { actor with qualities := actor.qualities ++ [h] }
  | .conditions => { actor with conditions := actor.conditions ++ [h] }

namespace Model

/-- Changes one element, if it can be changed in this way. -/
def edit? (m : Model) (h : Handle) (f : Element → Option Element) : Option Model := do
  let element ← (m.element? h).bind f
  return { m with elements := m.elements.set h.index element }

def setParent? (m : Model) (h : Handle) (parent : Option Handle) : Option Model :=
  m.edit? h (·.mapDecomposition? ({ · with parent }))

def setChildren? (m : Model) (h : Handle) (children : List Handle) : Option Model :=
  m.edit? h (·.mapDecomposition? ({ · with children }))

def setRefinement? (m : Model) (h : Handle) (kind : Refinement) : Option Model :=
  m.edit? h (·.mapDecomposition? ({ · with kind }))

def rename? (m : Model) (h : Handle) (name : String) : Option Model :=
  m.edit? h fun element => some { element with name }

/-- Gives a quality or a condition another formula. -/
def setFormula? (m : Model) (h : Handle) (formula : Formula Handle) : Option Model :=
  m.edit? h fun element =>
    match element.kind with
    | .quality quality => some { element with kind := .quality { quality with formula } }
    | .condition _ => some { element with kind := .condition formula }
    | _ => none

def setRoot? (m : Model) (h : Handle) (root : Bool) : Option Model :=
  m.edit? h fun element =>
    match element.kind with
    | .quality quality => some { element with kind := .quality { quality with root } }
    | _ => none

/-- Replaces all of an effect but its task. -/
def setEffect? (m : Model) (h : Handle) (probability : Number) (satisfying : Bool)
    (turnsTrue : List Handle) : Option Model :=
  m.edit? h fun element =>
    match element.kind with
    | .effect effect =>
      some { element with kind := .effect { effect with probability, satisfying, turnsTrue } }
    | _ => none

/-- Adds an element to a list of the first actor, if there is one. -/
def append? (m : Model) (list : ActorList) (h : Handle) : Option Model :=
  match m.actors with
  | [] => none
  | actor :: rest => some { m with actors := actor.append list h :: rest }

end Model

end GoalModel
