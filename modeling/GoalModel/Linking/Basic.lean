import GoalModel.Linking.Claim

/-! # Linking documents

`Document.link` resolves the names of a document into handles. It looks at everything before it
gives up: the result is a model, or every error in the order of the document. The model is put
together from three things that do not depend on each other: the declarations, the scope that
they make, and the claims of the goals. -/

namespace GoalModel

/-- The handles of names that should be distinct, and the errors of the others. -/
def distinctHandles (resolve : String → Except LinkError Handle) (repeated : String → LinkError) :
    (seen : List Handle) → List String → List Handle × List LinkError
  | _, [] => ([], [])
  | seen, name :: rest =>
    match resolve name with
    | .error e =>
      let (handles, errors) := distinctHandles resolve repeated seen rest
      (handles, e :: errors)
    | .ok h =>
      if h ∈ seen then
        let (handles, errors) := distinctHandles resolve repeated seen rest
        (handles, repeated name :: errors)
      else
        let (handles, errors) := distinctHandles resolve repeated (h :: seen) rest
        (h :: handles, errors)

/-- The predicates that an effect turns true, and the errors among their names. -/
def EffectEntry.linkTurnsTrue (scope : Scope) (effect : EffectEntry) :
    List Handle × List LinkError :=
  distinctHandles (scope.resolveAs (.effect effect.name) .predicate)
    (.repeatedPredicate effect.name) [] effect.turnsTrue

/-! ## Actors -/

namespace ActorEntry

/-- The errors of the references inside an actor, those of its goals apart. -/
def referenceErrors (scope : Scope) (actor : ActorEntry) : List LinkError :=
  ((actor.tasks.flatMap (·.effects)).flatMap fun effect => (effect.linkTurnsTrue scope).2) ++
  (actor.qualities.flatMap fun quality =>
    scope.formulaErrors (.quality quality.name) quality.formula) ++
  (actor.conditions.flatMap fun condition =>
    scope.formulaErrors (.condition condition.name) condition.formula)

/-- The claims of consecutive actors, and the errors of all their references. -/
def linkAll (scope : Scope) :
    (base : Nat) → Claims → List ActorEntry → Claims × List LinkError
  | _, claims, [] => (claims, [])
  | base, claims, actor :: rest =>
    let (claims, errors) := claims.addGoals scope (actor.goalBase base) actor.goals
    let (claims, further) := linkAll scope (base + actor.size) claims rest
    (claims, errors ++ actor.referenceErrors scope ++ further)

end ActorEntry

/-! ## Elements -/

/-- The place in the tree that the claims give to an element; `kind` is the refinement if there
are children at all. -/
def Claims.decomposition (claims : Claims) (kind : Refinement) (h : Handle) : Decomposition :=
  let children := claims.children h
  ⟨if children.isEmpty then .leaf else kind, children, claims.parent? h⟩

def Declaration.kind (scope : Scope) (claims : Claims) (h : Handle) : Declaration → ElementKind
  | .predicate _ => .predicate
  | .stateVariable _ => .stateVariable
  | .goal entry => .goal (claims.decomposition (if entry.or.isEmpty then .and else .or) h)
  | .task entry =>
    .task ⟨⟨.leaf, [], claims.parent? h⟩, Handle.range (h.index + 1) entry.effects.length⟩
  | .effect owner entry =>
    .effect ⟨owner, entry.probability, entry.satisfying, (entry.linkTurnsTrue scope).1⟩
  | .quality entry => .quality ⟨scope.linkFormula entry.formula, entry.root⟩
  | .condition entry => .condition (scope.linkFormula entry.formula)

def Declaration.element (scope : Scope) (claims : Claims) (h : Handle)
    (declaration : Declaration) : Element :=
  ⟨declaration.name, declaration.kind scope claims h⟩

/-! ## What leaves and enters a run -/

namespace ExportEntry

def linkErrors (scope : Scope) (entry : ExportEntry) : List LinkError :=
  match scope.resolveAs .exported .stateful entry.name with
  | .error e => [e]
  | .ok _ =>
    match entry.min, entry.max with
    | some min, some max => if max.lt min then [.invertedBounds entry.name min max] else []
    | _, _ => []

def link? (scope : Scope) (entry : ExportEntry) : Option Export :=
  match scope.resolveAs .exported .stateful entry.name with
  | .error _ => none
  | .ok h => some ⟨h, entry.domain, entry.min, entry.max⟩

end ExportEntry

namespace InitialEntry

def linkErrors (scope : Scope) (entry : InitialEntry) : List LinkError :=
  match scope.resolveAs .initializations .stateful entry.name with
  | .error e => [e]
  | .ok _ => []

def link? (scope : Scope) (entry : InitialEntry) : Option Initialization :=
  match scope.resolveAs .initializations .stateful entry.name with
  | .error _ => none
  | .ok h => some ⟨h, entry.value⟩

end InitialEntry

/-! ## The whole document -/

namespace Document

variable (document : Document)

/-- The claims of all goals, and the errors of all references inside actors. -/
def linkActors : Claims × List LinkError :=
  ActorEntry.linkAll document.scope 0 [] document.actors

def elements : List Element :=
  let scope := document.scope
  let claims := document.linkActors.1
  document.declarations.mapIdx fun i declaration => declaration.element scope claims ⟨i⟩

/-- At most one quality is marked as the root. -/
def rootQualityErrors : List LinkError :=
  let roots := document.actors.flatMap fun actor => actor.qualities.filter (·.root)
  if 1 < roots.length then [.severalRootQualities (roots.map (·.name))] else []

/-- The cross-run elements, and the errors among their names. -/
def linkCrossRun : List Handle × List LinkError :=
  distinctHandles (document.scope.resolveAs .crossRun .stateful) .repeatedCrossRun []
    document.crossRun

/-- Every reason why the document cannot be linked, in the order of the document. -/
def linkErrors : List LinkError :=
  let scope := document.scope
  declarationErrors [] document.declarations ++
  document.linkActors.2 ++
  document.rootQualityErrors ++
  document.linkCrossRun.2 ++
  document.exported.flatMap (·.linkErrors scope) ++
  document.initializations.flatMap (·.linkErrors scope)

/-- The model of a document, as far as its references are resolved. -/
def linked : Model :=
  let scope := document.scope
  { name := document.name
    elements := document.elements
    actors := ActorEntry.placeAll 0 document.actors
    crossRun := document.linkCrossRun.1
    exported := document.exported.filterMap (·.link? scope)
    initializations := document.initializations.filterMap (·.link? scope) }

/-- The model that a document describes, or every error of the document. -/
def link : Except (List LinkError) Model :=
  let errors := document.linkErrors
  if errors.isEmpty then .ok document.linked else .error errors

end Document

end GoalModel
