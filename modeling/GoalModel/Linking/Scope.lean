import GoalModel.Linking.Error

/-! # Resolving names

A `Scope` is what has been declared, in the order of the handles. A name that was declared
several times means its last declaration. A `Resolution` is a scope together with the errors
that linking formulas in it has met. -/

namespace GoalModel

/-- The position of the last item that satisfies a condition. -/
def lastIndex? {α : Type} (p : α → Bool) : List α → Option Nat
  | [] => none
  | a :: rest =>
    match lastIndex? p rest with
    | some i => some (i + 1)
    | none => if p a then some 0 else none

structure Scope where
  /-- The declared names with their roles; the position is the handle. -/
  declared : List (String × Role)
  deriving Repr

namespace Scope

def empty : Scope := ⟨[]⟩

/-- The scope of a model's elements. -/
def ofModel (m : Model) : Scope :=
  ⟨m.elements.map fun element => (element.name, element.kind.role)⟩

def resolve? (scope : Scope) (name : String) : Option Handle :=
  (lastIndex? (fun entry => entry.1 == name) scope.declared).map Handle.mk

def nameOf (scope : Scope) (h : Handle) : String :=
  (scope.declared[h.index]?.map (·.1)).getD ""

def role? (scope : Scope) (h : Handle) : Option Role := scope.declared[h.index]?.map (·.2)

/-- Resolves a name that must lead to an element of a certain kind. -/
def resolveAs (scope : Scope) (referrer : Referrer) (requirement : Requirement)
    (name : String) : Except LinkError Handle :=
  match scope.resolve? name with
  | none => .error (.unresolved referrer name)
  | some h =>
    match scope.role? h with
    | none => .error (.unresolved referrer name)
    | some role =>
      if requirement.accepts role then .ok h
      else .error (.wrongRole referrer name role requirement)

/-- A formula over handles. A name without a declaration becomes false. -/
def linkFormula (scope : Scope) (formula : Formula String) : Formula Handle :=
  formula.bind fun name =>
    match scope.resolve? name with
    | some h => .atom h
    | none => .bool false

/-- An error for each atom without a declaration, from left to right. -/
def formulaErrors (scope : Scope) (referrer : Referrer) (formula : Formula String) :
    List LinkError :=
  (formula.atoms.filter fun name => (scope.resolve? name).isNone).map (.unresolved referrer)

end Scope

/-- A scope and the errors so far. -/
structure Resolution where
  scope : Scope
  errors : List LinkError

namespace Resolution

/-- A resolution that knows no name. -/
def empty : Resolution := ⟨.empty, []⟩

def ofModel (m : Model) : Resolution := ⟨.ofModel m, []⟩

/-- Links a formula and keeps its errors. -/
def linkFormula (r : Resolution) (formula : Formula String) (referrer : Referrer) :
    Formula Handle × Resolution :=
  (r.scope.linkFormula formula,
    { r with errors := r.errors ++ r.scope.formulaErrors referrer formula })

/-- A value, unless there were errors. -/
def result {α : Type} (r : Resolution) (value : α) : Except (List LinkError) α :=
  if r.errors.isEmpty then .ok value else .error r.errors

end Resolution

/-- Links a formula that stands alone against a model. -/
def Model.linkFormula (m : Model) (formula : Formula String) :
    Except (List LinkError) (Formula Handle) :=
  let (linked, r) := (Resolution.ofModel m).linkFormula formula .formula
  r.result linked

end GoalModel
