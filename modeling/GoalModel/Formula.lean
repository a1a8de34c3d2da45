import GoalModel.Number.Basic

/-! # Formulas

A formula is an expression over atoms: names as long as it belongs to a document, handles once
it belongs to a model. Boolean, arithmetic and comparison operators are not told apart by types;
the renderers say what a subtree means in the position where it stands.

Linking a formula is `Formula.bind`: it replaces each atom by a formula and keeps everything
else. -/

namespace GoalModel

inductive BinaryOperator where
  | and | or
  | plus | minus | multiply | divide
  | gt | gte | lt | lte | eq | neq
  deriving DecidableEq, Repr

inductive UnaryOperator where
  | not
  | negate
  /-- The operand at the initial situation. -/
  | previous
  deriving DecidableEq, Repr

namespace BinaryOperator

/-- Every operator, in the order in which messages list them. -/
def all : List BinaryOperator :=
  [.and, .or, .plus, .minus, .multiply, .divide, .gt, .gte, .lt, .lte, .eq, .neq]

def name : BinaryOperator → String
  | .and => "and"
  | .or => "or"
  | .plus => "plus"
  | .minus => "minus"
  | .multiply => "multiply"
  | .divide => "divide"
  | .gt => "gt"
  | .gte => "gte"
  | .lt => "lt"
  | .lte => "lte"
  | .eq => "eq"
  | .neq => "neq"

/-- The operator of an arithmetic expression in the program. -/
def arithmeticSymbol? : BinaryOperator → Option String
  | .plus => some "+"
  | .minus => some "-"
  | .multiply => some "*"
  | .divide => some "/"
  | _ => none

/-- The operator of an arithmetic comparison in the program. -/
def comparisonSymbol? : BinaryOperator → Option String
  | .gt => some ">"
  | .gte => some ">="
  | .lt => some "<"
  | .lte => some "=<"
  | .eq => some "=:="
  | .neq => some "=\\="
  | _ => none

end BinaryOperator

namespace UnaryOperator

def all : List UnaryOperator := [.not, .negate, .previous]

def name : UnaryOperator → String
  | .not => "not"
  | .negate => "negate"
  | .previous => "previous"

end UnaryOperator

inductive Formula (α : Type) where
  | atom (a : α)
  | number (value : Number)
  | bool (value : Bool)
  | binary (op : BinaryOperator) (left right : Formula α)
  | unary (op : UnaryOperator) (operand : Formula α)
  deriving DecidableEq, Repr

namespace Formula

variable {α β : Type}

instance : Inhabited (Formula α) := ⟨.bool false⟩

/-- Replaces every atom by a formula. -/
def bind (f : α → Formula β) : Formula α → Formula β
  | .atom a => f a
  | .number value => .number value
  | .bool value => .bool value
  | .binary op left right => .binary op (left.bind f) (right.bind f)
  | .unary op operand => .unary op (operand.bind f)

/-- The atoms from left to right, with repetitions. -/
def atoms : Formula α → List α
  | .atom a => [a]
  | .number _ => []
  | .bool _ => []
  | .binary _ left right => left.atoms ++ right.atoms
  | .unary _ operand => operand.atoms

/-- Whether `previous` is applied to the given atom somewhere. -/
def referencesPrevious [DecidableEq α] (target : α) : Formula α → Bool
  | .unary .previous (.atom a) => decide (a = target)
  | .unary _ operand => operand.referencesPrevious target
  | .binary _ left right => left.referencesPrevious target || right.referencesPrevious target
  | .atom _ => false
  | .number _ => false
  | .bool _ => false

/-- The nesting depth; a leaf has depth `1`. -/
def depth : Formula α → Nat
  | .atom _ => 1
  | .number _ => 1
  | .bool _ => 1
  | .unary _ operand => operand.depth + 1
  | .binary _ left right => max left.depth right.depth + 1

end Formula

end GoalModel
