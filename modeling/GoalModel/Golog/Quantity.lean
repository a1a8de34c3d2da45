import GoalModel.Golog.Diagnostics
import GoalModel.Golog.Naming

/-! # Formulas as quantities

A formula in a place for a number becomes an expression over variables, together with goals that
bind the variables (`Quantity`). Each atom is bound once, in the order of first occurrence. A
part that is no number becomes `0` and is reported. -/

namespace GoalModel.Golog

/-- How the value of an element is looked up. -/
inductive Reading where
  /-- By the truth of a state term: `val(p_fl(S), V)`. -/
  | state
  /-- By a value of its own: `q(V, S)`. -/
  | value
  deriving DecidableEq, Repr

/-- A goal that binds the variable of a state term to its value in a situation. -/
structure Binding where
  reading : Reading
  state : String
  situation : Situation
  deriving DecidableEq, Repr

namespace Binding

def boundVariable (b : Binding) : String := bindingVariable b.state b.situation

def goal (b : Binding) : Term :=
  match b.reading with
  | .state => .call "val" [holdsIn b.state b.situation, .word b.boundVariable]
  | .value => .call b.state [.word b.boundVariable, .word b.situation.text]

/-- Some bindings and then those of others that are new. -/
def merge (first others : List Binding) : List Binding :=
  first ++ others.filter fun b => !first.contains b

end Binding

structure Quantity where
  /-- The bindings that the expression needs, each once. -/
  bindings : List Binding
  expression : Term
  deriving Repr

/-- Stands for a part that is no number. -/
def Quantity.placeholder : Quantity := ⟨[], .word "0"⟩

/-- How an element is looked up; an effect has no value. -/
def Reading.ofRole : Role → Option Reading
  | .quality => some .value
  | .stateVariable => some .value
  | .effect => none
  | _ => some .state

/-- The value of an element in a situation. -/
def renderValue (m : Model) (h : Handle) (situation : Situation) : Render Quantity := do
  match (m.role? h).bind Reading.ofRole with
  | some reading =>
    let binding : Binding := ⟨reading, stateName m h, situation⟩
    return ⟨[binding], .word binding.boundVariable⟩
  | none =>
    report (.effectAsQuantity (m.nameOf h))
    return ⟨[], nameTerm m h⟩

/-- A formula as a quantity. -/
def renderQuantity (m : Model) : Formula Handle → Render Quantity
  | .atom h => renderValue m h .current
  | .number value => return ⟨[], .number value⟩
  | .bool value => return ⟨[], .word (if value then "1" else "0")⟩
  | .unary .previous (.atom h) => renderValue m h .initial
  | .unary .previous _ => do
    report .previousOfFormula
    return .placeholder
  | .unary .negate operand => do
    let quantity ← renderQuantity m operand
    return ⟨quantity.bindings, .unary (.tight "-") (.group quantity.expression)⟩
  | .unary .not _ => do
    report (.booleanAsQuantity UnaryOperator.not.name)
    return .placeholder
  | .binary op left right =>
    match op.arithmeticSymbol? with
    | some symbol => do
      let left ← renderQuantity m left
      let right ← renderQuantity m right
      return ⟨Binding.merge left.bindings right.bindings,
        .binary (.tight symbol) (.group left.expression) (.group right.expression)⟩
    | none => do
      report (.booleanAsQuantity op.name)
      return .placeholder

end GoalModel.Golog
