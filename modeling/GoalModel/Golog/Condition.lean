import GoalModel.Golog.Quantity

/-! # Formulas as conditions

A formula in a place for a truth value becomes a goal over the current situation. Comparisons
first bind what their sides need. A part that is no truth value becomes `true` and is
reported. -/

namespace GoalModel.Golog

/-- Stands for a part that is no truth value. -/
def conditionPlaceholder : Term := .word "true"

/-- The truth of an element in the current situation. -/
def renderTruth (m : Model) (h : Handle) : Render Term := do
  match m.role? h with
  | some .effect =>
    report (.effectAsCondition (m.nameOf h))
    return nameTerm m h
  | _ => return holdsIn (stateName m h) .current

/-- A comparison of two quantities, after the bindings of both. -/
def comparison (symbol : String) (left right : Quantity) : Term :=
  let bindings := Binding.merge left.bindings right.bindings
  let test := Term.binary (.spaced symbol) left.expression right.expression
  .group (.chain .listing (.word "true") (bindings.map (·.goal) ++ [test]))

/-- A formula as a condition. -/
def renderCondition (m : Model) : Formula Handle → Render Term
  | .atom h => renderTruth m h
  | .bool value => return .word (if value then "true" else "fail")
  | .number value => do
    report (.numberAsCondition value)
    return conditionPlaceholder
  | .unary .not operand => do
    let condition ← renderCondition m operand
    return .unary .negation (.group condition)
  | .unary .previous (.atom h) => return holdsIn (ended (m.nameOf h) .fluent) .initial
  | .unary .previous _ => do
    report .previousOfFormula
    return conditionPlaceholder
  | .unary .negate _ => do
    report (.arithmeticAsCondition UnaryOperator.negate.name)
    return conditionPlaceholder
  | .binary .and left right => do
    let left ← renderCondition m left
    let right ← renderCondition m right
    return .group (.binary .conjunction left right)
  | .binary .or left right => do
    let left ← renderCondition m left
    let right ← renderCondition m right
    return .group (.binary .disjunction left right)
  | .binary op left right =>
    match op.comparisonSymbol? with
    | some symbol => do
      let left ← renderQuantity m left
      let right ← renderQuantity m right
      return comparison symbol left right
    | none => do
      report (.arithmeticAsCondition op.name)
      return conditionPlaceholder

/-- The clauses of a condition: before the run it holds if it is initially true, later if its
formula holds. -/
def conditionClauses (m : Model) (condition : Handle) : Render (List Clause) := do
  let name := m.nameOf condition
  enter name
  let body ← match m.condition? condition with
    | some formula => renderCondition m formula
    | none => pure (.word "fail")
  return [
    .rule (holdsIn name .initial)
      (.chain .listing (.word "true") [.word "!", .applyWord "initiallyTrue" name]),
    .rule (holdsIn name .current) body]

end GoalModel.Golog
