import GoalModel.Golog.Quantity

/-! # Clauses of qualities

A quality `q` is defined by `q(V, S)`. A cross-run quality that does not mention its own
previous value accumulates: its formula is added to its value at the start. Where evaluating
the clause would ask for the value of `q` at the start, a base clause answers first. -/

namespace GoalModel.Golog

/-- Whether the value of the previous run is added to the formula. -/
def accumulates (m : Model) (quality : Handle) : Bool :=
  m.isCrossRun quality &&
    (m.quality? quality).any fun data => !data.formula.referencesPrevious quality

/-- The value of a quality in a situation, as a goal: `q(V, S)`. -/
def valueGoal (name : String) (situation : Situation) : Term :=
  .call name [.word "V", .word situation.text]

/-- The value of a quality before the run is the one that it was given. -/
def initialValueClause (name : String) : Clause :=
  .rule (valueGoal name .initial)
    (.chain .listing (.word "true") [.word "!", .call "initialValue" [.word name, .word "V"]])

/-- A quantity that is added to the initial value of a quality. -/
def Quantity.accumulated (quantity : Quantity) (name : String) : Quantity :=
  let own : Binding := ⟨.value, name, .initial⟩
  ⟨Binding.merge quantity.bindings [own],
    .binary (.spaced "+") (.word own.boundVariable) quantity.expression⟩

/-- The clause that binds what a quantity needs and evaluates it. -/
def evaluationClause (name : String) (quantity : Quantity) : Clause :=
  let evaluation := Term.binary (.spaced "is") (.word "V") quantity.expression
  .rule (valueGoal name .current)
    (.chain .listing (.word "true") (quantity.bindings.map (·.goal) ++ [evaluation]))

/-- The clauses of a quality. -/
def qualityClauses (m : Model) (quality : Handle) : Render (List Clause) := do
  match m.quality? quality with
  | none => return []
  | some data =>
    let name := m.nameOf quality
    let quantity ← renderQuantity m data.formula
    let accumulating := accumulates m quality
    let base :=
      if accumulating || data.formula.referencesPrevious quality then [initialValueClause name]
      else []
    return base ++
      [evaluationClause name (if accumulating then quantity.accumulated name else quantity)]

end GoalModel.Golog
