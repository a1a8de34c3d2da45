import GoalModel.Golog.Naming
import GoalModel.Proofs.Prolog.Reader

/-! # What goals answer and what formulas mean

A program runs against an interpretation: the truth of its state terms, the values of the
elements in both situations, and the operators of arithmetic. `answers` runs a goal, as it is
read from the text, from left to right and with variables that are bound on the way;
`Formula.truth?` and `Formula.amount?` are the meaning of formulas, which know no variables.
Where an operator has no result the goal raises an error and the formula has no meaning. -/

namespace GoalModel

open Prolog

namespace Golog

/-- Numerals and operators, interpreted. Where there is no result, evaluation fails. -/
structure Arithmetic (α : Type) where
  literal : Numeral → Option α
  negate : α → Option α
  operate : BinaryOperator → α → α → Option α
  compare : BinaryOperator → α → α → Option Bool

/-- The operators of expressions and comparisons always have a result. -/
structure Arithmetic.Total {α : Type} (A : Arithmetic α) : Prop where
  literal : ∀ numeral, (A.literal numeral).isSome
  negate : ∀ x, (A.negate x).isSome
  operate : ∀ op x y, op.arithmeticSymbol?.isSome → (A.operate op x y).isSome
  compare : ∀ op x y, op.comparisonSymbol?.isSome → (A.compare op x y).isSome

/-- The operators of expressions have a result unless something singular is a divisor. -/
structure Arithmetic.Regular {α : Type} (A : Arithmetic α) (singular : α → Prop) : Prop where
  literal : ∀ numeral, (A.literal numeral).isSome
  negate : ∀ x, (A.negate x).isSome
  operate : ∀ op x y, op.arithmeticSymbol?.isSome → (op = .divide → ¬singular y) →
    (A.operate op x y).isSome

theorem Arithmetic.Total.regular {α : Type} {A : Arithmetic α} (hA : A.Total) :
    A.Regular fun _ => False where
  literal := hA.literal
  negate := hA.negate
  operate op x y hop _ := hA.operate op x y hop

/-- What a program runs against. -/
structure Interpretation (α : Type) extends Arithmetic α where
  /-- The truth of a state term. -/
  holds : String → Situation → Bool
  /-- The value of an element. -/
  value : Handle → Situation → α

end Golog

open Golog

variable {α : Type} {m : Model}

/-! ## Formulas -/

namespace Formula

/-- The number that a formula stands for. -/
def amount? (I : Interpretation α) : Formula Handle → Option α
  | .atom h => some (I.value h .current)
  | .number x => I.literal (.float x)
  | .bool value => I.literal (.integer (if value then 1 else 0))
  | .unary .previous (.atom h) => some (I.value h .initial)
  | .unary .negate operand => do I.negate (← operand.amount? I)
  | .binary op left right => do I.operate op (← left.amount? I) (← right.amount? I)
  | _ => none

/-- What a formula divides by, at any depth. -/
def divisors : Formula Handle → List (Formula Handle)
  | .binary .divide left right => right :: (left.divisors ++ right.divisors)
  | .binary _ left right => left.divisors ++ right.divisors
  | .unary _ operand => operand.divisors
  | _ => []

/-- The truth of a formula. An atom stands for its state term. -/
def truth? (m : Model) (I : Interpretation α) : Formula Handle → Option Bool
  | .atom h => some (I.holds (stateName m h) .current)
  | .bool value => some value
  | .unary .previous (.atom h) => some (I.holds (stateName m h) .initial)
  | .unary .not operand => do return !(← operand.truth? m I)
  | .binary .and left right => do return (← left.truth? m I) && (← right.truth? m I)
  | .binary .or left right => do return (← left.truth? m I) || (← right.truth? m I)
  | .binary op left right => do I.compare op (← left.amount? I) (← right.amount? I)
  | _ => none

/-- Where a formula stands for a truth value, `previous` is applied to predicates only. -/
def RecallsPredicates (m : Model) : Formula Handle → Prop
  | .unary .previous (.atom h) => m.role? h = some .predicate
  | .unary .not operand => operand.RecallsPredicates m
  | .binary .and left right => left.RecallsPredicates m ∧ right.RecallsPredicates m
  | .binary .or left right => left.RecallsPredicates m ∧ right.RecallsPredicates m
  | _ => True

end Formula

namespace Golog

/-! ## Goals -/

/-- The values of the variables that are bound. -/
abbrev Env (α : Type) := String → Option α

namespace Env

def empty : Env α := fun _ => none

def bind (env : Env α) (x : String) (v : α) : Env α := fun y => if y = x then some v else env y

/-- A variable is bound to a value; if it has a value already, this is the same one or the goal
fails. -/
def unify [DecidableEq α] (env : Env α) (x : String) (v : α) : List (Env α) :=
  match env x with
  | none => [env.bind x v]
  | some w => if w = v then [env] else []

end Env

def Situation.ofText? : String → Option Situation
  | "S" => some .current
  | "s0" => some .initial
  | _ => none

/-- The element with a state name. -/
def elementOf? (m : Model) (state : String) : Option Handle :=
  ((List.range m.elements.length).map Handle.mk).find? fun h => stateName m h = state

/-- The value of an expression. Variables without a value and other terms raise an error. -/
def evaluate (I : Interpretation α) (env : Env α) : Tree → Option α
  | .word x => env x
  | .numeral numeral => I.literal numeral
  | .unary .minus operand => do I.negate (← evaluate I env operand)
  | .binary (.operator op) left right => do
    I.operate op (← evaluate I env left) (← evaluate I env right)
  | _ => none

/-- The answers of one goal for the answers of another one before it. -/
def answersAll (goal : Env α → Option (List (Env α))) : List (Env α) → Option (List (Env α))
  | [] => some []
  | env :: envs => do return (← goal env) ++ (← answersAll goal envs)

section
variable [DecidableEq α] (m : Model) (I : Interpretation α)

/-- A variable is bound to the value that the element with a state name has in a situation. -/
def answersValue (state x s : String) (env : Env α) : Option (List (Env α)) := do
  let h ← elementOf? m state
  return env.unify x (I.value h (← Situation.ofText? s))

/-- A state term `t(S)`, or a goal for the value of an element: `val(t(S), X)` or `q(X, S)`. -/
def answersCall (name : String) (env : Env α) : List Tree → Option (List (Env α))
  | [.word s] => do return if I.holds name (← Situation.ofText? s) then [env] else []
  | [.word x, .word s] => answersValue m I name x s env
  | [.compound state [.word s], .word x] =>
    if name = "val" then answersValue m I state x s env else none
  | _ => none

/-- The answers of a goal: what is bound each time that it succeeds. -/
def answers : Tree → Env α → Option (List (Env α))
  | .word name, env =>
    if name = "true" then some [env] else if name = "fail" then some [] else none
  | .compound name args, env => answersCall m I name env args
  | .unary .negation goal, env => do return if (← answers goal env).isEmpty then [env] else []
  | .binary (.operator .and) left right, env => do
    answersAll (answers right) (← answers left env)
  | .binary (.operator .or) left right, env => do
    return (← answers left env) ++ (← answers right env)
  | .binary (.operator op) left right, env => do
    let holds ← I.compare op (← evaluate I env left) (← evaluate I env right)
    return if holds then [env] else []
  | .binary .is (.word x) expression, env => do
    return env.unify x (← evaluate I env expression)
  | _, _ => none

end

end Golog

end GoalModel
