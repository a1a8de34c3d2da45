import GoalModel.Number.Text

/-! # Terms and clauses

The generated program is made of terms as they are written: parentheses are part of a term, and
an operator knows the blanks around it. `Term.text` and `Clause.text` only put the pieces
together, so whatever can be said about a program can be said about its terms.

Conjunctions and disjunctions of several goals nest to the right (`Term.chain`), which is how
their operators associate. -/

namespace GoalModel.Golog

/-- An operator as it is written: its symbol and what stands before and behind it. -/
structure Operator where
  before : String
  symbol : String
  behind : String
  deriving DecidableEq, Repr

namespace Operator

def text (op : Operator) : String := op.before ++ op.symbol ++ op.behind

/-- An operator between blanks. -/
def spaced (symbol : String) : Operator := ⟨" ", symbol, " "⟩

/-- An operator without blanks. -/
def tight (symbol : String) : Operator := ⟨"", symbol, ""⟩

def conjunction : Operator := spaced ","

def disjunction : Operator := spaced ";"

/-- The conjunction of goals that are listed like arguments. -/
def listing : Operator := ⟨"", ",", " "⟩

/-- Negation as failure. -/
def negation : Operator := ⟨"", "\\+", " "⟩

end Operator

/-- How the arguments of a compound term are set apart. -/
inductive Gap where
  | tight
  | spaced
  deriving DecidableEq, Repr

def Gap.text : Gap → String
  | .tight => ","
  | .spaced => ", "

inductive Term where
  /-- A constant, a variable, or any other text without inner structure. -/
  | word (text : String)
  | number (value : Number)
  | compound (functor : String) (gap : Gap) (arguments : List Term)
  | list (items : List Term)
  | unary (op : Operator) (operand : Term)
  | binary (op : Operator) (left right : Term)
  /-- A term in parentheses. -/
  | group (inner : Term)
  deriving Inhabited, Repr

namespace Term

mutual

def text : Term → String
  | .word text => text
  | .number value => value.write .program
  | .compound functor gap arguments =>
    functor ++ "(" ++ String.intercalate gap.text (texts arguments) ++ ")"
  | .list items => "[" ++ String.intercalate "," (texts items) ++ "]"
  | .unary op operand => op.text ++ operand.text
  | .binary op left right => left.text ++ op.text ++ right.text
  | .group inner => "(" ++ inner.text ++ ")"

def texts : List Term → List String
  | [] => []
  | term :: rest => term.text :: texts rest

end

/-- A compound term with its arguments close together. -/
def apply (functor : String) (arguments : List Term) : Term := .compound functor .tight arguments

/-- A compound term with blanks between its arguments. -/
def call (functor : String) (arguments : List Term) : Term := .compound functor .spaced arguments

/-- A compound term with a single word as its argument. -/
def applyWord (functor argument : String) : Term := apply functor [.word argument]

/-- Terms joined by an operator, nested to the right; `empty` stands for none at all. -/
def chain (op : Operator) (empty : Term) : List Term → Term
  | [] => empty
  | [term] => term
  | term :: rest => .binary op term (chain op empty rest)

/-- A conjunction that is in parentheses if it has several members. -/
def groupedConjunction : List Term → Term
  | [] => .word "true"
  | [term] => term
  | terms => .group (chain .conjunction (.word "true") terms)

end Term

/-- A fact, or a rule with a body. -/
structure Clause where
  head : Term
  body : Option Term
  deriving Repr

namespace Clause

def fact (head : Term) : Clause := ⟨head, none⟩

def rule (head body : Term) : Clause := ⟨head, some body⟩

/-- A fact about a list. -/
def listFact (functor : String) (items : List Term) : Clause :=
  fact (.apply functor [.list items])

def text (clause : Clause) : String :=
  match clause.body with
  | none => clause.head.text ++ "."
  | some body => clause.head.text ++ " :- " ++ body.text ++ "."

end Clause

end GoalModel.Golog
