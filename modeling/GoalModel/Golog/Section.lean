/-! # Sections

A program is a sequence of titled sections, each a list of lines. The written form puts a
comment with the title before the lines of a section and an empty line behind them. -/

namespace GoalModel.Golog

/-- The sections of a program, in the order in which they are written. -/
inductive SectionKind where
  | stateStructure
  | discreteExported
  | continuousExported
  | initialValues
  | agentActions
  | stochasticActions
  | nondetActions
  | probabilities
  | procedures
  | fluents
  | successorState
  | preconditions
  | satisfaction
  | rewards
  | conditions
  | sensing
  | situationArguments
  deriving DecidableEq, Repr

namespace SectionKind

def all : List SectionKind :=
  [.stateStructure, .discreteExported, .continuousExported, .initialValues, .agentActions,
    .stochasticActions, .nondetActions, .probabilities, .procedures, .fluents, .successorState,
    .preconditions, .satisfaction, .rewards, .conditions, .sensing, .situationArguments]

def title : SectionKind → String
  | .stateStructure => "Cross-run state structure"
  | .discreteExported => "Discrete exported set"
  | .continuousExported => "Continuous exported set"
  | .initialValues => "Initial values"
  | .agentActions => "Agent actions"
  | .stochasticActions => "Stochastic actions"
  | .nondetActions => "Nondeterministic actions"
  | .probabilities => "Outcome probabilities"
  | .procedures => "Procedures"
  | .fluents => "Fluents"
  | .successorState => "Successor state axioms"
  | .preconditions => "Preconditions"
  | .satisfaction => "Satisfaction and attempt"
  | .rewards => "Rewards"
  | .conditions => "Conditions"
  | .sensing => "Sensing"
  | .situationArguments => "Situation arguments"

def ofTitle? (title : String) : Option SectionKind := all.find? fun kind => kind.title == title

/-- The place of a section in a program. -/
def rank (kind : SectionKind) : Nat := all.idxOf kind

/-- Kinds in the order in which their sections are written. -/
def sorted (kinds : List SectionKind) : List SectionKind :=
  kinds.mergeSort fun a b => decide (a.rank ≤ b.rank)

end SectionKind

structure Section (α : Type) where
  kind : SectionKind
  lines : List α
  deriving Repr

/-- Sections of lines, as they are to be written. -/
abbrev Listing (α : Type) := List (Section α)

namespace Listing

/-- The first section of a kind. -/
def ofKind? {α : Type} (listing : Listing α) (kind : SectionKind) : Option (Section α) :=
  listing.find? fun s => s.kind = kind

/-- Changes every line. -/
def mapLines {α β : Type} (f : α → β) (listing : Listing α) : Listing β :=
  listing.map fun s => ⟨s.kind, s.lines.map f⟩

/-- The lines of a section as they are written, its title before them. -/
def sectionLines (s : Section String) : List String :=
  ["%", "% " ++ s.kind.title, "%"] ++ s.lines ++ [""]

/-- The written form: every line ends with a line feed. -/
def text (listing : Listing String) : String :=
  String.join ((listing.flatMap sectionLines).map (· ++ "\n"))

end Listing

end GoalModel.Golog
