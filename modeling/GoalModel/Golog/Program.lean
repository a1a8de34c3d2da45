import GoalModel.Golog.Condition
import GoalModel.Golog.Derived
import GoalModel.Golog.Precondition
import GoalModel.Golog.Quality
import GoalModel.Golog.Section

/-! # Assembling the program

`assemble` translates a model with a single root goal into its program, one section after the
other. Only the clauses of qualities and conditions can degrade, so only their sections report
diagnostics. -/

namespace GoalModel.Golog

inductive AssembleError where
  | noRootGoal
  | severalRootGoals (names : List String)
  deriving DecidableEq, Repr

def AssembleError.message : AssembleError → String
  | .noRootGoal => "model has no root goal"
  | .severalRootGoals names =>
    "model has more than one root goal: " ++ String.intercalate ", " names

/-- A program and what was reported while it was made. -/
structure Translation where
  program : Listing Clause
  diagnostics : List Diagnostic

def Translation.listing (t : Translation) : Listing String := t.program.mapLines (·.text)

/-- The written program. -/
def Translation.text (t : Translation) : String := t.listing.text

variable (m : Model)

/-! ## State -/

def stateStructureClauses : List Clause :=
  [.listFact "transStateStructure" (m.crossRun.map (stateTerm m))]

/-- An exported element, with its bounds if it has any. -/
def exportTerm (entry : Export) : Term :=
  match entry.min, entry.max with
  | none, none => stateTerm m entry.element
  | min, max =>
    .apply (stateName m entry.element)
      [(min.map .number).getD (.word "-inf"), (max.map .number).getD (.word "inf")]

def exportedTerms (domain : Domain) : List Term :=
  (m.exported.filter (·.domain = domain)).map (exportTerm m)

def initialTerm (entry : Initialization) : Term :=
  .apply (stateName m entry.element) [initialValueTerm entry.value]

/-! ## Actions -/

def agentActionClauses : List Clause :=
  let tasks := m.tasks.map (nameTerm m)
  .listFact "agentActionList" tasks :: tasks.map fun task => .fact (.apply "agentAction" [task])

def stochasticActionClauses : List Clause :=
  let effects := m.effects.map (nameTerm m)
  .listFact "stochasticActionList" effects ::
    effects.map fun effect => .fact (.apply "stochasticAction" [effect])

/-- The outcomes of a task. -/
def nondetClause (task : Handle) : Clause :=
  .fact (.apply "nondetActions"
    [nameTerm m task, .word "_", .list ((m.effectsOf task).map (nameTerm m))])

def probabilityClause? (effect : Handle) : Option Clause :=
  (m.effect? effect).map fun data =>
    .fact (.apply "prob" [nameTerm m effect, .number data.probability, .word "_"])

/-- The procedure of a goal tries its children in turn, or chooses one of them. -/
def procedureClause (goal : Handle) : Clause :=
  let op : Operator := .spaced (if m.refinement goal = .or then "#" else ":")
  let body : Term :=
    match (m.children goal).map (nameTerm m) with
    | [] => .word "nil"
    | [child] => child
    | children => .group (.chain op (.word "nil") children)
  .fact (.call "proc" [nameTerm m goal, body])

/-! ## Situations -/

/-- A predicate holds if it held before or if the action is an effect that turns it true. -/
def successorClauses (predicate : Handle) : List Clause :=
  let fluent := stateName m predicate
  let causes := m.effects.filter fun effect => decide (predicate ∈ m.turnsTrue effect)
  [.rule (holdsIn fluent .initial) (.applyWord "initiallyTrue" fluent),
    .rule (.apply fluent [.apply "do" [.word "A", .word Situation.current.text]])
      (.chain .disjunction (.word "fail")
        (holdsIn fluent .current ::
          causes.map fun effect => .binary (.tight "=") (.word "A") (nameTerm m effect)))]

def preconditionClauses : List Clause :=
  m.effects.filterMap (effectPrecondition? m) ++ m.tasks.map (taskPrecondition m)

def satisfactionClauses (root : Handle) : List Clause :=
  (m.tasks ++ m.goals).flatMap (fun node => Derived.all.map fun d => derivedClause m d node) ++
  [.rule (holdsIn "goalAchieved" .current)
    (holdsIn (ended (m.nameOf root) .satisfied) .current)]

/-- What an agent can sense after an effect: the fluents that it turns true. -/
def senseClause (effect : Handle) : Clause :=
  .fact (.apply "senseCondition"
    [nameTerm m effect, .groupedConjunction ((m.turnsTrue effect).map (stateTerm m))])

/-- A term that depends on the situation, without and with it. -/
def restoreClause (name : String) : Clause :=
  .fact (.apply "restoreSitArg"
    [.word name, .word Situation.current.text, holdsIn name .current])

def restoreValueClause (name : String) : Clause :=
  .fact (.apply "restoreSitArg" [.applyWord name "V", .word Situation.current.text,
    .apply name [.word "V", .word Situation.current.text]])

def situationArgumentClauses : List Clause :=
  (m.predicates.map fun p => restoreClause (ended (m.nameOf p) .fluent)) ++
  ((m.tasks ++ m.goals).flatMap fun node =>
    Derived.all.map fun d => restoreClause (ended (m.nameOf node) d.ending)) ++
  (m.conditions.map fun c => restoreClause (m.nameOf c)) ++
  (m.qualities.map fun q => restoreValueClause (m.nameOf q))

/-! ## Rewards and conditions -/

def rewardClause : Clause :=
  match m.rootQuality? with
  | some root =>
    .rule (valueGoal "reward" .current) (valueGoal (m.nameOf root) .current)
  | none => .fact (.call "reward" [.word "0", .word "_"])

def rewardClauses : Render (List Clause) := do
  let clauses ← m.qualities.mapM fun quality => do
    enter (m.nameOf quality)
    qualityClauses m quality
  return clauses.flatten ++ [rewardClause m]

def allConditionClauses : Render (List Clause) := do
  let clauses ← m.conditions.mapM (conditionClauses m)
  return clauses.flatten

/-! ## The whole program -/

/-- The clauses of a section. -/
def sectionClauses (root : Handle) : SectionKind → Render (List Clause)
  | .stateStructure => return stateStructureClauses m
  | .discreteExported => return [.listFact "discreteExportedSet" (exportedTerms m .discrete)]
  | .continuousExported =>
    return [.listFact "continuousExportedSet" (exportedTerms m .continuous)]
  | .initialValues => return [.listFact "init" (m.initializations.map (initialTerm m))]
  | .agentActions => return agentActionClauses m
  | .stochasticActions => return stochasticActionClauses m
  | .nondetActions => return m.tasks.map (nondetClause m)
  | .probabilities => return m.effects.filterMap (probabilityClause? m)
  | .procedures => return m.goals.map (procedureClause m)
  | .fluents => return [.listFact "fluentList" (m.predicates.map (stateTerm m))]
  | .successorState => return m.predicates.flatMap (successorClauses m)
  | .preconditions => return preconditionClauses m
  | .satisfaction => return satisfactionClauses m root
  | .rewards => rewardClauses m
  | .conditions => allConditionClauses m
  | .sensing => return m.effects.map (senseClause m)
  | .situationArguments => return situationArgumentClauses m

/-- The program of a model whose root goal is known. -/
def translateFrom (root : Handle) : Translation :=
  let render : Render (Listing Clause) := SectionKind.all.mapM fun kind => do
    return ⟨kind, ← sectionClauses m root kind⟩
  let (program, sink) := render.run .empty
  ⟨program, sink.entries⟩

/-- Translates a model into its program, unless it lacks a single root goal. -/
def assemble : Except AssembleError Translation :=
  match m.rootGoals with
  | [] => .error .noRootGoal
  | [root] => .ok (translateFrom m root)
  | roots => .error (.severalRootGoals (roots.map m.nameOf))

end GoalModel.Golog
