import GoalModel.Json.Basic
import GoalModel.Document.Basic

/-! # Documents as JSON values

The JSON value of a document has its members in the order of declaration. Absent bounds and the
empty refinements of a goal are left out, every other default is written. -/

namespace GoalModel

/-- A list of names. -/
def Json.ofNames (names : List String) : Json := .array (names.map .string)

def InitialValue.toJson : InitialValue → Json
  | .bool value => .bool value
  | .number value => .float value
  | .text value => .string value

def Domain.toJson (domain : Domain) : Json := .string domain.name

def Formula.toJson : Formula String → Json
  | .atom name => .object [("atom", .string name)]
  | .number value => .object [("number", .float value)]
  | .bool value => .object [("bool", .bool value)]
  | .binary op left right => .object [(op.name, .array [left.toJson, right.toJson])]
  | .unary op operand => .object [(op.name, operand.toJson)]

def GoalEntry.toJson (goal : GoalEntry) : Json :=
  .object <|
    ("name", .string goal.name) ::
    (if goal.and.isEmpty then [] else [("and", .ofNames goal.and)]) ++
    (if goal.or.isEmpty then [] else [("or", .ofNames goal.or)])

def EffectEntry.toJson (effect : EffectEntry) : Json :=
  .object [
    ("name", .string effect.name),
    ("probability", .float effect.probability),
    ("satisfying", .bool effect.satisfying),
    ("turnsTrue", .ofNames effect.turnsTrue)]

def TaskEntry.toJson (task : TaskEntry) : Json :=
  .object [
    ("name", .string task.name),
    ("effects", .array (task.effects.map EffectEntry.toJson))]

def QualityEntry.toJson (quality : QualityEntry) : Json :=
  .object [
    ("name", .string quality.name),
    ("root", .bool quality.root),
    ("formula", quality.formula.toJson)]

def ConditionEntry.toJson (condition : ConditionEntry) : Json :=
  .object [("name", .string condition.name), ("formula", condition.formula.toJson)]

def ActorEntry.toJson (actor : ActorEntry) : Json :=
  .object [
    ("name", .string actor.name),
    ("predicates", .ofNames actor.predicates),
    ("variables", .ofNames actor.stateVariables),
    ("goals", .array (actor.goals.map GoalEntry.toJson)),
    ("tasks", .array (actor.tasks.map TaskEntry.toJson)),
    ("qualities", .array (actor.qualities.map QualityEntry.toJson)),
    ("conditions", .array (actor.conditions.map ConditionEntry.toJson))]

/-- A member for a bound that is present. -/
def boundMember (name : String) (bound : Option Number) : List (String × Json) :=
  match bound with
  | some value => [(name, .float value)]
  | none => []

def ExportEntry.toJson (entry : ExportEntry) : Json :=
  .object <|
    [("name", .string entry.name), ("domain", entry.domain.toJson)] ++
    boundMember "min" entry.min ++ boundMember "max" entry.max

def InitialEntry.toJson (entry : InitialEntry) : Json :=
  .object [("name", .string entry.name), ("value", entry.value.toJson)]

def Document.toJson (document : Document) : Json :=
  .object [
    ("name", .string document.name),
    ("actors", .array (document.actors.map ActorEntry.toJson)),
    ("crossRun", .ofNames document.crossRun),
    ("exported", .array (document.exported.map ExportEntry.toJson)),
    ("initializations", .array (document.initializations.map InitialEntry.toJson))]

end GoalModel
