import GoalModel.Schema.Check

/-! # The schema of goal models

`Definition.schema` is the data of the model schema; `modelSchema` is its root and
`modelSchemaText` its written form. `schemaViolations` checks a value against it. A definition
is followed only below something that was taken off the value, so the depth of the value bounds
how many definitions are followed (`Definition.violations`). -/

namespace GoalModel

namespace Schema

def string : Schema := .all [.type [.string]]

def number : Schema := .all [.type [.number]]

def boolean : Schema := .all [.type [.boolean]]

def listOf (definition : Definition) : Schema :=
  .all [.items (.ref definition) 0, .type [.array]]

/-- An object with certain members, some of them required. -/
def record (required : List String) (properties : List (String × Schema)) : Schema :=
  .all [.closed properties, .required required, .type [.object]]

/-- The form of a formula with the given tag: an object with one member. -/
def tagged (tag : String) (payload : Schema) : Schema := record [tag] [(tag, payload)]

end Schema

section

open Schema

/-- What each definition says. -/
def Definition.schema : Definition → Schema
  | .name =>
    .all [.negated (.all [.pattern .reservedEnding]), .pattern .identifier, .type [.string]]
  | .actor =>
    record ["name"] [
      ("name", string),
      ("predicates", listOf .name),
      ("variables", listOf .name),
      ("goals", listOf .goal),
      ("tasks", listOf .task),
      ("qualities", listOf .quality),
      ("conditions", listOf .condition)]
  | .goal =>
    .all [
      .closed [("name", .ref .name), ("and", listOf .name), ("or", listOf .name)],
      .negated (.all [.required ["and", "or"]]),
      .required ["name"],
      .type [.object]]
  | .task =>
    record ["name"] [("name", .ref .name), ("effects", listOf .effect)]
  | .effect =>
    record ["name", "probability"] [
      ("name", .ref .name),
      ("probability", .all [.exclusiveMinimum 0, .maximum 1, .type [.number]]),
      ("satisfying", boolean),
      ("turnsTrue", .all [.items (.ref .name) 0, .type [.array], .uniqueItems])]
  | .quality =>
    record ["name", "formula"] [
      ("name", .ref .name),
      ("root", boolean),
      ("formula", .ref .formula)]
  | .condition =>
    record ["name", "formula"] [("name", .ref .name), ("formula", .ref .formula)]
  | .exported =>
    record ["name", "domain"] [
      ("name", .ref .name),
      ("domain", .all [.enum ["discrete", "continuous"]]),
      ("min", number),
      ("max", number)]
  | .initialization =>
    record ["name", "value"] [
      ("name", .ref .name),
      ("value", .all [.type [.boolean, .number, .string]])]
  | .operands =>
    .all [
      .items .never 2,
      .minItems 2,
      .prefixItems [.ref .formula, .ref .formula],
      .type [.array]]
  | .formula =>
    .all [.oneOf [
      tagged "atom" (.ref .name),
      tagged "number" number,
      tagged "bool" boolean,
      tagged "and" (.ref .operands),
      tagged "or" (.ref .operands),
      tagged "plus" (.ref .operands),
      tagged "minus" (.ref .operands),
      tagged "multiply" (.ref .operands),
      tagged "divide" (.ref .operands),
      tagged "gt" (.ref .operands),
      tagged "gte" (.ref .operands),
      tagged "lt" (.ref .operands),
      tagged "lte" (.ref .operands),
      tagged "eq" (.ref .operands),
      tagged "neq" (.ref .operands),
      tagged "not" (.ref .formula),
      tagged "negate" (.ref .formula),
      tagged "previous" (.ref .formula)]]

end

/-- The schema of a whole model. -/
def modelSchema : Schema :=
  Schema.record ["actors"] [
    ("name", Schema.string),
    ("actors", Schema.listOf .actor),
    ("crossRun", Schema.listOf .name),
    ("exported", Schema.listOf .exported),
    ("initializations", Schema.listOf .initialization)]

/-- The violations of a definition, following at most `levels` definitions in a row. -/
def Definition.violations : (levels : Nat) → Definition → Json → List Violation
  | 0, _, _ => []
  | levels + 1, definition, value =>
    definition.schema.violations (Definition.violations levels) value

/-- Every violation of a definition by a value. -/
def Definition.check (definition : Definition) (value : Json) : List Violation :=
  definition.violations (value.depth + 1) value

/-- Every violation of the model schema by a value. -/
def schemaViolations (value : Json) : List Violation :=
  modelSchema.violations (Definition.violations (value.depth + 1)) value

/-- The model schema as a JSON value, with its definitions. -/
def modelSchemaJson : Json :=
  let members := match modelSchema.toJson with
    | .object members => members
    | _ => []
  .object <|
    [("$schema", .string "https://json-schema.org/draft/2020-12/schema"),
      ("$id", .string "https://gm2golog.local/schemas/model/v1.schema.json"),
      ("title", .string "gm2golog goal model v1")] ++
    members ++
    [("$defs", .object (Definition.all.map fun d => (d.title, d.schema.toJson)))]

/-- The written form of the model schema. -/
def modelSchemaText : String := modelSchemaJson.indented 0 ++ "\n"

end GoalModel
