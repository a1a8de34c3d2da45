import GoalModel.Json.Basic
import GoalModel.Identifier

/-! # Schemas

A schema says which JSON values are accepted. It is a list of keywords, all of which a value
must satisfy, in the order in which their violations are reported: the alphabetical order of
their names. A schema refers to another one by the name of its definition; every reference
stands below a keyword that goes down into the value (`closed`, `items`, `prefixItems`), so
checking a value ends although definitions refer to each other. -/

namespace GoalModel

/-- The named schemas of the model schema. -/
inductive Definition where
  | name | actor | goal | task | effect | quality | condition | exported | initialization
  | operands | formula
  deriving DecidableEq, Repr

/-- The types that the schema tells apart. -/
inductive JsonType where
  | object | array | string | number | boolean
  deriving DecidableEq, Repr

/-- The patterns of names. -/
inductive Pattern where
  /-- The whole text is an identifier. -/
  | identifier
  /-- The text ends in what the program adds to names. -/
  | reservedEnding
  deriving DecidableEq, Repr

mutual

inductive Schema where
  /-- No value is accepted. -/
  | never
  | ref (definition : Definition)
  | all (keywords : List Keyword)

/-- A keyword constrains the values of one type and accepts all others; `type`, `negated`,
`oneOf` and `enum` see every value. -/
inductive Keyword where
  /-- An object has only the given members, each as its schema says. -/
  | closed (properties : List (String × Schema))
  /-- One of some strings. -/
  | enum (values : List String)
  | exclusiveMinimum (limit : Int)
  /-- The items of an array behind those that `prefixItems` constrains. -/
  | items (schema : Schema) (behind : Nat)
  | maximum (limit : Int)
  | minItems (count : Nat)
  | negated (schema : Schema)
  /-- Exactly one of some schemas. -/
  | oneOf (schemas : List Schema)
  | pattern (pattern : Pattern)
  /-- The first items of an array, one schema each. -/
  | prefixItems (schemas : List Schema)
  | required (names : List String)
  | type (types : List JsonType)
  /-- No two items of an array are equal. -/
  | uniqueItems

end

instance : Inhabited Schema := ⟨.never⟩

namespace JsonType

def name : JsonType → String
  | .object => "object"
  | .array => "array"
  | .string => "string"
  | .number => "number"
  | .boolean => "boolean"

/-- Whether a value has the type; an integer is a number. -/
def holds : JsonType → Json → Bool
  | .object, .object _ => true
  | .array, .array _ => true
  | .string, .string _ => true
  | .number, .int _ => true
  | .number, .float _ => true
  | .boolean, .bool _ => true
  | _, _ => false

end JsonType

namespace Pattern

/-- The pattern as a regular expression. -/
def text : Pattern → String
  | .identifier => "^[A-Za-z_][A-Za-z0-9_]*$"
  | .reservedEnding =>
    "(" ++ String.intercalate "|" (Identifier.Ending.all.map (·.text)) ++ ")$"

def accepts : Pattern → String → Bool
  | .identifier, s => Identifier.isValid s
  | .reservedEnding, s => (Identifier.reservedEnding? s).isSome

end Pattern

def Definition.title : Definition → String
  | .name => "name"
  | .actor => "actor"
  | .goal => "goal"
  | .task => "task"
  | .effect => "effect"
  | .quality => "quality"
  | .condition => "condition"
  | .exported => "exported"
  | .initialization => "initialization"
  | .operands => "operands"
  | .formula => "formula"

def Definition.all : List Definition :=
  [.name, .actor, .goal, .task, .effect, .quality, .condition, .exported, .initialization,
    .operands, .formula]

end GoalModel
