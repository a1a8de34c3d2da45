import GoalModel.Json.Text
import GoalModel.Schema.Basic

/-! # Schemas as JSON values

A schema is written with its keywords in the order of the written model schema, which begins
with the type and ends with the alternatives. -/

namespace GoalModel

/-- The value of `type`: a single type stands without brackets. -/
def JsonType.listJson : List JsonType → Json
  | [type] => .string type.name
  | types => .array (types.map fun type => .string type.name)

namespace Keyword

/-- The place of a keyword in a written schema. -/
def rank : Keyword → Nat
  | .type _ => 0
  | .required _ => 1
  | .closed _ => 2
  | .pattern _ => 3
  | .negated _ => 4
  | .enum _ => 5
  | .exclusiveMinimum _ => 6
  | .maximum _ => 7
  | .uniqueItems => 8
  | .prefixItems _ => 9
  | .items _ _ => 10
  | .minItems _ => 11
  | .oneOf _ => 12

end Keyword

/-- Members with the ranks of their keywords, in ascending order. -/
def insertRanked (rank : Nat) (members : List (String × Json)) :
    List (Nat × List (String × Json)) → List (Nat × List (String × Json))
  | [] => [(rank, members)]
  | (other, kept) :: rest =>
    if rank < other then (rank, members) :: (other, kept) :: rest
    else (other, kept) :: insertRanked rank members rest

mutual

def Schema.toJson : Schema → Json
  | .never => .bool false
  | .ref definition => .object [("$ref", .string ("#/$defs/" ++ definition.title))]
  | .all keywords => .object ((Keyword.rankedMembers keywords).flatMap (·.2))

/-- The members of a written schema, keyword by keyword. -/
def Keyword.rankedMembers : List Keyword → List (Nat × List (String × Json))
  | [] => []
  | keyword :: rest => insertRanked keyword.rank keyword.members (Keyword.rankedMembers rest)

def Keyword.members : Keyword → List (String × Json)
  | .closed properties =>
    [("additionalProperties", .bool false), ("properties", .object (propertyMembers properties))]
  | .enum values => [("enum", .array (values.map .string))]
  | .exclusiveMinimum limit => [("exclusiveMinimum", .int limit)]
  | .items schema _ => [("items", schema.toJson)]
  | .maximum limit => [("maximum", .int limit)]
  | .minItems count => [("minItems", .int count)]
  | .negated schema => [("not", schema.toJson)]
  | .oneOf schemas => [("oneOf", .array (schemaItems schemas))]
  | .pattern pattern => [("pattern", .string pattern.text)]
  | .prefixItems schemas => [("prefixItems", .array (schemaItems schemas))]
  | .required names => [("required", .array (names.map .string))]
  | .type types => [("type", JsonType.listJson types)]
  | .uniqueItems => [("uniqueItems", .bool true)]

def propertyMembers : List (String × Schema) → List (String × Json)
  | [] => []
  | (name, schema) :: rest => (name, schema.toJson) :: propertyMembers rest

def schemaItems : List Schema → List Json
  | [] => []
  | schema :: rest => schema.toJson :: schemaItems rest

end

end GoalModel
