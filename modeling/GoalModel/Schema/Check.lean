import GoalModel.Schema.Violation

/-! # Checking a value against a schema

`Schema.violations` gives every violation of a schema by a value, keyword by keyword. It is
defined by recursion on the schema and is told what the definitions that the schema refers to
say. -/

namespace GoalModel

namespace Json

/-- Whether a value is a number not above a limit. -/
def atMost (limit : Int) : Json → Bool
  | .int n => decide (n ≤ limit)
  | .float x => x.le (.ofInt limit)
  | _ => false

/-- Whether a value is a number above a limit. -/
def above (limit : Int) : Json → Bool
  | .int n => decide (limit < n)
  | .float x => (Number.ofInt limit).lt x
  | _ => false

/-- Whether no two values of a list are equal. -/
def allDistinct : List Json → Bool
  | [] => true
  | a :: rest => rest.all (fun b => !equal a b) && allDistinct rest

end Json

mutual

/-- The violations of a schema; `resolve` gives those of a definition. -/
def Schema.violations (resolve : Definition → Json → List Violation) :
    Schema → Json → List Violation
  | .never, value => [.refused value]
  | .ref definition, value => resolve definition value
  | .all keywords, value => Keyword.allViolations resolve keywords value

def Keyword.allViolations (resolve : Definition → Json → List Violation) :
    List Keyword → Json → List Violation
  | [], _ => []
  | keyword :: rest, value =>
    keyword.violations resolve value ++ Keyword.allViolations resolve rest value

def Keyword.violations (resolve : Definition → Json → List Violation) :
    Keyword → Json → List Violation
  | .closed properties, .object members =>
    let unknown := members.filter fun member => !properties.any (·.1 == member.1)
    members.flatMap (fun member => propertyViolations resolve properties member.1 member.2) ++
      (if unknown.isEmpty then [] else [.unexpectedMembers (unknown.map (·.1))])
  | .closed _, _ => []
  | .enum values, value =>
    match value with
    | .string s => if values.contains s then [] else [.notListed value values]
    | _ => [.notListed value values]
  | .exclusiveMinimum limit, value => if value.atMost limit then [.notAbove value limit] else []
  | .items schema behind, .array items =>
    (items.drop behind).flatMap fun item => schema.violations resolve item
  | .items _ _, _ => []
  | .maximum limit, value => if value.above limit then [.aboveMaximum value limit] else []
  | .minItems count, .array items =>
    if items.length < count then [.tooFewItems (.array items) count] else []
  | .minItems _, _ => []
  | .negated schema, value =>
    if (schema.violations resolve value).isEmpty then [.forbidden value schema] else []
  | .oneOf schemas, value =>
    match acceptedCount resolve schemas value with
    | 0 => [.noAlternative value]
    | 1 => []
    | _ => [.severalAlternatives value]
  | .pattern pattern, .string s =>
    if pattern.accepts s then [] else [.mismatch (.string s) pattern]
  | .pattern _, _ => []
  | .prefixItems schemas, .array items => itemViolations resolve schemas items
  | .prefixItems _, _ => []
  | .required names, .object members =>
    (names.filter fun name => !members.any (·.1 == name)).map .missingMember
  | .required _, _ => []
  | .type types, value =>
    if types.any fun type => type.holds value then [] else [.wrongType value types]
  | .uniqueItems, .array items =>
    if Json.allDistinct items then [] else [.repeatedItems (.array items)]
  | .uniqueItems, _ => []

/-- The violations by a member of an object; a member without a property has none here. -/
def propertyViolations (resolve : Definition → Json → List Violation) :
    List (String × Schema) → String → Json → List Violation
  | [], _, _ => []
  | (property, schema) :: rest, name, value =>
    if property = name then schema.violations resolve value
    else propertyViolations resolve rest name value

/-- The violations by the first items of an array, a schema each. -/
def itemViolations (resolve : Definition → Json → List Violation) :
    List Schema → List Json → List Violation
  | schema :: schemas, item :: items =>
    schema.violations resolve item ++ itemViolations resolve schemas items
  | _, _ => []

/-- How many of some schemas accept a value. -/
def acceptedCount (resolve : Definition → Json → List Violation) : List Schema → Json → Nat
  | [], _ => 0
  | schema :: rest, value =>
    (if (schema.violations resolve value).isEmpty then 1 else 0) +
      acceptedCount resolve rest value

end

end GoalModel
