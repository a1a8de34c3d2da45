import GoalModel.Schema.Text

/-! # What a value violates -/

namespace GoalModel

/-- A violation of one keyword, with the value that violates it. -/
inductive Violation where
  | unexpectedMembers (names : List String)
  | missingMember (name : String)
  | wrongType (value : Json) (types : List JsonType)
  | mismatch (value : Json) (pattern : Pattern)
  | forbidden (value : Json) (schema : Schema)
  | notAbove (value : Json) (limit : Int)
  | aboveMaximum (value : Json) (limit : Int)
  | repeatedItems (value : Json)
  | notListed (value : Json) (names : List String)
  | noAlternative (value : Json)
  | severalAlternatives (value : Json)
  | tooFewItems (value : Json) (count : Nat)
  | refused (value : Json)

namespace Violation

def apostrophed (s : String) : String := "'" ++ s ++ "'"

/-- Names between quotes: `"a"`, `"a" or "b"`, `"a", "b" or "c"`. -/
def alternatives : List String → String
  | [] => ""
  | [name] => Json.quoted name
  | [name, last] => Json.quoted name ++ " or " ++ Json.quoted last
  | name :: rest => Json.quoted name ++ ", " ++ alternatives rest

def message : Violation → String
  | .unexpectedMembers names =>
    "Additional properties are not allowed (" ++
      String.intercalate ", " (names.map apostrophed) ++
      (if names.length = 1 then " was unexpected)" else " were unexpected)")
  | .missingMember name => Json.quoted name ++ " is a required property"
  | .wrongType value [type] => value.text ++ " is not of type " ++ Json.quoted type.name
  | .wrongType value types =>
    value.text ++ " is not of types " ++
      String.intercalate ", " (types.map fun type => Json.quoted type.name)
  | .mismatch value pattern => value.text ++ " does not match " ++ "\"" ++ pattern.text ++ "\""
  | .forbidden value schema => schema.toJson.text ++ " is not allowed for " ++ value.text
  | .notAbove value limit =>
    value.text ++ " is less than or equal to the minimum of " ++ toString limit
  | .aboveMaximum value limit => value.text ++ " is greater than the maximum of " ++ toString limit
  | .repeatedItems value => value.text ++ " has non-unique elements"
  | .notListed value names => value.text ++ " is not one of " ++ alternatives names
  | .noAlternative value =>
    value.text ++ " is not valid under any of the schemas listed in the 'oneOf' keyword"
  | .severalAlternatives value =>
    value.text ++ " is valid under more than one of the schemas listed in the 'oneOf' keyword"
  | .tooFewItems value count => value.text ++ " has less than " ++ toString count ++ " items"
  | .refused value => "False schema does not allow " ++ value.text

end Violation

end GoalModel
