import GoalModel.Document.Reader
import GoalModel.Json.Reader
import GoalModel.Linking.Basic
import GoalModel.Model.Invariants
import GoalModel.Schema.Model

/-! # Loading models from text

`parseModel` takes a text through every check: it is JSON, it satisfies the schema (if asked
for), it is a document, the document can be linked, and the model keeps the invariants. -/

namespace GoalModel

/-- The check that a text fails. -/
inductive LoadError where
  | json
  | schema (violations : List Violation)
  | document (error : ReadError)
  | link (errors : List LinkError)
  | invariants (violations : List InvariantViolation)

/-- A heading and a list of items, a line each. -/
def itemised (heading : String) (items : List String) : String :=
  heading ++ ":" ++ String.join (items.map fun item => "\n- " ++ item)

def LoadError.message : LoadError → String
  | .json => "parse model json"
  | .schema violations => itemised "schema validation failed" (violations.map (·.message))
  | .document error => "deserialize model document: " ++ error.message
  | .link errors => itemised "link errors" (errors.map (·.message))
  | .invariants violations => itemised "invariant violations" (violations.map (·.message))

/-- Checks a JSON value against the model schema. -/
def checkSchema (value : Json) : Except LoadError Unit :=
  match schemaViolations value with
  | [] => .ok ()
  | violations => .error (.schema violations)

/-- The document in a JSON value. -/
def readDocument (value : Json) : Except LoadError Document :=
  match Document.ofJson value with
  | .ok document => .ok document
  | .error e => .error (.document e)

/-- The model that a document describes, if it keeps the invariants. -/
def Document.validModel (document : Document) : Except LoadError Model :=
  match document.link with
  | .error errors => .error (.link errors)
  | .ok m =>
    match m.invariantViolations with
    | [] => .ok m
    | violations => .error (.invariants violations)

/-- The model in a text. -/
def parseModel (text : String) (withSchema : Bool) : Except LoadError Model := do
  match Json.read? text with
  | none => throw .json
  | some value =>
    if withSchema then checkSchema value
    (← readDocument value).validModel

end GoalModel
