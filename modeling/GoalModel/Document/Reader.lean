import GoalModel.Document.ReadError

/-! # Reading documents

A record is read from an object, by the names of its members, or from an array, by the places of
its items (`Fields`). Members that no field has are passed over. In an object the problem of the
member with the least name comes first, in an array that of the first item; only then a missing
field is reported, the first in the order of declaration.

`Document.ofJson` and `Formula.ofJson` are the two ways in. -/

namespace GoalModel

/-- Where the fields of a record are found. -/
inductive Fields where
  | named (members : List (String × Json))
  | placed (items : List Json)

/-- What was read of a field: nothing where it is absent. -/
abbrev Field (α : Type) := Except ReadError (Option α)

namespace Fields

/-- The fields of a record that stands in a JSON value. -/
def ofJson (record : Record) : Json → Except ReadError Fields
  | .object members => .ok (.named members)
  | .array items => .ok (.placed items)
  | other => .error (.invalidType (.ofJson other) (.record record))

/-- Reads the field with the given place and name. -/
def field {α : Type} (fields : Fields) (place : Nat) (name : String)
    (read : Json → Except ReadError α) : Field α :=
  let value? := match fields with
    | .named members => members.lookup name
    | .placed items => items[place]?
  match value? with
  | none => .ok none
  | some value => (read value).map some

/-- The error of a field, under its name. -/
def problem {α : Type} (name : String) (field : Field α) : Option (String × ReadError) :=
  match field with
  | .ok _ => none
  | .error e => some (name, e)

/-- The one of some problems whose field has the least name. -/
def leastNamed : List (String × ReadError) → Option (String × ReadError)
  | [] => none
  | first :: rest =>
    match leastNamed rest with
    | none => some first
    | some other => if other.1 < first.1 then some other else some first

/-- Fails with the first problem of the fields, which are given in the order of declaration, and
then if items are left over. -/
def check (fields : Fields) (problems : List (Option (String × ReadError))) :
    Except ReadError Unit :=
  let found := problems.filterMap id
  match fields with
  | .named _ =>
    match leastNamed found with
    | some (_, e) => .error e
    | none => .ok ()
  | .placed items =>
    match found.head? with
    | some (_, e) => .error e
    | none =>
      if problems.length < items.length then .error (.surplusItems items.length) else .ok ()

/-- A field that a record cannot be without. -/
def required {α : Type} (fields : Fields) (record : Record) (place : Nat) (name : String)
    (field : Field α) : Except ReadError α :=
  match field with
  | .ok (some a) => .ok a
  | .ok none =>
    match fields with
    | .named _ => .error (.missingField name)
    | .placed _ => .error (.missingItem place record)
  | .error e => .error e

/-- A field that has a value also where it is absent. -/
def withDefault {α : Type} (default : α) (field : Field α) : Except ReadError α :=
  field.map (·.getD default)

end Fields

/-! ## Plain values -/

namespace Json

def asString : Json → Except ReadError String
  | .string value => .ok value
  | other => .error (.invalidType (.ofJson other) .string)

def asBool : Json → Except ReadError Bool
  | .bool value => .ok value
  | other => .error (.invalidType (.ofJson other) .boolean)

/-- A number; an integer is rounded to the nearest one. -/
def asNumber : Json → Except ReadError Number
  | .float value => .ok value
  | .int value => .ok (.ofInt value)
  | other => .error (.invalidType (.ofJson other) .number)

/-- A bound that may be absent, also by being null. -/
def asBound : Json → Except ReadError (Option Number)
  | .null => .ok none
  | other => (asNumber other).map some

def asList {α : Type} (read : Json → Except ReadError α) : Json → Except ReadError (List α)
  | .array items => items.mapM read
  | other => .error (.invalidType (.ofJson other) .sequence)

end Json

def InitialValue.ofJson : Json → Except ReadError InitialValue
  | .bool value => .ok (.bool value)
  | .float value => .ok (.number value)
  | .int value => .ok (.number (.ofInt value))
  | .string value => .ok (.text value)
  | _ => .error .noInitialValue

def Domain.ofName (name : String) : Except ReadError Domain :=
  match Domain.all.find? fun domain => domain.name == name with
  | some domain => .ok domain
  | none => .error (.unknownDomain name)

/-- A domain is a tag, alone or with null as its payload. -/
def Domain.ofJson : Json → Except ReadError Domain
  | .string name => Domain.ofName name
  | .object [(name, payload)] => do
    let domain ← Domain.ofName name
    match payload with
    | .null => return domain
    | other => throw (.invalidType (.ofJson other) .unit)
  | .object _ => .error .notSingleMember
  | other => .error (.invalidType (.ofJson other) .tagged)

/-! ## Formulas -/

/-- What is wrong with a tag without a payload. -/
def FormulaTag.alone : FormulaTag → ReadError
  | .binary _ => .invalidType .bareTag .operandList
  | _ => .invalidType .bareTag .payload

/-- A formula is an object whose only member is the tag with its payload: the operands of an
operator, or the value of a leaf. -/
def Formula.ofJson : Json → Except ReadError (Formula String)
  | .object [(name, payload)] =>
    match FormulaTag.ofName? name with
    | none => .error (.unknownTag name)
    | some .atom => payload.asString.map .atom
    | some .number => payload.asNumber.map .number
    | some .bool => payload.asBool.map .bool
    | some (.unary op) => (Formula.ofJson payload).map (.unary op)
    | some (.binary op) =>
      match payload with
      | .array [] => .error (.invalidType .null (.operands op))
      | .array [left] => do
        let _ ← Formula.ofJson left
        throw (.missingOperand op)
      | .array (left :: right :: rest) => do
        let left ← Formula.ofJson left
        let right ← Formula.ofJson right
        if rest.isEmpty then return .binary op left right
        else throw (.surplusItems (rest.length + 2))
      | other => .error (.invalidType (.ofJson other) .operandList)
  | .object _ => .error .notSingleMember
  | .string name =>
    match FormulaTag.ofName? name with
    | none => .error (.unknownTag name)
    | some tag => .error tag.alone
  | other => .error (.invalidType (.ofJson other) .tagged)

/-! ## Records -/

section

open Fields

def GoalEntry.ofJson (value : Json) : Except ReadError GoalEntry := do
  let fields ← Fields.ofJson .goal value
  let name := fields.field 0 "name" Json.asString
  let and := fields.field 1 "and" (Json.asList Json.asString)
  let or := fields.field 2 "or" (Json.asList Json.asString)
  fields.check [problem "name" name, problem "and" and, problem "or" or]
  return {
    name := ← fields.required .goal 0 "name" name
    and := ← withDefault [] and
    or := ← withDefault [] or }

def EffectEntry.ofJson (value : Json) : Except ReadError EffectEntry := do
  let fields ← Fields.ofJson .effect value
  let name := fields.field 0 "name" Json.asString
  let probability := fields.field 1 "probability" Json.asNumber
  let satisfying := fields.field 2 "satisfying" Json.asBool
  let turnsTrue := fields.field 3 "turnsTrue" (Json.asList Json.asString)
  fields.check [problem "name" name, problem "probability" probability,
    problem "satisfying" satisfying, problem "turnsTrue" turnsTrue]
  return {
    name := ← fields.required .effect 0 "name" name
    probability := ← fields.required .effect 1 "probability" probability
    satisfying := ← withDefault false satisfying
    turnsTrue := ← withDefault [] turnsTrue }

def TaskEntry.ofJson (value : Json) : Except ReadError TaskEntry := do
  let fields ← Fields.ofJson .task value
  let name := fields.field 0 "name" Json.asString
  let effects := fields.field 1 "effects" (Json.asList EffectEntry.ofJson)
  fields.check [problem "name" name, problem "effects" effects]
  return {
    name := ← fields.required .task 0 "name" name
    effects := ← withDefault [] effects }

def QualityEntry.ofJson (value : Json) : Except ReadError QualityEntry := do
  let fields ← Fields.ofJson .quality value
  let name := fields.field 0 "name" Json.asString
  let root := fields.field 1 "root" Json.asBool
  let formula := fields.field 2 "formula" Formula.ofJson
  fields.check [problem "name" name, problem "root" root, problem "formula" formula]
  return {
    name := ← fields.required .quality 0 "name" name
    root := ← withDefault false root
    formula := ← fields.required .quality 2 "formula" formula }

def ConditionEntry.ofJson (value : Json) : Except ReadError ConditionEntry := do
  let fields ← Fields.ofJson .condition value
  let name := fields.field 0 "name" Json.asString
  let formula := fields.field 1 "formula" Formula.ofJson
  fields.check [problem "name" name, problem "formula" formula]
  return {
    name := ← fields.required .condition 0 "name" name
    formula := ← fields.required .condition 1 "formula" formula }

/-- Every field of an actor has a default, so that the empty object is an actor. -/
def ActorEntry.ofJson (value : Json) : Except ReadError ActorEntry := do
  let fields ← Fields.ofJson .actor value
  let name := fields.field 0 "name" Json.asString
  let predicates := fields.field 1 "predicates" (Json.asList Json.asString)
  let stateVariables := fields.field 2 "variables" (Json.asList Json.asString)
  let goals := fields.field 3 "goals" (Json.asList GoalEntry.ofJson)
  let tasks := fields.field 4 "tasks" (Json.asList TaskEntry.ofJson)
  let qualities := fields.field 5 "qualities" (Json.asList QualityEntry.ofJson)
  let conditions := fields.field 6 "conditions" (Json.asList ConditionEntry.ofJson)
  fields.check [problem "name" name, problem "predicates" predicates,
    problem "variables" stateVariables, problem "goals" goals, problem "tasks" tasks,
    problem "qualities" qualities, problem "conditions" conditions]
  return {
    name := ← withDefault "" name
    predicates := ← withDefault [] predicates
    stateVariables := ← withDefault [] stateVariables
    goals := ← withDefault [] goals
    tasks := ← withDefault [] tasks
    qualities := ← withDefault [] qualities
    conditions := ← withDefault [] conditions }

def ExportEntry.ofJson (value : Json) : Except ReadError ExportEntry := do
  let fields ← Fields.ofJson .exported value
  let name := fields.field 0 "name" Json.asString
  let domain := fields.field 1 "domain" Domain.ofJson
  let min := fields.field 2 "min" Json.asBound
  let max := fields.field 3 "max" Json.asBound
  fields.check [problem "name" name, problem "domain" domain, problem "min" min,
    problem "max" max]
  return {
    name := ← fields.required .exported 0 "name" name
    domain := ← fields.required .exported 1 "domain" domain
    min := ← withDefault none min
    max := ← withDefault none max }

def InitialEntry.ofJson (value : Json) : Except ReadError InitialEntry := do
  let fields ← Fields.ofJson .initialization value
  let name := fields.field 0 "name" Json.asString
  let initial := fields.field 1 "value" InitialValue.ofJson
  fields.check [problem "name" name, problem "value" initial]
  return {
    name := ← fields.required .initialization 0 "name" name
    value := ← fields.required .initialization 1 "value" initial }

/-- The document that a JSON value stands for. -/
def Document.ofJson (value : Json) : Except ReadError Document := do
  let fields ← Fields.ofJson .model value
  let name := fields.field 0 "name" Json.asString
  let actors := fields.field 1 "actors" (Json.asList ActorEntry.ofJson)
  let crossRun := fields.field 2 "crossRun" (Json.asList Json.asString)
  let exported := fields.field 3 "exported" (Json.asList ExportEntry.ofJson)
  let initializations := fields.field 4 "initializations" (Json.asList InitialEntry.ofJson)
  fields.check [problem "name" name, problem "actors" actors, problem "crossRun" crossRun,
    problem "exported" exported, problem "initializations" initializations]
  return {
    name := ← withDefault "" name
    actors := ← fields.required .model 1 "actors" actors
    crossRun := ← withDefault [] crossRun
    exported := ← withDefault [] exported
    initializations := ← withDefault [] initializations }

end

end GoalModel
