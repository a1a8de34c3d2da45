import GoalModel.Json.Text
import GoalModel.Document.Basic
import GoalModel.Text.Quoted

/-! # Why a JSON value is no document

A `ReadError` is the first thing that keeps a JSON value from being a document or a formula:
what was found, what stood to be read, and nothing about where. -/

namespace GoalModel

/-- The records that a document is made of. -/
inductive Record where
  | model | actor | goal | task | effect | quality | condition | exported | initialization
  deriving DecidableEq, Repr

namespace Record

def title : Record → String
  | .model => "ModelDocument"
  | .actor => "ActorDoc"
  | .goal => "GoalDoc"
  | .task => "TaskDoc"
  | .effect => "EffectDoc"
  | .quality => "QualityDoc"
  | .condition => "ConditionDoc"
  | .exported => "ExportedDoc"
  | .initialization => "InitializationDoc"

def fieldCount : Record → Nat
  | .model => 5
  | .actor => 7
  | .goal => 3
  | .task => 2
  | .effect => 4
  | .quality => 3
  | .condition => 2
  | .exported => 4
  | .initialization => 2

end Record

/-- The constructor of a formula, as it tags the JSON form of the formula. -/
inductive FormulaTag where
  | atom
  | number
  | bool
  | binary (op : BinaryOperator)
  | unary (op : UnaryOperator)
  deriving DecidableEq, Repr

namespace FormulaTag

def name : FormulaTag → String
  | .atom => "atom"
  | .number => "number"
  | .bool => "bool"
  | .binary op => op.name
  | .unary op => op.name

def all : List FormulaTag :=
  [.atom, .number, .bool] ++ BinaryOperator.all.map .binary ++ UnaryOperator.all.map .unary

def ofName? (name : String) : Option FormulaTag := all.find? fun tag => tag.name == name

end FormulaTag

/-- The name of an operator as a constructor of formulas. -/
def BinaryOperator.constructorName : BinaryOperator → String
  | .and => "And"
  | .or => "Or"
  | .plus => "Plus"
  | .minus => "Minus"
  | .multiply => "Multiply"
  | .divide => "Divide"
  | .gt => "Gt"
  | .gte => "Gte"
  | .lt => "Lt"
  | .lte => "Lte"
  | .eq => "Eq"
  | .neq => "Neq"

/-- What was found where something else was expected. -/
inductive Found where
  | boolean (value : Bool)
  | integer (value : Int)
  | float (value : Number)
  | string (value : String)
  | null
  | sequence
  | map
  /-- A tag that stands alone, without a payload. -/
  | bareTag
  deriving DecidableEq, Repr

namespace Found

def ofJson : Json → Found
  | .null => .null
  | .bool value => .boolean value
  | .int value => .integer value
  | .float value => .float value
  | .string value => .string value
  | .array _ => .sequence
  | .object _ => .map

def text : Found → String
  | .boolean value => "boolean `" ++ toString value ++ "`"
  | .integer value => "integer `" ++ toString value ++ "`"
  | .float value => "floating point `" ++ value.write .json ++ "`"
  | .string value => "string " ++ Text.quoted value
  | .null => "null"
  | .sequence => "sequence"
  | .map => "map"
  | .bareTag => "unit variant"

end Found

/-- What stood to be read. -/
inductive Wanted where
  | string
  | boolean
  | number
  | sequence
  | unit
  | record (kind : Record)
  /-- A tag, alone or with its payload. -/
  | tagged
  /-- The payload of a tag with one operand. -/
  | payload
  /-- The payload of a tag with two operands. -/
  | operandList
  | operands (op : BinaryOperator)
  deriving DecidableEq, Repr

def Wanted.text : Wanted → String
  | .string => "a string"
  | .boolean => "a boolean"
  | .number => "f64"
  | .sequence => "a sequence"
  | .unit => "unit"
  | .record kind => "struct " ++ kind.title
  | .tagged => "string or map"
  | .payload => "newtype variant"
  | .operandList => "tuple variant"
  | .operands op => "tuple variant FormulaDoc::" ++ op.constructorName

inductive ReadError where
  | missingField (name : String)
  | invalidType (found : Found) (wanted : Wanted)
  /-- An array ends before the field that belongs at `index`. -/
  | missingItem (index : Nat) (record : Record)
  /-- An operator has a single operand. -/
  | missingOperand (op : BinaryOperator)
  /-- An array of `count` items goes on behind the last field. -/
  | surplusItems (count : Nat)
  /-- An object that should hold a tag and its payload holds none or several members. -/
  | notSingleMember
  | unknownTag (tag : String)
  | unknownDomain (tag : String)
  | noInitialValue
  deriving DecidableEq, Repr

namespace ReadError

def backquoted (s : String) : String := "`" ++ s ++ "`"

def message : ReadError → String
  | .missingField name => "missing field " ++ backquoted name
  | .invalidType found wanted => "invalid type: " ++ found.text ++ ", expected " ++ wanted.text
  | .missingItem index record =>
    "invalid length " ++ toString index ++ ", expected struct " ++ record.title ++ " with " ++
      toString record.fieldCount ++ " elements"
  | .missingOperand op =>
    "invalid length 1, expected tuple variant FormulaDoc::" ++ op.constructorName ++
      " with 2 elements"
  | .surplusItems count =>
    "invalid length " ++ toString count ++ ", expected fewer elements in array"
  | .notSingleMember => "invalid value: map, expected map with a single key"
  | .unknownTag tag =>
    "unknown variant " ++ backquoted tag ++ ", expected one of " ++
      String.intercalate ", " (FormulaTag.all.map fun t => backquoted t.name)
  | .unknownDomain tag =>
    "unknown variant " ++ backquoted tag ++ ", expected " ++
      String.intercalate " or " (Domain.all.map fun d => backquoted d.name)
  | .noInitialValue => "data did not match any variant of untagged enum InitValueDoc"

end ReadError

end GoalModel
