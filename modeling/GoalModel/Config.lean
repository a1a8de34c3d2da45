import GoalModel.Text.Blank
import GoalModel.Toml.Reader

/-! # Configuration of the translator

Every setting has a default, so that the empty text is a configuration. Settings that are not
known are passed over. -/

namespace GoalModel

structure Config where
  /-- Models are checked against the schema. -/
  validateSchema : Bool
  /-- A translation with diagnostics fails, although it is written. -/
  denyDiagnostics : Bool
  /-- The extension of a program whose path is not given. -/
  outputExtension : String
  deriving DecidableEq, Repr

inductive ConfigError where
  | emptyExtension
  | badExtension (extension : String)
  deriving DecidableEq, Repr

def ConfigError.message : ConfigError → String
  | .emptyExtension => "output_extension must be non-empty"
  | .badExtension extension =>
    "output_extension must not contain '.' or path separators: '" ++ extension ++ "'"

namespace Config

def default : Config := ⟨true, false, "pl"⟩

/-- An extension, without the blanks around it, is not empty and no more than one component of a
file name. -/
def check (config : Config) : Except ConfigError Unit :=
  let extension := Text.trimmed config.outputExtension
  if extension.isEmpty then .error .emptyExtension
  else if extension.any (fun c => c == '.' || c == '/' || c == '\\') then
    .error (.badExtension config.outputExtension)
  else .ok ()

/-- A truth value among the settings; one of another type is refused. -/
def boolSetting (entries : Toml.Entries) (key : String) (default : Bool) : Option Bool :=
  match entries.lookup key with
  | none => some default
  | some (.value (.bool value)) => some value
  | some _ => none

/-- A text among the settings. -/
def textSetting (entries : Toml.Entries) (key : String) (default : String) : Option String :=
  match entries.lookup key with
  | none => some default
  | some (.value (.string value)) => some value
  | some _ => none

/-- The configuration in a text. -/
def read? (text : String) : Option Config := do
  let entries ← Toml.read? text
  return {
    validateSchema := ← boolSetting entries "validate_schema" default.validateSchema
    denyDiagnostics := ← boolSetting entries "deny_diagnostics" default.denyDiagnostics
    outputExtension := ← textSetting entries "output_extension" default.outputExtension }

end Config

end GoalModel
