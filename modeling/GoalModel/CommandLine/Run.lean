import GoalModel.CommandLine.Help
import GoalModel.Files.Translation

/-! # Running commands

A run of the program over some file system ends with what it has written to its two outputs and
with an exit code. -/

namespace GoalModel.CommandLine

inductive ExitCode where
  | ok
  /-- The model, the configuration or a file operation is at fault. -/
  | invalid
  /-- The program was written, but with diagnostics that are denied. -/
  | degraded
  /-- The command line is at fault. -/
  | usage
  deriving DecidableEq, Repr

def ExitCode.number : ExitCode → Nat
  | .ok => 0
  | .invalid => 1
  | .degraded => 2
  | .usage => 2

/-- The exit code of a translation that was written. -/
def ExitCode.ofTranslation (outcome : TranslateOutcome) : ExitCode :=
  if outcome.isDegraded then .degraded else .ok

/-- The outputs of a run and its exit code. -/
structure Outcome where
  code : ExitCode
  output : String
  errors : String
  deriving DecidableEq, Repr

/-- The configuration file of a run that is not told which to use. -/
def defaultConfigFile : Path := ⟨"gm2golog.toml"⟩

section

variable {m : Type → Type} [Monad m] (files : FileSystem m)

/-- Translates a model: the path of the program is the output, the diagnostics are warnings. -/
def runTranslate (model : Path) (output config : Option Path) :
    ExceptT CommandError m Outcome := do
  let config ← loadConfig files (config.getD defaultConfigFile)
  let outcome ← translateFile files model output config
  return {
    code := .ofTranslation outcome
    output := outcome.output.text ++ "\n"
    errors := String.join (outcome.diagnostics.map fun d => "warning: " ++ d.text ++ "\n") }

/-- Checks a model: the output names it and counts its elements. -/
def runValidate (model : Path) (config : Option Path) : ExceptT CommandError m Outcome := do
  let config ← loadConfig files (config.getD defaultConfigFile)
  let outcome ← validateFile files model config
  return {
    code := .ok
    output := "ok: " ++ outcome.model ++ " (" ++ toString outcome.elements ++ " elements)\n"
    errors := "" }

/-- Runs a command. -/
def runCommand : Command → ExceptT CommandError m Outcome
  | .translate model output config => runTranslate files model output config
  | .validate model config => runValidate files model config
  | .schema => return ⟨.ok, modelSchemaText, ""⟩
  | .version => return ⟨.ok, versionText, ""⟩
  | .help topic => return ⟨.ok, helpText topic, ""⟩

/-- Runs the program with the given arguments. -/
def run (arguments : List String) : m Outcome := do
  match Command.ofArguments arguments with
  | .error .noArguments => return ⟨.usage, "", helpText none⟩
  | .error e => return ⟨.usage, "", e.message ++ "\n"⟩
  | .ok command =>
    match ← (runCommand files command).run with
    | .ok outcome => return outcome
    | .error e => return ⟨.invalid, "", e.message ++ "\n"⟩

end

end GoalModel.CommandLine
