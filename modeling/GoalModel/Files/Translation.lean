import GoalModel.Config
import GoalModel.Files.System
import GoalModel.Golog.Program
import GoalModel.Loading

/-! # Translating files

Commands on files, over any file system. A program is written next to its final path first and
then renamed, so that the path holds either what it held before or the whole program
(`writeAtomically`). -/

namespace GoalModel

/-- Why a command on files fails. -/
inductive CommandError where
  | readModel (path : Path) (error : FileError)
  | loadModel (path : Path) (error : LoadError)
  | translate (path : Path) (error : Golog.AssembleError)
  | noParent (path : Path)
  | createDirectory (path : Path) (error : FileError)
  | noFileName (path : Path)
  | writeTemporary (path : Path) (error : FileError)
  | replace (path : Path) (error : FileError)
  | readConfig (path : Path) (error : FileError)
  | parseConfig (path : Path)
  | badConfig (path : Path) (error : ConfigError)

/-- The message says what was attempted and then why it failed. The detail of a syntax error in
a configuration is left out. -/
def CommandError.message : CommandError → String
  | .readModel path e => "read model " ++ path.text ++ ": " ++ e.message
  | .loadModel path e => "load model " ++ path.text ++ ": " ++ e.message
  | .translate path e => "translate " ++ path.text ++ ": " ++ e.message
  | .noParent path => "output path missing parent " ++ path.text
  | .createDirectory path e => "create directory " ++ path.text ++ ": " ++ e.message
  | .noFileName path => "output path missing file name " ++ path.text
  | .writeTemporary path e => "write temp file " ++ path.text ++ ": " ++ e.message
  | .replace path e => "replace " ++ path.text ++ ": " ++ e.message
  | .readConfig path e => "read " ++ path.text ++ ": " ++ e.message
  | .parseConfig path => "parse " ++ path.text
  | .badConfig path e => "validate " ++ path.text ++ ": " ++ e.message

/-- Where a program goes that is not told where to go: next to the model. -/
def defaultOutput (model : Path) (config : Config) : Path :=
  model.withExtension config.outputExtension

/-- The file that is written before it takes the place of another one. -/
def Path.temporary (p : Path) (fileName : String) : Path := p.withFileName (fileName ++ ".tmp")

structure TranslateOutcome where
  output : Path
  diagnostics : List Golog.Diagnostic
  denyDiagnostics : Bool

/-- Whether a translation counts as failed although it was written. -/
def TranslateOutcome.isDegraded (outcome : TranslateOutcome) : Bool :=
  outcome.denyDiagnostics && !outcome.diagnostics.isEmpty

structure ValidateOutcome where
  model : String
  elements : Nat
  deriving DecidableEq, Repr

section

variable {m : Type → Type} [Monad m] (files : FileSystem m)

/-- A file operation, with what it means that it fails. -/
def attempt {α : Type} (operation : m (Except FileError α)) (failed : FileError → CommandError) :
    ExceptT CommandError m α := do
  match ← operation with
  | .ok a => return a
  | .error e => throw (failed e)

/-- Writes a text to a temporary file beside a path and renames it to the path. -/
def writeAtomically (path : Path) (text : String) : ExceptT CommandError m Unit := do
  match path.parent? with
  | none => throw (.noParent path)
  | some parent =>
    attempt (files.createDirectories parent) (.createDirectory parent)
    match path.fileName? with
    | none => throw (.noFileName path)
    | some name =>
      let temporary := path.temporary name
      attempt (files.writeText temporary text) (.writeTemporary temporary)
      attempt (files.rename temporary path) (.replace path)

/-- Reads a model and takes it through all checks. -/
def loadModel (path : Path) (withSchema : Bool) : ExceptT CommandError m Model := do
  let text ← attempt (files.readText path) (.readModel path)
  match parseModel text withSchema with
  | .ok model => return model
  | .error e => throw (.loadModel path e)

/-- Translates a model file and writes the program. Diagnostics do not keep it from being
written. -/
def translateFile (model : Path) (output : Option Path) (config : Config) :
    ExceptT CommandError m TranslateOutcome := do
  let loaded ← loadModel files model config.validateSchema
  match Golog.assemble loaded with
  | .error e => throw (.translate model e)
  | .ok translation =>
    let output := output.getD (defaultOutput model config)
    writeAtomically files output translation.text
    return ⟨output, translation.diagnostics, config.denyDiagnostics⟩

/-- Takes a model file through all checks. -/
def validateFile (model : Path) (config : Config) : ExceptT CommandError m ValidateOutcome := do
  let loaded ← loadModel files model config.validateSchema
  return ⟨loaded.name, loaded.elements.length⟩

/-- The configuration in a file; the default one if there is no such file. -/
def loadConfig (path : Path) : ExceptT CommandError m Config := do
  if ← files.isPresent path then
    let text ← attempt (files.readText path) (.readConfig path)
    match Config.read? text with
    | none => throw (.parseConfig path)
    | some config =>
      match config.check with
      | .ok () => return config
      | .error e => throw (.badConfig path e)
  else return .default

end

end GoalModel
