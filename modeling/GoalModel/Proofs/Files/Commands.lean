import GoalModel.Files.Translation

/-! # Running commands on files

A command is run from the state that its file operations work on. It is taken apart at its
operations (`runFrom_bind`, `runFrom_attempt`), so that translating a readable model is writing
its program (`runFrom_translateFile`). -/

namespace GoalModel

section

variable {σ α β : Type} {before after : σ}

/-- The outcome of a command on files, and the state that it leaves behind. -/
def runFrom (before : σ) (command : ExceptT CommandError (StateM σ) α) :
    Except CommandError α × σ := StateT.run (ExceptT.run command) before

theorem runFrom_bind {command : ExceptT CommandError (StateM σ) α}
    {next : α → ExceptT CommandError (StateM σ) β} :
    runFrom before (command >>= next) =
      match runFrom before command with
      | (.ok a, after) => runFrom after (next a)
      | (.error e, after) => (.error e, after) := by
  change (ExceptT.bindCont next (runFrom before command).1).run (runFrom before command).2 = _
  rcases runFrom before command with ⟨_ | a, after⟩ <;> rfl

theorem runFrom_attempt {operation : StateM σ (Except FileError α)}
    {reason : FileError → CommandError} :
    runFrom before (attempt operation reason) =
      match operation.run before with
      | (.ok a, after) => (.ok a, after)
      | (.error e, after) => (.error (reason e), after) := by
  have hlift : runFrom before (liftM operation) =
      (.ok (operation.run before).1, (operation.run before).2) := rfl
  rw [attempt, runFrom_bind, hlift]
  rcases operation.run before with ⟨_ | a, after⟩ <;> rfl

section

variable {files : FileSystem (StateM σ)} {path : Path} {config : Config} {text : String}
  {m : Model} (hread : (files.readText path).run before = (.ok text, after))
  (hparse : parseModel text config.validateSchema = .ok m)
include hread hparse

theorem runFrom_loadModel :
    runFrom before (loadModel files path config.validateSchema) = (.ok m, after) := by
  rw [loadModel, runFrom_bind, runFrom_attempt, hread]
  simp only [hparse]
  rfl

/-- Validating an accepted model succeeds once the model is read. -/
theorem runFrom_validateFile :
    runFrom before (validateFile files path config) = (.ok ⟨m.name, m.elements.length⟩, after) := by
  rw [validateFile, runFrom_bind, runFrom_loadModel hread hparse]
  rfl

/-- Once an accepted model is read, translating it is writing its program. -/
theorem runFrom_translateFile {t : Golog.Translation} (ht : Golog.assemble m = .ok t)
    (output : Option Path) :
    runFrom before (translateFile files path output config) = runFrom after (do
      let output := output.getD (defaultOutput path config)
      writeAtomically files output t.text
      return ⟨output, t.diagnostics, config.denyDiagnostics⟩) := by
  rw [translateFile, runFrom_bind, runFrom_loadModel hread hparse]
  simp only [ht]

end

end

end GoalModel
