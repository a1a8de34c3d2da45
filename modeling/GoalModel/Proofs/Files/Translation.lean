import GoalModel.Files.Disk
import GoalModel.Proofs.Files.Commands
import GoalModel.Proofs.Golog.Sections
import GoalModel.Proofs.Loading
import GoalModel.Proofs.Model.Climb

/-! # Accepted models are translated

A text that passes the checks has a model whose decomposition tree hangs from one root, so that
every walk up the tree ends and the program is assembled (`accepted_translates`). On files this
says that translating refuses nothing that validating accepts: all that is left to do is to
write the program (`Disk.run_translateFile`). -/

namespace GoalModel

open Golog (Translation assemble assemble_eq_ok)

variable {text : String} {m : Model} {t : Translation} {disk : Disk} {path : Path}
  {config : Config}

/-! ## Commands on a disk -/

namespace Disk

/-- The outcome of a command on files, and the disk that it leaves behind. -/
def run {α : Type} (disk : Disk) (command : ExceptT CommandError (StateM Disk) α) :
    Except CommandError α × Disk := StateT.run (ExceptT.run command) disk

theorem run_readText (hread : disk.readText path = .ok text) :
    (system.readText path).run disk = (.ok text, disk) := by
  change (disk.readText path, disk) = _
  rw [hread]

/-- Validating an accepted model succeeds and leaves the disk alone. -/
theorem run_validateFile (hread : disk.readText path = .ok text)
    (hparse : parseModel text config.validateSchema = .ok m) :
    disk.run (validateFile system path config) = (.ok ⟨m.name, m.elements.length⟩, disk) :=
  runFrom_validateFile (run_readText hread) hparse

/-- Translating an accepted model is writing its program. -/
theorem run_translateFile (hread : disk.readText path = .ok text)
    (hparse : parseModel text config.validateSchema = .ok m) (ht : assemble m = .ok t)
    (output : Option Path) :
    disk.run (translateFile system path output config) = disk.run (do
      let output := output.getD (defaultOutput path config)
      writeAtomically system output t.text
      return ⟨output, t.diagnostics, config.denyDiagnostics⟩) :=
  runFrom_translateFile (run_readText hread) hparse ht output

end Disk

/-! ## Accepted texts -/

/-- The model of an accepted text hangs from one root that every goal has above it, the walks
that collect alternatives all end, and the model has a program. Of a file with the text,
translating is writing that program. -/
theorem accepted_translates {withSchema : Bool} (h : parseModel text withSchema = .ok m) :
    (∃ root, m.Rooted root) ∧
    (∀ h, m.role? h = some .goal ∨ m.role? h = some .task →
      m.Collects h (m.competingAlternatives h)) ∧
    ∃ t, assemble m = .ok t ∧ ∀ (disk : Disk) (path : Path) (config : Config),
      disk.readText path = .ok text → config.validateSchema = withSchema →
      disk.run (validateFile Disk.system path config) =
        (.ok ⟨m.name, m.elements.length⟩, disk) ∧
      ∀ output : Option Path, disk.run (translateFile Disk.system path output config) =
        disk.run (do
          let output := output.getD (defaultOutput path config)
          writeAtomically Disk.system output t.text
          return ⟨output, t.diagnostics, config.denyDiagnostics⟩) := by
  have hv := valid_of_parseModel h
  obtain ⟨root, hroot⟩ := hv.exists_rootGoals
  have ht := assemble_eq_ok hroot
  refine ⟨⟨root, hv.rooted hroot⟩, fun _ hh => hv.collects hh, _, ht, ?_⟩
  intro disk path config hread hschema
  subst hschema
  exact ⟨Disk.run_validateFile hread h, Disk.run_translateFile hread h ht⟩

theorem doorText_translates : parseModel doorText true = .ok Document.door.linked ∧
    Document.door.linked.Rooted ⟨3⟩ ∧
    Document.door.linked.Collects ⟨5⟩ [⟨8⟩] ∧
    ∃ t, assemble Document.door.linked = .ok t := by
  obtain ⟨⟨root, hrooted⟩, hcollects, t, ht, _⟩ := accepted_translates parseModel_doorText
  obtain rfl := (hrooted.root_iff ⟨3⟩).mp (by decide)
  exact ⟨parseModel_doorText, hrooted, hcollects ⟨5⟩ (by decide), t, ht⟩

end GoalModel
