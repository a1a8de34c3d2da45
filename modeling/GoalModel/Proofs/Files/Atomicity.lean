import GoalModel.Files.Fault
import GoalModel.Proofs.Files.Commands
import GoalModel.Proofs.Files.Disk
import GoalModel.Proofs.Golog.Sections
import GoalModel.Proofs.Model.Climb

/-! # Translations are written whole or not at all

Whatever goes wrong, and at whatever operation: a translation that fails has left the file at its
output as it was, and one that succeeds has put the whole program there and leaves no temporary
file behind (`FaultyDisk.translateFile_atomic`). Commands are judged step by step, by what they
leave behind when they succeed and when they fail (`FaultyDisk.Ensures`). -/

namespace GoalModel

open Golog (assemble)

namespace FaultyDisk

/-! ## What commands ensure -/

section

variable {α β : Type} {before : FaultyDisk} {disk : Disk}
  {command : ExceptT CommandError (StateM FaultyDisk) α}
  {next : α → ExceptT CommandError (StateM FaultyDisk) β}

/-- The outcome of a command on files, and the disk that it leaves behind. -/
def run (before : FaultyDisk) (command : ExceptT CommandError (StateM FaultyDisk) α) :
    Except CommandError α × FaultyDisk := runFrom before command

theorem run_perform {operation : StateM Disk (Except FileError α)}
    {interrupted : Disk → Fault → Disk} {plan : List (Option Fault)} :
    (perform operation interrupted).run ⟨disk, plan⟩ =
      match plan with
      | some fault :: plan => (.error fault.error, ⟨interrupted disk fault, plan⟩)
      | plan => ((operation.run disk).1, ⟨(operation.run disk).2, plan.tail⟩) := by
  match plan with
  | [] | none :: _ | some _ :: _ => rfl

/-- Whatever is planned to go wrong, the disk is left as `done` says if the command succeeds and as
`failed` says if it fails. -/
def Ensures (disk : Disk) (command : ExceptT CommandError (StateM FaultyDisk) α)
    (done : α → Disk → Prop) (failed : Disk → Prop) : Prop :=
  ∀ plan, match run ⟨disk, plan⟩ command with
    | (.ok a, after) => done a after.disk
    | (.error _, after) => failed after.disk

namespace Ensures

variable {middle done : α → Disk → Prop} {failed : Disk → Prop}

theorem pure {a : α} (h : done a disk) : Ensures disk (pure a) done failed :=
  fun _ => h

theorem throw {e : CommandError} (h : failed disk) :
    Ensures disk (throw e : ExceptT CommandError (StateM FaultyDisk) α) done failed :=
  fun _ => h

theorem bind {done : β → Disk → Prop} (hcommand : Ensures disk command middle failed)
    (hnext : ∀ a after, middle a after → Ensures after (next a) done failed) :
    Ensures disk (command >>= next) done failed := by
  intro plan
  have hfirst := hcommand plan
  rw [run, runFrom_bind, ← run]
  generalize run ⟨disk, plan⟩ command = outcome at hfirst
  obtain ⟨e | a, after⟩ := outcome
  · exact hfirst
  · exact hnext a after.disk hfirst after.plan

theorem mono {done' : α → Disk → Prop} {failed' : Disk → Prop}
    (h : Ensures disk command done failed) (hdone : ∀ a after, done a after → done' a after)
    (hfailed : ∀ after, failed after → failed' after) : Ensures disk command done' failed' := by
  intro plan
  have hrun := h plan
  generalize run ⟨disk, plan⟩ command = outcome at hrun
  obtain ⟨e | a, after⟩ := outcome
  · exact hfailed _ hrun
  · exact hdone _ _ hrun

/-- An operation ends as it does on a disk that does not fail, or it is interrupted. -/
theorem attempt_perform {operation : StateM Disk (Except FileError α)}
    {interrupted : Disk → Fault → Disk} {reason : FileError → CommandError}
    (hdone : ∀ a after, operation.run disk = (.ok a, after) → done a after)
    (hfailed : ∀ e after, operation.run disk = (.error e, after) → failed after)
    (hinterrupted : ∀ fault, failed (interrupted disk fault)) :
    Ensures disk (attempt (perform operation interrupted) reason) done failed := by
  intro plan
  rw [run, runFrom_attempt, run_perform]
  match plan with
  | some fault :: plan => exact hinterrupted fault
  | none :: plan | [] =>
    dsimp only
    generalize hrun : operation.run disk = outcome
    obtain ⟨e | a, after⟩ := outcome
    · exact hfailed e after hrun
    · exact hdone a after hrun

theorem of_run_ok {a : α} {after : FaultyDisk} (h : Ensures before.disk command done failed)
    (hrun : before.run command = (.ok a, after)) : done a after.disk := by
  have hdone := h before.plan
  rwa [show run ⟨before.disk, before.plan⟩ command = _ from hrun] at hdone

theorem of_run_error {e : CommandError} {after : FaultyDisk}
    (h : Ensures before.disk command done failed)
    (hrun : before.run command = (.error e, after)) : failed after.disk := by
  have hfailed := h before.plan
  rwa [show run ⟨before.disk, before.plan⟩ command = _ from hrun] at hfailed

end Ensures

end

/-! ## Operations -/

section

variable {disk : Disk} {p : Path} {reason : FileError → CommandError}

theorem readText_ensures : Ensures disk (attempt (system.readText p) reason)
    (fun text after => disk.readText p = .ok text ∧ after = disk) (· = disk) := by
  change Ensures disk (attempt (perform (Disk.system.readText p) fun disk _ => disk) reason) _ _
  refine .attempt_perform (fun text after h => ?_) (fun e after h => ?_) fun _ => rfl
  all_goals obtain ⟨hread, rfl⟩ := Prod.mk.inj h
  · exact ⟨hread, rfl⟩
  · rfl

theorem createDirectories_ensures : Ensures disk (attempt (system.createDirectories p) reason)
    (fun _ after => disk.Keeps after []) (disk.Keeps · []) := by
  have hrun {outcome : Except FileError Unit} {after : Disk} (p : Path)
      (h : (Disk.system.createDirectories p).run disk = (outcome, after)) :
      disk.Keeps after [] := by
    have hkeeps : disk.Keeps ((Disk.system.createDirectories p).run disk).2 [] :=
      Disk.createDirectories_keeps (p.text.length + 1) p
    rwa [h] at hkeeps
  change Ensures disk
    (attempt (perform (Disk.system.createDirectories p) (·.interruptedDirectories p)) reason) _ _
  refine .attempt_perform (fun _ _ => hrun p) (fun _ _ => hrun p) fun fault => ?_
  rw [Disk.interruptedDirectories]
  split
  · exact .refl disk []
  · exact hrun _ rfl

theorem writeText_ensures {text : String} : Ensures disk (attempt (system.writeText p text) reason)
    (fun _ after => disk.writeText p text = .ok after)
    (disk.Keeps · [disk.destination p]) := by
  change Ensures disk
    (attempt (perform (Disk.system.writeText p text) (·.interruptedWrite p)) reason) _ _
  refine .attempt_perform (fun _ _ => Disk.change_eq_ok) (fun _ after h => ?_) fun fault => ?_
  · rw [Disk.change_eq_error h]
    exact .refl disk _
  · rw [Disk.interruptedWrite]
    split
    · next l _ hwrite hlocate =>
      obtain ⟨_, hnode, -⟩ := Disk.writeText_eq_ok hwrite
      obtain rfl := Disk.locate_eq_ok hlocate
      exact Disk.keeps_put_file hnode _
    · exact .refl disk _

theorem rename_ensures {target : Path} : Ensures disk (attempt (system.rename p target) reason)
    (fun _ after => disk.rename p target = .ok after) (· = disk) := by
  change Ensures disk
    (attempt (perform (Disk.system.rename p target) fun disk _ => disk) reason) _ _
  exact .attempt_perform (fun _ _ => Disk.change_eq_ok) (fun _ _ => Disk.change_eq_error)
    fun _ => rfl

end

/-! ## Writing a file whole -/

section

variable {disk : Disk} {target : Path} {name text : String}

/-- Where the temporary file for a path is, if the path can have one. -/
def temporaries (disk : Disk) (target : Path) : List Location :=
  (target.fileName?.map fun name => disk.destination (target.temporary name)).toList

theorem temporaries_eq (hname : target.fileName? = some name) :
    temporaries disk target = [disk.destination (target.temporary name)] := by
  rw [temporaries, hname]
  rfl

theorem destination_temporary {parent : Path} (hname : target.fileName? = some name)
    (hparent : target.parent? = some parent) :
    disk.destination (target.temporary name) = disk.destination parent ++ [name ++ ".tmp"] := by
  have hnames := (Path.fileName?_eq_some_iff.mp hname).2
  have htemporary : Path.NamesFile (name ++ ".tmp") := hnames.append (by decide) (by decide)
  exact Disk.destination_of_steps htemporary (Path.route_withFileName hname hparent htemporary)

/-- A temporary file never is the file that it is for. -/
theorem destination_temporary_ne (hname : target.fileName? = some name) :
    disk.destination (target.temporary name) ≠ disk.destination target := by
  have hparent := Path.exists_parent? hname
  rw [destination_temporary hname hparent, Disk.destination_of_fileName? hname hparent]
  intro heq
  simpa using List.append_cancel_left heq

theorem destination_notMem_temporaries : disk.destination target ∉ temporaries disk target := by
  intro hmem
  obtain ⟨name, hname, heq⟩ := by simpa [temporaries] using hmem
  exact destination_temporary_ne hname heq

/-- A text that is written atomically is written whole, and at every other end no file has changed
but for the temporary one. -/
theorem writeAtomically_ensures : Ensures disk (writeAtomically system target text)
    (fun _ after => disk.Keeps after (disk.destination target :: temporaries disk target) ∧
      after.readText target = .ok text ∧
      ∃ name, target.fileName? = some name ∧ after.isPresent (target.temporary name) = false)
    (disk.Keeps · (temporaries disk target)) := by
  rw [writeAtomically]
  cases target.parent? with
  | none => exact .throw (.refl disk _)
  | some parent =>
    refine .bind (createDirectories_ensures.mono (fun _ _ h => h)
      fun _ h => h.mono (List.nil_subset _)) fun _ made hmade => ?_
    have hmade := hmade.mono (List.nil_subset (temporaries disk target))
    cases hname : target.fileName? with
    | none => exact .throw hmade
    | some name =>
      rw [temporaries_eq hname] at hmade ⊢
      -- Directories that were made do not change where the temporary file goes.
      have hdestination := hmade.destination (target.temporary name)
      refine .bind (writeText_ensures.mono (fun _ _ h => h)
        fun _ h => hmade.trans (hdestination ▸ h)) fun _ written hwritten => ?_
      have hkeeps := hmade.trans (hdestination ▸ Disk.writeText_keeps hwritten)
      refine rename_ensures.mono (fun _ after hafter => ?_) fun after hafter => hafter ▸ hkeeps
      have hrenamed := Disk.rename_keeps hafter
      rw [hkeeps.destination, hkeeps.destination] at hrenamed
      exact ⟨(hkeeps.mono (by simp)).trans (hrenamed.mono (by simp)),
        Disk.readText_of_rename hafter (Disk.node?_of_writeText hwritten),
        name, rfl, Disk.isPresent_of_rename hafter (destination_temporary_ne hname)⟩

end

/-! ## Translating a file -/

section

variable {disk : Disk} {model : Path} {output : Option Path} {config : Config}

theorem loadModel_ensures {withSchema : Bool} : Ensures disk (loadModel system model withSchema)
    (fun m after => after = disk ∧
      ∃ text, disk.readText model = .ok text ∧ parseModel text withSchema = .ok m)
    (· = disk) := by
  rw [loadModel]
  refine .bind readText_ensures ?_
  rintro text after ⟨hread, rfl⟩
  split
  · next m hparse => exact .pure ⟨rfl, text, hread, hparse⟩
  · exact .throw rfl

/-- A translation changes the file at its output when it succeeds, and at most the temporary one
besides. -/
theorem translateFile_ensures : Ensures disk (translateFile system model output config)
    (fun outcome after => outcome.output = output.getD (defaultOutput model config) ∧
      disk.Keeps after (disk.destination outcome.output :: temporaries disk outcome.output) ∧
      ∃ text m t, disk.readText model = .ok text ∧
        parseModel text config.validateSchema = .ok m ∧ assemble m = .ok t ∧
        after.readText outcome.output = .ok t.text ∧
        ∃ name, outcome.output.fileName? = some name ∧
          after.isPresent (outcome.output.temporary name) = false)
    (disk.Keeps · (temporaries disk (output.getD (defaultOutput model config)))) := by
  rw [translateFile]
  refine .bind (loadModel_ensures.mono (fun _ _ h => h) fun _ h => h ▸ .refl disk _) ?_
  rintro m after ⟨rfl, text, hread, hparse⟩
  split
  · exact .throw (.refl after _)
  · next t ht =>
    refine .bind writeAtomically_ensures fun _ written hwritten => ?_
    obtain ⟨hkeeps, htext, hname⟩ := hwritten
    exact .pure ⟨rfl, hkeeps, text, m, t, hread, hparse, ht, htext, hname⟩

/-- No file is touched but the one at the output and the temporary one beside it. -/
theorem file?_of_translateFile {before : FaultyDisk} {l : Location}
    (hl : ∀ name, (output.getD (defaultOutput model config)).fileName? = some name →
      l ∉ [before.disk.destination (output.getD (defaultOutput model config)),
        before.disk.destination ((output.getD (defaultOutput model config)).temporary name)]) :
    (before.run (translateFile system model output config)).2.disk.file? l =
      before.disk.file? l := by
  cases hrun : before.run (translateFile system model output config) with
  | mk outcome after =>
    cases outcome with
    | ok outcome =>
      obtain ⟨houtput, hkeeps, _, _, _, _, _, _, _, name, hname, _⟩ :=
        translateFile_ensures.of_run_ok hrun
      rw [houtput] at hkeeps hname
      rw [temporaries_eq hname] at hkeeps
      exact hkeeps.files l (hl name hname)
    | error e =>
      refine (translateFile_ensures.of_run_error hrun).files l fun hmem => ?_
      obtain ⟨name, hname, rfl⟩ := by simpa [temporaries] using hmem
      exact hl name hname (by simp)

end

/-- Whatever goes wrong with whichever operation: a translation that fails has left the file at its
output as it was, or there still is none. One that succeeds has put there the program of the model
that it has read, whole, and no temporary file remains. Output and model may be any paths. -/
theorem translateFile_atomic (before : FaultyDisk) (model : Path) (output : Option Path)
    (config : Config) :
    (∀ e after, before.run (translateFile system model output config) = (.error e, after) →
      ∀ l, before.disk.locate (output.getD (defaultOutput model config)) = .ok l ∨
          after.disk.locate (output.getD (defaultOutput model config)) = .ok l →
        after.disk.file? l = before.disk.file? l) ∧
    ∀ outcome after, before.run (translateFile system model output config) = (.ok outcome, after) →
      outcome.output = output.getD (defaultOutput model config) ∧
      ∃ text m t, before.disk.readText model = .ok text ∧
        parseModel text config.validateSchema = .ok m ∧ assemble m = .ok t ∧
        after.disk.readText outcome.output = .ok t.text ∧
        ∃ name, outcome.output.fileName? = some name ∧
          after.disk.isPresent (outcome.output.temporary name) = false := by
  refine ⟨fun e after hrun l hl => ?_, fun outcome after hrun => ?_⟩
  · have hkeeps := translateFile_ensures.of_run_error hrun
    have hdestination : l = before.disk.destination (output.getD (defaultOutput model config)) :=
      hl.elim Disk.locate_eq_ok fun hafter =>
        (Disk.locate_eq_ok hafter).trans (hkeeps.destination _)
    exact hkeeps.files l (hdestination ▸ destination_notMem_temporaries)
  · obtain ⟨houtput, -, hwritten⟩ := translateFile_ensures.of_run_ok hrun
    exact ⟨houtput, hwritten⟩

/-- A model beside an older program. -/
def doorDisk : Disk :=
  ⟨[(["door.json"], .file (.text doorText)), (["door.pl"], .file (.text "% old"))], []⟩

theorem exists_doorProgram : ∃ t, assemble Document.door.linked = .ok t := by
  obtain ⟨root, hroot⟩ := (valid_of_parseModel parseModel_doorText).exists_rootGoals
  exact ⟨_, Golog.assemble_eq_ok hroot⟩

theorem eq_doorProgram {text : String} {m : Model} {t t' : Golog.Translation}
    (htext : doorDisk.readText ⟨"door.json"⟩ = .ok text) (hmodel : parseModel text true = .ok m)
    (hprogram : assemble m = .ok t') (ht : assemble Document.door.linked = .ok t) : t' = t := by
  have hdoor : doorDisk.readText ⟨"door.json"⟩ = .ok doorText := rfl
  obtain rfl := Except.ok.inj (hdoor.symm.trans htext)
  obtain rfl := Except.ok.inj (parseModel_doorText.symm.trans hmodel)
  exact Except.ok.inj (hprogram.symm.trans ht)

/-- Nothing goes wrong, or the last of the four operations is refused. -/
theorem door_atomic : ∃ (t : Golog.Translation) (outcome : TranslateOutcome) (e : CommandError)
    (done failed : FaultyDisk), assemble Document.door.linked = .ok t ∧
      run ⟨doorDisk, []⟩ (translateFile system ⟨"door.json"⟩ none .default) =
        (.ok outcome, done) ∧
      done.disk.readText outcome.output = .ok t.text ∧
      run ⟨doorDisk, [none, none, none, some ⟨.busy, none, 0⟩]⟩
        (translateFile system ⟨"door.json"⟩ none .default) = (.error e, failed) ∧
      failed.disk.file? ["door.pl"] = some (.text "% old") := by
  obtain ⟨t, ht⟩ := exists_doorProgram
  have hparse : parseModel doorText Config.default.validateSchema = .ok Document.door.linked :=
    parseModel_doorText
  have hread : (system.readText ⟨"door.json"⟩).run ⟨doorDisk, []⟩ =
      (.ok doorText, ⟨doorDisk, []⟩) := rfl
  have hread' : (system.readText ⟨"door.json"⟩).run
      ⟨doorDisk, [none, none, none, some ⟨.busy, none, 0⟩]⟩ =
        (.ok doorText, ⟨doorDisk, [none, none, some ⟨.busy, none, 0⟩]⟩) := rfl
  have hdone := runFrom_translateFile hread hparse ht none
  have hfailed := runFrom_translateFile hread' hparse ht none
  obtain ⟨done, hdone⟩ : ∃ done,
      run ⟨doorDisk, []⟩ (translateFile system ⟨"door.json"⟩ none .default) =
        (.ok ⟨⟨"door.pl"⟩, t.diagnostics, false⟩, done) := ⟨_, hdone.trans rfl⟩
  obtain ⟨failed, hfailed⟩ : ∃ failed, run ⟨doorDisk, [none, none, none, some ⟨.busy, none, 0⟩]⟩
      (translateFile system ⟨"door.json"⟩ none .default) =
        (.error (.replace ⟨"door.pl"⟩ .busy), failed) := ⟨_, hfailed.trans rfl⟩
  refine ⟨t, _, _, done, failed, ht, hdone, ?_, hfailed, ?_⟩
  · obtain ⟨-, text, m, t', htext, hmodel, hprogram, hwritten, -⟩ :=
      (translateFile_atomic ..).2 _ _ hdone
    exact eq_doorProgram htext hmodel hprogram ht ▸ hwritten
  · exact (translateFile_atomic ..).1 _ _ hfailed ["door.pl"] (.inl rfl)

end FaultyDisk

end GoalModel
