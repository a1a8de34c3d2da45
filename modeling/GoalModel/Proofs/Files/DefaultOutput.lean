import GoalModel.Proofs.Files.Atomicity
import GoalModel.Proofs.Files.Extension

/-! # Default outputs

A program that is not told where to go goes next to its model, under the model's stem and the
configured extension. It takes the place of the model if the model has that extension already,
and otherwise the model stays as it is (`defaultOutput_beside`). -/

namespace GoalModel

/-! ## Extensions that a configuration may have -/

theorem Text.mem_trimmed {s : String} {c : Char} (hc : c ∈ s.toList) (hblank : isBlank c = false) :
    c ∈ trimmed s := by
  have hdrop {cs : List Char} (hc : c ∈ cs) : c ∈ cs.dropWhile isBlank := by
    rw [← List.takeWhile_append_dropWhile (p := isBlank) (l := cs)] at hc
    refine (List.mem_append.mp hc).resolve_left fun hmem => ?_
    simp [List.mem_takeWhile_imp hmem] at hblank
  exact List.mem_reverse.mpr (hdrop (List.mem_reverse.mpr (hdrop hc)))

theorem Config.namesExtension {config : Config} (h : config.check = .ok ()) :
    Path.NamesExtension config.outputExtension := by
  unfold check at h
  dsimp only at h
  split at h
  · cases h
  · next hempty =>
    split at h
    · cases h
    · next hany =>
      have hbad {c : Char} (hblank : Text.isBlank c = false)
          (hc : (c == '.' || c == '/' || c == '\\') = true) : c ∉ config.outputExtension.toList :=
        fun hmem => hany (List.any_eq_true.mpr ⟨c, Text.mem_trimmed hmem hblank, hc⟩)
      refine ⟨fun hnothing => hempty ?_, hbad (by decide) (by decide), hbad (by decide) (by decide)⟩
      rw [hnothing]
      decide

/-! ## The program beside its model -/

section

open FaultyDisk (doorDisk)
open Golog (assemble)

variable {model : Path} {config : Config} {name : String}

theorem defaultOutput_parts (hname : model.fileName? = some name) (hconfig : config.check = .ok ())
    (hkept : ¬model.LosesName) :
    (defaultOutput model config).parent? = model.parent? ∧
      (defaultOutput model config).fileStem? = model.fileStem? ∧
      (defaultOutput model config).extension? = some config.outputExtension :=
  Path.withExtension_parts (Option.isSome_of_eq_some hname) hkept (Config.namesExtension hconfig)

theorem not_losesName (hname : model.fileName? = some name) {output : String}
    (houtput : (defaultOutput model config).fileName? = some output) : ¬model.LosesName := by
  intro hloses
  have hnone : (defaultOutput model config).fileName? = none :=
    Path.withExtension_of_losesName (Option.isSome_of_eq_some hname) hloses
  rw [houtput] at hnone
  cases hnone

/-- The output has the name of the model if the model has its extension. -/
theorem defaultOutput_fileName? (hname : model.fileName? = some name)
    (hconfig : config.check = .ok ()) (hkept : ¬model.LosesName) :
    (defaultOutput model config).fileName? = some name ↔
      model.extension? = some config.outputExtension := by
  obtain ⟨stem, hstem, hne⟩ := Path.exists_fileStem? (Option.isSome_of_eq_some hname)
  obtain ⟨-, hstem', hextension⟩ := defaultOutput_parts hname hconfig hkept
  have houtput := Path.fileName?_of_parts (hstem'.trans hstem) hextension
  constructor
  · intro hsame
    rw [hsame, ← hname] at houtput
    exact (Path.parts_of_fileName? houtput hne (Config.namesExtension hconfig)).2
  · intro hextension
    rw [houtput, ← hname, Path.fileName?_of_parts hstem hextension]

/-- Neither the program nor its temporary file takes the place of a model that has another
extension. -/
theorem destination_notMem_of_extension (disk : Disk) (hname : model.fileName? = some name)
    (hconfig : config.check = .ok ()) (hextension : model.extension? ≠ some config.outputExtension)
    {output : String} (houtput : (defaultOutput model config).fileName? = some output) :
    disk.destination model ∉ [disk.destination (defaultOutput model config),
      disk.destination ((defaultOutput model config).temporary output)] := by
  have hkept := not_losesName hname houtput
  obtain ⟨hparent, hstem, hextension'⟩ := defaultOutput_parts hname hconfig hkept
  have hmodel := Path.exists_parent? hname
  rw [Disk.destination_of_fileName? hname hmodel,
    Disk.destination_of_fileName? houtput (hparent.trans hmodel),
    FaultyDisk.destination_temporary houtput (hparent.trans hmodel)]
  suffices name ≠ output ∧ name ≠ output ++ ".tmp" by simpa
  constructor
  · rintro rfl
    exact hextension ((defaultOutput_fileName? hname hconfig hkept).mp houtput)
  · intro htemporary
    have hne : output ≠ "" := by simpa using (Path.fileName?_eq_some_iff.mp houtput).2.nonempty
    have hname' : model.fileName? = some (output ++ "." ++ "tmp") := by
      rw [hname, htemporary, String.append_assoc]
      rfl
    obtain ⟨hstem', -⟩ := Path.parts_of_fileName? hname' hne ⟨by decide, by decide, by decide⟩
    have hlonger := Path.fileName?_of_parts (hstem.trans hstem') hextension'
    simpa using congrArg (·.toList.length) (Option.some.inj (houtput.symm.trans hlonger))

/-- The program goes into the directory of the model, under its stem and the configured extension,
unless the model's name is lost with its extension. A model that has another extension stays as
it is, whatever goes wrong; a model that has the extension already gives way to its program. -/
theorem defaultOutput_beside (hname : model.fileName? = some name)
    (hconfig : config.check = .ok ()) :
    (¬model.LosesName →
      (defaultOutput model config).parent? = model.parent? ∧
      (defaultOutput model config).fileStem? = model.fileStem? ∧
      (defaultOutput model config).extension? = some config.outputExtension) ∧
    (model.extension? ≠ some config.outputExtension →
      (defaultOutput model config).fileName? ≠ some name ∧
      ∀ (before : FaultyDisk) l, before.disk.locate model = .ok l →
        (before.run (translateFile FaultyDisk.system model none config)).2.disk.file? l =
          before.disk.file? l) ∧
    (model.extension? = some config.outputExtension → ¬model.LosesName →
      (defaultOutput model config).fileName? = some name ∧
      ∀ (before after : FaultyDisk) outcome l, before.disk.locate model = .ok l →
        before.run (translateFile FaultyDisk.system model none config) = (.ok outcome, after) →
        ∃ text m t, before.disk.readText model = .ok text ∧
          parseModel text config.validateSchema = .ok m ∧ assemble m = .ok t ∧
          after.disk.file? l = some (.text t.text)) := by
  refine ⟨defaultOutput_parts hname hconfig, fun hextension => ⟨?_, fun before l hl => ?_⟩,
    fun hextension hkept => ?_⟩
  · exact fun hsame =>
      hextension ((defaultOutput_fileName? hname hconfig (not_losesName hname hsame)).mp hsame)
  · obtain rfl := Disk.locate_eq_ok hl
    exact FaultyDisk.file?_of_translateFile fun output houtput =>
      destination_notMem_of_extension before.disk hname hconfig hextension houtput
  · have hoverwrites := (defaultOutput_fileName? hname hconfig hkept).mpr hextension
    refine ⟨hoverwrites, fun before after outcome l hl hrun => ?_⟩
    obtain rfl := Disk.locate_eq_ok hl
    obtain ⟨houtput, hkeeps, text, m, t, hread, hparse, ht, hwritten, -⟩ :=
      FaultyDisk.translateFile_ensures.of_run_ok hrun
    have hparent := Path.exists_parent? hname
    have hdestination : before.disk.destination model = after.disk.destination outcome.output := by
      rw [hkeeps.destination, houtput, Disk.destination_of_fileName? hname hparent]
      exact (Disk.destination_of_fileName? hoverwrites
        ((defaultOutput_parts hname hconfig hkept).1.trans hparent)).symm
    exact ⟨text, m, t, hread, hparse, ht, hdestination ▸ Disk.file?_of_readText hwritten⟩

/-- Nothing keeps a configuration from giving programs the extension of their models, and nothing
keeps models from having names that are lost with their extension. -/
theorem defaultOutput_not_beside : (Config.mk true false "json").check = .ok () ∧
    Path.fileName? ⟨"door.json"⟩ = some "door.json" ∧
    defaultOutput ⟨"door.json"⟩ ⟨true, false, "json"⟩ = ⟨"door.json"⟩ ∧
    Path.fileName? ⟨"..door"⟩ = some "..door" ∧
    defaultOutput ⟨"..door"⟩ ⟨true, false, "json"⟩ = ⟨".."⟩ := ⟨rfl, rfl, rfl, rfl, rfl⟩

theorem door_kept_or_replaced :
    (defaultOutput ⟨"door.json"⟩ .default).parent? = some ⟨""⟩ ∧
    (defaultOutput ⟨"door.json"⟩ .default).fileName? ≠ some "door.json" ∧
    (FaultyDisk.run ⟨doorDisk, []⟩
      (translateFile FaultyDisk.system ⟨"door.json"⟩ none .default)).2.disk.file? ["door.json"] =
        some (.text doorText) ∧
    ∃ outcome after t, FaultyDisk.run ⟨doorDisk, []⟩
        (translateFile FaultyDisk.system ⟨"door.json"⟩ none ⟨true, false, "json"⟩) =
          (.ok outcome, after) ∧
      assemble Document.door.linked = .ok t ∧
      after.disk.file? ["door.json"] = some (.text t.text) := by
  have hname : Path.fileName? ⟨"door.json"⟩ = some "door.json" := rfl
  have hkept : ¬Path.LosesName ⟨"door.json"⟩ := fun h => absurd h.1 (by decide)
  have hdefault : Config.default.check = .ok () := rfl
  obtain ⟨hparts, hother, -⟩ := defaultOutput_beside hname hdefault
  obtain ⟨hne, hfile⟩ := hother (by decide)
  refine ⟨(hparts hkept).1, hne, hfile ⟨doorDisk, []⟩ ["door.json"] rfl, ?_⟩
  obtain ⟨t, ht⟩ := FaultyDisk.exists_doorProgram
  have hread : (FaultyDisk.system.readText ⟨"door.json"⟩).run ⟨doorDisk, []⟩ =
      (.ok doorText, ⟨doorDisk, []⟩) := rfl
  have hparse : parseModel doorText (Config.mk true false "json").validateSchema =
      .ok Document.door.linked := parseModel_doorText
  have hrun := runFrom_translateFile hread hparse ht none
  obtain ⟨after, hafter⟩ : ∃ after, FaultyDisk.run ⟨doorDisk, []⟩
      (translateFile FaultyDisk.system ⟨"door.json"⟩ none ⟨true, false, "json"⟩) =
        (.ok ⟨⟨"door.json"⟩, t.diagnostics, false⟩, after) := ⟨_, hrun.trans rfl⟩
  refine ⟨_, after, t, hafter, ht, ?_⟩
  have hconfig : (Config.mk true false "json").check = .ok () := rfl
  obtain ⟨-, -, hreplaced⟩ := defaultOutput_beside hname hconfig
  obtain ⟨text, m, t', htext, hmodel, hprogram, hwritten⟩ :=
    (hreplaced (by decide) hkept).2 _ after _ ["door.json"] rfl hafter
  exact FaultyDisk.eq_doorProgram htext hmodel hprogram ht ▸ hwritten

end

end GoalModel
