import GoalModel.Proofs.Files.Path
import GoalModel.Proofs.Loading

/-! # What file operations change

Where a path leads is told by its steps alone, once it leads anywhere (`Disk.destination`): what
stands on the disk only decides whether it does. An operation changes what stands at the
destinations of its paths and leaves all other files, and all directories, as they are
(`Disk.Keeps`). -/

namespace GoalModel.Disk

variable {disk before middle after : Disk} {p parent : Path} {l here : Location}
  {name : String} {steps : List String} {node : FileNode}

/-! ## Destinations -/

/-- Where steps lead, if nothing is in the way. -/
def destinationFrom : Location → List String → Location
  | here, [] => here
  | here, name :: rest =>
    if name = ".." then destinationFrom here.dropLast rest
    else destinationFrom (here ++ [name]) rest

/-- Where a path leads, if nothing is in the way. -/
def destination (disk : Disk) (p : Path) : Location :=
  destinationFrom (if p.route.absolute then [] else disk.current) p.route.steps

theorem destinationFrom_append (here : Location) (steps others : List String) :
    destinationFrom here (steps ++ others) =
      destinationFrom (destinationFrom here steps) others := by
  induction steps generalizing here with
  | nil => rfl
  | cons name rest ih =>
    rw [List.cons_append, destinationFrom, destinationFrom]
    split <;> exact ih _

theorem walk_eq_ok (h : disk.walk here steps = .ok l) : l = destinationFrom here steps := by
  induction steps generalizing here with
  | nil => exact (Except.ok.inj h).symm
  | cons name rest ih =>
    rw [walk] at h
    rw [destinationFrom]
    split at h
    · cases h
    · cases h
    · split at h
      · next hdots => rw [if_pos hdots, ih h]
      · next hdots =>
        split at h
        · cases h
        · rw [if_neg hdots, ih h]

theorem locate_eq_ok (h : disk.locate p = .ok l) : l = disk.destination p := by
  unfold locate at h
  split at h
  · cases h
  · split at h
    · cases h
    · split at h
      · cases h
      · exact walk_eq_ok h

/-- A file name is the last step. -/
theorem destination_of_steps (hname : Path.NamesFile name)
    (hroute : p.route.steps = parent.route.steps ++ [name] ∧
      p.route.absolute = parent.route.absolute) :
    disk.destination p = disk.destination parent ++ [name] := by
  have hdots : name ≠ ".." := by
    rintro rfl
    exact hname.notDots rfl
  rw [destination, hroute.1, hroute.2, destinationFrom_append, ← destination, destinationFrom,
    if_neg hdots, destinationFrom]

theorem destination_of_fileName? (hname : p.fileName? = some name)
    (hparent : p.parent? = some parent) :
    disk.destination p = disk.destination parent ++ [name] :=
  destination_of_steps (Path.fileName?_eq_some_iff.mp hname).2
    (Path.route_of_fileName? hname hparent)

/-! ## What stands at a location -/

theorem lookup_cons_eq (key other : Location) (rest : List (Location × FileNode)) :
    ((key, node) :: rest).lookup other = if other = key then some node else rest.lookup other := by
  rw [List.lookup_cons]
  by_cases h : other = key
  · simp [h]
  · rw [beq_eq_false_iff_ne.mpr h, if_neg h]

theorem lookup_replaced (nodes : List (Location × FileNode)) (l other : Location) :
    (nodes.map fun entry => if entry.1 = l then (l, node) else entry).lookup other =
      if other = l then (nodes.lookup l).map fun _ => node else nodes.lookup other := by
  induction nodes with
  | nil => simp
  | cons entry rest ih =>
    obtain ⟨key, old⟩ := entry
    by_cases hkey : key = l
    · rw [List.map_cons, if_pos hkey, lookup_cons_eq, lookup_cons_eq, lookup_cons_eq, ih, hkey]
      by_cases hother : other = l <;> simp [hother]
    · rw [List.map_cons, if_neg hkey, lookup_cons_eq, lookup_cons_eq, lookup_cons_eq, ih]
      by_cases hother : other = l <;> simp [hother, Ne.symm hkey]

theorem lookup_removed (nodes : List (Location × FileNode)) (l other : Location) :
    (nodes.filter fun entry => entry.1 ≠ l).lookup other =
      if other = l then none else nodes.lookup other := by
  induction nodes with
  | nil => simp
  | cons entry rest ih =>
    obtain ⟨key, old⟩ := entry
    rw [List.filter_cons, lookup_cons_eq]
    by_cases hkey : key = l
    · rw [if_neg (by simpa using hkey), ih, hkey]
      by_cases hother : other = l <;> simp [hother]
    · rw [if_pos (by simpa using hkey), lookup_cons_eq, ih]
      by_cases hother : other = l <;> simp [hother, Ne.symm hkey]

theorem node?_eq_lookup (hl : l ≠ []) : disk.node? l = disk.nodes.lookup l := by
  simp [node?, hl]

theorem node?_nil : disk.node? [] = some .directory := rfl

theorem node?_put_self (hl : l ≠ []) : (disk.put l node).node? l = some node := by
  rw [node?_eq_lookup hl, put]
  split
  · next hsome =>
    obtain ⟨old, hold⟩ := Option.isSome_iff_exists.mp hsome
    simp [lookup_replaced, hold]
  · next hnone => simp [List.lookup_append, Option.not_isSome_iff_eq_none.mp hnone]

theorem node?_put_of_ne {other : Location} (hother : other ≠ l) :
    (disk.put l node).node? other = disk.node? other := by
  by_cases hroot : other = []
  · rw [hroot, node?_nil, node?_nil]
  · rw [node?_eq_lookup hroot, node?_eq_lookup hroot, put]
    split
    · simp [lookup_replaced, hother]
    · simp [List.lookup_append, lookup_cons_eq, hother]

theorem node?_remove_self (hl : l ≠ []) : (disk.remove l).node? l = none := by
  rw [node?_eq_lookup hl, remove, lookup_removed, if_pos rfl]

theorem node?_remove_of_ne {other : Location} (hother : other ≠ l) :
    (disk.remove l).node? other = disk.node? other := by
  by_cases hroot : other = []
  · rw [hroot, node?_nil, node?_nil]
  · rw [node?_eq_lookup hroot, node?_eq_lookup hroot, remove, lookup_removed, if_neg hother]

theorem ne_nil_of_node? (h : disk.node? l ≠ some .directory) : l ≠ [] := by
  rintro rfl
  exact h node?_nil

/-- The contents of the file at a location, if there is one. -/
def file? (disk : Disk) (l : Location) : Option FileContents :=
  match disk.node? l with
  | some (.file contents) => some contents
  | _ => none

theorem file?_congr {disk' : Disk} (h : disk'.node? l = disk.node? l) :
    disk'.file? l = disk.file? l := by
  rw [file?, file?, h]

/-! ## What is kept -/

/-- Outside of some locations every file is as before, and no directory has gone. -/
structure Keeps (before after : Disk) (changed : List Location) : Prop where
  current : after.current = before.current
  files : ∀ l ∉ changed, after.file? l = before.file? l
  directories : ∀ l, before.node? l = some .directory → after.node? l = some .directory

namespace Keeps

variable {changed others : List Location}

theorem refl (disk : Disk) (changed : List Location) : Keeps disk disk changed :=
  ⟨rfl, fun _ _ => rfl, fun _ h => h⟩

theorem trans (h : Keeps before middle changed) (h' : Keeps middle after changed) :
    Keeps before after changed where
  current := h'.current.trans h.current
  files := fun l hl => (h'.files l hl).trans (h.files l hl)
  directories := fun l hl => h'.directories l (h.directories l hl)

theorem mono (h : Keeps before after changed) (hsub : changed ⊆ others) :
    Keeps before after others :=
  ⟨h.current, fun l hl => h.files l fun hmem => hl (hsub hmem), h.directories⟩

theorem destination (h : Keeps before after changed) (p : Path) :
    after.destination p = before.destination p := by
  rw [Disk.destination, Disk.destination, h.current]

theorem walk (h : Keeps before after changed) (hwalk : before.walk here steps = .ok l) :
    after.walk here steps = .ok l := by
  induction steps generalizing here with
  | nil => exact hwalk
  | cons name rest ih =>
    rw [Disk.walk] at hwalk ⊢
    split at hwalk
    · cases hwalk
    · cases hwalk
    · next hdirectory =>
      rw [h.directories _ hdirectory]
      dsimp only
      split at hwalk
      · next hdots =>
        rw [if_pos hdots]
        exact ih hwalk
      · next hdots =>
        split at hwalk
        · cases hwalk
        · next hlength =>
          rw [if_neg hdots, if_neg hlength]
          exact ih hwalk

/-- A path that leads anywhere still leads there. -/
theorem locate (h : Keeps before after changed) (hlocate : before.locate p = .ok l) :
    after.locate p = .ok l := by
  unfold Disk.locate at hlocate ⊢
  split at hlocate
  · cases hlocate
  · next hempty =>
    split at hlocate
    · cases hlocate
    · next hnull =>
      split at hlocate
      · cases hlocate
      · next hlength =>
        rw [if_neg hempty, if_neg hnull, if_neg hlength]
        dsimp only at hlocate ⊢
        rw [h.current]
        exact h.walk hlocate

end Keeps

/-- Putting a file somewhere changes no other file. -/
theorem keeps_put_file (hl : disk.node? l ≠ some .directory) (contents : FileContents) :
    Keeps disk (disk.put l (.file contents)) [l] where
  current := by
    rw [put]
    split <;> rfl
  files := fun other hother =>
    file?_congr (node?_put_of_ne (List.mem_singleton.not.mp hother))
  directories := fun other hother => by
    have hne : other ≠ l := by
      rintro rfl
      exact hl hother
    rw [node?_put_of_ne hne, hother]

theorem keeps_remove_file {contents : FileContents} (hl : disk.node? l = some (.file contents)) :
    Keeps disk (disk.remove l) [l] where
  current := rfl
  files := fun other hother =>
    file?_congr (node?_remove_of_ne (List.mem_singleton.not.mp hother))
  directories := fun other hother => by
    have hne : other ≠ l := by
      rintro rfl
      rw [hl] at hother
      cases hother
    rw [node?_remove_of_ne hne, hother]

/-- Making a directory where nothing is changes no file. -/
theorem keeps_put_directory (hl : disk.node? l = none) :
    Keeps disk (disk.put l .directory) [] where
  current := by
    rw [put]
    split <;> rfl
  files := fun other _ => by
    by_cases hother : other = l
    · have hnone : disk.node? l ≠ some .directory := by simp [hl]
      have hne := ne_nil_of_node? hnone
      rw [hother, file?, file?, node?_put_self hne, hl]
    · exact file?_congr (node?_put_of_ne hother)
  directories := fun other hother => by
    have hne : other ≠ l := by
      rintro rfl
      simp [hl] at hother
    rw [node?_put_of_ne hne, hother]

/-! ## Operations -/

theorem createDirectory_keeps (h : disk.createDirectory p = .ok after) : Keeps disk after [] := by
  unfold createDirectory at h
  obtain ⟨l, -, h⟩ := exists_of_bind_eq_ok h
  split at h
  · cases h
  · next hnone =>
    obtain rfl := Except.ok.inj h
    exact keeps_put_directory hnone

theorem ensureDirectory_keeps (h : disk.ensureDirectory p = .ok after) : Keeps disk after [] := by
  unfold ensureDirectory at h
  split at h
  · next hcreate =>
    obtain rfl := Except.ok.inj h
    exact createDirectory_keeps hcreate
  · split at h
    · obtain rfl := Except.ok.inj h
      exact .refl disk []
    · cases h
  · cases h

theorem run_change (f : Disk → Except FileError Disk) :
    (change f).run disk =
      match f disk with
      | .ok after => (.ok (), after)
      | .error e => (.error e, disk) := by
  change (match f disk with
    | .ok after => (do set after; return .ok () : StateM Disk (Except FileError Unit))
    | .error e => return .error e).run disk = _
  split <;> rfl

theorem change_eq_ok {f : Disk → Except FileError Disk} {done : Unit}
    (h : (change f).run disk = (.ok done, after)) : f disk = .ok after := by
  rw [run_change] at h
  split at h
  · next hafter => rw [hafter, (Prod.mk.inj h).2]
  · cases h

theorem change_eq_error {f : Disk → Except FileError Disk} {e : FileError}
    (h : (change f).run disk = (.error e, after)) : after = disk := by
  rw [run_change] at h
  split at h
  · cases h
  · exact (Prod.mk.inj h).2.symm

theorem change_keeps {f : Disk → Except FileError Disk} {changed : List Location}
    (hf : ∀ after, f disk = .ok after → Keeps disk after changed) :
    Keeps disk ((change f).run disk).2 changed := by
  rw [run_change]
  split
  · next after hafter => exact hf after hafter
  · exact .refl disk changed

theorem keeps_bind {α β : Type} {first : StateM Disk α} {next : α → StateM Disk β}
    {changed : List Location} (hfirst : Keeps disk (first.run disk).2 changed)
    (hnext : ∀ a middle, Keeps middle ((next a).run middle).2 changed) :
    Keeps disk ((first >>= next).run disk).2 changed :=
  hfirst.trans (hnext _ _)

/-- However far it comes, making directories changes no file. -/
theorem createDirectories_keeps (levels : Nat) (p : Path) :
    Keeps disk ((createDirectories levels p).run disk).2 [] := by
  have hensure (p : Path) (disk : Disk) :
      Keeps disk ((change (·.ensureDirectory p)).run disk).2 [] :=
    change_keeps fun _ => ensureDirectory_keeps
  -- Whether the directories above could be made or not, `Keeps` composes over all attempts.
  induction levels generalizing disk p with
  | zero => exact .refl disk []
  | succ levels ih =>
    rw [createDirectories]
    split
    · exact .refl disk []
    · refine keeps_bind (hensure p disk) fun outcome middle => ?_
      split
      · refine keeps_bind (ih _) fun outcome middle => ?_
        split
        · exact hensure p middle
        · exact .refl middle []
      · exact .refl middle []

theorem writeText_eq_ok {s : String} (h : disk.writeText p s = .ok after) :
    disk.locate p = .ok (disk.destination p) ∧ disk.node? (disk.destination p) ≠ some .directory ∧
      after = disk.put (disk.destination p) (.file (.text s)) := by
  unfold writeText at h
  obtain ⟨l, hlocate, h⟩ := exists_of_bind_eq_ok h
  obtain rfl := locate_eq_ok hlocate
  split at h
  · cases h
  · next hnode =>
    split at h
    · cases h
    · exact ⟨hlocate, hnode, (Except.ok.inj h).symm⟩

theorem rename_eq_ok {source target : Path} (h : disk.rename source target = .ok after) :
    ∃ contents, disk.node? (disk.destination source) = some (.file contents) ∧
      disk.locate target = .ok (disk.destination target) ∧ target.route.asksDirectory = false ∧
      disk.node? (disk.destination target) ≠ some .directory ∧
      after = (disk.remove (disk.destination source)).put (disk.destination target)
        (.file contents) := by
  unfold rename at h
  obtain ⟨sourceLocation, hsource, h⟩ := exists_of_bind_eq_ok h
  obtain rfl := locate_eq_ok hsource
  split at h
  · cases h
  · cases h
  · next contents hcontents =>
    obtain ⟨targetLocation, htarget, h⟩ := exists_of_bind_eq_ok h
    obtain rfl := locate_eq_ok htarget
    split at h
    · split at h <;> cases h
    · split at h
      · cases h
      · next hasks =>
        split at h
        · cases h
        · next hnode =>
          exact ⟨contents, hcontents, htarget, by simpa using hasks, hnode,
            (Except.ok.inj h).symm⟩

theorem writeText_keeps {s : String} (h : disk.writeText p s = .ok after) :
    Keeps disk after [disk.destination p] := by
  obtain ⟨_, hnode, rfl⟩ := writeText_eq_ok h
  exact keeps_put_file hnode _

theorem node?_of_writeText {s : String} (h : disk.writeText p s = .ok after) :
    after.node? (after.destination p) = some (.file (.text s)) := by
  rw [(writeText_keeps h).destination]
  obtain ⟨_, hnode, rfl⟩ := writeText_eq_ok h
  exact node?_put_self (ne_nil_of_node? hnode)

theorem readText_of_node? {s : String} (hlocate : disk.locate p = .ok l)
    (hasks : p.route.asksDirectory = false) (hnode : disk.node? l = some (.file (.text s))) :
    disk.readText p = .ok s := by
  have hfind : disk.find p = .ok (.file (.text s)) := by
    rw [find, hlocate]
    dsimp only [bind, Except.bind]
    rw [hnode]
    dsimp only
    rw [if_neg (by simp [hasks])]
    rfl
  rw [readText, hfind]
  rfl

theorem find_eq_ok (h : disk.find p = .ok node) :
    disk.node? (disk.destination p) = some node := by
  unfold find at h
  obtain ⟨l, hlocate, h⟩ := exists_of_bind_eq_ok h
  obtain rfl := locate_eq_ok hlocate
  split at h
  · cases h
  · next hnode => rw [hnode, Except.ok.inj h]
  · next hnode =>
    split at h
    · cases h
    · rw [hnode, Except.ok.inj h]

theorem file?_of_readText {s : String} (h : disk.readText p = .ok s) :
    disk.file? (disk.destination p) = some (.text s) := by
  unfold readText at h
  obtain ⟨node, hfind, h⟩ := exists_of_bind_eq_ok h
  rw [file?, find_eq_ok hfind]
  split at h
  · cases h
  · cases h
  · rw [Except.ok.inj h]

theorem isPresent_of_node? (hnode : disk.node? (disk.destination p) = none) :
    disk.isPresent p = false := by
  cases hfind : disk.find p with
  | error e => rw [isPresent, hfind]
  | ok node =>
    rw [find_eq_ok hfind] at hnode
    cases hnode

theorem rename_keeps {source target : Path} (h : disk.rename source target = .ok after) :
    Keeps disk after [disk.destination source, disk.destination target] := by
  obtain ⟨contents, hsource, -, -, htarget, rfl⟩ := rename_eq_ok h
  have hremoved := keeps_remove_file hsource
  have hput : (disk.remove (disk.destination source)).node? (disk.destination target) ≠
      some .directory := by
    by_cases heq : disk.destination target = disk.destination source
    · rw [heq] at htarget ⊢
      rw [node?_remove_self (ne_nil_of_node? htarget)]
      simp
    · rwa [node?_remove_of_ne heq]
  exact (hremoved.mono (by simp)).trans ((keeps_put_file hput contents).mono (by simp))

/-- A file that was given another path is read there. -/
theorem readText_of_rename {source target : Path} {s : String}
    (h : disk.rename source target = .ok after)
    (hsource : disk.node? (disk.destination source) = some (.file (.text s))) :
    after.readText target = .ok s := by
  have hkeeps := rename_keeps h
  obtain ⟨contents, hcontents, hlocate, hasks, htarget, rfl⟩ := rename_eq_ok h
  refine readText_of_node? (hkeeps.locate hlocate) hasks ?_
  rw [node?_put_self (ne_nil_of_node? htarget), ← hcontents, hsource]

/-- Its old path leads to nothing any more. -/
theorem isPresent_of_rename {source target : Path} (h : disk.rename source target = .ok after)
    (hne : disk.destination source ≠ disk.destination target) : after.isPresent source = false := by
  have hkeeps := rename_keeps h
  obtain ⟨contents, hcontents, -, -, -, rfl⟩ := rename_eq_ok h
  have hsource : disk.node? (disk.destination source) ≠ some .directory := by simp [hcontents]
  apply isPresent_of_node?
  rw [hkeeps.destination, node?_put_of_ne hne, node?_remove_self (ne_nil_of_node? hsource)]

end GoalModel.Disk
