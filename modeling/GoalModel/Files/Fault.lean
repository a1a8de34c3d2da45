import GoalModel.Files.Disk

/-! # Files on a disk that fails

A `FaultyDisk` is a disk with a plan of what goes wrong: any operation may fail although the disk
would allow it. A read that fails changes nothing, and neither does a renaming; directories may have
been made in part, and a file that was to be written may hold anything. -/

namespace GoalModel

/-- What goes wrong with an operation. -/
structure Fault where
  error : FileError
  /-- What is found in the file that was to be written, if it was touched at all. -/
  leftover : Option FileContents
  /-- So many of the directories that were to be made, counted from the last, are missing. -/
  missing : Nat
  deriving Repr

namespace Disk

variable (disk : Disk)

/-- The disk after a write that did not come to its end. -/
def interruptedWrite (p : Path) (fault : Fault) : Disk :=
  match fault.leftover, disk.writeText p "", disk.locate p with
  | some contents, .ok _, .ok l => disk.put l (.file contents)
  | _, _, _ => disk

/-- The directory that lies so many levels above a path. -/
def above : (levels : Nat) → Path → Option Path
  | 0, p => some p
  | levels + 1, p => p.parent?.bind (above levels)

/-- The disk after directories have been made in part. -/
def interruptedDirectories (p : Path) (fault : Fault) : Disk :=
  match above fault.missing p with
  | none => disk
  | some made => (system.createDirectories made).run disk |>.2

end Disk

/-- A disk, and what goes wrong with the operations to come, one after the other. Nothing goes wrong
with an operation that has no fault planned. -/
structure FaultyDisk where
  disk : Disk
  plan : List (Option Fault)

namespace FaultyDisk

/-- Carries out an operation on the disk, unless a fault is planned for it. -/
def perform {α : Type} (operation : StateM Disk (Except FileError α))
    (interrupted : Disk → Fault → Disk) : StateM FaultyDisk (Except FileError α) := do
  let state ← get
  match state.plan with
  | some fault :: plan =>
    set (⟨interrupted state.disk fault, plan⟩ : FaultyDisk)
    return .error fault.error
  | plan =>
    let (outcome, disk) := operation.run state.disk
    set (⟨disk, plan.tail⟩ : FaultyDisk)
    return outcome

def system : FileSystem (StateM FaultyDisk) where
  readText p := perform (Disk.system.readText p) fun disk _ => disk
  isPresent p := return (← get).disk.isPresent p
  createDirectories p :=
    perform (Disk.system.createDirectories p) (·.interruptedDirectories p)
  writeText p s := perform (Disk.system.writeText p s) (·.interruptedWrite p)
  rename source target := perform (Disk.system.rename source target) fun disk _ => disk

end FaultyDisk

end GoalModel
