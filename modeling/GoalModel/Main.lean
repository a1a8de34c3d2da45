import GoalModel.CommandLine.Run

/-! # The program

Runs the command line on the files of the computer. -/

namespace GoalModel.Main

/-- The number of a system error. Some operations report it with a minus sign, in 32 bits. -/
def errorNumber (code : UInt32) : Nat :=
  if code < 0x80000000 then code.toNat else (-code).toNat

/-- The cause of a failed operation. -/
def fileError (e : IO.Error) : FileError :=
  let code? : Option UInt32 := match e with
    | .noFileOrDirectory _ code _ => some code
    | .alreadyExists _ code _ => some code
    | .inappropriateType _ code _ => some code
    | .resourceBusy code _ => some code
    | .invalidArgument _ code _ => some code
    | .otherError code _ => some code
    | _ => none
  match code?.bind fun code => FileError.ofCode? (errorNumber code) with
  | some error => error
  | none => .other (toString e)

def caught {α : Type} (action : IO α) : IO (Except FileError α) := do
  try
    return .ok (← action)
  catch e => return .error (fileError e)

def readText (p : Path) : IO (Except FileError String) := do
  match ← caught (IO.FS.readBinFile p.text) with
  | .error e => return .error e
  | .ok bytes =>
    match String.fromUTF8? bytes with
    | some s => return .ok s
    | none => return .error .notText

def createDirectories (p : Path) : IO (Except FileError Unit) :=
  if p.text.isEmpty then return .ok () else caught (IO.FS.createDirAll p.text)

/-- The files of the computer. -/
def computer : FileSystem IO where
  readText := readText
  isPresent p := do
    match ← readText p with
    | .error .notFound => return false
    | .error .notADirectory => return false
    | .error .nameTooLong => return false
    | _ => return true
  createDirectories := createDirectories
  writeText p s := caught (IO.FS.writeFile p.text s)
  rename source target := caught (IO.FS.rename source.text target.text)

end GoalModel.Main

def main (arguments : List String) : IO UInt32 := do
  let outcome ← GoalModel.CommandLine.run GoalModel.Main.computer arguments
  (← IO.getStdout).putStr outcome.output
  (← IO.getStderr).putStr outcome.errors
  return outcome.code.number.toUInt32
