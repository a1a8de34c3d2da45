import GoalModel.Files.Path

/-! # File operations

What the translator needs of the files around it is a record of operations over some monad. The
program runs it on the files of a computer, everything else can be said of any files at all. -/

namespace GoalModel

/-- Why a file operation fails. -/
inductive FileError where
  | notFound
  | busy
  | alreadyPresent
  | notADirectory
  | isADirectory
  | nameTooLong
  /-- The contents are no UTF-8 text. -/
  | notText
  /-- No file has a name with a null character. -/
  | nullInName
  | other (message : String)
  deriving DecidableEq, Repr

namespace FileError

/-- The number under which the system reports an error. -/
def code? : FileError → Option Nat
  | .notFound => some 2
  | .busy => some 16
  | .alreadyPresent => some 17
  | .notADirectory => some 20
  | .isADirectory => some 21
  | .nameTooLong => some 36
  | _ => none

def cause : FileError → String
  | .notFound => "No such file or directory"
  | .busy => "Device or resource busy"
  | .alreadyPresent => "File exists"
  | .notADirectory => "Not a directory"
  | .isADirectory => "Is a directory"
  | .nameTooLong => "File name too long"
  | .notText => "stream did not contain valid UTF-8"
  | .nullInName => "file name contained an unexpected NUL byte"
  | .other message => message

def message (e : FileError) : String :=
  match e.code? with
  | some code => e.cause ++ " (os error " ++ toString code ++ ")"
  | none => e.cause

/-- The errors that the system reports by number. -/
def numbered : List FileError :=
  [.notFound, .busy, .alreadyPresent, .notADirectory, .isADirectory, .nameTooLong]

def ofCode? (code : Nat) : Option FileError := numbered.find? fun e => e.code? == some code

end FileError

/-- The operations on files. -/
structure FileSystem (m : Type → Type) where
  readText : Path → m (Except FileError String)
  isPresent : Path → m Bool
  /-- Creates a directory and all directories above it that are missing. -/
  createDirectories : Path → m (Except FileError Unit)
  /-- Writes a file, in place of what it held. -/
  writeText : Path → String → m (Except FileError Unit)
  /-- Gives a file another path, in place of a file that had it. -/
  rename : Path → Path → m (Except FileError Unit)

end GoalModel
