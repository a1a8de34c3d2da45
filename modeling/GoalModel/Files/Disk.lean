import GoalModel.Files.System

/-! # Files in memory

A `Disk` is a tree of directories and files with a current directory, and `Disk.system` its file
operations. Paths are resolved step by step, so that everything on the way must be a directory
that exists; a slash or a dot at the end asks for a directory. -/

namespace GoalModel

inductive FileContents where
  | text (s : String)
  /-- Bytes that are no UTF-8 text. -/
  | undecodable
  deriving DecidableEq, Repr

inductive FileNode where
  | directory
  | file (contents : FileContents)
  deriving DecidableEq, Repr

/-- The names from the root down to a file or directory. -/
abbrev Location := List String

structure Disk where
  nodes : List (Location × FileNode)
  current : Location
  deriving Repr

/-- A path as the steps to take: from the root or from the current directory. -/
structure Route where
  absolute : Bool
  steps : List String
  /-- The path ends in a slash or a dot. -/
  asksDirectory : Bool
  /-- The last component is a dot or a pair of dots. -/
  endsInDots : Bool
  deriving DecidableEq, Repr

/-- The components of a path between its slashes, the empty ones included. -/
def Path.splitSlashes : List Char → List (List Char)
  | [] => [[]]
  | c :: cs =>
    if c = '/' then [] :: splitSlashes cs
    else
      match splitSlashes cs with
      | [] => [[c]]
      | first :: rest => (c :: first) :: rest

def Path.route (p : Path) : Route :=
  let parts := splitSlashes p.text.toList
  let last := parts.getLast?.getD []
  let named := parts.filter fun part => !part.isEmpty
  let lastNamed := named.getLast?.getD []
  { absolute := p.text.toList.head? == some '/'
    steps := (named.filter (· ≠ ['.'])).map String.ofList
    asksDirectory := last.isEmpty || last == ['.']
    endsInDots := lastNamed == ['.'] || lastNamed == ['.', '.'] }

namespace Disk

/-- An empty disk whose current directory lies two levels below the root. -/
def empty : Disk := ⟨[(["work"], .directory), (["work", "here"], .directory)], ["work", "here"]⟩

variable (disk : Disk)

/-- What stands at a location. The root is always a directory. -/
def node? (l : Location) : Option FileNode :=
  if l.isEmpty then some .directory else disk.nodes.lookup l

/-- Puts something at a location, in place of what stood there. -/
def put (l : Location) (node : FileNode) : Disk :=
  if (disk.nodes.lookup l).isSome then
    { disk with nodes := disk.nodes.map fun entry => if entry.1 = l then (l, node) else entry }
  else { disk with nodes := disk.nodes ++ [(l, node)] }

def remove (l : Location) : Disk :=
  { disk with nodes := disk.nodes.filter fun entry => entry.1 ≠ l }

/-- A name may have this many bytes. -/
def longestName : Nat := 255

/-- A path may have this many bytes. -/
def longestPath : Nat := 4095

/-- Takes some steps. All but the last must lead to directories. -/
def walk : Location → List String → Except FileError Location
  | here, [] => .ok here
  | here, name :: rest =>
    match disk.node? here with
    | none => .error .notFound
    | some (.file _) => .error .notADirectory
    | some .directory =>
      if name = ".." then walk here.dropLast rest
      else if longestName < name.utf8ByteSize then .error .nameTooLong
      else walk (here ++ [name]) rest

/-- The location that a path leads to, where something may stand or not. -/
def locate (p : Path) : Except FileError Location :=
  if p.text.isEmpty then .error .notFound
  else if p.text.toList.any (fun c => c.toNat == 0) then .error .nullInName
  else if longestPath < p.text.utf8ByteSize then .error .nameTooLong
  else
    let route := p.route
    disk.walk (if route.absolute then [] else disk.current) route.steps

/-- What a path leads to. -/
def find (p : Path) : Except FileError FileNode := do
  match disk.node? (← disk.locate p) with
  | none => throw .notFound
  | some .directory => return .directory
  | some (.file contents) =>
    if p.route.asksDirectory then throw .notADirectory else return .file contents

def isDirectory (p : Path) : Bool :=
  match disk.find p with
  | .ok .directory => true
  | _ => false

def readText (p : Path) : Except FileError String := do
  match ← disk.find p with
  | .directory => throw .isADirectory
  | .file .undecodable => throw .notText
  | .file (.text s) => return s

def isPresent (p : Path) : Bool :=
  match disk.find p with
  | .ok _ => true
  | .error _ => false

def createDirectory (p : Path) : Except FileError Disk := do
  let l ← disk.locate p
  match disk.node? l with
  | some _ => throw .alreadyPresent
  | none => return disk.put l .directory

/-- Creates a directory; one that is there already is as good. -/
def ensureDirectory (p : Path) : Except FileError Disk :=
  match disk.createDirectory p with
  | .ok disk => .ok disk
  | .error .alreadyPresent =>
    if disk.isDirectory p then .ok disk else .error .alreadyPresent
  | .error e => .error e

def writeText (p : Path) (s : String) : Except FileError Disk := do
  let l ← disk.locate p
  match disk.node? l with
  | some .directory => throw .isADirectory
  | _ => if p.route.asksDirectory then throw .isADirectory else return disk.put l (.file (.text s))

/-- Renames a file. The new path must not ask for a directory and not lead to one. -/
def rename (source target : Path) : Except FileError Disk := do
  let sourceLocation ← disk.locate source
  match disk.node? sourceLocation with
  | none => throw .notFound
  | some .directory => throw .isADirectory
  | some (.file contents) =>
    let targetLocation ← disk.locate target
    if target.route.endsInDots then
      match disk.node? targetLocation with
      | none => throw .notFound
      | some (.file _) => throw .notADirectory
      | some .directory => throw .busy
    else if target.route.asksDirectory then throw .notADirectory
    else if disk.node? targetLocation = some .directory then throw .isADirectory
    else return (disk.remove sourceLocation).put targetLocation (.file contents)

/-! ## The disk as a file system -/

/-- Runs an operation that may fail; one that fails changes nothing. -/
def change (f : Disk → Except FileError Disk) : StateM Disk (Except FileError Unit) := do
  match f (← get) with
  | .ok disk =>
    set disk
    return .ok ()
  | .error e => return .error e

/-- Creates a directory and the missing ones above it, at most `levels` of them. Those that were
made stay if another one cannot be. -/
def createDirectories : (levels : Nat) → Path → StateM Disk (Except FileError Unit)
  | 0, _ => return .ok ()
  | levels + 1, p =>
    match p.parent? with
    | none => return .ok ()
    | some parent => do
      match ← change (·.ensureDirectory p) with
      | .error .notFound =>
        match ← createDirectories levels parent with
        | .ok () => change (·.ensureDirectory p)
        | .error e => return .error e
      | outcome => return outcome

def system : FileSystem (StateM Disk) where
  readText p := return (← get).readText p
  isPresent p := return (← get).isPresent p
  createDirectories p := createDirectories (p.text.length + 1) p
  writeText p s := change (·.writeText p s)
  rename source target := change (·.rename source target)

/-- The files below the current directory, and the directories that hold nothing. -/
def leaves : List (Location × FileNode) :=
  let below := disk.nodes.filterMap fun (l, node) =>
    if disk.current.isPrefixOf l && l.length != disk.current.length then
      some (l.drop disk.current.length, node)
    else none
  below.filter fun (l, node) =>
    match node with
    | .file _ => true
    | .directory => !below.any fun (other, _) => l.isPrefixOf other && other.length != l.length

/-- Adds something below the current directory, with the directories above it. -/
def place (l : Location) (node : FileNode) : Disk :=
  let parents := (List.range (l.length - 1)).map fun n => l.take (n + 1)
  let disk := parents.foldl (fun d p =>
    if (d.node? (d.current ++ p)).isSome then d else d.put (d.current ++ p) .directory) disk
  disk.put (disk.current ++ l) node

end Disk

end GoalModel
