import GoalModel.Files.Path

/-! # Command line arguments

A command line is a subcommand with its arguments. Options may stand on either side of the model
path; an option takes the rest of its own argument as its value or else the next argument,
unless that looks like an option; behind `--` everything is a path. The first thing that is
wrong decides (`UsageError`), and a request for help or the version is answered where it
stands. -/

namespace GoalModel.CommandLine

inductive Subcommand where
  | translate
  | validate
  | schema
  | help
  deriving DecidableEq, Repr

namespace Subcommand

def all : List Subcommand := [.translate, .validate, .schema, .help]

def name : Subcommand → String
  | .translate => "translate"
  | .validate => "validate"
  | .schema => "schema"
  | .help => "help"

def ofName? (name : String) : Option Subcommand := all.find? fun s => s.name == name

end Subcommand

/-- The options that take a path. -/
inductive PathOption where
  | output
  | config
  deriving DecidableEq, Repr

def PathOption.long : PathOption → String
  | .output => "output"
  | .config => "config"

/-- The options that a subcommand has. -/
def Subcommand.options : Subcommand → List PathOption
  | .translate => [.output, .config]
  | .validate => [.config]
  | _ => []

/-- What the program is asked to do. -/
inductive Command where
  | translate (model : Path) (output config : Option Path)
  | validate (model : Path) (config : Option Path)
  | schema
  | version
  /-- Help on the program or on a subcommand. -/
  | help (topic : Option Subcommand)
  deriving DecidableEq, Repr

inductive UsageError where
  /-- There are no arguments at all. -/
  | noArguments
  | unknownSubcommand (name : String)
  | unexpectedArgument (argument : String)
  | missingValue (option : PathOption)
  | emptyValue
  | repeatedOption (option : PathOption)
  | missingModel
  deriving DecidableEq, Repr

def UsageError.message : UsageError → String
  | .noArguments => "error: a subcommand is required"
  | .unknownSubcommand name => "error: unrecognized subcommand '" ++ name ++ "'"
  | .unexpectedArgument argument => "error: unexpected argument '" ++ argument ++ "' found"
  | .missingValue option =>
    "error: a value is required for '--" ++ option.long ++ "' but none was supplied"
  | .emptyValue => "error: a value is required but none was supplied"
  | .repeatedOption option =>
    "error: the argument '--" ++ option.long ++ "' cannot be used multiple times"
  | .missingModel => "error: the following required arguments were not provided: <MODEL>"

/-- What one argument is. -/
inductive Token where
  /-- `--` -/
  | endOfOptions
  /-- `--name` or `--name=value`. -/
  | long (name : String) (value : Option String)
  /-- `-c` with what follows the letter. -/
  | short (letter : Char) (rest : List Char)
  | plain (text : String)
  deriving DecidableEq, Repr

def Token.ofArgument (argument : String) : Token :=
  match argument.toList with
  | ['-', '-'] => .endOfOptions
  | '-' :: '-' :: body =>
    let name := String.ofList (body.takeWhile (· ≠ '='))
    match body.dropWhile (· ≠ '=') with
    | _ :: value => .long name (some (String.ofList value))
    | [] => .long name none
  | '-' :: letter :: rest => .short letter rest
  | _ => .plain argument

/-- What has been read of the arguments of a subcommand. -/
structure Arguments where
  model : Option String
  output : Option String
  config : Option String
  deriving DecidableEq, Repr

namespace Arguments

def empty : Arguments := ⟨none, none, none⟩

def value? (arguments : Arguments) : PathOption → Option String
  | .output => arguments.output
  | .config => arguments.config

/-- Gives an option its value, which must not be empty and the first one. -/
def setOption (arguments : Arguments) (option : PathOption) (value : String) :
    Except UsageError Arguments :=
  if (arguments.value? option).isSome then .error (.repeatedOption option)
  else if value.isEmpty then .error .emptyValue
  else
    match option with
    | .output => .ok { arguments with output := some value }
    | .config => .ok { arguments with config := some value }

/-- Takes a path for the model. A subcommand without a model has no place for it. -/
def setModel (arguments : Arguments) (subcommand : Subcommand) (value : String) :
    Except UsageError Arguments :=
  if subcommand = .schema ∨ arguments.model.isSome then .error (.unexpectedArgument value)
  else if value.isEmpty then .error .emptyValue
  else .ok { arguments with model := some value }

end Arguments

/-- Either the arguments of a subcommand, or a request that needs none. -/
abbrev Reading := Except UsageError (Arguments ⊕ Command)

/-- Reads arguments behind the end of the options. -/
def readPlain (subcommand : Subcommand) : Arguments → List String → Reading
  | arguments, [] => .ok (.inl arguments)
  | arguments, value :: rest => do
    readPlain subcommand (← arguments.setModel subcommand value) rest

/-- The option that a letter stands for, and the value in the same argument if there is one. -/
def shortOption? (subcommand : Subcommand) (letter : Char) (rest : List Char) :
    Option (PathOption × Option String) :=
  if letter = 'o' ∧ .output ∈ subcommand.options then
    match rest with
    | [] => some (.output, none)
    | '=' :: value => some (.output, some (String.ofList value))
    | value => some (.output, some (String.ofList value))
  else none

def longOption? (subcommand : Subcommand) (name : String) : Option PathOption :=
  subcommand.options.find? fun option => option.long == name

/-- Reads the arguments of a subcommand. -/
def readArguments (subcommand : Subcommand) : Arguments → List String → Reading
  | arguments, [] => .ok (.inl arguments)
  | arguments, argument :: rest =>
    match Token.ofArgument argument with
    | .endOfOptions => readPlain subcommand arguments rest
    | .plain value => do readArguments subcommand (← arguments.setModel subcommand value) rest
    | .long "help" none => .ok (.inr (.help (some subcommand)))
    | .long name value =>
      match longOption? subcommand name, value, rest with
      | none, _, _ => .error (.unexpectedArgument argument)
      | some option, some value, rest => do
        readArguments subcommand (← arguments.setOption option value) rest
      | some option, none, value :: rest =>
        match Token.ofArgument value with
        | .plain value => do
          readArguments subcommand (← arguments.setOption option value) rest
        | _ => .error (.missingValue option)
      | some option, none, [] => .error (.missingValue option)
    | .short letter cluster =>
      if letter = 'h' then .ok (.inr (.help (some subcommand)))
      else
        match shortOption? subcommand letter cluster, rest with
        | none, _ => .error (.unexpectedArgument argument)
        | some (option, some value), rest => do
          readArguments subcommand (← arguments.setOption option value) rest
        | some (option, none), value :: rest =>
          match Token.ofArgument value with
          | .plain value => do
            readArguments subcommand (← arguments.setOption option value) rest
          | _ => .error (.missingValue option)
        | some (option, none), [] => .error (.missingValue option)

/-- The command that the arguments of a subcommand make. -/
def Arguments.command (arguments : Arguments) (subcommand : Subcommand) :
    Except UsageError Command :=
  match subcommand, arguments.model with
  | .schema, _ => .ok .schema
  | .help, _ => .ok (.help none)
  | _, none => .error .missingModel
  | .translate, some model =>
    .ok (.translate ⟨model⟩ (arguments.output.map (⟨·⟩)) (arguments.config.map (⟨·⟩)))
  | .validate, some model => .ok (.validate ⟨model⟩ (arguments.config.map (⟨·⟩)))

/-- The topic that the help subcommand is asked about. -/
def helpTopic : List String → Except UsageError Command
  | [] => .ok (.help none)
  | [name] =>
    match Subcommand.ofName? name with
    | some .help => .ok (.help none)
    | some subcommand => .ok (.help (some subcommand))
    | none => .error (.unknownSubcommand name)
  | _ :: argument :: _ => .error (.unexpectedArgument argument)

/-- Reads a command line. -/
def Command.ofArguments : List String → Except UsageError Command
  | [] => .error .noArguments
  | argument :: rest =>
    match Subcommand.ofName? argument, Token.ofArgument argument with
    | some .help, _ => helpTopic rest
    | some subcommand, _ => do
      match ← readArguments subcommand .empty rest with
      | .inl arguments => arguments.command subcommand
      | .inr command => return command
    | none, .long "help" none => .ok (.help none)
    | none, .long "version" none => .ok .version
    | none, .short 'h' _ => .ok (.help none)
    | none, .short 'V' _ => .ok .version
    | none, .plain name => .error (.unknownSubcommand name)
    | none, .endOfOptions =>
      match rest with
      | [] => .error .noArguments
      | name :: _ => .error (.unknownSubcommand name)
    | none, _ => .error (.unexpectedArgument argument)

end GoalModel.CommandLine
