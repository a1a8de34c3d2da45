import GoalModel.CommandLine.Arguments

/-! # Help

The texts that answer a request for help or for the version. A command line without any
argument is answered with the help on the program. -/

namespace GoalModel.CommandLine

/-- What is printed for `--version`. -/
def versionText : String := "gm2golog 0.1.0\n"

/-- The help on the program, or on one of its subcommands. -/
def helpText : Option Subcommand → String
  | none =>
    "Translate goal models into DT-Golog programs\n\n" ++
    "Usage: gm2golog <COMMAND>\n\n" ++
    "Commands:\n" ++
    "  translate  Translate a model file and write the generated program\n" ++
    "  validate   Check a model against the schema, the linker and the model invariants\n" ++
    "  schema     Print the embedded model JSON schema\n" ++
    "  help       Print this message or the help of the given subcommand(s)\n\n" ++
    "Options:\n" ++
    "  -h, --help     Print help\n" ++
    "  -V, --version  Print version\n"
  | some .translate =>
    "Translate a model file and write the generated program\n\n" ++
    "Usage: gm2golog translate [OPTIONS] <MODEL>\n\n" ++
    "Arguments:\n" ++
    "  <MODEL>  Model document (JSON)\n\n" ++
    "Options:\n" ++
    "  -o, --output <OUTPUT>  Output path. Defaults to the model path with the configured " ++
      "extension\n" ++
    "      --config <CONFIG>  Config file. Defaults to `gm2golog.toml` in the working " ++
      "directory\n" ++
    "  -h, --help             Print help\n"
  | some .validate =>
    "Check a model against the schema, the linker and the model invariants\n\n" ++
    "Usage: gm2golog validate [OPTIONS] <MODEL>\n\n" ++
    "Arguments:\n" ++
    "  <MODEL>  Model document (JSON)\n\n" ++
    "Options:\n" ++
    "      --config <CONFIG>  \n" ++
    "  -h, --help             Print help\n"
  | some _ =>
    "Print the embedded model JSON schema\n\n" ++
    "Usage: gm2golog schema\n\n" ++
    "Options:\n" ++
    "  -h, --help  Print help\n"

end GoalModel.CommandLine
