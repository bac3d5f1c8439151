/-
What is told of the command line itself.
-/
import Ambient.Command.Line

namespace Ambient.Command

def versionText : Text :=
  "dtsgen 0.1.0\n"

def helpText : Text :=
  Text.joinLines [
    "TypeScript declaration file generator for isolated declarations",
    "",
    "Usage: dtsgen <COMMAND>",
    "",
    "Commands:",
    "  generate  Generate declaration files for every entrypoint under the root",
    "  emit      Print the declarations of a single file to stdout",
    "  init      Initialize a .dtsgen.toml configuration file",
    "  help      Print this message or the help of the given subcommand(s)",
    "",
    "Options:",
    "  -h, --help     Print help",
    "  -V, --version  Print version",
    ""]

def generateHelp : Text :=
  Text.joinLines [
    "Generate declaration files for every entrypoint under the root",
    "",
    "Usage: dtsgen generate [OPTIONS]",
    "",
    "Options:",
    "      --root <ROOT>                    Directory containing the sources",
    "  -o, --outdir <OUTDIR>                Directory receiving the declaration files",
    "      --clean                          Remove the output directory before generating",
    "      --no-clean                       Keep existing files in the output directory",
    "      --entrypoints <ENTRYPOINTS>      Entrypoint globs relative to the root (comma-separated)",
    "      --tsconfig <TSCONFIG>            tsconfig.json checked for isolatedDeclarations",
    "      --fallback-type <FALLBACK_TYPE>  Type emitted when a value cannot be inferred [possible values: any, string]",
    "      --no-comments                    Do not carry doc comments onto declarations",
    "      --parallel                       Process files in parallel",
    "  -c, --config <CONFIG>                Configuration file (defaults to the nearest .dtsgen.toml)",
    "  -v, --verbose...                     Increase verbosity level (can be repeated: -v, -vv, -vvv)",
    "  -h, --help                           Print help",
    ""]

def emitHelp : Text :=
  Text.joinLines [
    "Print the declarations of a single file to stdout",
    "",
    "Usage: dtsgen emit [OPTIONS] <FILE>",
    "",
    "Arguments:",
    "  <FILE>  Source file",
    "",
    "Options:",
    "      --fallback-type <FALLBACK_TYPE>  Type emitted when a value cannot be inferred [possible values: any, string]",
    "      --no-comments                    Do not carry doc comments onto declarations",
    "  -c, --config <CONFIG>                Configuration file (defaults to the nearest .dtsgen.toml)",
    "  -v, --verbose...                     Increase verbosity level (can be repeated: -v, -vv, -vvv)",
    "  -h, --help                           Print help",
    ""]

def initHelp : Text :=
  Text.joinLines [
    "Initialize a .dtsgen.toml configuration file",
    "",
    "Usage: dtsgen init [OPTIONS]",
    "",
    "Options:",
    "  -f, --force  Force overwrite existing config",
    "  -h, --help   Print help",
    ""]

/-- The help that a line asks for. -/
def helpFor (args : List Text) : Text :=
  let name? : Option Name :=
    match args.filterMap Name.ofText? with
    | .help :: name :: _ => some name
    | name :: _ => some name
    | [] => none
  match name? with
  | some .generate => generateHelp
  | some .emit => emitHelp
  | some .init => initHelp
  | _ => helpText

def UsageError.message : UsageError → Text
  | .unknownArgument => "unexpected argument found"
  | .invalidValue => "a value is missing or is not one of the possible values"
  | .unknownCommand => "unrecognized subcommand"
  | .conflict => "an argument cannot be used multiple times or with another that is given"
  | .missingArgument => "a required argument was not provided"
  | .tooManyValues => "unexpected value for an argument found; no more were expected"
  | .help => "help was asked for"
  | .version => "the version was asked for"
  | .noCommand => "no subcommand was provided"

end Ambient.Command
