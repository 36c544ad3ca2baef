import EcmaScript.Diagnostic.Report
import EcmaScript.Estree.Parse
import EcmaScript.Json.Text

/-!
# The command

The command line, without input and output: what the arguments ask for, and what is written
for an input. The arguments are read in order, and the first one that is wrong, or that asks
for help or the version, decides.
-/

namespace EcmaScript.Command

/-- What the command is to do with an input. -/
structure Settings where
  /-- The file to read, or `-` for the standard input. -/
  file : String
  /-- Whether names are resolved. -/
  resolve : Bool := false
  /-- Whether JSON is written on one line. -/
  compact : Bool := false
  /-- Whether logs are written as JSON. -/
  logJson : Bool := false
  /-- Whether tokens are written instead of the tree. -/
  tokens : Bool := false
deriving Repr, DecidableEq, Inhabited

/-- What the arguments ask for. -/
inductive Request where
  | help
  | version
  | run (settings : Settings)
  /-- The arguments are wrong. -/
  | misuse
deriving Repr, DecidableEq, Inhabited

/-- The options that can be given, each at most once. -/
inductive Switch where
  | resolve | compact | logJson | tokens
deriving Repr, DecidableEq, Inhabited

/-- The option that an argument spells. -/
def Switch.ofArgument? : String → Option Switch
  | "--resolve" => some resolve
  | "--compact" => some compact
  | "--log-json" => some logJson
  | "--tokens" => some tokens
  | _ => none

/-- The settings that options and files give. There must be one file. -/
def Request.ofParts (switches : List Switch) : List String → Request
  | [file] =>
    .run { file
           resolve := switches.contains .resolve
           compact := switches.contains .compact
           logJson := switches.contains .logJson
           tokens := switches.contains .tokens }
  | _ => .misuse

/-- The file behind the argument `--`, from which on all arguments are files. -/
def Request.ofFiles (switches : List Switch) (files more : List String) : Request :=
  ofParts switches (files ++ more)

/-- What arguments ask for, behind those that gave `switches` and `files`. -/
def Request.ofArguments (switches : List Switch) (files : List String) : List String → Request
  | [] => ofParts switches files
  | "--" :: more => ofFiles switches files more
  | "--help" :: _ => .help
  | "--version" :: _ => .version
  | argument :: more =>
    match Switch.ofArgument? argument with
    | some switch =>
      if switches.contains switch then .misuse else ofArguments (switch :: switches) files more
    | none =>
      match argument.toList with
      | '-' :: 'h' :: _ => .help
      | '-' :: 'V' :: _ => .version
      | '-' :: _ :: _ => .misuse
      | _ => if files.isEmpty then ofArguments switches [argument] more else .misuse

/-- What all arguments of a command ask for. -/
def Request.ofAllArguments (arguments : List String) : Request := ofArguments [] [] arguments

/-- What the command leaves behind. -/
structure Outcome where
  /-- The exit code: zero for success, one for an input that is refused or cannot be read,
  two for wrong arguments. -/
  exitCode : Nat
  /-- What is written to the standard output. -/
  output : String := ""
  /-- What is shown of the problems of the input. -/
  reports : List Report := []
  /-- What is noted behind that. -/
  notes : List String := []
deriving Repr, DecidableEq, Inhabited

/-- The name and the version of the command. -/
def versionText : String := "esfront 0.1.0\n"

/-- What the command does and how it is called. -/
def helpText : String :=
  "esfront - ECMAScript parser and scope resolver

Usage: esfront [OPTIONS] <FILE>

Arguments:
  <FILE>  Script to parse, or `-` to read standard input

Options:
      --resolve   Resolve scopes and emit `scopeContext` fields
      --compact   Print JSON on one line
      --log-json  Write logs as JSON lines
      --tokens    Print the token stream instead of the tree
  -h, --help      Print help
  -V, --version   Print version
"

/-- JSON as a line or as lines. -/
def jsonOutput (settings : Settings) (value : Json) : String :=
  (if settings.compact then value.compact else value.pretty 0) ++ "\n"

/-- The outcome of an input with problems: all of them are shown, and several are counted. -/
def refusal (source : String) (ds : Diagnostics) (output : String := "") : Outcome where
  exitCode := 1
  output := output
  reports := ds.map (Diagnostic.report source)
  notes := if ds.length > 1 then [s!"{ds.length} errors"] else []

/-- The outcome for an input. Tokens are written even if there are problems. -/
def process (settings : Settings) (source : String) : Outcome :=
  if settings.tokens then
    let (tokens, ds) := tokensToJson source
    let output := jsonOutput settings tokens
    if ds.isEmpty then { exitCode := 0, output } else refusal source ds output
  else
    match parseToJson source { resolve := settings.resolve } with
    | .ok program => { exitCode := 0, output := jsonOutput settings program }
    | .error ds => refusal source ds

/-- Why an input cannot be read. -/
inductive ReadError where
  /-- There is nothing under the name. -/
  | missing
  | denied
  /-- A part of the path that should be a directory is something else. -/
  | notDirectory
  | isDirectory
  /-- The path, or a name in it, is longer than the system allows. -/
  | nameTooLong
  /-- The content is no text in UTF-8. -/
  | notText
  /-- What else the system says. -/
  | other (reason : String)
deriving Repr, DecidableEq, Inhabited

/-- The wording of a reason, with the number that the system has for it. -/
def ReadError.message : ReadError → String
  | missing => "No such file or directory (os error 2)"
  | denied => "Permission denied (os error 13)"
  | notDirectory => "Not a directory (os error 20)"
  | isDirectory => "Is a directory (os error 21)"
  | nameTooLong => "File name too long (os error 36)"
  | notText => "stream did not contain valid UTF-8"
  | other reason => reason

/-- The reason that the system has a number for. -/
def ReadError.ofCode (code : Nat) (reason : String) : ReadError :=
  match code with
  | 2 => missing
  | 13 => denied
  | 20 => notDirectory
  | 21 => isDirectory
  | 36 => nameTooLong
  | _ => other reason

/-- The outcome for an input that cannot be read. -/
def unreadable (settings : Settings) (reason : ReadError) : Outcome :=
  { exitCode := 1, notes := [s!"error: cannot read {settings.file}: {reason.message}"] }

/-- The outcome of a request, given what its file holds or why it cannot be read. -/
def Request.outcome (request : Request) (read : String → Except ReadError String) : Outcome :=
  match request with
  | .help => { exitCode := 0, output := helpText }
  | .version => { exitCode := 0, output := versionText }
  | .misuse => { exitCode := 2 }
  | .run settings =>
    match read settings.file with
    | .ok source => process settings source
    | .error reason => unreadable settings reason

end EcmaScript.Command
