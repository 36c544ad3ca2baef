import EcmaScript.Command.Basic

/-!
# The program

Reads the input that the arguments name, and writes what the command makes of it: the JSON
to the standard output, and reports and notes to the standard error.
-/

namespace EcmaScript.Command

/-- The whole of the standard input, behind what was read of it before. -/
partial def readStandardInput (input : IO.FS.Stream) (before : ByteArray) : IO ByteArray := do
  let bytes ← input.read 65536
  if bytes.isEmpty then return before else readStandardInput input (before ++ bytes)

/-- The number that the system has for an error. -/
def codeOf? : IO.Error → Option UInt32
  | .noFileOrDirectory _ code _ | .interrupted _ code _ => some code
  | .alreadyExists _ code _ | .invalidArgument _ code _ | .permissionDenied _ code _
  | .resourceExhausted _ code _ | .inappropriateType _ code _ | .noSuchThing _ code _ => some code
  | .otherError code _ | .resourceBusy code _ | .resourceVanished code _
  | .unsupportedOperation code _ | .hardwareFault code _ | .unsatisfiedConstraints code _
  | .illegalOperation code _ | .protocolError code _ | .timeExpired code _ => some code
  | .unexpectedEof | .userError _ => none

/-- Why an input cannot be read. -/
def readErrorOf (e : IO.Error) : ReadError := .ofCode ((codeOf? e).getD 0).toNat (toString e)

/-- The text of a file or of the standard input, or why it cannot be read. -/
def readInput (file : String) : IO (Except ReadError String) := do
  try
    let bytes ←
      if file == "-" then readStandardInput (← IO.getStdin) .empty else IO.FS.readBinFile file
    match String.fromUTF8? bytes with
    | some text => return .ok text
    | none => return .error .notText
  catch e => return .error (readErrorOf e)

/-- A report as lines of text. -/
def reportText (name : String) (report : Report) : String :=
  s!"{name}: {report.message}\n  help: {report.help}"

/-- Does what the arguments ask for. -/
def runIO (arguments : List String) : IO UInt32 := do
  let request := Request.ofAllArguments arguments
  let (name, text) ← match request with
    | .run settings =>
      pure (if settings.file == "-" then "<stdin>" else settings.file,
        ← readInput settings.file)
    | _ => pure ("", .ok "")
  let outcome := request.outcome fun _ => text
  (← IO.getStdout).putStr outcome.output
  let err ← IO.getStderr
  for report in outcome.reports do
    err.putStrLn (reportText name report)
  for note in outcome.notes do
    err.putStrLn note
  return outcome.exitCode.toUInt32

end EcmaScript.Command

/-- The command line. -/
def main (arguments : List String) : IO UInt32 := EcmaScript.Command.runIO arguments
