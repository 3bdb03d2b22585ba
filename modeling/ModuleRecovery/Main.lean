import ModuleRecovery.Command.Line
import ModuleRecovery.ToolServer.Message

/-!
# The program

Reads the arguments and the model file, and prints.  A usage error ends the
program with 2, a failure with 1 and its message on the second output.
-/

namespace ModuleRecovery.Program

/-- The content of a file, with a failure as its cause. -/
def contentOf (path : String) : IO FileContent := do
  try
    return .ok (← IO.FS.readBinFile path)
  catch error =>
    match error with
    | .noFileOrDirectory .. => return .error .notFound
    | .inappropriateType .. => return .error .isDirectory
    | error => return .error (.other (toString error))

/-- Answers lines until the input ends. -/
partial def serveTools (engine : Engine) (input output : IO.FS.Stream) :
    IO Unit := do
  let line ← input.getLine
  if line.isEmpty then return
  if let some answer := ToolServer.respondLine? engine line then
    output.putStrLn answer
    output.flush
  serveTools engine input output

def usage : String :=
  "Usage: mftool [--exclude-tests] <MODEL> <COMMAND>\n\n" ++
    "Commands: " ++ ", ".intercalate (Command.forms.map Prod.fst) ++ ", help"

def run (arguments : List String) : IO UInt32 := do
  match Command.read arguments with
  | .error .help =>
    IO.println usage
    return 0
  | .error .usage =>
    IO.eprintln usage
    return 2
  | .ok invocation =>
    match invocation.run (← contentOf invocation.model) with
    | .ok (.printed text) =>
      IO.print text
      return 0
    | .ok (.tools engine) =>
      serveTools engine (← IO.getStdin) (← IO.getStdout)
      return 0
    | .ok (.serve _ _) =>
      IO.eprintln "Error: no HTTP listener is available"
      return 1
    | .error error =>
      IO.eprintln ("Error: " ++ error.message)
      return 1

end ModuleRecovery.Program

def main (arguments : List String) : IO UInt32 :=
  ModuleRecovery.Program.run arguments
