import Accumulator.CommandLine

/-!
The program's entry: it reads the environment, the file and standard input, and
prints while a run goes on.
-/
namespace Accumulator.Main

/-- Prints what the terminal has logged. -/
def printLog (t : Terminal) : IO Unit := do
  let out ← IO.getStdout
  let err ← IO.getStderr
  for p in t.log do
    match p.destination with
    | .program => out.putStr p.written
    | .tool _ _ => err.putStr p.written
  out.flush
  err.flush

/-- Prints the end of the program, and gives the code that it exits with. -/
def conclude (outcome : Outcome) : IO UInt32 := do
  printLog outcome.terminal
  match outcome.trouble with
  | none => return 0
  | some trouble =>
    (← IO.getStderr).putStr trouble.text
    return 1

/-- The bytes of a file. -/
def readFile (path : String) : IO (Except FileError (List UInt8)) := do
  try
    return .ok (← IO.FS.readBinFile path).toList
  catch error =>
    match error with
    | .inappropriateType _ 21 _ => return .error .isDirectory
    | .inappropriateType _ _ _ => return .error .notDirectory
    | _ => return .error .notFound

/-- The environment variables that the program looks at. -/
def readVariables : IO Variables := do
  let names := ["CIASM_BINARY", "CIASM_LIMIT", "CLICOLOR_FORCE", "COLORTERM"]
  let values ← names.mapM fun name => do return (← IO.getEnv name).map fun value => (name, value)
  return ⟨values.filterMap id⟩

/-- The bytes of standard input from what has been read on. -/
partial def readInput (stream : IO.FS.Stream) (read : ByteArray) : IO (List UInt8) := do
  let chunk ← stream.read 65536
  if chunk.isEmpty then return read.toList else readInput stream (read ++ chunk)

/-- A run to its end, printed as it goes on. -/
partial def drive (session : Session) : IO (Ending × Session) := do
  let (ending, session) := session.run 4096
  match ending with
  | some ending => return (ending, session)
  | none =>
    printLog session.terminal
    drive { session with terminal := session.terminal.flushed }

/-- Runs a program. Standard input is read only if the run may come to need it. -/
def run (s : Surroundings) (r : RunRequest) : IO UInt32 := do
  match CommandLine.begin s r with
  | .error stopped => conclude { terminal := stopped.terminal, trouble := some stopped.trouble }
  | .ok begun =>
    printLog begun.session.terminal
    let input ← if CommandLine.mayRead begun.session then readInput (← IO.getStdin) ByteArray.empty else pure []
    let started := { begun.session with terminal := begun.session.terminal.flushed, input := input }
    let (ending, session) ← drive started
    conclude (CommandLine.finish s r begun.program ending session)

/-- Does what is asked for. -/
def perform (request : Request) : IO UInt32 := do
  let contents ← match request.path? with
    | some path => readFile path
    | none => pure (.error .notFound)
  let s : Surroundings := { contents := contents, environment := ← readVariables, input := [] }
  match request with
  | .run r => run s r
  | request =>
    match CommandLine.execute s request with
    | some outcome => conclude outcome
    | none => return 1

end Accumulator.Main

def main (args : List String) : IO UInt32 := do
  match Accumulator.Request.ofArguments args with
  | .ok request => Accumulator.Main.perform request
  | .error .help =>
    (← IO.getStdout).putStr Accumulator.Request.usage
    return 0
  | .error .usage =>
    (← IO.getStderr).putStr Accumulator.Request.usage
    return 2
