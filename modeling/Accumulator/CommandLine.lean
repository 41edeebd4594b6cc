import Accumulator.Arguments
import Accumulator.Files
import Accumulator.Report
import Accumulator.Session

/-!
The program as a whole: a request, the file that it names, the environment and
standard input give all that is written, and how the program exits. What is begun
here is a session; its run lies between `begin` and `finish`.
-/
namespace Accumulator

/-- Why the program exits with a failure. -/
inductive Trouble where
  | file (error : FileError)
  | report (report : Report)
  /-- There is no file to watch. -/
  | nothingToWatch
deriving DecidableEq

/-- The first line of what is said about the failure: its code, or else its message. -/
def Trouble.headline : Trouble → String
  | file error => error.message
  | report r => r.code
  | nothingToWatch => "File does not exist. Exiting..."

/-- All that is said about the failure. -/
def Trouble.text (trouble : Trouble) : String :=
  "Error: " ++ trouble.headline ++ "\n" ++
    match trouble with
    | report r =>
      "\n  " ++ r.message ++ "\n" ++
        String.join (r.remarks.map fun m => s!"  at byte {m.offset}: {m.text}\n") ++
        "  help: " ++ r.help ++ "\n"
    | file _ | nothingToWatch => ""

/-- The end of the program. -/
structure Outcome where
  terminal : Terminal
  trouble : Option Trouble := none

/-- What a request finds: the file that it names, the environment, and standard input. -/
structure Surroundings where
  /-- The bytes of the file, if one is named. -/
  contents : Except FileError (List UInt8)
  environment : Variables
  input : List UInt8

namespace Surroundings

/-- Styles are used only where they are asked for. -/
def color (s : Surroundings) : Bool :=
  match s.environment.get? "CLICOLOR_FORCE" with
  | some value => value ≠ "0"
  | none => false

/-- The terminal shows many colours. -/
def manyColors (s : Surroundings) : Bool :=
  match s.environment.get? "COLORTERM" with
  | some value => value = "truecolor" || value = "24bit"
  | none => false

def settings (s : Surroundings) : Settings := Settings.ofVariables s.environment

/-- The text of the file. -/
def source (s : Surroundings) : Except Trouble String :=
  match s.contents with
  | .ok bytes => (decodeText bytes).mapError .file
  | .error error => .error (.file error)

theorem source_of_utf8 {s : Surroundings} {text : String} (utf8 : s.contents = .ok text.toUTF8.data.toList) :
    s.source = .ok text := by
  unfold source
  rw [utf8]
  exact congrArg (Except.mapError Trouble.file) (decodeText_toUTF8 text)

end Surroundings

namespace CommandLine

/-! ## Lines of status -/

/-- A word of status and what it is about, on a line of standard output. Minimal mode has none. -/
def status (t : Terminal) (codes word about : String) : Terminal :=
  if t.minimal then t
  else
    let padded := Text.padLeft 12 word
    t.announce ((if t.color then Escape.paint codes padded else padded) ++ " " ++ about)

theorem status_of_minimal {t : Terminal} (minimal : t.minimal = true) (codes word about : String) :
    status t codes word about = t := if_pos minimal

def green : String := "32"
def cyan : String := "36"

/-! ## Loading -/

/-- A failure, after what has been written so far. -/
structure Stopped where
  terminal : Terminal
  trouble : Trouble

/-- A source with its program and the machine at the start of its run. -/
structure Loaded where
  program : Program
  machine : Machine

/-- The program and the machine of a source. -/
def load (source : String) : Except Trouble Loaded := do
  let program ← (Program.parse source).mapError fun e => Trouble.report e.report
  let machine ← (Machine.ofProgram program).mapError fun e => Trouble.report (e.report program)
  .ok ⟨program, machine⟩

theorem load_eq (source : String) :
    load source =
      match Program.parse source with
      | .error e => .error (.report e.report)
      | .ok program =>
        match Machine.ofProgram program with
        | .error e => .error (.report (e.report program))
        | .ok machine => .ok ⟨program, machine⟩ := by
  unfold load
  cases Program.parse source with
  | error e => rfl
  | ok program =>
    show ((Machine.ofProgram program).mapError _ >>= fun machine => .ok (Loaded.mk program machine)) = _
    dsimp only
    cases Machine.ofProgram program <;> rfl

/-- The message on a label that is declared again. -/
def duplicateWarning (name : String) : Message :=
  ⟨.always, .warning, s!"Warning: label `{name}` is declared more than once, the last declaration is used\n"⟩

/-- Loads the file, and warns about duplicates. -/
def loadFile (s : Surroundings) (t : Terminal) : Except Stopped (Loaded × Terminal) :=
  match s.source.bind load with
  | .error trouble => .error ⟨t, trouble⟩
  | .ok loaded => .ok (loaded, t.sayAll (loaded.machine.labels.duplicates.map duplicateWarning))

/-! ## Runs -/

/-- The base in which a request shows words. -/
def radix (s : Surroundings) (r : RunRequest) : Radix :=
  if r.binary || s.settings.binary then .binary else .decimal

/-- A session that is ready to run, with its program. -/
structure Begun where
  program : Program
  session : Session

/-- The run may come to read standard input: for commands, or at an `IN`. A program
    never gets an instruction that it did not start with. -/
def mayRead (session : Session) : Bool :=
  session.debugger.any Debugger.readsInput ||
    (session.channel == .console none &&
      session.machine.store.cells.any (· == .instruction (.plain .read)))

/-- All that comes before the run. -/
def begin (s : Surroundings) (r : RunRequest) : Except Stopped Begun := do
  let t : Terminal := { minimal := r.minimal, color := s.color }
  let (loaded, t) ← loadFile s (status t green "Loading" ("target " ++ r.path))
  let t := t.say ⟨.sometimes, .normal, loaded.machine.store.programView⟩
  let t := status t green "Running" "program"
  .ok {
    program := loaded.program
    session := {
      machine := loaded.machine
      limit := r.limit.or s.settings.limit
      debugger := r.debug.map fun command => Debugger.new command (radix s r)
      channel := .console (r.input.map String.toList)
      input := s.input
      terminal := t } }

/-- What is said after a run that has halted. -/
def summary (radix : Radix) (m : Machine) (halt : Halt) : List Message :=
  [⟨.always, if halt = .stepLimit then .warning else .info, "Program Halted: " ++ halt.text ++ "\n"⟩,
   ⟨.always, .info, toString m.registers.steps ++ " instructions executed\n"⟩,
   ⟨.sometimes, .normal, m.store.memoryView radix⟩,
   ⟨.always, .normal, m.registers.view radix⟩]

/-- All that comes after the run. -/
def finish (s : Surroundings) (r : RunRequest) (program : Program) (ending : Ending) (session : Session) : Outcome :=
  match ending with
  | .error fault => { terminal := session.terminal, trouble := some (.report (fault.report program)) }
  | .ok halt =>
    let t := session.terminal.startNewLine (.tool .always .normal)
    let t := t.sayAll (summary (radix s r) session.machine halt)
    { terminal := status t green "Completed" ("target " ++ r.path) }

/-- A run from its beginning to its end, if it ends. -/
def run (s : Surroundings) (r : RunRequest) : Option Outcome :=
  match begin s r with
  | .error stopped => some { terminal := stopped.terminal, trouble := some stopped.trouble }
  | .ok begun =>
    match begun.session.run Session.turnLimit with
    | (some ending, session) => some (finish s r begun.program ending session)
    | (none, _) => none

/-! ## Other requests -/

/-- Loads a program and resolves its labels, without running it. -/
def check (s : Surroundings) (path : String) : Outcome :=
  let t : Terminal := { color := s.color }
  match loadFile s (status t green "Checking" ("target " ++ path)) with
  | .error stopped => { terminal := stopped.terminal, trouble := some stopped.trouble }
  | .ok (_, t) => { terminal := status t green "Success" "no errors found!" }

/-- The screen on which a file is watched. -/
def watch (s : Surroundings) (path : String) : Outcome :=
  let t : Terminal := { color := s.color }
  match s.contents with
  | .error .notFound | .error .notDirectory => { terminal := t, trouble := some .nothingToWatch }
  | _ =>
    let t := t.print .program "\x1b[2J\x1b[2;1H"
    let t := status t green "Watching" ("target " ++ path)
    { terminal := status t cyan "Help" "press CTRL+C to exit" }

def version : String := "0.1.0"

def logo : String :=
  "\n       _\n   ___(_) __ _ ___ _ __ ___\n  / __| |/ _` / __| '_ ` _ \\\n" ++
  " | (__| | (_| \\__ \\ | | | | |\n  \\___|_|\\__,_|___/_| |_| |_|"

def introduction : String :=
  "\nWelcome to ciasm, an interpreter and step debugger for the\n" ++
  "Cambridge International accumulator assembly language.\n" ++
  "Please use `-h` or `--help` to access the usage instructions and documentation.\n"

/-- The logo is pink, or white where a terminal has few colours. -/
def logoCodes (s : Surroundings) : String :=
  if s.manyColors then "1;38;2;255;183;197" else "1;37"

/-- What the program says when nothing is asked for. -/
def welcome (s : Surroundings) : Outcome :=
  let t : Terminal := { color := s.color }
  let t := t.announce ("\n~ ciasm v" ++ version ++ " - Copyright (c) 2024 Artemis Rosman ~")
  let t := t.announce (if s.color then Escape.paint (logoCodes s) logo else logo)
  { terminal := t.announce introduction }

/-- What a request leads to. Nothing, if it is a run that does not end. -/
def execute (s : Surroundings) : Request → Option Outcome
  | .welcome => some (welcome s)
  | .version => some { terminal := ({} : Terminal).announce ("ciasm " ++ version) }
  | .run request => run s request
  | .check path => some (check s path)
  | .watch path => some (watch s path)

end CommandLine
end Accumulator
