import Accumulator.Command
import Accumulator.Terminal
import Accumulator.View

/-!
The debugger: before a cycle it shows the machine and takes commands until one of
them says how to go on. When the commands run out the run goes on without it. It
only looks at the machine.
-/
namespace Accumulator

/-- How the run goes on after a pause. -/
inductive Action where
  /-- Execute the pending instruction and pause before the next one. -/
  | proceed
  /-- Execute the rest without a pause. -/
  | detach
  /-- End the run. -/
  | leave
deriving DecidableEq

structure Debugger where
  /-- Commands that have been read, and not been taken yet. -/
  queued : List String
  /-- When no command is queued, another line is read from standard input. -/
  readsInput : Bool
  radix : Radix
deriving DecidableEq

namespace Debugger

/-- A debugger with the commands of a text, or else with those on standard input. -/
def new (command : Option String) (radix : Radix) : Debugger :=
  match command with
  | some text => ⟨CommandText.ofText text, false, radix⟩
  | none => ⟨[], true, radix⟩

/-! ## Taking commands -/

/-- How the run goes on after a command, if the command says so. -/
def action? (line : String) : Option Action :=
  match Command.parse line with
  | .ok .step => some .proceed
  | .ok .resume => some .detach
  | .ok .quit => some .leave
  | _ => none

/-- Takes queued commands up to the first that says how to go on. The second result is
    what it says, with the commands after it. -/
def takeQueued : List String → List String × Option (Action × List String)
  | [] => ([], none)
  | line :: later =>
    match action? line with
    | some action => ([line], some (action, later))
    | none => (line :: (takeQueued later).1, (takeQueued later).2)

/-- The commands that a pause takes, and what is left after it. -/
structure Pause where
  /-- The commands taken, in order. -/
  taken : List String
  action : Action
  queued : List String
  input : List UInt8
deriving DecidableEq

/-- The pause with more commands taken before its own. -/
def Pause.after (earlier : List String) (p : Pause) : Pause := { p with taken := earlier ++ p.taken }

/-- Takes commands up to the first that says how to go on. Where there is none, all
    are taken, and the run goes on without a pause. -/
def take (readsInput : Bool) (queued : List String) (input : List UInt8) : Pause :=
  match takeQueued queued with
  | (taken, some (action, later)) => ⟨taken, action, later, input⟩
  | (taken, none) =>
    if _h : readsInput = true ∧ input ≠ [] then
      match (CommandText.next input).1 with
      | some line => (take readsInput (CommandText.commands line) (CommandText.next input).2).after taken
      | none => ⟨taken, .detach, [], (CommandText.next input).2⟩
    else ⟨taken, .detach, [], input⟩
termination_by input.length
decreasing_by exact CommandText.length_next_lt _h.2

/-! ## What is said -/

/-- The machine before its next cycle. -/
def opening (radix : Radix) (m : Machine) : List Message :=
  let pc := toString m.registers.pc
  let cell := match m.store.get? m.registers.pc with
    | some cell => ": " ++ cell.text
    | none => ""
  [⟨.sometimes, .info, String.ofList (List.replicate 40 '-') ++ "\n"⟩,
   ⟨.sometimes, .normal, m.registers.view radix⟩,
   ⟨.sometimes, .normal, "\n"⟩,
   ⟨.sometimes, .normal, m.store.memoryView radix⟩,
   ⟨.sometimes, .normal, "\n"⟩,
   ⟨.always, .special, "Executing instruction " ++ pc ++ cell ++ "\n"⟩]

/-- What the command `help` shows. -/
def help : String :=
  "+--------------+--------+-----------------------------------------+\n" ++
  "| Command      | Alias  | Description                             |\n" ++
  "+--------------+--------+-----------------------------------------+\n" ++
  "| step         | s, \"\"  | Execute the pending instruction         |\n" ++
  "| continue     | x, c   | Run to the end without pausing          |\n" ++
  "| exit         | q      | End the run now                         |\n" ++
  "| registers    | r      | Show the program counter and registers  |\n" ++
  "| memory       | m      | Show the data region                    |\n" ++
  "| program      | p      | Show every cell of the program          |\n" ++
  "| labels       | l      | Show declared labels                    |\n" ++
  "| help         | h      | Show this message                       |\n" ++
  "+--------------+--------+-----------------------------------------+\n" ++
  "Several commands may be given at once, separated by `;`.\n"

/-- What a command shows. -/
def reply (radix : Radix) (m : Machine) : Command → List Message
  | .registers => [⟨.always, .normal, m.registers.view radix⟩]
  | .memory => [⟨.always, .normal, m.store.memoryView radix⟩]
  | .program => [⟨.always, .normal, m.store.programView⟩]
  | .labels =>
    if m.labels.size = 0 then [⟨.always, .info, "No labels declared.\n"⟩]
    else [⟨.always, .normal, m.labels.view⟩]
  | .help => [⟨.always, .special, "\n" ++ help ++ "\n"⟩]
  | .step | .resume | .quit => []

/-- What is said about a line that is no command. -/
def complaint (error : CommandError) : List Message :=
  [⟨.always, .error, error.message⟩, ⟨.always, .error, " Type `help` for a list of commands.\n"⟩]

/-- What is said about a line: the command itself, and what it shows. -/
def respond (radix : Radix) (m : Machine) (line : String) : List Message :=
  ⟨.always, .special, "Command: " ++ String.ofList (Text.trim line.toList) ++ "\n"⟩ ::
    match Command.parse line with
    | .ok command => reply radix m command
    | .error error => complaint error

/-- What is said at the end of a pause. -/
def closing : Action → List Message
  | .detach => [⟨.always, .info, "Continuing...\n"⟩]
  | .proceed | .leave => []

/-- All that is said in a pause. -/
def messages (radix : Radix) (m : Machine) (pause : Pause) : List Message :=
  opening radix m ++ pause.taken.flatMap (respond radix m) ++ closing pause.action

end Debugger
end Accumulator
