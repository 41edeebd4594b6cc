import Accumulator.Debugger

/-!
Sessions: a machine with its input and output, a step limit and perhaps a debugger.
A run takes one turn after another, until a turn ends it. Since a program need not
end, a run is given a number of turns, and can be taken up again where it stopped.
-/
namespace Accumulator

/-- Where `IN` reads and where `OUT` writes. -/
inductive Channel where
  /-- Given characters are read, and written ones are kept. -/
  | buffer (input : List Char) (output : String)
  /-- Characters are printed; a script is read, or else the bytes of standard input. -/
  | console (script : Option (List Char))
deriving DecidableEq

/-- How a run ended. -/
abbrev Ending := Except Fault Halt

structure Session where
  machine : Machine
  /-- The run stops before its cycles exceed this number. -/
  limit : Option Nat := none
  debugger : Option Debugger := none
  channel : Channel
  /-- The bytes of standard input that have not been read. -/
  input : List UInt8 := []
  terminal : Terminal := {}

namespace Session

/-! ## Input and output -/

/-- The character that `IN` would read. A byte of standard input is a character code. -/
def next? (s : Session) : Option Char :=
  match s.channel with
  | .buffer input _ => input.head?
  | .console (some script) => script.head?
  | .console none => s.input.head?.map fun byte => Char.ofNat byte.toNat

/-- The session after `IN` has read a character. -/
def advance (s : Session) : Session :=
  match s.channel with
  | .buffer input output => { s with channel := .buffer input.tail output }
  | .console (some script) => { s with channel := .console (some script.tail) }
  | .console none => { s with input := s.input.tail }

/-- The session after `OUT` has written a character. -/
def emit (s : Session) (c : Char) : Session :=
  match s.channel with
  | .buffer input output => { s with channel := .buffer input (output.push c) }
  | .console _ => { s with terminal := s.terminal.printChar .program c }

/-- The characters that `IN` would read one after another. -/
def unread (s : Session) : List Char :=
  match s.channel with
  | .buffer input _ => input
  | .console (some script) => script
  | .console none => s.input.map fun byte => Char.ofNat byte.toNat

/-- What `OUT` has written, to the buffer or to standard output. -/
def output (s : Session) : String :=
  match s.channel with
  | .buffer _ output => output
  | .console _ => s.terminal.standardOutput

theorem next?_eq_head?_unread (s : Session) : s.next? = s.unread.head? := by
  unfold next? unread
  split
  · rfl
  · rfl
  · exact List.head?_map.symm

theorem unread_advance (s : Session) : s.advance.unread = s.unread.tail := by
  obtain ⟨machine, limit, debugger, channel, input, terminal⟩ := s
  cases channel with
  | buffer input output => rfl
  | console script =>
    cases script with
    | some script => rfl
    | none => exact List.map_tail

/-- The next character is what reading takes from the input. -/
theorem unread_of_next? {s : Session} {c : Char} (next : s.next? = some c) : s.unread = c :: s.advance.unread := by
  rw [next?_eq_head?_unread] at next
  obtain ⟨rest, split⟩ := List.head?_eq_some_iff.mp next
  rw [unread_advance, split]
  rfl

/-- Reading changes the input alone. -/
theorem output_advance (s : Session) : s.advance.output = s.output := by
  obtain ⟨machine, limit, debugger, channel, input, terminal⟩ := s
  cases channel with
  | buffer input output => rfl
  | console script => cases script <;> rfl

/-! ## Cycles -/

/-- The session after a cycle of its machine. -/
def apply (s : Session) (c : Cycle) : Session :=
  let s := { s with machine := c.machine }
  let s := if c.taken then s.advance else s
  match c.emitted with
  | some ch => s.emit ch
  | none => s

/-- The cycle that comes next. -/
def cycle (s : Session) : Cycle := s.machine.cycle s.next?

/-- One cycle, without a look at the limit or at the debugger. -/
def step (s : Session) : Except Fault (Option Halt) × Session := (s.cycle.outcome, s.apply s.cycle)

/-- Pauses before a cycle, if there is a debugger. A debugger that is told to go on
    without a pause is gone before the cycle. -/
def pause (s : Session) : Action × Session :=
  match s.debugger with
  | none => (.proceed, s)
  | some d =>
    let p := Debugger.take d.readsInput d.queued s.input
    let terminal := (s.terminal.startNewLine (.tool .always .normal)).sayAll (Debugger.messages d.radix s.machine p)
    let kept := if p.action = .detach then none else some { d with queued := p.queued }
    (p.action, { s with debugger := kept, input := p.input, terminal := terminal })

/-! ## Runs -/

/-- The run has to stop before its next cycle, and why. -/
def stop? (s : Session) : Option Halt :=
  if s.machine.store.size ≤ s.machine.registers.pc then some .endOfProgram
  else match s.limit with
    | some limit => if limit ≤ s.machine.registers.steps then some .stepLimit else none
    | none => none

/-- How a cycle's outcome ends the run, if it does. -/
def ending? : Except Fault (Option Halt) → Option Ending
  | .ok none => none
  | .ok (some halt) => some (.ok halt)
  | .error fault => some (.error fault)

/-- One turn of a run: the checks, the pause and the cycle. -/
def turn (s : Session) : Option Ending × Session :=
  match s.stop? with
  | some halt => (some (.ok halt), s)
  | none =>
    match s.pause with
    | (.leave, s) => (some (.ok .exited), s)
    | (_, s) => (ending? s.step.1, s.step.2)

/-- A run of at most the given number of turns. -/
def run (turns : Nat) (s : Session) : Option Ending × Session :=
  match turns with
  | 0 => (none, s)
  | turns + 1 =>
    match s.turn with
    | (none, s) => run turns s
    | (some ending, s) => (some ending, s)

/-- A run that was stopped goes on where it was. -/
theorem run_add (first second : Nat) (s : Session) :
    s.run (first + second) =
      match s.run first with
      | (none, t) => t.run second
      | (some ending, t) => (some ending, t) := by
  induction first generalizing s with
  | zero => simp [run]
  | succ first ih =>
    rw [Nat.succ_add, run, run]
    rcases s.turn with ⟨_ | ending, t⟩
    · exact ih t
    · rfl

/-- A run that has ended ends in the same way with more turns. -/
theorem run_of_le {first turns : Nat} (le : first ≤ turns) {s t : Session} {ending : Ending}
    (ended : s.run first = (some ending, t)) : s.run turns = (some ending, t) := by
  obtain ⟨more, rfl⟩ := Nat.exists_eq_add_of_le le
  rw [run_add, ended]

/-- As many turns as a 64-bit counter has values. A run that they do not end is taken
    not to end. -/
def turnLimit : Nat := 18446744073709551616

/-- A new run over the memory as it is. -/
def restart (s : Session) : Except LabelError Session := do
  .ok { s with machine := ← Machine.ofStore s.machine.store, limit := none, debugger := none }

/-- Attaches a debugger in place of any other. -/
def attach (s : Session) (command : Option String) (radix : Radix) : Session :=
  { s with debugger := some (Debugger.new command radix) }

end Session
end Accumulator
