import Accumulator.Session

/-!
Calls: what can be asked of a session from outside, in any order and any number. What a cycle
does to a session and what a turn of a run can be is said once, for all channels and with or
without a debugger. For the machine of a session all calls come down to cycles, one after
another, each of which sees the next character of the input or none. What every cycle keeps
therefore holds after all calls, and a fault that a call ends in is the fault of a cycle.
-/
namespace Accumulator

namespace Machine

/-- The machine after cycles that see the given characters next, one after another. -/
def cycles (m : Machine) (seen : List (Option Char)) : Machine :=
  seen.foldl (fun m next => (m.cycle next).machine) m

theorem cycles_append (m : Machine) (first second : List (Option Char)) :
    m.cycles (first ++ second) = (m.cycles first).cycles second := List.foldl_append

theorem cycles_induction {P : Machine → Prop} (kept : ∀ m next, P m → P (m.cycle next).machine) {m : Machine}
    (start : P m) (seen : List (Option Char)) : P (m.cycles seen) := by
  induction seen generalizing m with
  | nil => exact start
  | cons next seen ih => exact ih (kept m next start)

/-- Some number of cycles, followed by one that ends in the fault, lies ahead of the machine. -/
def ComesTo (m : Machine) (fault : Fault) : Prop :=
  ∃ seen next, ((m.cycles seen).cycle next).outcome = .error fault

/-- The last of the cycles that see the given characters ends in the fault. -/
def EndsIn (m : Machine) (seen : List (Option Char)) (fault : Fault) : Prop :=
  ∃ earlier next, seen = earlier ++ [next] ∧ ((m.cycles earlier).cycle next).outcome = .error fault

theorem EndsIn.comesTo {m : Machine} {seen : List (Option Char)} {fault : Fault} (ends : m.EndsIn seen fault) :
    m.ComesTo fault := by
  obtain ⟨earlier, next, -, failed⟩ := ends
  exact ⟨earlier, next, failed⟩

theorem EndsIn.after {m : Machine} {first second : List (Option Char)} {fault : Fault}
    (ends : (m.cycles first).EndsIn second fault) : m.EndsIn (first ++ second) fault := by
  obtain ⟨earlier, next, rfl, failed⟩ := ends
  exact ⟨first ++ earlier, next, (List.append_assoc _ _ _).symm, by rw [cycles_append, failed]⟩

theorem ComesTo.exists_kept {P : Machine → Prop} (kept : ∀ m next, P m → P (m.cycle next).machine) {m : Machine}
    {fault : Fault} (start : P m) (ahead : m.ComesTo fault) :
    ∃ n next, P n ∧ (n.cycle next).outcome = .error fault := by
  obtain ⟨seen, next, failed⟩ := ahead
  exact ⟨m.cycles seen, next, cycles_induction kept start seen, failed⟩

end Machine

/-- What can be asked of a session. -/
inductive Call where
  /-- One cycle. -/
  | step
  /-- A run of at most the given number of turns. -/
  | run (turns : Nat)
  | limit (limit : Option Nat)
  | attach (command : Option String) (radix : Radix)
  /-- Other input and output from now on. -/
  | connect (channel : Channel) (input : List UInt8) (terminal : Terminal)

/-! ## What a cycle does to a session -/

/-- What is left to read, when the first of it has been taken or not. -/
def Machine.left {α : Type} (taken : Bool) (input : List α) : List α := if taken then input.tail else input

/-- What has been written, when a character has been emitted or not. -/
def Machine.written (emitted : Option Char) (output : String) : String :=
  match emitted with
  | some c => output.push c
  | none => output

namespace Channel

/-- Where the program reads and writes after a cycle. -/
def after (channel : Channel) (c : Cycle) : Channel :=
  match channel with
  | .buffer input output => .buffer (Machine.left c.taken input) (Machine.written c.emitted output)
  | .console script => .console (script.map (Machine.left c.taken))

/-- The bytes of standard input after a cycle: they are read on a console without a script alone. -/
def inputAfter (channel : Channel) (c : Cycle) (input : List UInt8) : List UInt8 :=
  match channel with
  | .console none => Machine.left c.taken input
  | _ => input

/-- The terminal after a cycle: the program writes to it on a console alone. -/
def terminalAfter (channel : Channel) (c : Cycle) (t : Terminal) : Terminal :=
  match channel, c.emitted with
  | .console _, some ch => t.printChar .program ch
  | _, _ => t

theorem minimal_terminalAfter (channel : Channel) (c : Cycle) (t : Terminal) :
    (channel.terminalAfter c t).minimal = t.minimal := by
  unfold terminalAfter
  split <;> rfl

end Channel

namespace Session

/-- All that a cycle does to a session. The limit and the debugger are not touched, and what is
    read and written depends on the channel. -/
theorem apply_eq (s : Session) (c : Cycle) :
    s.apply c = { s with
      machine := c.machine
      channel := s.channel.after c
      input := s.channel.inputAfter c s.input
      terminal := s.channel.terminalAfter c s.terminal } := by
  obtain ⟨machine, limit, debugger, channel, input, terminal⟩ := s
  obtain ⟨machine', outcome, taken, emitted⟩ := c
  cases channel with
  | buffer input output => cases taken <;> cases emitted <;> rfl
  | console script => cases script <;> cases taken <;> cases emitted <;> rfl

/-! ## The machine of a session -/

theorem machine_apply (s : Session) (c : Cycle) : (s.apply c).machine = c.machine := by rw [apply_eq]

theorem machine_pause (s : Session) : s.pause.2.machine = s.machine := by
  unfold pause
  split <;> rfl

/-! ## What is seen -/

/-- What the cycle of a turn sees, if the turn comes to its cycle. -/
def turnSees (s : Session) : List (Option Char) :=
  match s.stop? with
  | some _ => []
  | none =>
    match s.pause with
    | (.leave, _) => []
    | (_, paused) => [paused.next?]

/-- What the cycles of a run see, in order. -/
def runSees (turns : Nat) (s : Session) : List (Option Char) :=
  match turns with
  | 0 => []
  | turns + 1 =>
    s.turnSees ++
      match s.turn with
      | (none, t) => runSees turns t
      | (some _, _) => []

/-- The session after a call, whatever it has ended in. -/
def call (s : Session) : Call → Session
  | .step => s.step.2
  | .run turns => (s.run turns).2
  | .limit limit => { s with limit := limit }
  | .attach command radix => s.attach command radix
  | .connect channel input terminal => { s with channel := channel, input := input, terminal := terminal }

/-- What the cycles of a call see, in order. -/
def callSees (s : Session) : Call → List (Option Char)
  | .step => [s.next?]
  | .run turns => s.runSees turns
  | .limit _ | .attach _ _ | .connect _ _ _ => []

/-- How a call has ended, unless the run goes on after it. -/
def result? (s : Session) : Call → Option Ending
  | .step => ending? s.step.1
  | .run turns => (s.run turns).1
  | .limit _ | .attach _ _ | .connect _ _ _ => none

/-- The session after calls, one after another. -/
def calls (s : Session) (cs : List Call) : Session := cs.foldl call s

/-- What the cycles of calls see, in order. -/
def sees (s : Session) : List Call → List (Option Char)
  | [] => []
  | c :: cs => s.callSees c ++ (s.call c).sees cs

theorem calls_append (s : Session) (first second : List Call) :
    s.calls (first ++ second) = (s.calls first).calls second := List.foldl_append

theorem sees_append (s : Session) (first second : List Call) :
    s.sees (first ++ second) = s.sees first ++ (s.calls first).sees second := by
  induction first generalizing s with
  | nil => rfl
  | cons c cs ih =>
    rw [List.cons_append, sees, ih, sees, List.append_assoc]
    rfl

/-! ## From calls to cycles -/

theorem machine_step (s : Session) : s.step.2.machine = (s.machine.cycle s.next?).machine := machine_apply s s.cycle

/-- All that a turn can be. -/
inductive TurnForm (s : Session) : Prop
  /-- A check stops the run before the pause. -/
  | stops (halt : Halt) (stopped : s.stop? = some halt) (turn : s.turn = (some (.ok halt), s)) (sees : s.turnSees = [])
  /-- The debugger leaves the run at the pause. -/
  | leaves (on : s.stop? = none) (action : s.pause.1 = .leave) (turn : s.turn = (some (.ok .exited), s.pause.2))
    (sees : s.turnSees = [])
  /-- A cycle follows the pause. -/
  | cycles (on : s.stop? = none) (action : s.pause.1 ≠ .leave)
    (turn : s.turn = (ending? s.pause.2.step.1, s.pause.2.step.2)) (sees : s.turnSees = [s.pause.2.next?])

theorem turnForm (s : Session) : s.TurnForm := by
  cases stopped : s.stop? with
  | some halt => exact .stops halt stopped (by rw [turn, stopped]) (by rw [turnSees, stopped])
  | none =>
    have paused : s.pause = (s.pause.1, s.pause.2) := rfl
    cases acts : s.pause.1 with
    | leave =>
      rw [acts] at paused
      exact .leaves stopped acts (by rw [turn, stopped, paused]) (by rw [turnSees, stopped, paused])
    | proceed =>
      rw [acts] at paused
      exact .cycles stopped (acts ▸ nofun) (by rw [turn, stopped, paused]) (by rw [turnSees, stopped, paused])
    | detach =>
      rw [acts] at paused
      exact .cycles stopped (acts ▸ nofun) (by rw [turn, stopped, paused]) (by rw [turnSees, stopped, paused])

/-- A turn either ends the run without a cycle, or makes a cycle of the machine as it
    is; a pause before it does not touch the machine. -/
theorem turn_cases (s : Session) :
    (∃ halt t, t.machine = s.machine ∧ s.turn = (some (.ok halt), t) ∧ s.turnSees = []) ∨
      ∃ t : Session, t.machine = s.machine ∧ s.turn = (ending? t.step.1, t.step.2) ∧ s.turnSees = [t.next?] := by
  cases s.turnForm with
  | stops halt _ turn sees => exact .inl ⟨halt, s, rfl, turn, sees⟩
  | leaves _ _ turn sees => exact .inl ⟨.exited, s.pause.2, s.machine_pause, turn, sees⟩
  | cycles _ _ turn sees => exact .inr ⟨s.pause.2, s.machine_pause, turn, sees⟩

theorem machine_turn (s : Session) : s.turn.2.machine = s.machine.cycles s.turnSees := by
  obtain ⟨halt, t, same, turn, sees⟩ | ⟨t, same, turn, sees⟩ := turn_cases s
  · rw [turn, sees]
    exact same
  · rw [turn, sees, ← same]
    exact machine_step t

theorem machine_run (turns : Nat) (s : Session) : (s.run turns).2.machine = s.machine.cycles (s.runSees turns) := by
  induction turns generalizing s with
  | zero => rfl
  | succ turns ih =>
    have turned := machine_turn s
    unfold run runSees
    rw [Machine.cycles_append, ← turned]
    cases s.turn with
    | mk ending t =>
      cases ending with
      | none => exact ih t
      | some ending => rfl

theorem machine_call (s : Session) (c : Call) : (s.call c).machine = s.machine.cycles (s.callSees c) := by
  cases c with
  | step => exact machine_step s
  | run turns => exact machine_run turns s
  | limit limit => rfl
  | attach command radix => rfl
  | connect channel input terminal => rfl

theorem machine_calls (s : Session) (cs : List Call) : (s.calls cs).machine = s.machine.cycles (s.sees cs) := by
  induction cs generalizing s with
  | nil => rfl
  | cons c cs ih =>
    unfold sees
    rw [Machine.cycles_append, ← machine_call]
    exact ih (s.call c)

/-! ## Faults of calls -/

theorem ending?_eq_error_iff {outcome : Except Fault (Option Halt)} {fault : Fault} :
    ending? outcome = some (.error fault) ↔ outcome = .error fault := by
  cases outcome with
  | error other => simp [ending?]
  | ok halt => cases halt <;> simp [ending?]

theorem endsIn_of_run {turns : Nat} {s : Session} {fault : Fault} (ended : (s.run turns).1 = some (.error fault)) :
    s.machine.EndsIn (s.runSees turns) fault := by
  induction turns generalizing s with
  | zero => cases ended
  | succ turns ih =>
    unfold run at ended
    unfold runSees
    obtain ⟨halt, t, same, turn, sees⟩ | ⟨t, same, turn, sees⟩ := turn_cases s
    · rw [turn] at ended
      cases ended
    · rw [turn] at ended ⊢
      rw [sees, ← same]
      cases result : ending? t.step.1 with
      | some ending =>
        rw [result] at ended
        rw [show ending = .error fault from Option.some.inj ended] at result
        exact ⟨[], t.next?, rfl, ending?_eq_error_iff.mp result⟩
      | none =>
        rw [result] at ended
        refine Machine.EndsIn.after ?_
        rw [show t.machine.cycles [t.next?] = t.step.2.machine from (machine_step t).symm]
        exact ih ended

theorem endsIn_of_call {s : Session} {c : Call} {fault : Fault} (ended : s.result? c = some (.error fault)) :
    s.machine.EndsIn (s.callSees c) fault := by
  cases c with
  | step => exact ⟨[], s.next?, rfl, ending?_eq_error_iff.mp ended⟩
  | run turns => exact endsIn_of_run ended
  | limit limit => cases ended
  | attach command radix => cases ended
  | connect channel input terminal => cases ended

/-- Where a call ends in a fault, the cycle that fails is the last that has been made. -/
theorem endsIn_of_calls {s : Session} {cs : List Call} {c : Call} {fault : Fault}
    (ended : (s.calls cs).result? c = some (.error fault)) : s.machine.EndsIn (s.sees (cs ++ [c])) fault := by
  have last := endsIn_of_call ended
  rw [machine_calls] at last
  rw [sees_append]
  simpa [sees] using last.after

theorem comesTo_of_calls {s : Session} {cs : List Call} {c : Call} {fault : Fault}
    (ended : (s.calls cs).result? c = some (.error fault)) : s.machine.ComesTo fault := (endsIn_of_calls ended).comesTo

end Session
end Accumulator
