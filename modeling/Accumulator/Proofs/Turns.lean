import Accumulator.Proofs.Calls
import Accumulator.Proofs.Motion

/-!
Turns: what one turn of a run comes to. It stops before its cycle where memory has ended
or where the limit is reached, in this order; a session without a debugger else takes a
step. Neither a step nor a pause touches the limit, and a step leaves the debugger alone.
-/
namespace Accumulator
namespace Session

/-! ## The checks -/

theorem stop?_of_ended {s : Session} (ended : s.machine.store.size ≤ s.machine.registers.pc) :
    s.stop? = some .endOfProgram := if_pos ended

/-- The end of memory is looked at before the limit. -/
theorem stop?_eq_endOfProgram_iff {s : Session} :
    s.stop? = some .endOfProgram ↔ s.machine.store.size ≤ s.machine.registers.pc := by
  refine ⟨fun stopped => ?_, stop?_of_ended⟩
  unfold stop? at stopped
  split at stopped
  · assumption
  · split at stopped
    · split at stopped <;> cases stopped
    · cases stopped

theorem stop?_eq_stepLimit_iff {s : Session} :
    s.stop? = some .stepLimit ↔
      s.machine.registers.pc < s.machine.store.size ∧
        ∃ limit, s.limit = some limit ∧ limit ≤ s.machine.registers.steps := by
  unfold stop?
  by_cases ended : s.machine.store.size ≤ s.machine.registers.pc
  · simp [if_pos ended, Nat.not_lt_of_le ended]
  · cases limited : s.limit with
    | none => simp [ended]
    | some limit => simp [ended, Nat.lt_of_not_le ended]

theorem stop?_eq_none_iff {s : Session} :
    s.stop? = none ↔
      s.machine.registers.pc < s.machine.store.size ∧
        ∀ limit, s.limit = some limit → s.machine.registers.steps < limit := by
  unfold stop?
  by_cases ended : s.machine.store.size ≤ s.machine.registers.pc
  · simp [if_pos ended, Nat.not_lt_of_le ended]
  · cases limited : s.limit with
    | none => simp [ended, Nat.lt_of_not_le ended]
    | some limit => simp [ended, Nat.lt_of_not_le ended]

theorem stop?_cases {s : Session} {halt : Halt} (stopped : s.stop? = some halt) :
    halt = .endOfProgram ∨ halt = .stepLimit := by
  unfold stop? at stopped
  split at stopped
  · exact .inl (Option.some.inj stopped).symm
  · split at stopped
    · split at stopped
      · exact .inr (Option.some.inj stopped).symm
      · cases stopped
    · cases stopped

/-! ## Steps -/

theorem apply_frame (s : Session) (c : Cycle) :
    (s.apply c).limit = s.limit ∧ (s.apply c).debugger = s.debugger := by
  rw [apply_eq]
  exact ⟨rfl, rfl⟩

theorem limit_step (s : Session) : s.step.2.limit = s.limit := (s.apply_frame s.cycle).1

theorem debugger_step (s : Session) : s.step.2.debugger = s.debugger := (s.apply_frame s.cycle).2

theorem steps_step {s : Session} (inside : s.machine.registers.pc < s.machine.store.size) :
    s.step.2.machine.registers.steps = s.machine.registers.steps + 1 := by
  rw [machine_step]
  exact Machine.steps_cycle inside s.next?

theorem ending?_eq_ok_iff {outcome : Except Fault (Option Halt)} {halt : Halt} :
    ending? outcome = some (.ok halt) ↔ outcome = .ok (some halt) := by
  cases outcome with
  | error fault => simp [ending?]
  | ok other => cases other <;> simp [ending?]

theorem ending?_eq_none_iff {outcome : Except Fault (Option Halt)} : ending? outcome = none ↔ outcome = .ok none := by
  cases outcome with
  | error fault => simp [ending?]
  | ok other => cases other <;> simp [ending?]

theorem halt_step {s : Session} {halt : Halt} (ended : ending? s.step.1 = some (.ok halt)) :
    (halt = .endOfProgram ∧ s.machine.store.size ≤ s.machine.registers.pc ∧ s.step.2.machine = s.machine) ∨
      halt = .reachedEnd := by
  rcases Machine.halt_cycle (ending?_eq_ok_iff.mp ended) with ⟨same, beyond, still⟩ | ⟨same, _⟩
  · exact .inl ⟨same, beyond, (machine_step s).trans still⟩
  · exact .inr same

/-! ## Turns -/

theorem turn_of_stop {s : Session} {halt : Halt} (stopped : s.stop? = some halt) : s.turn = (some (.ok halt), s) := by
  unfold turn
  rw [stopped]

theorem turn_of_alone {s : Session} (alone : s.debugger = none) (on : s.stop? = none) :
    s.turn = (ending? s.step.1, s.step.2) := by
  unfold turn pause
  rw [on, alone]

/-- All that a turn of a session without a debugger can be. -/
inductive TurnCase (s : Session) : Prop
  /-- A check stops the run. -/
  | stops (halt : Halt) (stopped : s.stop? = some halt) (turn : s.turn = (some (.ok halt), s))
  /-- The step ends it. -/
  | ends (ending : Ending) (on : s.stop? = none) (result : ending? s.step.1 = some ending)
    (turn : s.turn = (some ending, s.step.2))
  | goes (on : s.stop? = none) (result : ending? s.step.1 = none) (turn : s.turn = (none, s.step.2))

theorem turnCase {s : Session} (alone : s.debugger = none) : s.TurnCase := by
  cases stopped : s.stop? with
  | some halt => exact .stops halt stopped (turn_of_stop stopped)
  | none =>
    have turn := turn_of_alone alone stopped
    cases result : ending? s.step.1 with
    | some ending => exact .ends ending stopped result (by rw [turn, result])
    | none => exact .goes stopped result (by rw [turn, result])

theorem run_of_turn {s t : Session} {ending : Ending} (ended : s.turn = (some ending, t)) (turns : Nat) :
    s.run (turns + 1) = (some ending, t) := by
  rw [run, ended]

theorem run_of_turn_none {s t : Session} (on : s.turn = (none, t)) (turns : Nat) :
    s.run (turns + 1) = t.run turns := by
  rw [run, on]

/-- A run that comes to the end of the program leaves the program counter beyond memory. -/
theorem size_le_pc_of_turn {s t : Session} (ended : s.turn = (some (.ok .endOfProgram), t)) :
    t.machine.store.size ≤ t.machine.registers.pc := by
  cases s.turnForm with
  | stops halt stopped turn =>
    obtain ⟨same, rfl⟩ := Prod.mk.inj (turn.symm.trans ended)
    cases same
    exact stop?_eq_endOfProgram_iff.mp stopped
  | leaves on action turn => cases turn.symm.trans ended
  | cycles on action turn =>
    obtain ⟨halted, rfl⟩ := Prod.mk.inj (turn.symm.trans ended)
    rcases halt_step halted with ⟨_, beyond, still⟩ | other
    · rw [still]
      exact beyond
    · cases other

theorem size_le_pc_of_run {turns : Nat} {s : Session} (ended : (s.run turns).1 = some (.ok .endOfProgram)) :
    (s.run turns).2.machine.store.size ≤ (s.run turns).2.machine.registers.pc := by
  induction turns generalizing s with
  | zero => cases ended
  | succ turns ih =>
    rcases taken : s.turn with ⟨_ | ending, t⟩
    · rw [run_of_turn_none taken] at ended ⊢
      exact ih ended
    · rw [run_of_turn taken] at ended ⊢
      rw [show ending = .ok .endOfProgram from Option.some.inj ended] at taken
      exact size_le_pc_of_turn taken

theorem size_le_pc_of_call {s : Session} {c : Call} (ended : s.result? c = some (.ok .endOfProgram)) :
    (s.call c).machine.store.size ≤ (s.call c).machine.registers.pc := by
  cases c with
  | step =>
    rcases halt_step ended with ⟨_, beyond, still⟩ | other
    · show s.step.2.machine.store.size ≤ s.step.2.machine.registers.pc
      rw [still]
      exact beyond
    · cases other
  | run turns => exact size_le_pc_of_run ended
  | limit limit => cases ended
  | attach command radix => cases ended
  | connect channel input terminal => cases ended

/-- A session over a program that counts up for ever. -/
def countingSession : Session where
  machine := ⟨.ofList [.label "A", .instruction (.register .inc .acc), .instruction (.label .jmp "A")],
    ⟨[("A", 0)], []⟩, {}⟩
  channel := .buffer [] ""

end Session
end Accumulator
