import Accumulator.Proofs.Limits
import Accumulator.Proofs.Simulation

/-!
Splits: a run may be taken in parts. Steps and runs under any limits that have not ended a
run, and have not come past its limit, have done just what its first turns do, so a run that
takes it up from there ends as the whole run does.
-/
namespace Accumulator

theorem Machine.steps_le_cycle (m : Machine) (next : Option Char) :
    m.registers.steps ≤ (m.cycle next).machine.registers.steps := by
  by_cases inside : m.registers.pc < m.store.size
  · rw [steps_cycle inside]
    exact Nat.le_succ _
  · have ended := cycle_of_get?_none next (Store.get?_eq_none_iff.mpr (Nat.le_of_not_lt inside))
    exact Nat.le_of_eq (congrArg (fun c : Cycle => c.machine.registers.steps) ended.symm)

namespace Session

theorem steps_le_calls (s : Session) (cs : List Call) :
    s.machine.registers.steps ≤ (s.calls cs).machine.registers.steps := by
  rw [machine_calls]
  exact Machine.cycles_induction (P := fun m => s.machine.registers.steps ≤ m.registers.steps)
    (fun m next le => Nat.le_trans le (m.steps_le_cycle next)) (Nat.le_refl _) _

/-- What a part of a run has ended in, unless only its own limit has stopped it. -/
def settled? : Option Ending → Option Ending
  | some (.ok .stepLimit) => none
  | result => result

/-- No part has ended the run. -/
def Unended (s : Session) : List Call → Prop
  | [] => True
  | c :: cs => settled? (s.result? c) = none ∧ (s.call c).Unended cs

/-- The count of cycles is within the limit, if there is one. -/
def Within (s : Session) (limit : Option Nat) : Prop := ∀ n, limit = some n → s.machine.registers.steps ≤ n

section
variable {s : Session} {limit : Option Nat}

theorem within_of_calls (cs : List Call) (within : (s.calls cs).Within limit) : s.Within limit :=
  fun n same => Nat.le_trans (s.steps_le_calls cs) (within n same)

theorem settled?_ending? (s : Session) : settled? (ending? s.step.1) = ending? s.step.1 := by
  unfold settled?
  split
  · rename_i stopped
    rcases halt_step stopped with ⟨other, _⟩ | other <;> cases other
  · rfl

/-- A step is the turn of a run whose limit it does not pass. -/
theorem turn_of_step (alone : s.debugger = none) (within : s.step.2.Within limit) :
    (s.limited limit).turn = (ending? s.step.1, s.step.2.limited limit) := by
  by_cases inside : s.machine.registers.pc < s.machine.store.size
  · have count := steps_step inside
    have free : (s.limited limit).stop? = none := by
      refine stop?_eq_none_iff.mpr ⟨inside, fun n same => ?_⟩
      have le := within n same
      show s.machine.registers.steps < n
      omega
    rw [turn_of_alone (s := s.limited limit) alone free, step_limited]
  · have ended := Nat.le_of_not_lt inside
    rw [turn_of_stop (stop?_of_ended (s := s.limited limit) ended), step_of_ended ended]
    rfl

theorem exists_run_of_step (alone : s.debugger = none) (within : s.step.2.Within limit) :
    ∃ done, (s.limited limit).run done = (settled? (ending? s.step.1), s.step.2.limited limit) := by
  have turn := turn_of_step alone within
  rw [settled?_ending?]
  cases result : ending? s.step.1 with
  | none => exact ⟨1, run_of_turn_none (turn.trans (by rw [result])) 0⟩
  | some ending => exact ⟨1, run_of_turn (turn.trans (by rw [result])) 0⟩

theorem exists_run_of_run (alone : s.debugger = none) {turns : Nat} (within : (s.run turns).2.Within limit) :
    ∃ done, (s.limited limit).run done = (settled? (s.run turns).1, (s.run turns).2.limited limit) := by
  induction turns generalizing s with
  | zero => exact ⟨0, rfl⟩
  | succ turns ih =>
    cases turnCase alone with
    | stops halt stopped turn =>
      rw [run_of_turn turn]
      rcases stop?_cases stopped with rfl | rfl
      · have beyond := stop?_eq_endOfProgram_iff.mp stopped
        have ended : (s.limited limit).stop? = some .endOfProgram := stop?_of_ended beyond
        exact ⟨1, run_of_turn (turn_of_stop ended) 0⟩
      · -- The part has come to its own limit without a cycle, so the whole run owes it no turn.
        exact ⟨0, rfl⟩
    | ends ending on result turn =>
      rw [run_of_turn turn] at within ⊢
      rw [← result]
      exact exists_run_of_step alone within
    | goes on result turn =>
      rw [run_of_turn_none turn] at within ⊢
      obtain ⟨done, rest⟩ := ih ((debugger_step s).trans alone) within
      have first := turn_of_step alone (within_of_calls [.run turns] within)
      rw [result] at first
      exact ⟨done + 1, (run_of_turn_none first done).trans rest⟩

theorem exists_run_of_call (alone : s.debugger = none) {c : Call} (drives : c.Drives)
    (within : (s.call c).Within limit) :
    ∃ done, (s.limited limit).run done = (settled? (s.result? c), (s.call c).limited limit) := by
  cases c with
  | step => exact exists_run_of_step alone within
  | run turns => exact exists_run_of_run alone within
  | limit own => exact ⟨0, rfl⟩
  | attach command radix => exact drives.elim
  | connect channel input terminal => exact drives.elim

/-- What is done in parts that do not end a run, or come past its limit, is done by its first turns. -/
theorem exists_run_of_unended (alone : s.debugger = none) {cs : List Call} (drive : ∀ c ∈ cs, c.Drives)
    (unended : s.Unended cs) (within : (s.calls cs).Within limit) :
    ∃ done, (s.limited limit).run done = (none, (s.calls cs).limited limit) := by
  induction cs generalizing s with
  | nil => exact ⟨0, rfl⟩
  | cons c cs ih =>
    rw [List.forall_mem_cons] at drive
    obtain ⟨on, rest⟩ := unended
    obtain ⟨done, part⟩ := exists_run_of_call alone drive.1 (within_of_calls cs within)
    obtain ⟨more, parts⟩ := ih (alone_call alone drive.1) drive.2 rest within
    refine ⟨done + more, ?_⟩
    rw [run_add, part, on]
    exact parts

end

/-- A run of the session ends in this way with this machine, and all that has been written by then is this. -/
def Ends (s : Session) (ending : Ending) (m : Machine) (output : String) : Prop :=
  ∃ turns, (s.run turns).1 = some ending ∧ (s.run turns).2.machine = m ∧ (s.run turns).2.output = output

/-- To take a run up where it stands is to go on with it. -/
theorem ends_iff_of_run {s t : Session} {done : Nat} (past : s.run done = (none, t)) {ending : Ending} {m : Machine}
    {output : String} : t.Ends ending m output ↔ s.Ends ending m output := by
  have onward : ∀ turns, s.run (done + turns) = t.run turns := by
    intro turns
    rw [run_add, past]
  constructor
  · rintro ⟨turns, last⟩
    refine ⟨done + turns, ?_⟩
    rwa [onward]
  · rintro ⟨turns, ended, last⟩
    have whole : s.run turns = (some ending, (s.run turns).2) := Prod.ext ended rfl
    refine ⟨turns, ?_⟩
    rw [← onward, run_of_le (Nat.le_add_left turns done) whole]
    exact ⟨rfl, last⟩

end Session
end Accumulator
