import Accumulator.Proofs.Bounds

/-!
Programs that only jump onward halt. Whatever such a program stores, no jump comes into
memory, so each cycle that goes on leads to a larger address; and behind the first cells
memory has grown, where there are only numbers, none of which can be executed. So a run
executes each of the first cells at most once, and then perhaps meets one such number.
-/
namespace Accumulator

/-- The label that an instruction goes to if it jumps. -/
def Instruction.goal? : Instruction → Option String
  | .label .jmp name | .label .jpe name | .label .jpn name => some name
  | _ => none

/-- No jump in memory leads back: the last declaration of its label is not before it. -/
def Store.OnlyOnward (s : Store) : Prop :=
  ∀ a i name, s.get? a = some (.instruction i) → i.goal? = some name →
    ∃ index, s.lastDeclaration? name = some index ∧ a ≤ index

namespace Machine

theorem goal?_of_jump? {m : Machine} {i : Instruction} {name : String} (taken : m.jump? i = some name) :
    i.goal? = some name := by
  unfold jump? at taken
  split at taken
  · exact taken
  · split at taken
    · exact taken
    · cases taken
  · split at taken
    · exact taken
    · cases taken
  · cases taken

/-- A machine in a run of a program with the given number of cells that only jumps onward. -/
structure Onward (n : Nat) (m : Machine) : Prop where
  bounded : m.Bounded n
  /-- The program counter has not left the first cells. -/
  pc_le : m.registers.pc ≤ n
  jumps : ∀ {a i name index}, m.store.get? a = some (.instruction i) → i.goal? = some name →
    m.labels.get? name = some index → a ≤ index
  /-- Memory has grown by numbers only. -/
  numbers : ∀ {a cell}, n ≤ a → m.store.get? a = some cell → ∃ w, cell = .number w

theorem onward_of_ofStore {store : Store} {m : Machine} (accepted : ofStore store = .ok m) (onward : store.OnlyOnward) :
    m.Onward store.size := by
  obtain ⟨table, same, fresh⟩ := ofStore_eq_ok_iff.mp accepted
  refine ⟨bounded_of_ofStore accepted, ?_, ?_, ?_⟩
  · rw [fresh]
    exact Nat.zero_le _
  · intro a i name index found goes known
    rw [same] at found
    obtain ⟨last, declared, le⟩ := onward a i name found goes
    rw [LabelTable.get?_ofStore table, declared] at known
    exact Option.some.inj known ▸ le
  · intro a cell beyond found
    rw [same] at found
    exact absurd (Store.lt_size_of_get? found) (Nat.not_lt_of_le beyond)

/-- Where a cycle goes on, it goes to a larger address, and not past the one behind the first cells. -/
theorem Onward.pc_cycle {n : Nat} {m : Machine} (onward : m.Onward n) {next : Option Char}
    (on : (m.cycle next).outcome = .ok none) :
    m.registers.pc < (m.cycle next).machine.registers.pc ∧ (m.cycle next).machine.registers.pc ≤ n := by
  -- What can be executed is in the first cells.
  have inside : ∀ {cell}, m.store.get? m.registers.pc = some cell → (∀ w, cell ≠ .number w) → m.registers.pc < n := by
    intro cell found other
    refine Nat.lt_of_not_le fun beyond => ?_
    obtain ⟨w, same⟩ := onward.numbers beyond found
    exact other w same
  cases m.cycleCase next with
  | ended found cycle =>
    rw [cycle] at on
    cases on
  | unknown cell found data cycle =>
    rw [cycle] at on
    cases on
  | failed i failure found result cycle =>
    rw [cycle] at on
    cases on
  | passed name found cycle =>
    rw [cycle]
    exact ⟨Nat.lt_succ_self _, inside found nofun⟩
  | done i halt found result cycle =>
    have below := inside found nofun
    rw [cycle]
    show m.registers.pc < (m.count.execute i next).registers.pc + 1 ∧ (m.count.execute i next).registers.pc + 1 ≤ n
    cases m.count.motion_execute i next with
    | stays straight kept =>
      rw [show (m.count.execute i next).registers.pc = m.registers.pc from kept.pc]
      exact ⟨Nat.lt_succ_self _, below⟩
    | grows straight name a extending reached kept =>
      rw [show (m.count.execute i next).registers.pc = m.registers.pc from kept.pc]
      exact ⟨Nat.lt_succ_self _, below⟩
    | jumps name taken same =>
      rw [same] at result
      obtain ⟨index, known⟩ := exists_declared_of_jump result
      rw [same, jump_of_get? known]
      exact ⟨Nat.lt_succ_of_le (onward.jumps found (goal?_of_jump? taken) known), onward.bounded.declared known⟩

theorem onward_cycle {n : Nat} {m : Machine} (onward : m.Onward n) {next : Option Char}
    (on : (m.cycle next).outcome = .ok none) : (m.cycle next).machine.Onward n := by
  refine ⟨bounded_cycle m next onward.bounded, (onward.pc_cycle on).2, ?_, ?_⟩
  · intro a i name index found goes known
    rw [labels_cycle] at known
    exact onward.jumps (instruction_of_cycle found) goes known
  · intro a cell beyond found
    exact ((m.becomes_cycle next).number_or_same found).elim id (onward.numbers beyond)

theorem Onward.cycle_beyond {n : Nat} {m : Machine} (onward : m.Onward n) (beyond : m.registers.pc = n)
    (inside : m.registers.pc < m.store.size) (next : Option Char) :
    ∃ w, m.store.get? n = some (.number w) ∧
      m.cycle next = { machine := m.count, outcome := .error ⟨n, w.decimal, .unknownOpcode w.decimal⟩ } := by
  obtain ⟨cell, found⟩ := Store.exists_get? inside
  obtain ⟨w, rfl⟩ := onward.numbers (Nat.le_of_eq beyond.symm) found
  refine ⟨w, beyond ▸ found, ?_⟩
  rw [cycle_of_get? next found, ← beyond]
  rfl

end Machine

namespace Session

/-- From an address on, a run takes at most one cycle for each of the first cells that are left, and one
    more only for a number behind them. -/
theorem run_onward {n : Nat} (turns : Nat) {s : Session} (onward : s.machine.Onward n)
    (alone : s.debugger = none) (enough : n < s.machine.registers.pc + turns) :
    ∃ ending t, s.run turns = (some ending, t) ∧
      t.machine.registers.steps + s.machine.registers.pc ≤ s.machine.registers.steps + n + 1 ∧
      (t.machine.registers.steps + s.machine.registers.pc = s.machine.registers.steps + n + 1 →
        ∃ w, t.machine.store.get? n = some (.number w) ∧
          ending = .error ⟨n, w.decimal, .unknownOpcode w.decimal⟩) := by
  induction turns generalizing s with
  | zero => exact absurd onward.pc_le (Nat.not_le_of_lt enough)
  | succ turns ih =>
    have pc_le := onward.pc_le
    cases turnCase alone with
    | stops halt stopped turn => exact ⟨_, s, run_of_turn turn turns, by omega, by omega⟩
    | ends ending on result turn =>
      obtain ⟨inside, -⟩ := stop?_eq_none_iff.mp on
      have counted := steps_step inside
      refine ⟨ending, s.step.2, run_of_turn turn turns, by omega, fun last => ?_⟩
      obtain ⟨w, found, cycle⟩ := onward.cycle_beyond (by omega) inside s.next?
      have outcome : s.step.1 = _ := congrArg Cycle.outcome cycle
      rw [outcome] at result
      refine ⟨w, ?_, (Option.some.inj result).symm⟩
      rw [machine_step, cycle]
      exact found
    | goes on result turn =>
      obtain ⟨inside, -⟩ := stop?_eq_none_iff.mp on
      have counted := steps_step inside
      have outcome : (s.machine.cycle s.next?).outcome = .ok none := ending?_eq_none_iff.mp result
      obtain ⟨more, -⟩ := onward.pc_cycle outcome
      have later := Machine.onward_cycle onward outcome
      rw [← machine_step] at more later
      obtain ⟨ending, t, run, most, last⟩ := ih later ((debugger_step s).trans alone) (by omega)
      exact ⟨ending, t, (run_of_turn_none turn turns).trans run, by omega, fun all => last (by omega)⟩

/-- A run of a program that only jumps onward ends, whatever it reads: without a debugger it takes
    at most one cycle for each cell of the program and one more. It takes that one only if it
    comes to memory that has been added, and then fails for a number there. -/
theorem halts_of_onlyOnward {store : Store} {s : Session} (accepted : Machine.ofStore store = .ok s.machine)
    (onward : store.OnlyOnward) (alone : s.debugger = none) :
    ∃ ending t, (∀ turns, store.size < turns → s.run turns = (some ending, t)) ∧
      t.machine.registers.steps ≤ store.size + 1 ∧
      (t.machine.registers.steps = store.size + 1 →
        ∃ w, t.machine.store.get? store.size = some (.number w) ∧
          ending = .error ⟨store.size, w.decimal, .unknownOpcode w.decimal⟩) := by
  have fresh : s.machine.registers = {} := (Machine.ofStore_eq_ok_iff.mp accepted).2.2
  have pc : s.machine.registers.pc = 0 := by rw [fresh]
  have steps : s.machine.registers.steps = 0 := by rw [fresh]
  have start := Machine.onward_of_ofStore accepted onward
  obtain ⟨ending, t, run, most, last⟩ := run_onward (store.size + 1) start alone (by omega)
  exact ⟨ending, t, fun turns lt => run_of_le lt run, by omega, fun all => last (by omega)⟩

/-- A program that stores 7 in the cell behind its own, to which it then comes. -/
def overrunning : Store :=
  .ofList [.instruction (.immediate .ldm 7), .instruction (.label .stx "A"), .instruction (.label .jpe "A"), .label "A"]

def overrunningSession : Session where
  machine := ⟨overrunning, ⟨[("A", 3)], []⟩, {}⟩
  channel := .buffer [] ""

theorem onlyOnward_overrunning : overrunning.OnlyOnward := by
  intro a i name found goes
  match a with
  | 0 | 1 =>
    cases found
    cases goes
  | 2 =>
    cases found
    cases goes
    exact ⟨3, rfl, Nat.le_succ 2⟩
  | 3 => cases found
  | a + 4 =>
    have inside : a + 4 < 4 := Store.lt_size_of_get? found
    omega

theorem halts_of_onlyOnward_overrunning :
    Machine.ofStore overrunning = .ok overrunningSession.machine ∧ overrunning.OnlyOnward ∧
      overrunningSession.debugger = none ∧
      ∃ t, overrunningSession.run 5 = (some (.error ⟨4, (7 : Word).decimal, .unknownOpcode (7 : Word).decimal⟩), t) ∧
        t.machine.registers.steps = 5 := by
  have accepted : Machine.ofStore overrunning = .ok overrunningSession.machine := by rfl
  obtain ⟨ending, t, run, -, last⟩ := halts_of_onlyOnward accepted onlyOnward_overrunning rfl
  replace run : overrunningSession.run 5 = (some ending, t) := run 5 (Nat.lt_succ_self 4)
  have steps : (overrunningSession.run 5).2.machine.registers.steps = 5 := by rfl
  have stored : (overrunningSession.run 5).2.machine.store.get? 4 = some (.number 7) := by rfl
  rw [run] at steps stored
  obtain ⟨w, found, same⟩ := last steps
  cases stored.symm.trans found
  exact ⟨accepted, onlyOnward_overrunning, rfl, t, run.trans (by rw [same]; rfl), steps⟩

end Session
end Accumulator
