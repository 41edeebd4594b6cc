import Accumulator.Proofs.Definedness
import Accumulator.Proofs.Turns

/-!
Bounds: how far memory and the program counter can get. Labels are declared inside the
memory that a program starts with, and never again; from there a 16-bit index leads at most
32768 cells back and 32767 on. So memory, which grows only to such addresses, stays within
32768 cells of its first size, and the program counter stays within memory.
-/
namespace Accumulator

namespace Machine

/-- Memory has its first cells and at most 32768 more, the program counter is in it or just
    beyond it, and labels are declared in the first cells. -/
structure Bounded (n : Nat) (m : Machine) : Prop where
  declared : ∀ {name index}, m.labels.get? name = some index → index < n
  size_ge : n ≤ m.store.size
  size_le : m.store.size ≤ n + 32768
  pc_le : m.registers.pc ≤ m.store.size

theorem bounded_of_ofStore {store : Store} {m : Machine} (accepted : ofStore store = .ok m) :
    m.Bounded store.size := by
  obtain ⟨table, same, fresh⟩ := ofStore_eq_ok_iff.mp accepted
  refine ⟨?_, ?_, ?_, ?_⟩
  · intro name index declared
    rw [LabelTable.get?_ofStore table] at declared
    exact Store.lt_size_of_get? (Store.last_of_lastDeclaration? declared).1
  · exact Nat.le_of_eq (congrArg Store.size same.symm)
  · rw [same]
    exact Nat.le_add_right _ _
  · rw [fresh]
    exact Nat.zero_le _

/-- The effective address of an indexed access is at most 32768 cells before the first cell
    that a label can stand for, and at most 32767 after the last. -/
theorem Bounded.indexed {n : Nat} {m : Machine} (bounded : m.Bounded n) {name : String} {a : Int}
    (reached : m.indexed name = .ok a) : -32767 ≤ a ∧ a ≤ n + 32767 := by
  rw [indexed_eq] at reached
  unfold LabelTable.target? at reached
  cases known : m.labels.get? name with
  | none =>
    rw [known] at reached
    cases reached
  | some index =>
    rw [known] at reached
    have sum : ((index + 1 : Nat) : Int) + m.registers.ix.toInt = a := Except.ok.inj reached
    have inside := bounded.declared known
    have index_range := m.registers.ix.toInt_bounds
    omega

theorem jump_of_get? {m : Machine} {name : String} {index : Nat} (known : m.labels.get? name = some index) :
    m.jump name = m.become { m.registers with pc := index } := by
  unfold jump declaration
  rw [known]
  rfl

theorem exists_declared_of_jump {m : Machine} {name : String} {halt : Option Halt}
    (done : (m.jump name).outcome = .ok halt) : ∃ index, m.labels.get? name = some index := by
  cases known : m.labels.get? name with
  | none =>
    unfold jump declaration at done
    rw [known] at done
    cases done
  | some index => exact ⟨index, rfl⟩

theorem Bounded.moveOn {n : Nat} {m : Machine} (bounded : m.Bounded n) (inside : m.registers.pc < m.store.size) :
    m.moveOn.Bounded n :=
  ⟨bounded.declared, bounded.size_ge, bounded.size_le, inside⟩

theorem Bounded.after {n : Nat} {m : Machine} (bounded : m.Bounded n) (inside : m.registers.pc < m.store.size)
    {i : Instruction} {e : Effect} {halt : Option Halt} (motion : m.Motion i e) (done : e.outcome = .ok halt) :
    (m.after e).moveOn.Bounded n := by
  cases motion with
  | stays onward kept =>
    have size : (m.after e).store.size = m.store.size := kept.size
    have pc : (m.after e).registers.pc = m.registers.pc := kept.pc
    exact Bounded.moveOn ⟨bounded.declared, by rw [size]; exact bounded.size_ge, by rw [size]; exact bounded.size_le,
      by rw [size, pc]; exact bounded.pc_le⟩ (by rw [size, pc]; exact inside)
  | grows onward name a extending reached kept =>
    have size : (m.after e).store.size = max m.store.size (a + 1).toNat :=
      kept.size.trans (Store.size_growTo m.store a)
    have pc : (m.after e).registers.pc = m.registers.pc := kept.pc
    obtain ⟨_, most⟩ := bounded.indexed reached
    have ge := bounded.size_ge
    have le := bounded.size_le
    exact Bounded.moveOn ⟨bounded.declared, by omega, by omega, by omega⟩ (by omega)
  | jumps name taken same =>
    rw [same] at done
    obtain ⟨index, known⟩ := exists_declared_of_jump done
    have below : index < m.store.size := Nat.lt_of_lt_of_le (bounded.declared known) bounded.size_ge
    rw [same, jump_of_get? known]
    exact Bounded.moveOn ⟨bounded.declared, bounded.size_ge, bounded.size_le, Nat.le_of_lt below⟩ below

theorem bounded_cycle {n : Nat} (m : Machine) (next : Option Char) (bounded : m.Bounded n) :
    (m.cycle next).machine.Bounded n := by
  have counted : m.count.Bounded n := ⟨bounded.declared, bounded.size_ge, bounded.size_le, bounded.pc_le⟩
  cases m.cycleCase next with
  | ended found cycle =>
    rw [cycle]
    exact bounded
  | passed name found cycle =>
    rw [cycle]
    exact counted.moveOn (Store.lt_size_of_get? found)
  | unknown cell found data cycle =>
    rw [cycle]
    exact counted
  | failed i failure found result cycle =>
    rw [cycle]
    exact counted
  | done i halt found result cycle =>
    rw [cycle]
    exact counted.after (Store.lt_size_of_get? found) (m.count.motion_execute i next) result

theorem label?_of_jump? {m : Machine} {i : Instruction} {name : String} (taken : m.jump? i = some name) :
    i.label? = some name := by
  unfold jump? at taken
  split at taken
  · exact taken
  · split at taken
    · exact taken
    · cases taken
  · split at taken
    · exact taken
    · cases taken
  · cases taken

theorem pc_of_jump {m : Machine} (defined : m.LabelsDefined) {i : Instruction} {name : String}
    (found : m.store.get? m.registers.pc = some (.instruction i)) (taken : m.jump? i = some name)
    (next : Option Char) :
    ∃ index, m.labels.get? name = some index ∧ (m.cycle next).machine.registers.pc = index + 1 := by
  obtain ⟨index, known⟩ := Option.isSome_iff_exists.mp (defined _ _ _ found (label?_of_jump? taken))
  refine ⟨index, known, ?_⟩
  have jump : m.count.jump name = m.count.become { m.count.registers with pc := index } := jump_of_get? known
  have execute : m.count.execute i next = m.count.jump name := by
    cases m.count.motion_execute i next with
    | stays onward kept => exact absurd (onward.symm.trans taken) nofun
    | grows onward other a extending reached kept => exact absurd (onward.symm.trans taken) nofun
    | jumps other also same =>
      obtain rfl : other = name := Option.some.inj (also.symm.trans taken)
      exact same
  rw [cycle_of_get? next found]
  show (m.cycleInstruction i next).machine.registers.pc = index + 1
  have done : (m.count.execute i next).outcome = .ok none := by
    rw [execute, jump]
    rfl
  rw [cycleInstruction_ok done, execute, jump]
  rfl

theorem exists_indexed {m : Machine} (defined : m.LabelsDefined) {place : Nat} {i : Instruction} {name : String}
    (found : m.store.get? place = some (.instruction i)) (names : i.label? = some name) :
    ∃ a, m.indexed name = .ok a := by
  obtain ⟨index, known⟩ := Option.isSome_iff_exists.mp (defined _ _ _ found names)
  refine ⟨(index + 1 : Nat) + m.registers.ix.toInt, ?_⟩
  rw [indexed_eq, LabelTable.target?, known]
  rfl

end Machine

/-! ## Calls -/

namespace Session

/-- What holds of a session over a memory that had the given size when its labels were resolved. -/
structure WithinBounds (n : Nat) (s : Session) : Prop where
  size : n ≤ s.machine.store.size ∧ s.machine.store.size ≤ n + 32768
  /-- Memory never shrinks, whatever is asked of the session from here on. -/
  grows : ∀ more, s.machine.store.size ≤ (s.calls more).machine.store.size
  pc : s.machine.registers.pc ≤ s.machine.store.size
  /-- Where a jump is taken next, it leads to a cell that follows one of the first cells,
      whatever the cycle sees of the input. -/
  jumps : ∀ i name next, s.machine.store.get? s.machine.registers.pc = some (.instruction i) →
    s.machine.jump? i = some name →
      1 ≤ (s.machine.cycle next).machine.registers.pc ∧ (s.machine.cycle next).machine.registers.pc ≤ n
  /-- Where `LDX` or `STX` comes next, there is an effective address, and it is in bounds. -/
  reaches : ∀ op name, s.machine.store.get? s.machine.registers.pc = some (.instruction (.label op name)) →
    op = .ldx ∨ op = .stx → ∃ a, s.machine.indexed name = .ok a ∧ -32767 ≤ a ∧ a ≤ n + 32767
  /-- A call that comes to the end of the program leaves the program counter just beyond memory. -/
  ended : ∀ c, s.result? c = some (.ok .endOfProgram) →
    (s.call c).machine.registers.pc = (s.call c).machine.store.size

theorem size_le_calls (s : Session) (more : List Call) : s.machine.store.size ≤ (s.calls more).machine.store.size := by
  rw [machine_calls]
  exact (s.machine.becomes_cycles (s.sees more)).size_le

theorem bounded_calls {store : Store} {s : Session} (accepted : Machine.ofStore store = .ok s.machine)
    (calls : List Call) : (s.calls calls).machine.Bounded store.size := by
  rw [machine_calls]
  exact Machine.cycles_induction Machine.bounded_cycle (Machine.bounded_of_ofStore accepted) _

theorem labelsDefined_calls {store : Store} {s : Session} (accepted : Machine.ofStore store = .ok s.machine)
    (calls : List Call) : (s.calls calls).machine.LabelsDefined := by
  rw [machine_calls]
  exact Machine.cycles_induction Machine.labelsDefined_cycle (Machine.labelsDefined_of_ofStore accepted) _

/-- After any calls on a session over an accepted memory, memory and the program counter
    are within their bounds, and so are the next jump and the next effective address. -/
theorem withinBounds_calls {store : Store} {s : Session} (accepted : Machine.ofStore store = .ok s.machine)
    (calls : List Call) : (s.calls calls).WithinBounds store.size := by
  have bounded := bounded_calls accepted calls
  have defined := labelsDefined_calls accepted calls
  refine ⟨⟨bounded.size_ge, bounded.size_le⟩, size_le_calls _, bounded.pc_le, ?jumps, ?reaches, ?ended⟩
  case jumps =>
    intro i name next found taken
    obtain ⟨index, known, pc⟩ := Machine.pc_of_jump defined found taken next
    have inside := bounded.declared known
    omega
  case reaches =>
    intro op name found indexed
    obtain ⟨a, reached⟩ := Machine.exists_indexed defined found rfl
    exact ⟨a, reached, bounded.indexed reached⟩
  case ended =>
    intro c halted
    have later := bounded_calls accepted (calls ++ [c])
    rw [calls_append] at later
    exact Nat.le_antisymm later.pc_le (size_le_pc_of_call halted)

/-- A program that stores three cells beyond its end and then jumps back to its start. -/
def circling : Store :=
  .ofList [.label "A", .instruction (.immediate .ldr 5), .instruction (.label .stx "A"),
    .instruction (.label .jmp "A")]

/-- A session over that program. -/
def circlingSession : Session where
  machine := ⟨circling, ⟨[("A", 0)], []⟩, {}⟩
  channel := .buffer [] ""

theorem withinBounds_calls_circling :
    Machine.ofStore circling = .ok circlingSession.machine ∧
      (circlingSession.calls [.step, .run 2]).machine.store.size = 7 ∧
      (circlingSession.calls [.step, .run 2]).WithinBounds 4 ∧
      (circlingSession.calls [.step, .run 2]).machine.jump? (.label .jmp "A") = some "A" ∧
      ((circlingSession.calls [.step, .run 2]).machine.cycle none).machine.registers.pc = 1 := by
  have accepted : Machine.ofStore circling = .ok circlingSession.machine := by rfl
  exact ⟨accepted, by rfl, withinBounds_calls accepted [.step, .run 2], by rfl, by rfl⟩

end Session
end Accumulator
