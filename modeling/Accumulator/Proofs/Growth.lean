import Accumulator.Proofs.Memory
import Accumulator.Proofs.Motion

/-!
Growth: where the cells come from that memory did not start with. Each of them was added by
one cycle of the run, which was at an `LDX` or `STX` and reached up to that cell or beyond
it. Since such cells hold numbers, all that can fail at one of them is that it is no
instruction.
-/
namespace Accumulator
namespace Machine

/-- The next cycle adds the cell of an address. -/
structure Extends (m : Machine) (next : Option Char) (a : Nat) : Prop where
  /-- It is at an `LDX` or `STX`, and memory then ends with the cell that this reaches. -/
  indexing : ∃ op name, m.store.get? m.registers.pc = some (.instruction (.label op name)) ∧
    (op = .ldx ∨ op = .stx) ∧ ∃ reached : Nat, m.indexed name = .ok (reached : Int) ∧
      (m.cycle next).machine.store.size = reached + 1
  outside : m.store.size ≤ a
  inside : a < (m.cycle next).machine.store.size

/-- One of the cycles that see the given characters adds the cell of an address. -/
def Adds (m : Machine) (seen : List (Option Char)) (a : Nat) : Prop :=
  ∃ before next after, seen = before ++ next :: after ∧ (m.cycles before).Extends next a

/-- The last of the cycles fails at the cell. -/
structure FailsAt (m : Machine) (seen : List (Option Char)) (fault : Fault) (cell : Cell) : Prop where
  found : (m.cycles seen).store.get? fault.pc = some cell
  pc : (m.cycles seen).registers.pc = fault.pc
  text : fault.cell = cell.text
  /-- The cell has been there from the start, or it holds a number by now. -/
  origin : m.store.get? fault.pc = some cell ∨ ∃ w, cell = .number w
  unknown : ∀ w, cell = .number w → fault.failure = .unknownOpcode w.decimal

/-- The fault of the last of the cycles is that a cell which they have added holds a number. -/
structure FailsBeyond (m : Machine) (seen : List (Option Char)) (fault : Fault) : Prop where
  unknown : ∃ w : Word, m.FailsAt seen fault (.number w) ∧ fault.failure = .unknownOpcode w.decimal
  added : m.Adds seen fault.pc

/-! ## Cells that are added -/

variable {m : Machine}

theorem store_jump (m : Machine) (name : String) : (m.jump name).store = m.store := by
  unfold jump
  cases m.declaration name <;> rfl

theorem extends_of_lt {next : Option Char} {a : Nat} (outside : m.store.size ≤ a)
    (inside : a < (m.cycle next).machine.store.size) : m.Extends next a := by
  have unchanged : (m.cycle next).machine.store.size ≠ m.store.size := by omega
  cases m.cycleCase next with
  | ended found cycle => exact absurd (by rw [cycle]) unchanged
  | passed name found cycle => exact absurd (by rw [cycle]; rfl) unchanged
  | unknown cell found data cycle => exact absurd (by rw [cycle]; rfl) unchanged
  | failed i failure found result cycle => exact absurd (by rw [cycle]; rfl) unchanged
  | done i halt found result cycle =>
    have after : (m.cycle next).machine.store = (m.count.execute i next).store := by
      rw [cycle]
      rfl
    rw [after] at unchanged
    cases m.count.motion_execute i next with
    | stays onward kept => exact absurd kept.size unchanged
    | jumps name taken same => exact absurd (by rw [same, store_jump]; rfl) unchanged
    | grows onward name reach extending reached kept =>
      have size : (m.cycle next).machine.store.size = max m.store.size (reach + 1).toNat := by
        rw [after]
        exact kept.size.trans (Store.size_growTo m.store reach)
      obtain ⟨target, rfl⟩ := Int.eq_ofNat_of_zero_le (show 0 ≤ reach by omega)
      have grown : (m.cycle next).machine.store.size = target + 1 := by omega
      refine ⟨?_, outside, inside⟩
      rcases extending with rfl | rfl
      · exact ⟨.ldx, name, found, .inl rfl, target, reached, grown⟩
      · exact ⟨.stx, name, found, .inr rfl, target, reached, grown⟩

/-- A cell that was not there before some cycles, but is after them, was added by one of them. -/
theorem adds_of_lt {seen : List (Option Char)} {a : Nat} (outside : m.store.size ≤ a)
    (inside : a < (m.cycles seen).store.size) : m.Adds seen a := by
  induction seen generalizing m with
  | nil => exact absurd inside (Nat.not_lt_of_le outside)
  | cons next seen ih =>
    by_cases here : a < (m.cycle next).machine.store.size
    · exact ⟨[], next, seen, rfl, extends_of_lt outside here⟩
    · obtain ⟨before, later, after, rfl, added⟩ := ih (Nat.le_of_not_lt here) inside
      exact ⟨next :: before, later, after, rfl, added⟩

/-! ## Cells that fail -/

theorem exists_failsAt {seen : List (Option Char)} {fault : Fault} (ends : m.EndsIn seen fault) :
    ∃ cell, m.FailsAt seen fault cell := by
  obtain ⟨earlier, next, rfl, failed⟩ := ends
  obtain ⟨cell, found, pc, text, cycle, -⟩ := cycle_fault failed
  have last : m.cycles (earlier ++ [next]) = (m.cycles earlier).count := by
    rw [cycles_append]
    show ((m.cycles earlier).cycle next).machine = _
    rw [cycle]
  rw [← pc] at found
  refine ⟨cell, by rw [last]; exact found, by rw [last]; exact pc.symm, text,
    ((m.becomes_cycles earlier).number_or_same found).symm, ?unknown⟩
  case unknown =>
    rintro w rfl
    rw [pc] at found
    rw [cycle_of_get? next found] at failed
    cases failed
    rfl

/-- No instruction is ever beyond the first cells, so what fails there is that a cell holds data. -/
theorem failsBeyond_of_endsIn {seen : List (Option Char)} {fault : Fault} (ends : m.EndsIn seen fault)
    (beyond : m.store.size ≤ fault.pc) : m.FailsBeyond seen fault := by
  obtain ⟨cell, fails⟩ := exists_failsAt ends
  obtain ⟨w, rfl⟩ : ∃ w, cell = .number w := by
    rcases fails.origin with old | number
    · exact absurd (Store.lt_size_of_get? old) (Nat.not_lt_of_le beyond)
    · exact number
  exact ⟨⟨w, fails, fails.unknown w rfl⟩, adds_of_lt beyond (Store.lt_size_of_get? fails.found)⟩

end Machine
end Accumulator
