import Accumulator.Proofs.Faults

/-!
Motion: what an instruction does to the size of memory, to the program counter and to the
count of cycles. Most leave all three alone; memory grows only to the address of `LDX` or
`STX`, and only a jump that is taken sets the program counter. A cycle then counts itself
where there is a cell to fetch, and ends a run at `END` or beyond the last cell only.
-/
namespace Accumulator
namespace Machine

/-- The label that an instruction makes the machine go to, if it is a jump that is taken. -/
def jump? (m : Machine) : Instruction → Option String
  | .label .jmp name => some name
  | .label .jpe name => if m.registers.equal then some name else none
  | .label .jpn name => if !m.registers.equal then some name else none
  | _ => none

/-! ## Instructions -/

/-- The effect leaves the size of memory, the program counter and the count of cycles alone. -/
structure Stays (m : Machine) (e : Effect) : Prop where
  size : e.store.size = m.store.size
  pc : e.registers.pc = m.registers.pc
  steps : e.registers.steps = m.registers.steps

theorem stays_become {m : Machine} {r : Registers} (pc : r.pc = m.registers.pc) (steps : r.steps = m.registers.steps) :
    m.Stays (m.become r) := ⟨rfl, pc, steps⟩

theorem stays_fail (m : Machine) (failure : Failure) : m.Stays (m.fail failure) := ⟨rfl, rfl, rfl⟩

theorem stays_given {α : Type} {m : Machine} {found : Except Failure α} {go : α → Effect}
    (stays : ∀ value, found = .ok value → m.Stays (go value)) : m.Stays (m.given found go) := by
  cases found with
  | ok value => exact stays value rfl
  | error failure => exact stays_fail m failure

theorem stays_load (m : Machine) (a : Int) : m.Stays (m.load a) :=
  stays_given fun _ _ => stays_become rfl rfl

theorem stays_save (m : Machine) (a : Int) : m.Stays (m.save a) := by
  refine stays_given fun store put => ⟨?_, rfl, rfl⟩
  cases result : m.store.put a m.registers.acc with
  | error e =>
    rw [result] at put
    cases put
  | ok t =>
    rw [result] at put
    cases put
    exact Store.size_put result

theorem stays_set (m : Machine) (target : Register) (value : Word) :
    m.Stays (m.become (m.registers.set target value)) := by
  cases target with
  | acc => exact stays_become rfl rfl
  | ix => exact stays_become rfl rfl

theorem stays_read (m : Machine) (next : Option Char) : m.Stays (m.read next) := by
  unfold read
  split
  · exact stays_fail m _
  · split
    · exact ⟨rfl, rfl, rfl⟩
    · exact ⟨rfl, rfl, rfl⟩

theorem stays_write (m : Machine) : m.Stays m.write := by
  unfold write
  split
  · exact ⟨rfl, rfl, rfl⟩
  · exact stays_fail m _

/-- All that an instruction can do to the size of memory and to the program counter. -/
inductive Motion (m : Machine) (i : Instruction) (e : Effect) : Prop
  | stays (onward : m.jump? i = none) (kept : m.Stays e)
  /-- Memory has grown to the address of `LDX` or `STX`, and then stays as it is. -/
  | grows (onward : m.jump? i = none) (name : String) (a : Int)
    (extending : i = .label .ldx name ∨ i = .label .stx name) (reached : m.indexed name = .ok a)
    (kept : (m.grown a).Stays e)
  | jumps (name : String) (taken : m.jump? i = some name) (same : e = m.jump name)

theorem motion_grown {m : Machine} {i : Instruction} {name : String} {go : Int → Effect} (onward : m.jump? i = none)
    (extending : i = .label .ldx name ∨ i = .label .stx name) (kept : ∀ a, (m.grown a).Stays (go a)) :
    m.Motion i (m.given (m.indexed name) go) := by
  cases reached : m.indexed name with
  | error failure => exact .stays onward (stays_fail m failure)
  | ok a => exact .grows onward name a extending reached (kept a)

theorem motion_jumpIf {m : Machine} {i : Instruction} {condition : Bool} {name : String}
    (known : m.jump? i = if condition then some name else none) : m.Motion i (m.jumpIf condition name) := by
  cases condition with
  | true => exact .jumps name known rfl
  | false => exact .stays known (stays_become rfl rfl)

theorem motion_executeLabel (m : Machine) (op : LabelOp) (name : String) :
    m.Motion (.label op name) (m.executeLabel op name) := by
  cases op with
  | ldd => exact .stays rfl (stays_given fun a _ => stays_load m a)
  | ldi => exact .stays rfl (stays_given fun _ _ => stays_load m _)
  | ldx => exact motion_grown rfl (.inl rfl) fun a => stays_load (m.grown a) a
  | sto => exact .stays rfl (stays_given fun a _ => stays_save m a)
  | stx => exact motion_grown rfl (.inr rfl) fun a => stays_save (m.grown a) a
  | add => exact .stays rfl (stays_given fun _ _ => stays_become rfl rfl)
  | jmp => exact .jumps name rfl rfl
  | jpe => exact motion_jumpIf (m := m) rfl
  | jpn => exact motion_jumpIf (m := m) rfl

theorem motion_execute (m : Machine) (i : Instruction) (next : Option Char) : m.Motion i (m.execute i next) := by
  cases i with
  | immediate op n => cases op <;> exact .stays rfl (stays_become rfl rfl)
  | label op name => exact motion_executeLabel m op name
  | register op target => cases op <;> exact .stays rfl (stays_set m target _)
  | compare c => exact .stays rfl (stays_given fun _ _ => stays_become rfl rfl)
  | plain op =>
    cases op with
    | read => exact .stays rfl (stays_read m next)
    | write => exact .stays rfl (stays_write m)
    | stop => exact .stays rfl ⟨rfl, rfl, rfl⟩

theorem steps_execute (m : Machine) (i : Instruction) (next : Option Char) :
    (m.execute i next).registers.steps = m.registers.steps := by
  cases m.motion_execute i next with
  | stays onward kept => exact kept.steps
  | grows onward name a extending reached kept => exact kept.steps
  | jumps name taken same =>
    rw [same]
    unfold jump
    cases m.declaration name <;> rfl

/-! ## How an instruction ends -/

/-- The effect does not end the run, unless it fails. -/
def GoesOn (e : Effect) : Prop := ∀ halt, e.outcome ≠ .ok (some halt)

theorem goesOn_of_ok {e : Effect} (ok : e.outcome = .ok none) : GoesOn e := by
  intro halt same
  rw [ok] at same
  cases same

theorem goesOn_fail (m : Machine) (failure : Failure) : GoesOn (m.fail failure) := by
  intro halt same
  cases same

theorem goesOn_given {α : Type} {m : Machine} {found : Except Failure α} {go : α → Effect}
    (on : ∀ value, GoesOn (go value)) : GoesOn (m.given found go) := by
  cases found with
  | ok value => exact on value
  | error failure => exact goesOn_fail m failure

theorem goesOn_load (m : Machine) (a : Int) : GoesOn (m.load a) := goesOn_given fun _ => goesOn_of_ok rfl

theorem goesOn_save (m : Machine) (a : Int) : GoesOn (m.save a) := goesOn_given fun _ => goesOn_of_ok rfl

theorem goesOn_jumpIf (m : Machine) (condition : Bool) (name : String) : GoesOn (m.jumpIf condition name) := by
  cases condition with
  | true => exact goesOn_given fun _ => goesOn_of_ok rfl
  | false => exact goesOn_of_ok rfl

theorem goesOn_executeLabel (m : Machine) (op : LabelOp) (name : String) : GoesOn (m.executeLabel op name) := by
  cases op with
  | ldd => exact goesOn_given fun a => goesOn_load m a
  | ldi => exact goesOn_given fun _ => goesOn_load m _
  | ldx => exact goesOn_given fun a => goesOn_load (m.grown a) a
  | sto => exact goesOn_given fun a => goesOn_save m a
  | stx => exact goesOn_given fun a => goesOn_save (m.grown a) a
  | add => exact goesOn_given fun _ => goesOn_of_ok rfl
  | jmp => exact goesOn_jumpIf m true name
  | jpe => exact goesOn_jumpIf m _ name
  | jpn => exact goesOn_jumpIf m _ name

theorem halt_execute {m : Machine} {i : Instruction} {next : Option Char} {halt : Halt}
    (ended : (m.execute i next).outcome = .ok (some halt)) : i = .plain .stop ∧ halt = .reachedEnd := by
  cases i with
  | immediate op n => cases op <;> cases ended
  | label op name => exact absurd ended (goesOn_executeLabel m op name halt)
  | register op target => cases op <;> cases ended
  | compare c => exact absurd ended (goesOn_given (fun _ => goesOn_of_ok rfl) halt)
  | plain op =>
    cases op with
    | read =>
      replace ended : (m.read next).outcome = .ok (some halt) := ended
      unfold read at ended
      split at ended
      · cases ended
      · split at ended <;> cases ended
    | write =>
      replace ended : m.write.outcome = .ok (some halt) := ended
      unfold write at ended
      split at ended <;> cases ended
    | stop =>
      cases ended
      exact ⟨rfl, rfl⟩

/-! ## Cycles -/

theorem steps_cycle {m : Machine} (inside : m.registers.pc < m.store.size) (next : Option Char) :
    (m.cycle next).machine.registers.steps = m.registers.steps + 1 := by
  cases m.cycleCase next with
  | ended found cycle => exact absurd (Store.get?_eq_none_iff.mp found) (Nat.not_le_of_lt inside)
  | passed name found cycle =>
    rw [cycle]
    rfl
  | unknown cell found data cycle =>
    rw [cycle]
    rfl
  | failed i failure found result cycle =>
    rw [cycle]
    rfl
  | done i halt found result cycle =>
    rw [cycle]
    exact steps_execute m.count i next

/-- A cycle halts beyond the last cell, where it does nothing, or at an `END`. -/
theorem halt_cycle {m : Machine} {next : Option Char} {halt : Halt}
    (ended : (m.cycle next).outcome = .ok (some halt)) :
    (halt = .endOfProgram ∧ m.store.size ≤ m.registers.pc ∧ (m.cycle next).machine = m) ∨
      (halt = .reachedEnd ∧ m.store.get? m.registers.pc = some (.instruction (.plain .stop))) := by
  cases m.cycleCase next with
  | ended found cycle =>
    rw [cycle] at ended ⊢
    cases ended
    exact .inl ⟨rfl, Store.get?_eq_none_iff.mp found, rfl⟩
  | passed name found cycle =>
    rw [cycle] at ended
    cases ended
  | unknown cell found data cycle =>
    rw [cycle] at ended
    cases ended
  | failed i failure found result cycle =>
    rw [cycle] at ended
    cases ended
  | done i other found result cycle =>
    rw [cycle] at ended
    cases ended
    obtain ⟨stop, same⟩ := halt_execute result
    rw [stop] at found
    exact .inr ⟨same, found⟩

end Machine
end Accumulator
