import Accumulator.Session

/-!
Faults: a step that fails leaves the session as it was. Only the count of cycles has
grown, and `IN` has taken the character that it rejects. Since the memory grows before
the access that may fail, the point is that an access fails only where nothing has grown.
-/
namespace Accumulator

namespace Machine

/-! ## Instructions that fail -/

/-- If the instruction fails, it has changed nothing and emitted nothing. -/
def Intact (m : Machine) (e : Effect) : Prop :=
  ∀ failure, e.outcome = .error failure → m.after e = m ∧ e.emitted = none

theorem intact_of_ok {m : Machine} {e : Effect} {halt : Option Halt} (ok : e.outcome = .ok halt) : m.Intact e := by
  intro failure failed
  rw [ok] at failed
  cases failed

theorem intact_become (m : Machine) (r : Registers) : m.Intact (m.become r) := intact_of_ok rfl

theorem intact_fail (m : Machine) (failure : Failure) : m.Intact (m.fail failure) := fun _ _ => ⟨rfl, rfl⟩

theorem intact_given {α : Type} {m : Machine} {found : Except Failure α} {go : α → Effect}
    (intact : ∀ value, m.Intact (go value)) : m.Intact (m.given found go) := by
  cases found with
  | ok value => exact intact value
  | error failure => exact intact_fail m failure

theorem intact_load (m : Machine) (a : Int) : m.Intact (m.load a) :=
  intact_given fun _ => intact_become m _

theorem intact_save (m : Machine) (a : Int) : m.Intact (m.save a) :=
  intact_given fun _ => intact_of_ok rfl

theorem intact_jump (m : Machine) (name : String) : m.Intact (m.jump name) :=
  intact_given fun _ => intact_become m _

theorem intact_jumpIf (m : Machine) (condition : Bool) (name : String) : m.Intact (m.jumpIf condition name) := by
  cases condition with
  | true => exact intact_jump m name
  | false => exact intact_become m _

/-- A memory that did not grow makes no difference to the instruction that goes on with it. -/
theorem intact_of_grown {m : Machine} {a : Int} {e : Effect} (intact : (m.grown a).Intact e)
    (same : ∀ failure, e.outcome = .error failure → m.grown a = m) : m.Intact e := by
  intro failure failed
  rw [← same failure failed]
  exact intact failure failed

theorem grown_of_load_error {m : Machine} {a : Int} {failure : Failure}
    (failed : ((m.grown a).load a).outcome = .error failure) : m.grown a = m := by
  have same : m.store.growTo a = m.store := by
    cases found : (m.store.growTo a).number a with
    | error e => exact Store.growTo_of_number_eq_error found
    | ok value =>
      unfold load number at failed
      simp only [grown, found] at failed
      cases failed
  unfold grown
  rw [same]

theorem grown_of_save_error {m : Machine} {a : Int} {failure : Failure}
    (failed : ((m.grown a).save a).outcome = .error failure) : m.grown a = m := by
  have same : m.store.growTo a = m.store := by
    cases stored : (m.store.growTo a).put a m.registers.acc with
    | error e => exact Store.growTo_of_put_eq_error stored
    | ok store =>
      unfold save at failed
      simp only [grown, stored] at failed
      cases failed
  unfold grown
  rw [same]

theorem intact_executeLabel (m : Machine) (op : LabelOp) (name : String) : m.Intact (m.executeLabel op name) := by
  cases op with
  | ldd => exact intact_given fun a => intact_load m a
  | ldi => exact intact_given fun pointer => intact_load m _
  | ldx => exact intact_given fun a => intact_of_grown (intact_load _ a) fun _ => grown_of_load_error
  | sto => exact intact_given fun a => intact_save m a
  | stx => exact intact_given fun a => intact_of_grown (intact_save _ a) fun _ => grown_of_save_error
  | add => exact intact_given fun _ => intact_become m _
  | jmp => exact intact_jump m name
  | jpe => exact intact_jumpIf m _ name
  | jpn => exact intact_jumpIf m _ name

theorem intact_read (m : Machine) (next : Option Char) : m.Intact (m.read next) := by
  unfold read
  split
  · exact intact_fail m _
  · split
    · exact intact_of_ok rfl
    · exact fun _ _ => ⟨rfl, rfl⟩

theorem intact_write (m : Machine) : m.Intact m.write := by
  unfold write
  cases m.registers.acc.char? with
  | some c => exact intact_of_ok rfl
  | none => exact intact_fail m _

theorem intact_execute (m : Machine) (i : Instruction) (next : Option Char) : m.Intact (m.execute i next) := by
  cases i with
  | immediate op n => cases op <;> exact intact_become m _
  | label op name => exact intact_executeLabel m op name
  | register op target => cases op <;> exact intact_become m _
  | compare c => exact intact_given fun _ => intact_become m _
  | plain op =>
    cases op with
    | read => exact intact_read m next
    | write => exact intact_write m
    | stop => exact intact_of_ok rfl

/-! ## What is taken -/

theorem taken_given {α : Type} {m : Machine} {found : Except Failure α} {go : α → Effect}
    (left : ∀ value, (go value).taken = false) : (m.given found go).taken = false := by
  cases found with
  | ok value => exact left value
  | error failure => rfl

theorem taken_load (m : Machine) (a : Int) : (m.load a).taken = false := taken_given fun _ => rfl

theorem taken_save (m : Machine) (a : Int) : (m.save a).taken = false := taken_given fun _ => rfl

theorem taken_jumpIf (m : Machine) (condition : Bool) (name : String) : (m.jumpIf condition name).taken = false := by
  cases condition with
  | true => exact taken_given fun _ => rfl
  | false => rfl

theorem taken_read (m : Machine) (next : Option Char) : (m.read next).taken = next.isSome := by
  unfold read
  split
  · rfl
  · split <;> rfl

theorem taken_write (m : Machine) : m.write.taken = false := by
  unfold write
  split <;> rfl

/-- Only `IN` takes a character, and it takes the next one if there is one. -/
theorem taken_execute (m : Machine) (i : Instruction) (next : Option Char) :
    (m.execute i next).taken = (decide (i = .plain .read) && next.isSome) := by
  cases i with
  | immediate op n => cases op <;> rfl
  | label op name =>
    cases op with
    | ldd => exact taken_given (taken_load m)
    | ldi => exact taken_given fun _ => taken_load m _
    | ldx => exact taken_given fun _ => taken_load _ _
    | sto => exact taken_given (taken_save m)
    | stx => exact taken_given fun _ => taken_save _ _
    | add => exact taken_given fun _ => rfl
    | jmp => exact taken_given fun _ => rfl
    | jpe => exact taken_jumpIf m _ name
    | jpn => exact taken_jumpIf m _ name
  | register op target => cases op <;> rfl
  | compare c => exact taken_given fun _ => rfl
  | plain op =>
    cases op with
    | read => simpa [execute, executePlain] using taken_read m next
    | write => exact taken_write m
    | stop => rfl

theorem read_error {m : Machine} {next : Option Char} {failure : Failure}
    (failed : (m.read next).outcome = .error failure) :
    (next = none ∧ failure = .inputExhausted) ∨ ∃ c, next = some c ∧ failure = .invalidCharacter c.toNat := by
  unfold read at failed
  split at failed
  · cases failed
    exact .inl ⟨rfl, rfl⟩
  · split at failed
    · cases failed
    · cases failed
      exact .inr ⟨_, rfl, rfl⟩

/-! ## Cycles -/

theorem cycleInstruction_ok {m : Machine} {i : Instruction} {next : Option Char} {halt : Option Halt}
    (done : (m.count.execute i next).outcome = .ok halt) :
    m.cycleInstruction i next =
      { machine := (m.count.after (m.count.execute i next)).moveOn
        outcome := .ok halt
        taken := decide (i = .plain .read) && next.isSome
        emitted := (m.count.execute i next).emitted } := by
  unfold cycleInstruction
  rw [← taken_execute m.count i next]
  simp only [done]

theorem cycleInstruction_error {m : Machine} {i : Instruction} {next : Option Char} {failure : Failure}
    (failed : (m.count.execute i next).outcome = .error failure) :
    m.cycleInstruction i next =
      { machine := m.count
        outcome := .error ⟨m.registers.pc, i.text, failure⟩
        taken := decide (i = .plain .read) && next.isSome } := by
  obtain ⟨same, silent⟩ := intact_execute m.count i next failure failed
  unfold cycleInstruction
  rw [← taken_execute m.count i next]
  simp only [failed, same, silent]

/-- All that a cycle can be. -/
inductive CycleCase (m : Machine) (next : Option Char) : Prop
  /-- The memory has ended. -/
  | ended (found : m.store.get? m.registers.pc = none)
    (cycle : m.cycle next = { machine := m, outcome := .ok (some .endOfProgram) })
  /-- A declaration is passed over. -/
  | passed (name : String) (found : m.store.get? m.registers.pc = some (.label name))
    (cycle : m.cycle next = { machine := m.count.moveOn, outcome := .ok none })
  /-- The cell is no instruction. -/
  | unknown (cell : Cell) (found : m.store.get? m.registers.pc = some cell)
    (data : (∃ value, cell = .number value) ∨ ∃ words, cell = .raw words)
    (cycle : m.cycle next =
      { machine := m.count, outcome := .error ⟨m.registers.pc, cell.text, .unknownOpcode cell.text⟩ })
  | failed (i : Instruction) (failure : Failure) (found : m.store.get? m.registers.pc = some (.instruction i))
    (result : (m.count.execute i next).outcome = .error failure)
    (cycle : m.cycle next =
      { machine := m.count
        outcome := .error ⟨m.registers.pc, i.text, failure⟩
        taken := decide (i = .plain .read) && next.isSome })
  | done (i : Instruction) (halt : Option Halt) (found : m.store.get? m.registers.pc = some (.instruction i))
    (result : (m.count.execute i next).outcome = .ok halt)
    (cycle : m.cycle next =
      { machine := (m.count.after (m.count.execute i next)).moveOn
        outcome := .ok halt
        taken := decide (i = .plain .read) && next.isSome
        emitted := (m.count.execute i next).emitted })

theorem cycle_of_get?_none {m : Machine} (next : Option Char) (found : m.store.get? m.registers.pc = none) :
    m.cycle next = { machine := m, outcome := .ok (some .endOfProgram) } := by
  unfold cycle
  rw [found]

theorem cycle_of_get? {m : Machine} {cell : Cell} (next : Option Char)
    (found : m.store.get? m.registers.pc = some cell) : m.cycle next = m.cycleCell cell next := by
  unfold cycle
  rw [found]

theorem cycleCase (m : Machine) (next : Option Char) : m.CycleCase next := by
  cases found : m.store.get? m.registers.pc with
  | none => exact .ended found (cycle_of_get?_none next found)
  | some cell =>
    have cycle := cycle_of_get? next found
    cases cell with
    | label name => exact .passed name found cycle
    | number value => exact .unknown _ found (.inl ⟨value, rfl⟩) cycle
    | raw words => exact .unknown _ found (.inr ⟨words, rfl⟩) cycle
    | instruction i =>
      cases result : (m.count.execute i next).outcome with
      | error failure => exact .failed i failure found result (cycle.trans (cycleInstruction_error result))
      | ok halt => exact .done i halt found result (cycle.trans (cycleInstruction_ok result))

/-- A fault names the cell that was fetched. The machine has counted the cycle and is
    else as it was, nothing is emitted, and only `IN` has taken a character. -/
theorem cycle_fault {m : Machine} {next : Option Char} {fault : Fault}
    (failed : (m.cycle next).outcome = .error fault) :
    ∃ cell, m.store.get? m.registers.pc = some cell ∧ fault.pc = m.registers.pc ∧ fault.cell = cell.text ∧
      m.cycle next =
        { machine := m.count
          outcome := .error fault
          taken := decide (cell = .instruction (.plain .read)) && next.isSome } ∧
      (cell = .instruction (.plain .read) →
        (next = none ∧ fault.failure = .inputExhausted) ∨
          ∃ c, next = some c ∧ fault.failure = .invalidCharacter c.toNat) := by
  cases m.cycleCase next with
  | ended found cycle =>
    rw [cycle] at failed
    cases failed
  | passed name found cycle =>
    rw [cycle] at failed
    cases failed
  | done i halt found result cycle =>
    rw [cycle] at failed
    cases failed
  | unknown cell found data cycle =>
    rw [cycle] at failed ⊢
    cases failed
    have other : cell ≠ .instruction (.plain .read) := by
      rintro rfl
      obtain ⟨value, same⟩ | ⟨words, same⟩ := data <;> cases same
    exact ⟨cell, found, rfl, rfl, by simp [other], fun same => absurd same other⟩
  | failed i failure found result cycle =>
    rw [cycle] at failed ⊢
    cases failed
    refine ⟨_, found, rfl, rfl, by simp, ?_⟩
    intro same
    cases same
    exact read_error result

end Machine

/-! ## Steps that fail -/

namespace Session

/-- The cell that is to be executed is an `IN`, and it rejects a character. -/
def Rejects (s : Session) (fault : Fault) : Prop :=
  s.machine.store.get? s.machine.registers.pc = some (.instruction (.plain .read)) ∧
    ∃ code, fault.failure = .invalidCharacter code

/-- What a failed step makes of a session. -/
structure FailedStep (s : Session) (fault : Fault) (t : Session) : Prop where
  /-- The fault names the cell at the program counter, which has not moved. -/
  pc : fault.pc = s.machine.registers.pc ∧ fault.pc = t.machine.registers.pc
  cell : ∃ cell, s.machine.store.get? fault.pc = some cell ∧ fault.cell = cell.text
  /-- The cycle is counted, and all other registers are as they were. -/
  registers : t.machine.registers = { s.machine.registers with steps := s.machine.registers.steps + 1 }
  /-- The memory has neither grown nor changed. -/
  store : t.machine.store = s.machine.store
  labels : t.machine.labels = s.machine.labels
  output : t.output = s.output
  /-- Nothing is said either, and the limit and the debugger stay. -/
  surroundings : t.terminal = s.terminal ∧ t.limit = s.limit ∧ t.debugger = s.debugger
  /-- A rejected character has been read, and no other. -/
  rejected : s.Rejects fault → ∃ c, fault.failure = .invalidCharacter c.toNat ∧ s.unread = c :: t.unread
  kept : ¬ s.Rejects fault → t.unread = s.unread

theorem advance_machine (s : Session) (m : Machine) :
    { s with machine := m }.advance = { s.advance with machine := m } := by
  unfold advance
  cases s.channel with
  | buffer input output => rfl
  | console script => cases script <;> rfl

theorem advance_frame (s : Session) :
    s.advance.terminal = s.terminal ∧ s.advance.limit = s.limit ∧ s.advance.debugger = s.debugger := by
  unfold advance
  split <;> exact ⟨rfl, rfl, rfl⟩

theorem apply_of_silent {s : Session} {c : Cycle} (silent : c.emitted = none) :
    s.apply c = { (if c.taken then s.advance else s) with machine := c.machine } := by
  unfold apply
  rw [silent]
  cases c.taken with
  | true => exact advance_machine s c.machine
  | false => rfl

theorem rejects_iff {s : Session} {fault : Fault} {cell : Cell}
    (found : s.machine.store.get? s.machine.registers.pc = some cell)
    (reading : cell = .instruction (.plain .read) →
      (s.next? = none ∧ fault.failure = .inputExhausted) ∨
        ∃ c, s.next? = some c ∧ fault.failure = .invalidCharacter c.toNat) :
    s.Rejects fault ↔ (decide (cell = .instruction (.plain .read)) && s.next?.isSome) = true := by
  unfold Rejects
  rw [found, Option.some.injEq, Bool.and_eq_true, decide_eq_true_eq]
  refine and_congr_right fun same => ?_
  obtain ⟨absent, failure⟩ | ⟨c, next, failure⟩ := reading same
  · simp [absent, failure]
  · simp [next, failure]

/-- A step that fails names the cell at the program counter and leaves everything as it
    was, but for the count of cycles and a character that `IN` rejects. -/
theorem failedStep_of_error {s t : Session} {fault : Fault} (failed : s.step = (.error fault, t)) :
    s.FailedStep fault t := by
  obtain ⟨outcome, rfl⟩ := Prod.mk.inj failed
  obtain ⟨cell, found, pc, text, cycle, reading⟩ := Machine.cycle_fault outcome
  have rejects := rejects_iff found reading
  have left : s.apply s.cycle = { (if s.cycle.taken then s.advance else s) with machine := s.machine.count } := by
    rw [apply_of_silent (by rw [Session.cycle, cycle]), Session.cycle, cycle]
  have taken : s.cycle.taken = true ↔ s.Rejects fault := by
    rw [rejects, Session.cycle, cycle]
  rw [left]
  by_cases took : s.Rejects fault
  · rw [if_pos (taken.mpr took)]
    obtain ⟨terminal, limit, debugger⟩ := s.advance_frame
    refine ⟨⟨pc, pc⟩, ⟨cell, by rw [pc, found], text⟩, rfl, rfl, rfl, s.output_advance,
      ⟨terminal, limit, debugger⟩, fun _ => ?_, fun kept => absurd took kept⟩
    obtain ⟨same, some⟩ := Bool.and_eq_true_iff.mp (rejects.mp took)
    obtain ⟨absent, _⟩ | ⟨c, next, failure⟩ := reading (of_decide_eq_true same)
    · rw [absent] at some
      cases some
    · exact ⟨c, failure, unread_of_next? next⟩
  · rw [if_neg (fun t => took (taken.mp t))]
    exact ⟨⟨pc, pc⟩, ⟨cell, by rw [pc, found], text⟩, rfl, rfl, rfl, rfl, ⟨rfl, rfl, rfl⟩,
      fun rejected => absurd rejected took, fun _ => rfl⟩

/-- A session whose `IN` finds a character that no word can hold. -/
def rejectingSession : Session where
  machine := ⟨.ofList [.instruction (.plain .read)], .empty, {}⟩
  channel := .buffer [Char.ofNat 40000, 'a'] ""

theorem failedStep_of_error_rejecting :
    rejectingSession.step = (.error ⟨0, "IN", .invalidCharacter 40000⟩, rejectingSession.step.2) ∧
      rejectingSession.FailedStep ⟨0, "IN", .invalidCharacter 40000⟩ rejectingSession.step.2 ∧
      rejectingSession.step.2.unread = ['a'] := by
  have failed : rejectingSession.step = (.error ⟨0, "IN", .invalidCharacter 40000⟩, rejectingSession.step.2) := by rfl
  exact ⟨failed, failedStep_of_error failed, by rfl⟩

end Session
end Accumulator
