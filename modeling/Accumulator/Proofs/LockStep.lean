import Accumulator.Proofs.Definedness
import Accumulator.Proofs.IntegerMachine

/-!
Lock step: the machine over words and the machine over integers take the same steps.
What is seen of a session is its machine with every word as the integer that it stands
for. Reading, storing and growing look the same on both sides, and so does each
instruction, be it defined or not; then each cycle does, and any number of them.
-/
namespace Accumulator

/-! ## Memories as integers -/

namespace Store

theorem length_contents (s : Store) : s.contents.length = s.size := by simp [contents, size]

theorem getElem?_contents (s : Store) (a : Nat) : s.contents[a]? = (s.get? a).map Content.ofCell := by
  simp [contents, get?]

theorem contents_put {s t : Store} {a : Int} {w : Word} (put : s.put a w = .ok t) :
    t.contents = s.contents.set a.toNat (.number w.toInt) := by
  obtain ⟨n, rfl, inside, rfl⟩ := put_eq_ok_iff.mp put
  unfold contents
  rw [Array.toList_setIfInBounds, List.map_set, Int.toNat_natCast]
  rfl

theorem contents_growTo (s : Store) (a : Int) :
    (s.growTo a).contents = s.contents ++ List.replicate (a + 1 - s.contents.length).toNat (.number 0) := by
  rw [length_contents]
  unfold growTo
  split
  · have added : (a + 1 - s.size).toNat = a.toNat + 1 - s.size := by omega
    rw [added]
    simp [contents, Content.ofCell]
  · have none : (a + 1 - s.size).toNat = 0 := by omega
    rw [none, List.replicate_zero, List.append_nil]

end Store

namespace Machine

/-- The machine with its words as integers, and with what is left to read and has been written. -/
def integers (m : Machine) (input : List Char) (output : String) : IntegerMachine where
  memory := m.store.contents
  declared := m.labels.get?
  acc := m.registers.acc.toInt
  ix := m.registers.ix.toInt
  equal := m.registers.equal
  pc := m.registers.pc
  fetched := m.registers.steps
  input := input
  output := output

section
variable (m : Machine) (input : List Char) (output : String)

theorem content?_integers (a : Nat) :
    (m.integers input output).content? a = (m.store.get? a).map Content.ofCell := by
  unfold IntegerMachine.content?
  rw [if_pos (Int.natCast_nonneg a), Int.toNat_natCast]
  exact m.store.getElem?_contents a

theorem content?_of_outside {a : Int} (outside : ¬ (0 ≤ a ∧ a < m.store.size)) :
    (m.integers input output).content? a = none := by
  by_cases negative : 0 ≤ a
  · obtain ⟨n, rfl⟩ := Int.eq_ofNat_of_zero_le negative
    rw [content?_integers, Store.get?_eq_none_iff.mpr (by omega)]
    rfl
  · exact if_neg negative

theorem outOfRange_integers (a : Int) :
    (m.integers input output).outOfRange a = .address (.outOfRange a m.store.size) := by
  rw [← m.store.length_contents]
  rfl

theorem value_integers (a : Int) : (m.integers input output).value a = BitVec.toInt <$> number m.store a := by
  unfold IntegerMachine.value number
  by_cases inside : 0 ≤ a ∧ a < m.store.size
  · obtain ⟨n, rfl⟩ := Int.eq_ofNat_of_zero_le inside.1
    obtain ⟨cell, found⟩ := Store.exists_get? (s := m.store) (a := n) (by omega)
    rw [content?_integers, found, Store.number_of_get? found]
    cases cell <;> rfl
  · rw [content?_of_outside m input output inside, Store.number_of_outside inside, outOfRange_integers]
    rfl

theorem assign_integers (a : Int) :
    (m.integers input output).assign a =
      (fun store => { m with store := store }.integers input output) <$>
        (m.store.put a m.registers.acc).mapError .address := by
  have length : ((m.integers input output).memory.length : Int) = m.store.size := by
    rw [← m.store.length_contents]
    rfl
  unfold IntegerMachine.assign
  rw [length]
  by_cases inside : 0 ≤ a ∧ a < m.store.size
  · obtain ⟨t, put⟩ : ∃ t, m.store.put a m.registers.acc = .ok t :=
      ⟨_, Store.put_eq_ok_iff.mpr ⟨a.toNat, by omega, by omega, rfl⟩⟩
    rw [if_pos inside, put]
    show _ = Except.ok ({ m with store := t }.integers input output)
    simp only [integers, Store.contents_put put]
  · rw [if_neg inside, Store.put_of_outside inside, outOfRange_integers]
    rfl

theorem extended_integers (a : Int) :
    (m.integers input output).extended a = (m.grown a).integers input output := by
  unfold IntegerMachine.extended grown
  simp only [integers, Store.contents_growTo]

theorem operand_integers (name : String) : (m.integers input output).operand name = m.target name := by
  unfold IntegerMachine.operand target declaration
  rw [show (m.integers input output).declared = m.labels.get? from rfl]
  cases m.labels.get? name <;> rfl

theorem operandValue_integers (name : String) :
    (m.integers input output).operandValue name = BitVec.toInt <$> m.numberAt name := by
  unfold IntegerMachine.operandValue numberAt
  rw [operand_integers]
  cases m.target name with
  | ok a => exact value_integers m input output a
  | error failure => rfl

theorem indexed_integers (name : String) : (m.integers input output).indexed name = m.indexed name := by
  unfold IntegerMachine.indexed indexed
  rw [operand_integers]
  rfl

/-! ## Instructions -/

/-- What an effect comes to over integers. -/
def result (e : Effect) : Except Failure (Option Halt × IntegerMachine) :=
  e.outcome.map fun halt =>
    (halt, (m.after e).moveOn.integers (left e.taken input) (written e.emitted output))

/-- An operation makes of the machine over integers what the effect makes of the machine. -/
def Matches (e : Effect) (made : Except Failure IntegerMachine) : Prop :=
  IntegerMachine.proceed made = m.result input output e

end

end Machine

/-- What a cycle leaves behind, over integers. -/
def Cycle.integers (c : Cycle) (input : List Char) (output : String) : IntegerMachine :=
  c.machine.integers (Machine.left c.taken input) (Machine.written c.emitted output)

namespace Machine

section
variable {m : Machine} {input : List Char} {output : String}

theorem matches_become (r : Registers) :
    m.Matches input output (m.become r) (.ok ({ m with registers := r }.moveOn.integers input output)) := rfl

theorem input_integers : (m.integers input output).input = input := rfl

theorem acc_integers : (m.moveOn.integers input output).acc = m.registers.acc.toInt := rfl

theorem matches_given {α : Type} {found : Except Failure α} {go : α → Effect}
    {f : α → Except Failure IntegerMachine} (same : ∀ value, m.Matches input output (go value) (f value)) :
    m.Matches input output (m.given found go) (found >>= f) := by
  cases found with
  | ok value => exact same value
  | error failure => rfl

theorem matches_given_map {α β : Type} {found : Except Failure α} {go : α → Effect} {g : α → β}
    {f : β → Except Failure IntegerMachine} (same : ∀ value, m.Matches input output (go value) (f (g value))) :
    m.Matches input output (m.given found go) ((g <$> found) >>= f) := by
  cases found with
  | ok value => exact same value
  | error failure => rfl

theorem matches_immediate (op : ImmediateOp) (n : Word) :
    m.Matches input output (m.executeImmediate op n)
      (.ok ((m.moveOn.integers input output).immediate op n.toInt)) := by
  unfold IntegerMachine.immediate
  cases op with
  | ldm => exact matches_become _
  | ldr => exact matches_become _
  | and =>
    rw [acc_integers, ← Word.toInt_and]
    exact matches_become _
  | or =>
    rw [acc_integers, ← Word.toInt_or]
    exact matches_become _
  | xor =>
    rw [acc_integers, ← Word.toInt_xor]
    exact matches_become _
  | lsl =>
    rw [acc_integers, ← Word.toInt_shiftLeft]
    exact matches_become _
  | lsr =>
    rw [acc_integers, ← Word.toInt_shiftRight]
    exact matches_become _

theorem matches_load (a : Int) :
    m.Matches input output (m.load a) ((m.moveOn.integers input output).load a) := by
  unfold IntegerMachine.load
  rw [value_integers]
  exact matches_given_map fun value => matches_become _

theorem matches_save (a : Int) :
    m.Matches input output (m.save a) ((m.moveOn.integers input output).assign a) := by
  have put : m.moveOn.store.put a m.moveOn.registers.acc = m.store.put a m.registers.acc := rfl
  unfold save
  rw [assign_integers, put]
  cases m.store.put a m.registers.acc with
  | ok store => rfl
  | error failure => rfl

theorem matches_jump (name : String) :
    m.Matches input output (m.jump name) ((m.moveOn.integers input output).jump name) := by
  unfold IntegerMachine.jump jump
  rw [operand_integers]
  show m.Matches input output _ ((m.declaration name >>= fun index => .ok (index + 1 : Int)) >>= _)
  cases m.declaration name with
  | ok index => exact matches_become _
  | error failure => rfl

theorem matches_jumpIf (condition : Bool) (name : String) :
    m.Matches input output (m.jumpIf condition name)
      (if condition then (m.moveOn.integers input output).jump name else .ok (m.moveOn.integers input output)) := by
  cases condition with
  | true => exact matches_jump name
  | false => exact matches_become m.registers

theorem matches_label (op : LabelOp) (name : String) :
    m.Matches input output (m.executeLabel op name) ((m.moveOn.integers input output).label op name) := by
  unfold IntegerMachine.label
  cases op with
  | ldd =>
    rw [operand_integers]
    exact matches_given matches_load
  | ldi =>
    rw [operandValue_integers]
    exact matches_given_map fun pointer => matches_load _
  | ldx =>
    rw [indexed_integers]
    refine matches_given fun a => ?_
    -- What an effect comes to is the same of a machine before growth as after it.
    rw [extended_integers]
    exact matches_load (m := m.grown a) a
  | sto =>
    rw [operand_integers]
    exact matches_given matches_save
  | stx =>
    rw [indexed_integers]
    refine matches_given fun a => ?_
    rw [extended_integers]
    exact matches_save (m := m.grown a) a
  | add =>
    rw [operandValue_integers]
    refine matches_given_map fun value => ?_
    have sum : (m.registers.acc + value).toInt = IntegerMachine.signed (m.registers.acc.toInt + value.toInt) :=
      Word.toInt_add _ _
    rw [acc_integers, ← sum]
    exact matches_become _
  | jmp => exact matches_jump name
  | jpe => exact matches_jumpIf m.registers.equal name
  | jpn => exact matches_jumpIf (!m.registers.equal) name

theorem matches_increase {target : Register} {value : Word} {amount : Int}
    (sum : value.toInt = IntegerMachine.signed ((m.registers.get target).toInt + amount)) :
    m.Matches input output (m.become (m.registers.set target value))
      (.ok ((m.moveOn.integers input output).increase target amount)) := by
  unfold IntegerMachine.increase
  cases target with
  | acc =>
    rw [acc_integers]
    change value.toInt = IntegerMachine.signed (m.registers.acc.toInt + amount) at sum
    rw [← sum]
    exact matches_become _
  | ix =>
    change value.toInt = IntegerMachine.signed ((m.moveOn.integers input output).ix + amount) at sum
    rw [← sum]
    exact matches_become _

theorem matches_compare (c : Comparand) :
    m.Matches input output (m.compare c) ((m.moveOn.integers input output).compare c) := by
  have comparand : (m.moveOn.integers input output).comparand c = BitVec.toInt <$> m.comparand c := by
    cases c with
    | immediate n => rfl
    | label name => exact operandValue_integers m.moveOn input output name
  unfold IntegerMachine.compare
  rw [comparand]
  refine matches_given_map fun value => ?_
  have equal : decide (m.registers.acc.toInt = value.toInt) = (m.registers.acc == value) := by
    rw [Bool.eq_iff_iff, decide_eq_true_eq, beq_iff_eq, BitVec.toInt_inj]
  rw [acc_integers, equal]
  exact matches_become _

theorem matches_read :
    m.Matches input output (m.read input.head?) (m.moveOn.integers input output).read := by
  unfold IntegerMachine.read read
  rw [input_integers]
  cases input with
  | nil => rfl
  | cons c rest =>
    rw [List.head?_cons]
    dsimp only
    by_cases small : c.toNat ≤ 32767
    · obtain ⟨code, held, same⟩ := Word.ofCode?_of_le small
      rw [held, if_pos small, ← same]
      rfl
    · rw [Word.ofCode?_of_lt (by omega), if_neg small]
      rfl

theorem matches_write : m.Matches input output m.write (m.moveOn.integers input output).write := by
  unfold IntegerMachine.write write
  rw [acc_integers, Word.character?_toInt]
  cases m.registers.acc.char? with
  | some c => rfl
  | none => rfl

/-- Every instruction does the same to integers as to words. On the one side the program
    counter has moved on before it, on the other it does so after. -/
theorem execute_integers (i : Instruction) :
    (m.moveOn.integers input output).execute i = m.result input output (m.execute i input.head?) := by
  cases i with
  | immediate op n => exact matches_immediate op n
  | label op name => exact matches_label op name
  | register op target =>
    cases op with
    | inc => exact matches_increase (Word.toInt_add _ 1)
    | dec => exact matches_increase (Word.toInt_sub _ 1)
  | compare c => exact matches_compare c
  | plain op =>
    cases op with
    | read => exact matches_read
    | write => exact matches_write
    | stop => rfl

/-! ## Cycles -/

theorem fetch_integers : (m.integers input output).fetch = m.count.moveOn.integers input output := rfl

theorem content?_pc :
    (m.integers input output).content? (m.integers input output).pc =
      (m.store.get? m.registers.pc).map Content.ofCell := content?_integers m input output m.registers.pc

/-- A cycle comes to the same over integers: it fails in the same way, or it ends in the
    same way and leaves the same behind. -/
theorem cycle_integers :
    (m.integers input output).cycle =
      ((m.cycle input.head?).outcome.mapError Fault.failure).map fun halt =>
        (halt, (m.cycle input.head?).integers input output) := by
  unfold IntegerMachine.cycle
  rw [content?_pc, fetch_integers]
  cases m.cycleCase input.head? with
  | ended found cycle =>
    rw [found, cycle]
    rfl
  | passed name found cycle =>
    rw [found, cycle]
    rfl
  | unknown cell found data cycle =>
    rw [found, cycle]
    obtain ⟨value, rfl⟩ | ⟨words, rfl⟩ := data <;> rfl
  | failed i failure found outcome cycle =>
    rw [found, cycle]
    show (m.count.moveOn.integers input output).execute i = _
    rw [execute_integers, result, outcome]
    rfl
  | done i halt found outcome cycle =>
    rw [found, cycle]
    show (m.count.moveOn.integers input output).execute i = _
    rw [execute_integers, result, outcome, taken_execute]
    rfl

theorem failed_integers {fault : Fault} (failed : (m.cycle input.head?).outcome = .error fault) :
    (m.integers input output).failed = (m.cycle input.head?).integers input output := by
  obtain ⟨cell, found, _, _, cycle, _⟩ := cycle_fault failed
  have rest : left (decide (cell = .instruction (.plain .read)) && input.head?.isSome) input =
      if some (Content.ofCell cell) = some (.instruction (.plain .read)) then input.tail else input := by
    cases input <;> simp [left, Content.ofCell_eq_instruction_iff]
  rw [cycle]
  unfold IntegerMachine.failed
  rw [content?_pc, found, Option.map_some]
  show _ = m.count.integers (left (decide _ && _) input) output
  rw [rest]
  rfl

/-- After a cycle, be it defined or not, the machine over integers is what the machine is. -/
theorem step_integers : (m.integers input output).step = (m.cycle input.head?).integers input output := by
  unfold IntegerMachine.step
  rw [cycle_integers]
  cases outcome : (m.cycle input.head?).outcome with
  | ok halt => rfl
  | error fault => exact failed_integers outcome

end

end Machine

/-! ## Steps -/

namespace Session

/-- The machine of a session over integers, with its input and output. -/
def integers (s : Session) : IntegerMachine := s.machine.integers s.unread s.output

/-- The session after a number of steps. -/
def steps (s : Session) (n : Nat) : Session := s.calls (List.replicate n .step)

theorem unread_apply (s : Session) (c : Cycle) : (s.apply c).unread = Machine.left c.taken s.unread := by
  rw [apply_eq]
  unfold unread
  cases s.channel with
  | buffer input output => rfl
  | console script =>
    cases script with
    | some script => rfl
    | none =>
      show (Machine.left c.taken s.input).map _ = _
      unfold Machine.left
      split
      · exact List.map_tail
      · rfl

theorem output_apply (s : Session) (c : Cycle) : (s.apply c).output = Machine.written c.emitted s.output := by
  rw [apply_eq]
  unfold output
  cases s.channel with
  | buffer input output => rfl
  | console script =>
    show (Channel.terminalAfter _ c s.terminal).standardOutput = _
    unfold Channel.terminalAfter Machine.written
    cases c.emitted with
    | none => rfl
    | some ch => simp [Terminal.printChar, Terminal.write, Terminal.standardOutput, String.join]

theorem integers_apply (s : Session) (c : Cycle) : (s.apply c).integers = c.integers s.unread s.output := by
  unfold integers Cycle.integers
  rw [machine_apply, unread_apply, output_apply]

theorem integers_step (s : Session) : s.step.2.integers = s.integers.step := by
  unfold integers
  rw [Machine.step_integers, ← next?_eq_head?_unread]
  exact integers_apply s s.cycle

theorem integers_steps (s : Session) (n : Nat) : (s.steps n).integers = s.integers.steps n := by
  induction n generalizing s with
  | zero => rfl
  | succ n ih =>
    -- The first step is taken on both sides, and the others from where it leads.
    rw [IntegerMachine.steps, ← integers_step]
    exact ih s.step.2

theorem outcome_step (s : Session) :
    s.step.1.mapError Fault.failure = s.integers.cycle.map Prod.fst := by
  unfold integers
  rw [Machine.cycle_integers, ← next?_eq_head?_unread]
  show s.cycle.outcome.mapError Fault.failure = (Except.map _ (s.cycle.outcome.mapError Fault.failure)).map Prod.fst
  cases s.cycle.outcome with
  | ok halt => rfl
  | error fault => rfl

theorem integers_start {store : Store} {s : Session} (accepted : Machine.ofStore store = .ok s.machine) :
    s.integers = .start store s.unread s.output := by
  obtain ⟨table, same, fresh⟩ := Machine.ofStore_eq_ok_iff.mp accepted
  have declared : s.machine.labels.get? = store.lastDeclaration? := funext (LabelTable.get?_ofStore table)
  unfold integers Machine.integers
  rw [same, fresh, declared]
  rfl

/-- A session over an accepted memory and the machine over integers stay in lock step for
    any number of steps: all that is seen of the session, the memory, the registers, the
    input and the output, is that of the machine over integers. A step fails exactly where
    a cycle of the machine over integers is undefined, and in the same way, and that is
    never for want of a label. -/
theorem lockStep {store : Store} {s : Session} (accepted : Machine.ofStore store = .ok s.machine) (n : Nat) :
    (s.steps n).integers = (IntegerMachine.start store s.unread s.output).steps n ∧
      (s.steps n).step.1.mapError Fault.failure =
        ((IntegerMachine.start store s.unread s.output).steps n).cycle.map Prod.fst ∧
      ∀ name, ((IntegerMachine.start store s.unread s.output).steps n).cycle ≠ .error (.undefinedLabel name) := by
  have same : (s.steps n).integers = (IntegerMachine.start store s.unread s.output).steps n := by
    rw [integers_steps, integers_start accepted]
  have outcome := outcome_step (s.steps n)
  rw [same] at outcome
  refine ⟨same, outcome, fun name undefined => ?_⟩
  rw [undefined] at outcome
  cases ended : (s.steps n).step.1 with
  | ok halt =>
    rw [ended] at outcome
    cases outcome
  | error fault =>
    rw [ended] at outcome
    have result : (s.steps n).result? .step = some (.error fault) := ending?_eq_error_iff.mpr ended
    exact not_undefinedLabel accepted result name (Except.error.inj outcome)

/-- A program that overflows ACC, stores it beyond the end of the memory and then emits it. -/
def overflowing : Store :=
  .ofList [.instruction (.immediate .ldm 32767), .instruction (.register .inc .acc), .instruction (.label .stx "A"),
    .instruction (.plain .write), .label "A"]

/-- A session over that program. -/
def overflowingSession : Session where
  machine := ⟨overflowing, ⟨[("A", 4)], []⟩, {}⟩
  channel := .buffer [] ""

theorem lockStep_overflowing :
    Machine.ofStore overflowing = .ok overflowingSession.machine ∧
      (overflowingSession.steps 3).integers.content? 5 = some (.number (-32768)) ∧
      (overflowingSession.steps 3).step.1.mapError Fault.failure = .error (.invalidCharacter (-32768)) := by
  have accepted : Machine.ofStore overflowing = .ok overflowingSession.machine := by rfl
  obtain ⟨same, outcome, _⟩ := lockStep accepted 3
  refine ⟨accepted, ?_, ?_⟩
  · rw [same]
    rfl
  · rw [outcome]
    rfl

end Session
end Accumulator
