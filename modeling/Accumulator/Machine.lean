import Accumulator.LabelTable
import Accumulator.Program

/-!
The machine: a memory, its label table and the registers. One cycle executes the
cell that the program counter points at; it sees the next character of the input
and says whether it took it and what it emitted. An instruction that fails is left
where it stands: what it has done by then is not taken back.
-/
namespace Accumulator

structure Registers where
  acc : Word := 0
  ix : Word := 0
  /-- What the last comparison found. -/
  equal : Bool := false
  /-- The address of the next cell. -/
  pc : Nat := 0
  /-- The number of cells fetched so far. -/
  steps : Nat := 0
deriving DecidableEq

namespace Registers

def get (r : Registers) : Register → Word
  | .acc => r.acc
  | .ix => r.ix

def set (r : Registers) (target : Register) (value : Word) : Registers :=
  match target with
  | .acc => { r with acc := value }
  | .ix => { r with ix := value }

end Registers

/-- What keeps an instruction from being executed. -/
inductive Failure where
  | address (error : AddressError)
  /-- The cell holds data or words that are no instruction. -/
  | unknownOpcode (found : String)
  | undefinedLabel (name : String)
  /-- There is no character left to read. -/
  | inputExhausted
  /-- No word holds this character code, or no character has it. -/
  | invalidCharacter (code : Int)
deriving DecidableEq

def Failure.message : Failure → String
  | address error => error.message
  | unknownOpcode found => s!"`{found}` is not an instruction"
  | undefinedLabel name => s!"undefined label `{name}`"
  | inputExhausted => "no input left to read"
  | invalidCharacter code => s!"{code} is not a valid character code"

/-- The failure of a cycle, with the address and the written form of its cell. -/
structure Fault where
  pc : Nat
  cell : String
  failure : Failure
deriving DecidableEq

def Fault.message (f : Fault) : String := s!"`{f.cell}` at address {f.pc}: {f.failure.message}"

/-- Why a run stopped without a fault. -/
inductive Halt where
  /-- `END` was executed. -/
  | reachedEnd
  /-- The program counter has left the memory. -/
  | endOfProgram
  | stepLimit
  /-- The debugger was told to quit. -/
  | exited
deriving DecidableEq

def Halt.text : Halt → String
  | reachedEnd => "reached END"
  | endOfProgram => "ran past the last line"
  | stepLimit => "step limit reached"
  | exited => "exited from debugger"

structure Machine where
  store : Store
  labels : LabelTable
  registers : Registers
deriving DecidableEq

/-- What an instruction leaves behind, before the program counter moves on. -/
structure Effect where
  store : Store
  registers : Registers
  /-- The instruction took the next character of the input. -/
  taken : Bool := false
  emitted : Option Char := none
  /-- The instruction failed, or it halts the machine, or neither. -/
  outcome : Except Failure (Option Halt) := .ok none

/-- The result of one cycle. -/
structure Cycle where
  machine : Machine
  /-- A fault, a halt, or nothing if the run goes on. -/
  outcome : Except Fault (Option Halt)
  /-- The cycle took the next character of the input. -/
  taken : Bool := false
  emitted : Option Char := none

namespace Machine

/-- The machine at the start of a run over a memory. -/
def ofStore (store : Store) : Except LabelError Machine := do
  .ok ⟨store, ← LabelTable.ofStore store, {}⟩

/-- The machine at the start of a run of a program. -/
def ofProgram (p : Program) : Except LabelError Machine := ofStore p.store

/-- The labels of an accepted memory are in the table, and nothing has happened yet. -/
theorem ofStore_eq_ok_iff {store : Store} {m : Machine} :
    ofStore store = .ok m ↔ LabelTable.ofStore store = .ok m.labels ∧ m.store = store ∧ m.registers = {} := by
  unfold ofStore
  cases LabelTable.ofStore store with
  | error e => exact ⟨fun h => (by cases h), fun h => (by cases h.1)⟩
  | ok table =>
    constructor
    · intro accepted
      cases accepted
      exact ⟨rfl, rfl, rfl⟩
    · rintro ⟨same, rfl, fresh⟩
      cases same
      show Except.ok (Machine.mk m.store m.labels {}) = _
      rw [← fresh]

/-! ## Addresses and numbers -/

/-- The index of the declaration of a label. -/
def declaration (m : Machine) (name : String) : Except Failure Nat :=
  match m.labels.get? name with
  | some index => .ok index
  | none => .error (.undefinedLabel name)

/-- The address that a label stands for. -/
def target (m : Machine) (name : String) : Except Failure Int := do
  .ok ((← m.declaration name : Nat) + 1 : Int)

/-- The address IX cells after the one that a label stands for. -/
def indexed (m : Machine) (name : String) : Except Failure Int := do
  .ok ((← m.target name) + m.registers.ix.toInt)

/-- The number at an address. -/
def number (store : Store) (address : Int) : Except Failure Word :=
  (store.number address).mapError .address

/-- The number that a label stands for. -/
def numberAt (m : Machine) (name : String) : Except Failure Word := do
  number m.store (← m.target name)

theorem target_eq (m : Machine) (name : String) :
    m.target name = match m.labels.target? name with
      | some target => .ok (target : Int)
      | none => .error (.undefinedLabel name) := by
  unfold target declaration LabelTable.target?
  cases m.labels.get? name <;> rfl

theorem indexed_eq (m : Machine) (name : String) :
    m.indexed name = match m.labels.target? name with
      | some target => .ok (target + m.registers.ix.toInt)
      | none => .error (.undefinedLabel name) := by
  unfold indexed
  rw [target_eq]
  cases m.labels.target? name <;> rfl

/-! ## Instructions -/

/-- The machine with memory up to an address. -/
def grown (m : Machine) (address : Int) : Machine := { m with store := m.store.growTo address }

/-- The effect of a change of registers alone. -/
def become (m : Machine) (registers : Registers) : Effect := { store := m.store, registers := registers }

/-- The effect of a failure, which leaves the machine as the instruction has made it so far. -/
def fail (m : Machine) (failure : Failure) : Effect := { m.become m.registers with outcome := .error failure }

/-- Goes on with what was found, or fails where it could not be. -/
def given {α : Type} (m : Machine) (found : Except Failure α) (go : α → Effect) : Effect :=
  match found with
  | .ok value => go value
  | .error failure => m.fail failure

def executeImmediate (m : Machine) (op : ImmediateOp) (n : Word) : Effect :=
  let r := m.registers
  match op with
  | .ldm => m.become { r with acc := n }
  | .ldr => m.become { r with ix := n }
  | .and => m.become { r with acc := r.acc &&& n }
  | .or => m.become { r with acc := r.acc ||| n }
  | .xor => m.become { r with acc := r.acc ^^^ n }
  | .lsl => m.become { r with acc := r.acc.shiftLeft n }
  | .lsr => m.become { r with acc := r.acc.shiftRight n }

/-- Loads ACC from an address. -/
def load (m : Machine) (address : Int) : Effect :=
  m.given (number m.store address) fun value => m.become { m.registers with acc := value }

/-- Stores ACC at an address. -/
def save (m : Machine) (address : Int) : Effect :=
  m.given ((m.store.put address m.registers.acc).mapError .address) fun store =>
    { store := store, registers := m.registers }

/-- A jump sets the program counter to the declaration itself: the counter moves on from there. -/
def jump (m : Machine) (name : String) : Effect :=
  m.given (m.declaration name) fun index => m.become { m.registers with pc := index }

/-- A jump that is made only under a condition. -/
def jumpIf (m : Machine) (condition : Bool) (name : String) : Effect :=
  if condition then m.jump name else m.become m.registers

def executeLabel (m : Machine) (op : LabelOp) (name : String) : Effect :=
  let r := m.registers
  match op with
  | .ldd => m.given (m.target name) m.load
  | .ldi => m.given (m.numberAt name) fun pointer => m.load (pointer.toInt + 1)
  | .ldx => m.given (m.indexed name) fun address => (m.grown address).load address
  | .sto => m.given (m.target name) m.save
  | .stx => m.given (m.indexed name) fun address => (m.grown address).save address
  | .add => m.given (m.numberAt name) fun value => m.become { r with acc := r.acc + value }
  | .jmp => m.jump name
  | .jpe => m.jumpIf r.equal name
  | .jpn => m.jumpIf (!r.equal) name

def executeRegister (m : Machine) (op : RegisterOp) (target : Register) : Effect :=
  let r := m.registers
  match op with
  | .inc => m.become (r.set target (r.get target + 1))
  | .dec => m.become (r.set target (r.get target - 1))

/-- The number that ACC is compared with. -/
def comparand (m : Machine) : Comparand → Except Failure Word
  | .immediate n => .ok n
  | .label name => m.numberAt name

def compare (m : Machine) (c : Comparand) : Effect :=
  let r := m.registers
  m.given (m.comparand c) fun value => m.become { r with equal := r.acc == value }

/-- Takes a character before it is looked at. -/
def read (m : Machine) (next : Option Char) : Effect :=
  match next with
  | none => m.fail .inputExhausted
  | some c =>
    match Word.ofCode? c.toNat with
    | some code => { m.become { m.registers with acc := code } with taken := true }
    | none => { m.fail (.invalidCharacter c.toNat) with taken := true }

def write (m : Machine) : Effect :=
  match m.registers.acc.char? with
  | some c => { m.become m.registers with emitted := some c }
  | none => m.fail (.invalidCharacter m.registers.acc.toInt)

def executePlain (m : Machine) (op : PlainOp) (next : Option Char) : Effect :=
  match op with
  | .read => m.read next
  | .write => m.write
  | .stop => { m.become m.registers with outcome := .ok (some .reachedEnd) }

/-- What an instruction does when the given character is next in the input. -/
def execute (m : Machine) (i : Instruction) (next : Option Char) : Effect :=
  match i with
  | .immediate op n => m.executeImmediate op n
  | .label op name => m.executeLabel op name
  | .register op target => m.executeRegister op target
  | .compare c => m.compare c
  | .plain op => m.executePlain op next

/-! ## Cycles -/

/-- The machine after it has fetched one more cell. -/
def count (m : Machine) : Machine :=
  { m with registers := { m.registers with steps := m.registers.steps + 1 } }

/-- The machine with the program counter moved on, after a jump as after any other instruction. -/
def moveOn (m : Machine) : Machine :=
  { m with registers := { m.registers with pc := m.registers.pc + 1 } }

/-- The machine as an instruction has left it. -/
def after (m : Machine) (e : Effect) : Machine := { m with store := e.store, registers := e.registers }

/-- One cycle at an instruction. The program counter does not move on from one that failed. -/
def cycleInstruction (m : Machine) (i : Instruction) (next : Option Char) : Cycle :=
  let e := m.count.execute i next
  match e.outcome with
  | .ok halt =>
    { machine := (m.count.after e).moveOn, outcome := .ok halt, taken := e.taken, emitted := e.emitted }
  | .error failure =>
    { machine := m.count.after e
      outcome := .error ⟨m.registers.pc, i.text, failure⟩
      taken := e.taken
      emitted := e.emitted }

/-- One cycle at a cell that is no instruction. Declarations are passed over. -/
def cycleCell (m : Machine) (cell : Cell) (next : Option Char) : Cycle :=
  match cell with
  | .instruction i => m.cycleInstruction i next
  | .label _ => { machine := m.count.moveOn, outcome := .ok none }
  | .number _ | .raw _ =>
    { machine := m.count, outcome := .error ⟨m.registers.pc, cell.text, .unknownOpcode cell.text⟩ }

/-- One cycle, when the given character is next in the input. Nothing is fetched,
    nor counted, where the memory has ended. -/
def cycle (m : Machine) (next : Option Char) : Cycle :=
  match m.store.get? m.registers.pc with
  | none => { machine := m, outcome := .ok (some .endOfProgram) }
  | some cell => m.cycleCell cell next

end Machine
end Accumulator
