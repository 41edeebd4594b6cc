import Mathlib.Algebra.Group.Nat.Defs
import Accumulator.Proofs.Declarations

/-!
The machine over integers: what every operation does to the registers, the memory, the
input and the output, said of integers in place of words, and where it is undefined. The
labels are those of the memory at the start, each with the index L of its last
declaration, and v(a) is the number at the address a.
-/
namespace Accumulator

/-- What an address holds, with its number as an integer. -/
inductive Content where
  | instruction (i : Instruction)
  | label (name : String)
  | number (value : Int)
  | raw (words : List String)
deriving DecidableEq

namespace Content

def ofCell : Cell → Content
  | .instruction i => instruction i
  | .label name => label name
  | .number value => number value.toInt
  | .raw words => raw words

/-- The content as a line of a source. -/
def text : Content → String
  | instruction i => i.text
  | label name => name ++ ":"
  | number value => toString value
  | raw words => " ".intercalate words

theorem ofCell_eq_instruction_iff {cell : Cell} {i : Instruction} :
    ofCell cell = .instruction i ↔ cell = .instruction i := by
  cases cell <;> simp [ofCell]

end Content

/-- The contents of a memory, in order. -/
def Store.contents (s : Store) : List Content := s.cells.toList.map Content.ofCell

structure IntegerMachine where
  memory : List Content
  /-- The index of the last declaration of a label. -/
  declared : String → Option Nat
  acc : Int := 0
  ix : Int := 0
  equal : Bool := false
  pc : Int := 0
  /-- The number of cells fetched so far. -/
  fetched : Nat := 0
  /-- The characters that have not been read. -/
  input : List Char
  output : String

namespace IntegerMachine

/-- The machine at the start of a run over a memory. -/
def start (store : Store) (input : List Char) (output : String) : IntegerMachine where
  memory := store.contents
  declared := store.lastDeclaration?
  input := input
  output := output

/-! ## Numbers -/

/-- The two's complement of 16 bits: the integer from -32768 to 32767 that is congruent
    modulo 2¹⁶. -/
def signed (z : Int) : Int := z.bmod 65536

/-- The unsigned pattern: the integer from 0 to 65535 that is congruent modulo 2¹⁶. -/
def unsigned (z : Int) : Nat := (z % 65536).toNat

/-- The character of a code, if there is one. -/
def character? (code : Int) : Option Char :=
  if 0 ≤ code ∧ code.toNat.isValidChar then some (Char.ofNat code.toNat) else none

/-! ## Memory -/

/-- The content at an address, which is there for `0 ≤ a < len`. -/
def content? (m : IntegerMachine) (a : Int) : Option Content := if 0 ≤ a then m.memory[a.toNat]? else none

def outOfRange (m : IntegerMachine) (a : Int) : Failure := .address (.outOfRange a m.memory.length)

/-- v(a), defined where the address holds a number. -/
def value (m : IntegerMachine) (a : Int) : Except Failure Int :=
  match m.content? a with
  | none => .error (m.outOfRange a)
  | some (.number value) => .ok value
  | some content => .error (.address (.notANumber a.toNat content.text))

/-- The memory with ACC at an address, whatever was there before. -/
def assign (m : IntegerMachine) (a : Int) : Except Failure IntegerMachine :=
  if 0 ≤ a ∧ a < m.memory.length then .ok { m with memory := m.memory.set a.toNat (.number m.acc) }
  else .error (m.outOfRange a)

/-- The memory with zeros up to an address. A negative address adds none. -/
def extended (m : IntegerMachine) (a : Int) : IntegerMachine :=
  { m with memory := m.memory ++ List.replicate (a + 1 - m.memory.length).toNat (.number 0) }

/-! ## Operations -/

/-- L + 1, for the label of an operand. -/
def operand (m : IntegerMachine) (name : String) : Except Failure Int :=
  match m.declared name with
  | some index => .ok (index + 1)
  | none => .error (.undefinedLabel name)

/-- L + 1 + IX -/
def indexed (m : IntegerMachine) (name : String) : Except Failure Int := do .ok ((← m.operand name) + m.ix)

/-- v(L + 1) -/
def operandValue (m : IntegerMachine) (name : String) : Except Failure Int := do m.value (← m.operand name)

def immediate (m : IntegerMachine) (op : ImmediateOp) (n : Int) : IntegerMachine :=
  match op with
  | .ldm => { m with acc := n }
  | .ldr => { m with ix := n }
  | .and => { m with acc := signed (unsigned m.acc &&& unsigned n : Nat) }
  | .or => { m with acc := signed (unsigned m.acc ||| unsigned n : Nat) }
  | .xor => { m with acc := signed (unsigned m.acc ^^^ unsigned n : Nat) }
  | .lsl => { m with acc := if n < 0 then 0 else signed (unsigned m.acc * 2 ^ n.toNat % 2 ^ 16 : Nat) }
  | .lsr => { m with acc := if n < 0 then 0 else signed (unsigned m.acc / 2 ^ n.toNat : Nat) }

def load (m : IntegerMachine) (a : Int) : Except Failure IntegerMachine := do .ok { m with acc := ← m.value a }

/-- Goes on at L + 1. -/
def jump (m : IntegerMachine) (name : String) : Except Failure IntegerMachine := do
  .ok { m with pc := ← m.operand name }

def label (m : IntegerMachine) (op : LabelOp) (name : String) : Except Failure IntegerMachine :=
  match op with
  | .ldd => do m.load (← m.operand name)
  | .ldi => do m.load ((← m.operandValue name) + 1)
  | .ldx => do
    let a ← m.indexed name
    (m.extended a).load a
  | .sto => do m.assign (← m.operand name)
  | .stx => do
    let a ← m.indexed name
    (m.extended a).assign a
  | .add => do .ok { m with acc := signed (m.acc + (← m.operandValue name)) }
  | .jmp => m.jump name
  | .jpe => if m.equal then m.jump name else .ok m
  | .jpn => if !m.equal then m.jump name else .ok m

/-- A register with an amount added to it. -/
def increase (m : IntegerMachine) (target : Register) (amount : Int) : IntegerMachine :=
  match target with
  | .acc => { m with acc := signed (m.acc + amount) }
  | .ix => { m with ix := signed (m.ix + amount) }

def comparand (m : IntegerMachine) : Comparand → Except Failure Int
  | .immediate n => .ok n.toInt
  | .label name => m.operandValue name

def compare (m : IntegerMachine) (c : Comparand) : Except Failure IntegerMachine := do
  .ok { m with equal := m.acc = (← m.comparand c) }

/-- ACC becomes the code of the next character, if a word can hold it. -/
def read (m : IntegerMachine) : Except Failure IntegerMachine :=
  match m.input with
  | [] => .error .inputExhausted
  | c :: rest =>
    if c.toNat ≤ 32767 then .ok { m with acc := c.toNat, input := rest } else .error (.invalidCharacter c.toNat)

/-- Emits the character whose code is ACC. -/
def write (m : IntegerMachine) : Except Failure IntegerMachine :=
  match character? m.acc with
  | some c => .ok { m with output := m.output.push c }
  | none => .error (.invalidCharacter m.acc)

/-- What an operation has made of the machine, which does not halt. -/
def proceed (made : Except Failure IntegerMachine) : Except Failure (Option Halt × IntegerMachine) :=
  made.map fun next => (none, next)

/-- What an instruction makes of the machine, and whether it halts it. -/
def execute (m : IntegerMachine) (i : Instruction) : Except Failure (Option Halt × IntegerMachine) :=
  match i with
  | .immediate op n => proceed (.ok (m.immediate op n.toInt))
  | .label op name => proceed (m.label op name)
  | .register .inc target => proceed (.ok (m.increase target 1))
  | .register .dec target => proceed (.ok (m.increase target (-1)))
  | .compare c => proceed (m.compare c)
  | .plain .read => proceed m.read
  | .plain .write => proceed m.write
  | .plain .stop => .ok (some .reachedEnd, m)

/-! ## Cycles -/

/-- The machine when the cell at the program counter has been fetched and the counter has
    moved on, from where a jump takes it. -/
def fetch (m : IntegerMachine) : IntegerMachine := { m with pc := m.pc + 1, fetched := m.fetched + 1 }

/-- One cycle, where it is defined. Beyond the memory nothing is fetched. -/
def cycle (m : IntegerMachine) : Except Failure (Option Halt × IntegerMachine) :=
  match m.content? m.pc with
  | none => .ok (some .endOfProgram, m)
  | some (.instruction i) => m.fetch.execute i
  | some (.label _) => .ok (none, m.fetch)
  | some content => .error (.unknownOpcode content.text)

/-- The machine after a cycle that is undefined. The cycle counts, and a character that
    `IN` has rejected is gone. -/
def failed (m : IntegerMachine) : IntegerMachine :=
  { m with
    fetched := m.fetched + 1
    input := if m.content? m.pc = some (.instruction (.plain .read)) then m.input.tail else m.input }

/-- The machine after a cycle. -/
def step (m : IntegerMachine) : IntegerMachine :=
  match m.cycle with
  | .ok (_, next) => next
  | .error _ => m.failed

/-- The machine after a number of cycles. -/
def steps (m : IntegerMachine) : Nat → IntegerMachine
  | 0 => m
  | n + 1 => m.step.steps n

end IntegerMachine

/-! ## Words as integers -/

namespace Word
open IntegerMachine

theorem unsigned_toInt (w : Word) : unsigned w.toInt = w.toNat := by
  have bound := w.isLt
  unfold unsigned
  rw [BitVec.toInt_eq_toNat_cond]
  split <;> omega

theorem signed_toNat (w : Word) : signed w.toNat = w.toInt := (BitVec.toInt_eq_toNat_bmod w).symm

theorem toInt_add (v w : Word) : (v + w).toInt = signed (v.toInt + w.toInt) := BitVec.toInt_add v w

theorem toInt_sub (v w : Word) : (v - w).toInt = signed (v.toInt - w.toInt) := BitVec.toInt_sub

theorem toInt_and (v w : Word) : (v &&& w).toInt = signed (unsigned v.toInt &&& unsigned w.toInt : Nat) := by
  rw [← signed_toNat, BitVec.toNat_and, unsigned_toInt, unsigned_toInt]

theorem toInt_or (v w : Word) : (v ||| w).toInt = signed (unsigned v.toInt ||| unsigned w.toInt : Nat) := by
  rw [← signed_toNat, BitVec.toNat_or, unsigned_toInt, unsigned_toInt]

theorem toInt_xor (v w : Word) : (v ^^^ w).toInt = signed (unsigned v.toInt ^^^ unsigned w.toInt : Nat) := by
  rw [← signed_toNat, BitVec.toNat_xor, unsigned_toInt, unsigned_toInt]

theorem msb_iff {w : Word} : w.msb = true ↔ w.toInt < 0 := by rw [BitVec.msb_eq_toInt, decide_eq_true_eq]

theorem toNat_toInt {w : Word} (nonnegative : ¬ w.toInt < 0) : w.toInt.toNat = w.toNat := by
  have msb : w.msb = false := Bool.eq_false_iff.mpr (mt msb_iff.mp nonnegative)
  rw [BitVec.toInt_eq_toNat_of_msb msb, Int.toNat_natCast]

theorem toInt_shiftLeft (w n : Word) :
    (w.shiftLeft n).toInt =
      if n.toInt < 0 then 0 else signed (unsigned w.toInt * 2 ^ n.toInt.toNat % 2 ^ 16 : Nat) := by
  unfold shiftLeft
  by_cases negative : n.toInt < 0
  · rw [if_pos (msb_iff.mpr negative), if_pos negative]
    rfl
  · rw [if_neg (mt msb_iff.mp negative), if_neg negative, ← signed_toNat, BitVec.toNat_shiftLeft, Nat.shiftLeft_eq,
      unsigned_toInt, toNat_toInt negative]

theorem toInt_shiftRight (w n : Word) :
    (w.shiftRight n).toInt =
      if n.toInt < 0 then 0 else signed (unsigned w.toInt / 2 ^ n.toInt.toNat : Nat) := by
  unfold shiftRight
  by_cases negative : n.toInt < 0
  · rw [if_pos (msb_iff.mpr negative), if_pos negative]
    rfl
  · rw [if_neg (mt msb_iff.mp negative), if_neg negative, ← signed_toNat, BitVec.toNat_ushiftRight,
      Nat.shiftRight_eq_div_pow, unsigned_toInt, toNat_toInt negative]

theorem character?_toInt (w : Word) : character? w.toInt = w.char? := by
  unfold character? char?
  by_cases negative : w.toInt < 0
  · rw [if_pos (msb_iff.mpr negative), if_neg (by omega)]
  · have bound := BitVec.toInt_lt (x := w)
    have valid : w.toInt.toNat.isValidChar := .inl (by omega)
    rw [if_neg (mt msb_iff.mp negative), if_pos ⟨by omega, valid⟩, toNat_toInt negative]

theorem ofCode?_of_le {code : Nat} (small : code ≤ 32767) : ∃ w, ofCode? code = some w ∧ w.toInt = code := by
  refine ⟨BitVec.ofNat 16 code, if_pos (by omega), ?_⟩
  rw [BitVec.toInt_ofNat', Int.bmod_eq_of_le_mul_two (by omega) (by omega)]

theorem ofCode?_of_lt {code : Nat} (large : 32767 < code) : ofCode? code = none := if_neg (by omega)

end Word
end Accumulator
