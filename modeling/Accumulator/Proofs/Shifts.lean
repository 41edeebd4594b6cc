import Accumulator.Proofs.Faults
import Accumulator.Proofs.IntegerMachine
import Accumulator.Proofs.Literals

/-!
Shifts: which amounts `LSL` and `LSR` take, and what they do to ACC. An amount is a word like
any other operand, so that a number of the upper half stands for a negative one and is refused.
Main statement: just the numbers from 0 to 32767 are taken, and the instruction then shifts the
16 bits of ACC by as many places as the literal says.
-/
namespace Accumulator

/-- The directions in which the bits of ACC can be shifted. -/
inductive Direction where
  | left
  | right
deriving DecidableEq

namespace Direction

def op : Direction → ImmediateOp
  | left => .lsl
  | right => .lsr

/-- A pattern of 16 bits after a shift. What is shifted past either end is lost. -/
def shifted (d : Direction) (pattern places : Nat) : Nat :=
  match d with
  | left => pattern * 2 ^ places % 2 ^ 16
  | right => pattern / 2 ^ places

theorem shifted_of_le (d : Direction) {pattern places : Nat} (bound : pattern < 2 ^ 16) (many : 16 ≤ places) :
    d.shifted pattern places = 0 := by
  have power : 2 ^ 16 ∣ 2 ^ places := Nat.pow_dvd_pow 2 many
  cases d with
  | left => exact Nat.mod_eq_zero_of_dvd (Nat.dvd_mul_left_of_dvd power pattern)
  | right => exact Nat.div_eq_of_lt (Nat.lt_of_lt_of_le bound (Nat.le_of_dvd (Nat.two_pow_pos places) power))

/-- The word after a shift. -/
def shift (d : Direction) (w amount : Word) : Word :=
  match d with
  | left => w.shiftLeft amount
  | right => w.shiftRight amount

theorem toNat_shift (d : Direction) (w : Word) {amount : Word} (nonnegative : 0 ≤ amount.toInt) :
    (d.shift w amount).toNat = d.shifted w.toNat amount.toInt.toNat := by
  have positive : ¬ amount.toInt < 0 := Int.not_lt.mpr nonnegative
  have msb : ¬ amount.msb = true := mt Word.msb_iff.mp positive
  rw [Word.toNat_toInt positive]
  cases d with
  | left => rw [shift, Word.shiftLeft, if_neg msb, BitVec.toNat_shiftLeft, Nat.shiftLeft_eq]; rfl
  | right => rw [shift, Word.shiftRight, if_neg msb, BitVec.toNat_ushiftRight, Nat.shiftRight_eq_div_pow]; rfl

end Direction

/-! ## Amounts -/

namespace Word

/-- The word of a number of the lower half is the number itself, and that of one of the upper half is negative. -/
theorem Holds.toInt_eq {w : Word} {v : Int} (holds : w.Holds v) : w.toInt = if v ≤ 32767 then v else v - 65536 := by
  obtain ⟨low, high, congruent⟩ := holds
  have bounds := w.toInt_bounds
  rw [Int.ModEq] at congruent
  split_ifs <;> omega

theorem exists_holds {v : Int} (low : -32768 ≤ v) (high : v ≤ 65535) : ∃ w : Word, w.Holds v := by
  refine ⟨BitVec.ofInt 16 v, ofLiteral?_eq_some_iff.mp ?_⟩
  exact if_pos ⟨low, high⟩

end Word

namespace Operand

theorem shift_of_immediate {opcode : Opcode} {text : String} {w : Word} (reads : Literal.immediate opcode text = .ok w) :
    shift opcode text = if w.toInt < 0 then .error (.negativeShift opcode) else .ok w := by
  unfold shift
  rw [reads]
  exact if_congr Word.msb_iff rfl rfl

end Operand

namespace Direction

/-- A cycle at the instruction shifts ACC by the places and goes on with the next cell, and it
    does nothing else. Sixteen places or more leave nothing of ACC. -/
def Performs (d : Direction) (places : Nat) (i : Instruction) : Prop :=
  ∀ (m : Machine) (next : Option Char), m.store.get? m.registers.pc = some (.instruction i) →
    ∃ acc : Word, acc.toNat = d.shifted m.registers.acc.toNat places ∧ (16 ≤ places → acc = 0) ∧
      m.cycle next =
        { machine := { m with
            registers := { m.registers with
              acc := acc, pc := m.registers.pc + 1, steps := m.registers.steps + 1 } }
          outcome := .ok none }

theorem performs_of_nonneg (d : Direction) {amount : Word} (nonnegative : 0 ≤ amount.toInt) :
    d.Performs amount.toInt.toNat (.immediate d.op amount) := by
  intro m next found
  have shifted := d.toNat_shift m.registers.acc nonnegative
  refine ⟨d.shift m.registers.acc amount, shifted, fun many => ?_, ?_⟩
  · rw [d.shifted_of_le m.registers.acc.isLt many] at shifted
    exact BitVec.eq_of_toNat_eq shifted
  · rw [Machine.cycle_of_get? next found]
    cases d <;> rfl

theorem ofTokens_of_immediate (d : Direction) (mnemonic : Token) {operand : Token} {w : Word}
    (reads : Literal.immediate (.immediate d.op) operand.text = .ok w) :
    Instruction.ofTokens (.immediate d.op) mnemonic [operand] =
      if w.toInt < 0 then .error ⟨.negativeShift (.immediate d.op), operand.span⟩
      else .ok (.immediate d.op w) := by
  have same : Instruction.ofTokens (.immediate d.op) mnemonic [operand] =
      Operand.blame operand ((Operand.shift (.immediate d.op) operand.text).map (.immediate d.op)) := by
    cases d <;> rfl
  rw [same, Operand.shift_of_immediate reads]
  split <;> rfl

/-- How an instruction that shifts is decoded from an operand whose number a literal may stand
    for. Its word decides: where that is negative, the amount is refused, and so are all numbers
    from 32768 on. For any other number there is an instruction, which shifts by that number. -/
theorem shift_exact (d : Direction) (mnemonic operand : Token) {v : Int} (denotes : Literal.Denotes operand.text v)
    (low : -32768 ≤ v) (high : v ≤ 65535) :
    (Instruction.ofTokens (.immediate d.op) mnemonic [operand] =
        .error ⟨.negativeShift (.immediate d.op), operand.span⟩ ↔ v < 0 ∨ 32767 < v) ∧
      (0 ≤ v ∧ v ≤ 32767 →
        ∃ i, Instruction.ofTokens (.immediate d.op) mnemonic [operand] = .ok i ∧ d.Performs v.toNat i) := by
  obtain ⟨w, holds⟩ := Word.exists_holds low high
  have value := holds.toInt_eq
  rw [d.ofTokens_of_immediate mnemonic (Literal.immediate_eq_ok_iff.mpr ⟨v, denotes, holds⟩)]
  by_cases lower : v ≤ 32767
  · rw [if_pos lower] at value
    rw [value]
    refine ⟨?refused, ?taken⟩
    case refused =>
      split_ifs <;> simp <;> omega
    case taken =>
      rintro ⟨nonnegative, -⟩
      rw [if_neg (Int.not_lt.mpr nonnegative), ← value]
      exact ⟨_, rfl, d.performs_of_nonneg (by omega)⟩
  · rw [if_neg lower] at value
    rw [if_pos (by omega)]
    exact ⟨iff_of_true rfl (.inr (Int.not_le.mp lower)), fun inside => absurd inside.2 lower⟩

/-- Sixteen places are taken, with zeros in front and a sign. -/
theorem shift_exact_sixteen : Literal.Denotes "#&+0010" 16 ∧ (-32768 : Int) ≤ 16 ∧ (16 : Int) ≤ 65535 ∧
    ∃ i, Instruction.ofTokens (.immediate .lsr) ⟨"LSR", .empty⟩ [⟨"#&+0010", .empty⟩] = .ok i ∧ right.Performs 16 i := by
  have hash : "#&+0010".toList = '#' :: "&+0010".toList := by decide
  have denotes : Literal.Denotes "#&+0010" 16 := Literal.denotes_of_signed? hash (by decide)
  exact ⟨denotes, by decide, by decide,
    (shift_exact right ⟨"LSR", .empty⟩ ⟨"#&+0010", .empty⟩ denotes (by decide) (by decide)).2 (by decide)⟩

/-- A number of the upper half is not negative, and yet it is refused as a negative amount. -/
theorem upper_half_refused : Literal.Denotes "#32768" 32768 ∧ ¬ (32768 : Int) < 0 ∧
    Instruction.ofTokens (.immediate .lsl) ⟨"LSL", .empty⟩ [⟨"#32768", .empty⟩] =
      .error ⟨.negativeShift (.immediate .lsl), .empty⟩ := by
  have hash : "#32768".toList = '#' :: "32768".toList := by decide
  exact ⟨Literal.denotes_of_signed? hash (by decide), by decide, by decide⟩

end Direction
end Accumulator
