import Accumulator.Text

/-!
Words: the 16-bit contents of the registers and of every number in memory, read as
two's complement. Literals from -32768 to 65535 stand for words; the upper half
names the negative ones by their unsigned pattern.
-/
namespace Accumulator

/-- A register or memory word. -/
abbrev Word := BitVec 16

/-- The base in which words are shown. -/
inductive Radix where
  | decimal
  /-- The 16 bits of the two's complement pattern. -/
  | binary
deriving DecidableEq

namespace Word

/-- The smallest number that a literal may stand for. -/
def literalMin : Int := -32768
/-- The largest number that a literal may stand for. -/
def literalMax : Int := 65535

/-- The word of a literal's number, congruent to it modulo 2¹⁶. -/
def ofLiteral? (value : Int) : Option Word :=
  if literalMin ≤ value ∧ value ≤ literalMax then some (BitVec.ofInt 16 value) else none

/-- The word of a character code that a word can hold. -/
def ofCode? (code : Nat) : Option Word :=
  if code < 32768 then some (BitVec.ofNat 16 code) else none

/-- The character whose code the word is. All codes up to 32767 are those of characters. -/
def char? (w : Word) : Option Char := if w.msb then none else some (Char.ofNat w.toNat)

/-- Bits shifted past the top are lost. A negative amount, like one above 15, leaves nothing. -/
def shiftLeft (w amount : Word) : Word := if amount.msb then 0 else w <<< amount.toNat
/-- Zeros come in at the top. A negative amount, like one above 15, leaves nothing. -/
def shiftRight (w amount : Word) : Word := if amount.msb then 0 else w >>> amount.toNat

/-- The signed decimal numeral of the word. -/
def decimal (w : Word) : String := toString w.toInt
/-- The 16 bits of the word, the highest first. -/
def bits (w : Word) : String :=
  String.ofList ((List.range 16).map fun i => if w.getMsbD i then '1' else '0')
/-- The word in a radix. -/
def text (radix : Radix) (w : Word) : String :=
  match radix with
  | .decimal => w.decimal
  | .binary => w.bits

theorem toInt_bounds (w : Word) : -32768 ≤ w.toInt ∧ w.toInt ≤ 32767 :=
  ⟨BitVec.le_toInt w, Int.le_of_lt_add_one (BitVec.toInt_lt (x := w))⟩

end Word
end Accumulator
