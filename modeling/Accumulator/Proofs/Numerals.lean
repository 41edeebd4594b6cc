import Accumulator.Decode

/-!
Numerals: the decimal numeral of a word reads back as the word. Its characters are decimal
digits after a sign, so it is a token that neither looks like an immediate nor ends like a
declaration.
-/
namespace Accumulator

namespace Numeral

theorem toNat_of_isDigit {c : Char} (digit : c.isDigit = true) : 48 ≤ c.toNat ∧ c.toNat ≤ 57 := by
  simpa [Char.isDigit, UInt32.le_iff_toNat_le] using digit

theorem digit?_of_isDigit {c : Char} (digit : c.isDigit = true) : digit? 10 c = some (c.toNat - '0'.toNat) := by
  obtain ⟨low, high⟩ := toNat_of_isDigit digit
  unfold digit?
  rw [if_pos ⟨low, high⟩, Option.filter_some, if_pos (by simp; omega)]

theorem digits?_eq_some {cs : List Char} (digits : ∀ c ∈ cs, c.isDigit = true) (read : Nat) :
    digits? 10 read cs = some (Nat.ofDigitChars 10 cs read) := by
  induction cs generalizing read with
  | nil => rfl
  | cons c cs ih =>
    unfold digits?
    rw [digit?_of_isDigit (digits c List.mem_cons_self), Nat.ofDigitChars_cons, Nat.mul_comm 10 read]
    exact ih (fun d later => digits d (List.mem_cons_of_mem c later)) _

theorem isDigit_of_mem_toString {n : Nat} {c : Char} (member : c ∈ (toString n).toList) : c.isDigit = true := by
  rw [Nat.toString_eq_ofList_toDigits, String.toList_ofList] at member
  exact Nat.isDigit_of_mem_toDigits (by decide) (by decide) member

theorem natural?_toString (n : Nat) : natural? 10 (toString n).toList = some n := by
  have digits := digits?_eq_some (fun c => isDigit_of_mem_toString (n := n) (c := c)) 0
  rw [Nat.toString_eq_ofList_toDigits, String.toList_ofList] at digits ⊢
  unfold natural?
  rw [if_neg Nat.toDigits_ne_nil, digits, Nat.ofDigitChars_toDigits (by decide) (by decide)]

theorem toList_toString_negSucc (n : Nat) : (toString (Int.negSucc n)).toList = '-' :: (toString (n + 1)).toList :=
  String.toList_append

theorem mem_toString {i : Int} {c : Char} (member : c ∈ (toString i).toList) : c.isDigit = true ∨ c = '-' := by
  cases i with
  | ofNat n => exact .inl (isDigit_of_mem_toString (n := n) member)
  | negSucc n =>
    rw [toList_toString_negSucc] at member
    rcases List.mem_cons.mp member with sign | digit
    · exact .inr sign
    · exact .inl (isDigit_of_mem_toString digit)

theorem toString_ne_nil (i : Int) : (toString i).toList ≠ [] := by
  cases i with
  | ofNat n =>
    show (toString n).toList ≠ []
    rw [Nat.toString_eq_ofList_toDigits, String.toList_ofList]
    exact Nat.toDigits_ne_nil
  | negSucc n =>
    rw [toList_toString_negSucc]
    exact List.cons_ne_nil _ _

theorem signed?_toString (i : Int) : signed? 10 (toString i).toList = some i := by
  cases i with
  | ofNat n =>
    show signed? 10 (toString n).toList = some (Int.ofNat n)
    have value := natural?_toString n
    have digits := fun c => isDigit_of_mem_toString (n := n) (c := c)
    -- A numeral that begins with a digit has neither of the signs.
    generalize (toString n).toList = cs at value digits
    have unsigned : unsigned? 10 cs = some n := by
      unfold unsigned?
      split
      · exact absurd (digits '+' List.mem_cons_self) (by decide)
      · exact value
    unfold signed?
    split
    · exact absurd (digits '-' List.mem_cons_self) (by decide)
    · rw [unsigned]
      rfl
  | negSucc n =>
    rw [toList_toString_negSucc, signed?, natural?_toString]
    rfl

end Numeral

namespace Word

theorem ofLiteral?_toInt (w : Word) : ofLiteral? w.toInt = some w := by
  obtain ⟨low, high⟩ := w.toInt_bounds
  unfold ofLiteral? literalMin literalMax
  rw [if_pos ⟨low, by omega⟩, BitVec.ofInt_toInt]

end Word

namespace Literal

theorem number?_decimal (w : Word) : number? 10 w.decimal.toList = some w.toInt := by
  obtain ⟨low, high⟩ := w.toInt_bounds
  unfold number? Word.decimal
  rw [Numeral.signed?_toString, Option.filter_some, if_pos (by simp; omega)]

theorem data?_decimal (w : Word) : data? w.decimal = some w := by
  unfold data?
  rw [number?_decimal]
  exact Word.ofLiteral?_toInt w

/-- A decimal numeral does not look like one of another radix. -/
theorem radixOf_decimal (w : Word) : radixOf w.decimal.toList = (10, w.decimal.toList) := by
  have members := fun c => Numeral.mem_toString (i := w.toInt) (c := c)
  unfold Word.decimal
  generalize (toString w.toInt).toList = cs at members ⊢
  unfold radixOf
  split
  · exact absurd (members 'B' List.mem_cons_self) (by decide)
  · exact absurd (members 'b' List.mem_cons_self) (by decide)
  · exact absurd (members '&' List.mem_cons_self) (by decide)
  · rfl

theorem toList_hash (text : String) : ("#" ++ text).toList = '#' :: text.toList := String.toList_append

theorem immediate_decimal (opcode : Opcode) (w : Word) : immediate opcode ("#" ++ w.decimal) = .ok w := by
  unfold immediate
  rw [toList_hash]
  simp only [radixOf_decimal, number?_decimal, Word.ofLiteral?_toInt]

end Literal
end Accumulator
