import Accumulator.Proofs.Literals

/-!
Refusals: how an immediate is refused whose number is none that literals may stand for. A
number that fits in 32 bits is reported as out of range. A larger one is taken for no number
at all, like a text that is not written as one.
-/
namespace Accumulator

namespace Numeral

theorem Signed.unique {radix : Nat} (small : radix ≤ 16) {cs : List Char} {v w : Int} (first : Signed radix cs v)
    (second : Signed radix cs w) : v = w := by
  rw [← signed?_eq_some_iff small] at first second
  exact Option.some.inj (first.symm.trans second)

end Numeral

namespace Word

theorem ofLiteral?_eq_none_iff {v : Int} : ofLiteral? v = none ↔ v < -32768 ∨ 65535 < v := by
  unfold ofLiteral? literalMin literalMax
  split_ifs with range
  · simp only [false_iff]
    omega
  · simp only [true_iff]
    omega

end Word

namespace Literal

/-- The number fits in 32 bits with a sign. -/
def Fits (v : Int) : Prop := -2147483648 ≤ v ∧ v ≤ 2147483647

/-- A text stands for one integer at most. -/
theorem Denotes.unique {text : String} {v w : Int} (first : Denotes text v) (second : Denotes text w) : v = w := by
  obtain ⟨body, hash, numeral⟩ := first
  rw [denotes_of_hash hash] at second
  exact (body_iff.mp numeral).unique (radixOf_le body) second

section
variable {opcode : Opcode} {text found : String}

theorem number?_radixOf_eq_some_iff {body : List Char} (hash : text.toList = '#' :: body) {v : Int} :
    number? (radixOf body).1 (radixOf body).2 = some v ↔ Denotes text v ∧ Fits v := by
  rw [number?_eq_some_iff (radixOf_le body), denotes_of_hash hash]
  rfl

/-- Only a number of up to 32 bits is found to be out of range. -/
theorem immediate_eq_literalOutOfRange_iff :
    immediate opcode text = .error (.literalOutOfRange found) ↔
      found = text ∧ ∃ v, Denotes text v ∧ Fits v ∧ (v < -32768 ∨ 65535 < v) := by
  by_cases plain : text.toList.head? = some '#'
  · obtain ⟨body, hash⟩ := List.head?_eq_some_iff.mp plain
    simp only [← and_assoc (a := Denotes text _), ← number?_radixOf_eq_some_iff hash]
    rw [immediate_of_hash opcode hash]
    cases number? (radixOf body).1 (radixOf body).2 with
    | none => simp
    | some v =>
      simp only [Option.some.injEq, exists_eq_left', ← Word.ofLiteral?_eq_none_iff]
      cases Word.ofLiteral? v <;> simp [eq_comm]
  · rw [immediate_of_plain opcode plain]
    refine ⟨nofun, ?_⟩
    rintro ⟨-, v, ⟨body, hash, -⟩, -⟩
    simp [hash] at plain

/-- A text behind `#` is found to be invalid where it is not written as a number, and also where
    its number does not fit in 32 bits. -/
theorem immediate_eq_invalidLiteral_iff :
    immediate opcode text = .error (.invalidLiteral found) ↔
      found = text ∧ text.toList.head? = some '#' ∧
        ((∀ v, ¬ Denotes text v) ∨ ∃ v, Denotes text v ∧ ¬ Fits v) := by
  by_cases plain : text.toList.head? = some '#'
  · obtain ⟨body, hash⟩ := List.head?_eq_some_iff.mp plain
    have none_iff : number? (radixOf body).1 (radixOf body).2 = none ↔
        (∀ v, ¬ Denotes text v) ∨ ∃ v, Denotes text v ∧ ¬ Fits v := by
      simp only [Option.eq_none_iff_forall_ne_some, ne_eq, number?_radixOf_eq_some_iff hash, not_and]
      constructor
      · intro unfit
        by_cases written : ∃ v, Denotes text v
        · obtain ⟨v, denotes⟩ := written
          exact .inr ⟨v, denotes, unfit v denotes⟩
        · exact .inl (not_exists.mp written)
      · rintro (unwritten | ⟨w, denotes, unfit⟩) v written
        · exact absurd written (unwritten v)
        · rwa [written.unique denotes]
    rw [immediate_of_hash opcode hash, ← none_iff]
    cases number? (radixOf body).1 (radixOf body).2 with
    | none => simp [plain, eq_comm]
    | some v =>
      dsimp only
      cases Word.ofLiteral? v <;> simp
  · rw [immediate_of_plain opcode plain]
    simp [plain]

end

/-- How an immediate is refused for its number, in any radix and with any number of digits. Out
    of range is a number that a literal may not stand for and that fits in 32 bits; invalid is
    what stands for no number, and what stands for a larger one. -/
theorem refusals_exact (opcode : Opcode) (text found : String) :
    (immediate opcode text = .error (.literalOutOfRange found) ↔
        found = text ∧ ∃ v, Denotes text v ∧ Fits v ∧ (v < -32768 ∨ 65535 < v)) ∧
      (immediate opcode text = .error (.invalidLiteral found) ↔
        found = text ∧ text.toList.head? = some '#' ∧
          ((∀ v, ¬ Denotes text v) ∨ ∃ v, Denotes text v ∧ ¬ Fits v)) :=
  ⟨immediate_eq_literalOutOfRange_iff, immediate_eq_invalidLiteral_iff⟩

/-- The least number that does not fit in 32 bits is out of the range of literals, and yet its
    numeral is not reported so but as no numeral at all. -/
theorem oversized_invalid : Denotes "#2147483648" 2147483648 ∧ (65535 : Int) < 2147483648 ∧
    immediate (.immediate .ldm) "#2147483648" = .error (.invalidLiteral "#2147483648") ∧
    immediate (.immediate .ldm) "#2147483648" ≠ .error (.literalOutOfRange "#2147483648") := by
  have hash : "#2147483648".toList = '#' :: "2147483648".toList := by decide
  exact ⟨denotes_of_signed? hash (by decide), by decide, by decide, by decide⟩

end Literal
end Accumulator
