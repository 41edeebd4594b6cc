import Accumulator.Proofs.Numerals
import Mathlib.Data.Nat.Digits.Defs
import Mathlib.Data.List.Forall2
import Mathlib.Data.Int.ModEq

/-!
Literals: which texts stand for numbers. A numeral is read digit by digit into the number that
its digits stand for by their places, of any size; an immediate names its radix by the mark
behind `#`. A text is accepted just if its number is one that literals may stand for, and the
word then has the 16 lowest bits of it.
-/
namespace Accumulator

/-! ## Numerals -/

namespace Numeral

/-- The character is the digit of a value, in a radix up to 16 and with letters of either case. -/
def IsDigit (radix : Nat) (c : Char) (value : Nat) : Prop :=
  value < radix ∧ (c = value.digitChar ∨ c = value.digitChar.toUpper)

theorem toNat_digitChar : ∀ d < 16, d.digitChar.toNat = (if d < 10 then 48 + d else 87 + d) ∧
    d.digitChar.toUpper.toNat = (if d < 10 then 48 + d else 55 + d) := by
  decide

theorem digit?_eq_some_iff {radix : Nat} (small : radix ≤ 16) {c : Char} {d : Nat} :
    digit? radix c = some d ↔ IsDigit radix c d := by
  have le_iff (a b : Char) : a ≤ b ↔ a.toNat ≤ b.toNat := UInt32.le_iff_toNat_le
  have codes : '0'.toNat = 48 ∧ '9'.toNat = 57 ∧ 'a'.toNat = 97 ∧ 'z'.toNat = 122 ∧ 'A'.toNat = 65 ∧ 'Z'.toNat = 90 := by
    decide
  unfold IsDigit digit?
  by_cases inside : d < radix
  · obtain ⟨lower, upper⟩ := toNat_digitChar d (by omega)
    simp only [← Char.toNat_inj, lower, upper, le_iff, codes, Option.filter_eq_some_iff, decide_eq_true_eq]
    generalize c.toNat = n
    split_ifs <;> simp <;> omega
  · simp [Option.filter_eq_some_iff, inside]

/-- One or more digits, the highest first, stand for a number. -/
def Stands (radix : Nat) (cs : List Char) (n : Nat) : Prop :=
  cs ≠ [] ∧ ∃ ds, List.Forall₂ (IsDigit radix) cs ds ∧ n = Nat.ofDigits radix ds.reverse

theorem digits?_eq_some_iff {radix : Nat} (small : radix ≤ 16) {cs : List Char} {read n : Nat} :
    digits? radix read cs = some n ↔
      ∃ ds, List.Forall₂ (IsDigit radix) cs ds ∧ n = Nat.ofDigits radix (ds.reverse ++ [read]) := by
  induction cs generalizing read with
  | nil => simp [digits?, eq_comm]
  | cons c cs ih =>
    -- The number read so far stands above all digits that are left.
    have value (d : Nat) (ds : List Nat) : Nat.ofDigits radix (ds.reverse ++ [read * radix + d]) =
        Nat.ofDigits radix ((d :: ds).reverse ++ [read]) := by
      simp only [List.reverse_cons, List.append_assoc, List.singleton_append, Nat.ofDigits_append, Nat.ofDigits_cons,
        Nat.ofDigits_nil]
      ring
    rw [digits?]
    constructor
    · intro number
      obtain ⟨d, digit, number⟩ := Option.bind_eq_some_iff.mp number
      obtain ⟨ds, digits, rfl⟩ := ih.mp number
      exact ⟨d :: ds, .cons ((digit?_eq_some_iff small).mp digit) digits, value d ds⟩
    · rintro ⟨_, _ | ⟨digit, digits⟩, rfl⟩
      exact Option.bind_eq_some_iff.mpr ⟨_, (digit?_eq_some_iff small).mpr digit, ih.mpr ⟨_, digits, (value _ _).symm⟩⟩

theorem natural?_eq_some_iff {radix : Nat} (small : radix ≤ 16) {cs : List Char} {n : Nat} :
    natural? radix cs = some n ↔ Stands radix cs n := by
  unfold natural? Stands
  split_ifs with empty
  · simp [empty]
  · simp [empty, digits?_eq_some_iff small, Nat.ofDigits_append]

/-- Digits with at most one sign before them stand for an integer. -/
inductive Signed (radix : Nat) : List Char → Int → Prop
  | bare {cs : List Char} {n : Nat} (digits : Stands radix cs n) : Signed radix cs n
  | plus {cs : List Char} {n : Nat} (digits : Stands radix cs n) : Signed radix ('+' :: cs) n
  | minus {cs : List Char} {n : Nat} (digits : Stands radix cs n) : Signed radix ('-' :: cs) (-n)

theorem not_stands_of_sign {radix : Nat} (small : radix ≤ 16) {c : Char} (sign : c = '+' ∨ c = '-') (cs : List Char)
    (n : Nat) : ¬ Stands radix (c :: cs) n := by
  rintro ⟨-, _, _ | ⟨digit, -⟩, -⟩
  rw [← digit?_eq_some_iff small] at digit
  rcases sign with rfl | rfl <;> simp [digit?] at digit

theorem unsigned?_eq_some_iff {radix : Nat} (small : radix ≤ 16) {cs : List Char} {n : Nat} :
    unsigned? radix cs = some n ↔ Stands radix cs n ∨ ∃ rest, cs = '+' :: rest ∧ Stands radix rest n := by
  unfold unsigned?
  split
  · simp [natural?_eq_some_iff small, not_stands_of_sign small (.inl rfl)]
  · rename_i bare
    rw [natural?_eq_some_iff small]
    exact ⟨.inl, fun either => either.elim id fun ⟨rest, same, _⟩ => (bare rest same).elim⟩

theorem signed?_minus (radix : Nat) (cs : List Char) :
    signed? radix ('-' :: cs) = (natural? radix cs).map fun n : Nat => -(n : Int) := by
  show (do pure ((← natural? radix cs : Nat) : Int) : Option Int).map (-·) = _
  cases natural? radix cs <;> rfl

theorem signed?_of_bare {radix : Nat} {cs : List Char} (bare : ∀ rest, cs ≠ '-' :: rest) :
    signed? radix cs = (unsigned? radix cs).map Int.ofNat := by
  unfold signed?
  split
  · exact absurd rfl (bare _)
  · rfl

theorem signed?_eq_some_iff {radix : Nat} (small : radix ≤ 16) {cs : List Char} {v : Int} :
    signed? radix cs = some v ↔ Signed radix cs v := by
  by_cases minus : ∃ rest, cs = '-' :: rest
  · obtain ⟨rest, rfl⟩ := minus
    rw [signed?_minus, Option.map_eq_some_iff]
    constructor
    · rintro ⟨n, number, rfl⟩
      exact .minus ((natural?_eq_some_iff small).mp number)
    · rintro (digits | _ | digits)
      · exact absurd digits (not_stands_of_sign small (.inr rfl) _ _)
      · exact ⟨_, (natural?_eq_some_iff small).mpr digits, rfl⟩
  · rw [signed?_of_bare (not_exists.mp minus), Option.map_eq_some_iff]
    simp only [unsigned?_eq_some_iff small]
    constructor
    · rintro ⟨n, digits | ⟨rest, rfl, digits⟩, rfl⟩
      · exact .bare digits
      · exact .plus digits
    · rintro (digits | digits | digits)
      · exact ⟨_, .inl digits, rfl⟩
      · exact ⟨_, .inr ⟨_, rfl, digits⟩, rfl⟩
      · exact absurd ⟨_, rfl⟩ minus

theorem Signed.head {radix : Nat} {c : Char} {cs : List Char} {v : Int} (signed : Signed radix (c :: cs) v) :
    c = '+' ∨ c = '-' ∨ ∃ d, IsDigit radix c d := by
  rcases signed with ⟨-, _, _ | ⟨digit, -⟩, -⟩ | _ | _
  · exact .inr (.inr ⟨_, digit⟩)
  · exact .inl rfl
  · exact .inr (.inl rfl)

end Numeral

/-! ## Words -/

namespace Word

/-- The word has the number's 16 lowest bits, and the number is one that literals may stand for. -/
def Holds (w : Word) (v : Int) : Prop := -32768 ≤ v ∧ v ≤ 65535 ∧ w.toInt ≡ v [ZMOD 2 ^ 16]

theorem ofLiteral?_eq_some_iff {v : Int} {w : Word} : ofLiteral? v = some w ↔ w.Holds v := by
  have congruent : BitVec.ofInt 16 v = w ↔ w.toInt ≡ v [ZMOD 2 ^ 16] := by
    have bounds := w.toInt_bounds
    rw [← BitVec.toInt_inj, BitVec.toInt_ofInt, Int.ModEq, Int.bmod_def]
    norm_num
    split_ifs <;> omega
  unfold ofLiteral? Holds literalMin literalMax
  rw [← congruent, ← and_assoc]
  split_ifs with range <;> simp [range]

end Word

/-! ## Immediates and data -/

namespace Literal

/-- The text after `#` stands for an integer, in the radix that its mark says. -/
inductive Body : List Char → Int → Prop
  | decimal {cs : List Char} {v : Int} (numeral : Numeral.Signed 10 cs v) : Body cs v
  | binary {mark : Char} {cs : List Char} {v : Int} (isMark : mark = 'B' ∨ mark = 'b')
      (numeral : Numeral.Signed 2 cs v) : Body (mark :: cs) v
  | hexadecimal {cs : List Char} {v : Int} (numeral : Numeral.Signed 16 cs v) : Body ('&' :: cs) v

/-- The text is written as an immediate, of any size, that stands for the integer. -/
def Denotes (text : String) (v : Int) : Prop := ∃ body, text.toList = '#' :: body ∧ Body body v

theorem number?_eq_some_iff {radix : Nat} (small : radix ≤ 16) {cs : List Char} {v : Int} :
    number? radix cs = some v ↔ Numeral.Signed radix cs v ∧ -2147483648 ≤ v ∧ v ≤ 2147483647 := by
  simp [number?, Option.filter_eq_some_iff, Numeral.signed?_eq_some_iff small]

/-- The mark of another radix is no part of a decimal numeral. -/
theorem not_signed_of_mark {mark : Char} (isMark : mark = 'B' ∨ mark = 'b' ∨ mark = '&') (cs : List Char) (v : Int) :
    ¬ Numeral.Signed 10 (mark :: cs) v := by
  intro signed
  have head := signed.head
  simp only [← Numeral.digit?_eq_some_iff (show 10 ≤ 16 by decide)] at head
  rcases isMark with rfl | rfl | rfl <;> simp [Numeral.digit?] at head

theorem radixOf_le (body : List Char) : (radixOf body).1 ≤ 16 := by
  unfold radixOf
  split <;> simp

theorem body_iff {body : List Char} {v : Int} : Body body v ↔ Numeral.Signed (radixOf body).1 (radixOf body).2 v := by
  constructor
  · rintro (numeral | ⟨isMark, numeral⟩ | numeral)
    · unfold radixOf
      split
      · exact absurd numeral (not_signed_of_mark (by simp) _ _)
      · exact absurd numeral (not_signed_of_mark (by simp) _ _)
      · exact absurd numeral (not_signed_of_mark (by simp) _ _)
      · exact numeral
    · rcases isMark with rfl | rfl <;> exact numeral
    · exact numeral
  · unfold radixOf
    split
    · exact .binary (.inl rfl)
    · exact .binary (.inr rfl)
    · exact .hexadecimal
    · exact .decimal

theorem denotes_of_hash {text : String} {body : List Char} (hash : text.toList = '#' :: body) {v : Int} :
    Denotes text v ↔ Numeral.Signed (radixOf body).1 (radixOf body).2 v := by
  simp [Denotes, hash, body_iff]

theorem denotes_of_signed? {text : String} {body : List Char} (hash : text.toList = '#' :: body) {v : Int}
    (reads : Numeral.signed? (radixOf body).1 (radixOf body).2 = some v) : Denotes text v :=
  (denotes_of_hash hash).mpr ((Numeral.signed?_eq_some_iff (radixOf_le body)).mp reads)

theorem immediate_of_hash (opcode : Opcode) {text : String} {body : List Char} (hash : text.toList = '#' :: body) :
    immediate opcode text = match number? (radixOf body).1 (radixOf body).2 with
      | none => .error (.invalidLiteral text)
      | some value =>
        match Word.ofLiteral? value with
        | none => .error (.literalOutOfRange text)
        | some word => .ok word := by
  unfold immediate
  rw [hash]
  rfl

theorem immediate_of_plain (opcode : Opcode) {text : String} (plain : text.toList.head? ≠ some '#') :
    immediate opcode text = .error (.expectedImmediate opcode text) := by
  unfold immediate
  split
  · rename_i hash
    exact absurd (congrArg List.head? hash) plain
  · rfl

theorem immediate_eq_ok_iff {opcode : Opcode} {text : String} {w : Word} :
    immediate opcode text = .ok w ↔ ∃ v, Denotes text v ∧ w.Holds v := by
  by_cases plain : text.toList.head? = some '#'
  · obtain ⟨body, hash⟩ := List.head?_eq_some_iff.mp plain
    have number {v : Int} (range : w.Holds v) : number? (radixOf body).1 (radixOf body).2 = some v ↔ Denotes text v := by
      obtain ⟨low, high, -⟩ := range
      rw [denotes_of_hash hash, number?_eq_some_iff (radixOf_le body)]
      exact ⟨And.left, fun signed => ⟨signed, by omega, by omega⟩⟩
    rw [immediate_of_hash opcode hash]
    constructor
    · intro read
      split at read
      · cases read
      · rename_i v found
        split at read
        · cases read
        · rename_i word holds
          cases read
          have range := Word.ofLiteral?_eq_some_iff.mp holds
          exact ⟨v, (number range).mp found, range⟩
    · rintro ⟨v, written, range⟩
      rw [(number range).mpr written]
      simp only [Word.ofLiteral?_eq_some_iff.mpr range]
  · rw [immediate_of_plain opcode plain]
    refine ⟨nofun, ?_⟩
    rintro ⟨v, ⟨body, hash, -⟩, -⟩
    simp [hash] at plain

theorem immediate_eq_expectedImmediate_iff {opcode o : Opcode} {text found : String} :
    immediate opcode text = .error (.expectedImmediate o found) ↔
      o = opcode ∧ found = text ∧ text.toList.head? ≠ some '#' := by
  by_cases plain : text.toList.head? = some '#'
  · obtain ⟨body, hash⟩ := List.head?_eq_some_iff.mp plain
    rw [immediate_of_hash opcode hash]
    split
    · simp [plain]
    · split <;> simp [plain]
  · rw [immediate_of_plain opcode plain]
    simp [plain, eq_comm]

theorem data?_eq_some_iff {text : String} {w : Word} :
    data? text = some w ↔ ∃ v, Numeral.Signed 10 text.toList v ∧ w.Holds v := by
  unfold data?
  simp only [Option.bind_eq_some_iff, number?_eq_some_iff (show 10 ≤ 16 by decide), Word.ofLiteral?_eq_some_iff]
  refine exists_congr fun v => ⟨fun ⟨⟨signed, _⟩, range⟩ => ⟨signed, range⟩, fun ⟨signed, range⟩ => ⟨⟨signed, ?_⟩, range⟩⟩
  obtain ⟨low, high, -⟩ := range
  omega

/-- An immediate is read exactly as it is written: into the word that holds its number, and it is
    for want of the `#` that any other text is taken for no immediate at all. -/
theorem immediate_exact (opcode : Opcode) (text : String) :
    (∀ w, immediate opcode text = .ok w ↔ ∃ v, Denotes text v ∧ w.Holds v) ∧
      ∀ o found, immediate opcode text = .error (.expectedImmediate o found) ↔
        o = opcode ∧ found = text ∧ text.toList.head? ≠ some '#' :=
  ⟨fun _ => immediate_eq_ok_iff, fun _ _ => immediate_eq_expectedImmediate_iff⟩

/-- The upper half of the numbers stands for the negative words, and zeros in front count for nothing. -/
example : immediate .compare "#&+000fFfF" = .ok (-1) ∧ immediate .compare "#b-" = .error (.invalidLiteral "#b-") := by
  decide

end Literal
end Accumulator
