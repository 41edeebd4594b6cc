import Accumulator.Proofs.Listing
import Accumulator.Proofs.Literals

/-!
Decoding: which cell a line stands for, and which lines are refused, as the language has it. The
last word decides about a declaration, a single numeral is a number, and a line that begins with
no mnemonic is kept as it is. All other lines are instructions, and have just the operands that
their operation takes.
-/
namespace Accumulator

/-! ## Instructions -/

theorem Opcode.mnemonic_injective : Function.Injective mnemonic := by
  intro first second same
  have both := ofMnemonic?_mnemonic first
  rw [same, ofMnemonic?_mnemonic] at both
  exact (Option.some.inj both).symm

namespace Instruction

/-- The operands are what the operation takes, and make the instruction. -/
inductive Accepts : Opcode → List String → Instruction → Prop
  | immediate {op : ImmediateOp} {text : String} {v : Int} {w : Word} (denotes : Literal.Denotes text v)
      (holds : w.Holds v) (amount : op = .lsl ∨ op = .lsr → 0 ≤ w.toInt) :
      Accepts (.immediate op) [text] (.immediate op w)
  | label {op : LabelOp} {name : String} (plain : name.toList.head? ≠ some '#') :
      Accepts (.label op) [name] (.label op name)
  | register {op : RegisterOp} {target : Register} : Accepts (.register op) [target.name] (.register op target)
  | comparedNumber {text : String} {v : Int} {w : Word} (denotes : Literal.Denotes text v) (holds : w.Holds v) :
      Accepts .compare [text] (.compare (.immediate w))
  | comparedLabel {name : String} (plain : name.toList.head? ≠ some '#') :
      Accepts .compare [name] (.compare (.label name))
  | plain {op : PlainOp} : Accepts (.plain op) [] (.plain op)

end Instruction

/-! ## Lines -/

/-- The last word is the name with a colon behind it. -/
def Declares (words : List String) (name : String) : Prop := words.getLast? = some (name ++ ":")

/-- The only word is a decimal numeral, and the word of the machine holds its number. -/
def IsNumeral (words : List String) (w : Word) : Prop :=
  ∃ text v, words = [text] ∧ Numeral.Signed 10 text.toList v ∧ w.Holds v

namespace Cell

theorem declaration?_eq_some_iff {words : List String} {name : String} :
    declaration? words = some name ↔ Declares words name := by
  simp [declaration?, Declares, Option.bind_eq_some_iff, declared?_eq_some_iff]

theorem declaration?_eq_none_iff {words : List String} : declaration? words = none ↔ ∀ name, ¬ Declares words name := by
  simp [Option.eq_none_iff_forall_ne_some, declaration?_eq_some_iff]

theorem numeral?_eq_some_iff {words : List String} {w : Word} : numeral? words = some w ↔ IsNumeral words w := by
  unfold IsNumeral
  match words with
  | [] => simp [numeral?]
  | [text] => simp [numeral?, Literal.data?_eq_some_iff]
  | _ :: _ :: _ => simp [numeral?]

theorem numeral?_eq_none_iff {words : List String} : numeral? words = none ↔ ∀ w, ¬ IsNumeral words w := by
  simp [Option.eq_none_iff_forall_ne_some, numeral?_eq_some_iff]

end Cell

/-- An operand at the end of a line that declares nothing may be a name wherever it is no immediate. -/
theorem isName_iff (before : List String) {text : String} (undeclared : ∀ name, ¬ Declares (before ++ [text]) name) :
    IsName text ↔ text.toList.head? ≠ some '#' := by
  refine ⟨IsName.not_immediate, fun plain => ⟨plain, fun ends => ?_⟩⟩
  have declares : Cell.declared? text = some (String.ofList text.toList.dropLast) := if_pos ends
  rw [Cell.declared?_eq_some_iff] at declares
  exact undeclared (String.ofList text.toList.dropLast) (by rw [Declares, List.getLast?_concat, ← declares])

namespace Instruction

theorem takes_iff_accepts {opcode : Opcode} {mnemonic : String} {operands : List String} {i : Instruction}
    (undeclared : ∀ name, ¬ Declares (mnemonic :: operands) name) :
    Takes opcode operands i ↔ Accepts opcode operands i := by
  have negative (w : Word) : w.msb = false ↔ 0 ≤ w.toInt := by simp [BitVec.msb_eq_toInt]
  have name {text : String} (only : operands = [text]) : IsName text ↔ text.toList.head? ≠ some '#' := by
    subst only
    exact isName_iff [mnemonic] undeclared
  constructor
  · intro takes
    cases takes with
    | immediate reads amount =>
      obtain ⟨v, denotes, holds⟩ := Literal.immediate_eq_ok_iff.mp reads
      exact .immediate denotes holds fun shifts => (negative _).mp (amount shifts)
    | label isName => exact .label isName.not_immediate
    | register => exact .register
    | comparedNumber reads =>
      obtain ⟨v, denotes, holds⟩ := Literal.immediate_eq_ok_iff.mp reads
      exact .comparedNumber denotes holds
    | comparedLabel isName => exact .comparedLabel isName.not_immediate
    | plain => exact .plain
  · intro accepts
    cases accepts with
    | immediate denotes holds amount =>
      exact .immediate (Literal.immediate_eq_ok_iff.mpr ⟨_, denotes, holds⟩) fun shifts => (negative _).mpr (amount shifts)
    | label plain => exact .label ((name rfl).mpr plain)
    | register => exact .register
    | comparedNumber denotes holds => exact .comparedNumber (Literal.immediate_eq_ok_iff.mpr ⟨_, denotes, holds⟩)
    | comparedLabel plain => exact .comparedLabel ((name rfl).mpr plain)
    | plain => exact .plain

end Instruction

/-- What comes of the words of a line: the cell that they stand for, and else a refusal. -/
structure Decodes (words : List String) (result : Except DecodeError Cell) : Prop where
  label : ∀ name, result = .ok (.label name) ↔ Declares words name
  number : ∀ w, result = .ok (.number w) ↔ (∀ name, ¬ Declares words name) ∧ IsNumeral words w
  raw : ∀ kept, result = .ok (.raw kept) ↔ (∀ name, ¬ Declares words name) ∧ (∀ w, ¬ IsNumeral words w) ∧
    (∀ (opcode : Opcode) (operands : List String), words ≠ opcode.mnemonic :: operands) ∧ kept = words
  instruction : ∀ i, result = .ok (.instruction i) ↔ (∀ name, ¬ Declares words name) ∧
    ∃ opcode operands, words = opcode.mnemonic :: operands ∧ Instruction.Accepts opcode operands i
  refused : (∃ e, result = .error e) ↔ (∀ name, ¬ Declares words name) ∧
    ∃ (opcode : Opcode) (operands : List String), words = opcode.mnemonic :: operands ∧
      ∀ i, ¬ Instruction.Accepts opcode operands i

namespace Cell

section
variable {words : List String}

theorem written_label_iff {name : String} : Written words (.label name) ↔ Declares words name := by
  rw [← declaration?_eq_some_iff]
  exact ⟨fun (.label declares) => declares, .label⟩

theorem written_number_iff {w : Word} :
    Written words (.number w) ↔ (∀ name, ¬ Declares words name) ∧ IsNumeral words w := by
  rw [← declaration?_eq_none_iff, ← numeral?_eq_some_iff]
  exact ⟨fun (.number undeclared numeral) => ⟨undeclared, numeral⟩, fun ⟨undeclared, numeral⟩ => .number undeclared numeral⟩

theorem unnamed_iff : (∀ first ∈ words.head?, Opcode.ofMnemonic? first = none) ↔
    ∀ (opcode : Opcode) (operands : List String), words ≠ opcode.mnemonic :: operands := by
  cases words with
  | nil => simp
  | cons first rest => simp [Option.eq_none_iff_forall_ne_some, Opcode.ofMnemonic?_eq_some_iff]

theorem written_raw_iff {kept : List String} :
    Written words (.raw kept) ↔ (∀ name, ¬ Declares words name) ∧ (∀ w, ¬ IsNumeral words w) ∧
      (∀ (opcode : Opcode) (operands : List String), words ≠ opcode.mnemonic :: operands) ∧ kept = words := by
  rw [← declaration?_eq_none_iff, ← numeral?_eq_none_iff, ← unnamed_iff]
  constructor
  · rintro (_ | _ | _ | ⟨undeclared, not_numeral, unnamed⟩)
    exact ⟨undeclared, not_numeral, unnamed, rfl⟩
  · rintro ⟨undeclared, not_numeral, unnamed, rfl⟩
    exact .raw undeclared not_numeral unnamed

theorem written_instruction_iff {i : Instruction} :
    Written words (.instruction i) ↔ (∀ name, ¬ Declares words name) ∧
      ∃ opcode operands, words = opcode.mnemonic :: operands ∧ Instruction.Accepts opcode operands i := by
  constructor
  · rintro (_ | _ | ⟨undeclared, names, takes⟩ | _)
    obtain rfl := Opcode.ofMnemonic?_eq_some_iff.mp names
    rw [declaration?_eq_none_iff] at undeclared
    exact ⟨undeclared, _, _, rfl, (Instruction.takes_iff_accepts undeclared).mp takes⟩
  · rintro ⟨undeclared, opcode, operands, rfl, accepts⟩
    exact .instruction (declaration?_eq_none_iff.mpr undeclared) (Opcode.ofMnemonic?_mnemonic opcode)
      ((Instruction.takes_iff_accepts undeclared).mpr accepts)

end

theorem not_written_iff {words : List String} : (∀ cell, ¬ Written words cell) ↔ (∀ name, ¬ Declares words name) ∧
    ∃ (opcode : Opcode) (operands : List String), words = opcode.mnemonic :: operands ∧
      ∀ i, ¬ Instruction.Accepts opcode operands i := by
  constructor
  · intro unwritten
    have undeclared : ∀ name, ¬ Declares words name := fun name declares => unwritten _ (written_label_iff.mpr declares)
    have not_numeral : ∀ w, ¬ IsNumeral words w := fun w numeral =>
      unwritten _ (written_number_iff.mpr ⟨undeclared, numeral⟩)
    have named : ∃ (opcode : Opcode) (operands : List String), words = opcode.mnemonic :: operands := by
      by_contra unnamed
      push Not at unnamed
      exact unwritten _ (written_raw_iff.mpr ⟨undeclared, not_numeral, unnamed, rfl⟩)
    obtain ⟨opcode, operands, rfl⟩ := named
    exact ⟨undeclared, opcode, operands, rfl, fun i accepts =>
      unwritten _ (written_instruction_iff.mpr ⟨undeclared, opcode, operands, rfl, accepts⟩)⟩
  · rintro ⟨undeclared, opcode, operands, rfl, unaccepted⟩ cell written
    cases cell with
    | label name => exact undeclared name (written_label_iff.mp written)
    | number w =>
      have numeral := numeral?_eq_some_iff.mpr (written_number_iff.mp written).2
      rw [numeral?_mnemonic] at numeral
      cases numeral
    | raw kept => exact (written_raw_iff.mp written).2.2.1 opcode operands rfl
    | instruction i =>
      obtain ⟨-, other, others, same, accepts⟩ := written_instruction_iff.mp written
      obtain ⟨first, rfl⟩ := List.cons.inj same
      obtain rfl := Opcode.mnemonic_injective first
      exact unaccepted i accepts

theorem decodes_ofTokens (tokens : List Token) : Decodes (tokens.map Token.text) (ofTokens tokens) where
  label _ := ofTokens_eq_ok_iff.trans written_label_iff
  number _ := ofTokens_eq_ok_iff.trans written_number_iff
  raw _ := ofTokens_eq_ok_iff.trans written_raw_iff
  instruction _ := ofTokens_eq_ok_iff.trans written_instruction_iff
  refused := by
    rw [← not_written_iff]
    simp only [← ofTokens_eq_ok_iff]
    cases ofTokens tokens <;> simp

end Cell

/-! ## Programs -/

namespace Program

theorem exists_ofLine_iff {line : SourceLine} :
    (∃ listed, ofLine line = .ok listed) ↔ ∃ cell, Cell.ofTokens line.tokens = .ok cell := by
  simp only [ofLine_eq_ok_iff]
  exact ⟨fun ⟨listed, decoded, _⟩ => ⟨listed.cell, decoded⟩, fun ⟨cell, decoded⟩ => ⟨⟨cell, line.span⟩, decoded, rfl⟩⟩

/-- Every line of words is decoded as its words say, and a source is a program just if each line
    that the tokenizer finds in it is decoded to a cell; the program then has one cell for each
    line, in order, with the span of the line. -/
theorem decoding_exact :
    (∀ tokens, Decodes (tokens.map Token.text) (Cell.ofTokens tokens)) ∧
      ∀ source, ((∃ p, parse source = .ok p) ↔ ∀ line ∈ tokenize source, ∃ cell, Cell.ofTokens line.tokens = .ok cell) ∧
        ∀ p, parse source = .ok p ↔
          List.Forall₂ (fun line listed => Cell.ofTokens line.tokens = .ok listed.cell ∧ listed.span = line.span)
            (tokenize source) p.lines := by
  refine ⟨Cell.decodes_ofTokens, fun source => ⟨?succeeds, fun p => ?lines⟩⟩
  case succeeds =>
    have decode : (∀ line ∈ tokenize source, ∃ listed, ofLine line = .ok listed) ↔
        ∀ line ∈ tokenize source, ∃ cell, Cell.ofTokens line.tokens = .ok cell :=
      forall₂_congr fun _ _ => exists_ofLine_iff
    rw [← decode, ← exists_forall₂_iff]
    simp only [parse_eq_ok_iff]
    exact ⟨fun ⟨p, lines⟩ => ⟨p.lines, lines⟩, fun ⟨listed, lines⟩ => ⟨⟨listed⟩, lines⟩⟩
  case lines =>
    rw [parse_eq_ok_iff]
    simp only [ofLine_eq_ok_iff]

/-- A shift by a number of the upper half is refused, and what stands before a declaration is not looked at. -/
example :
    Cell.ofTokens [⟨"LSL", .empty⟩, ⟨"#65535", .empty⟩] = .error ⟨.negativeShift (.immediate .lsl), .empty⟩ ∧
      Cell.ofTokens [⟨"LSL", .empty⟩, ⟨"A:", .empty⟩] = .ok (.label "A") := by
  decide

end Program
end Accumulator
