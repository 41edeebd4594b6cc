import Accumulator.Proofs.Numerals
import Accumulator.Proofs.Results
import Accumulator.Proofs.Tokens

/-!
The grammar of lines: which words stand for which cell, wherever they stand in the source.
A cell that is read from a line stands for itself as it is written, since nothing that is
written for one kind of cell is read as another kind.
-/
namespace Accumulator

/-! ## Words that name something -/

theorem Register.ofName?_eq_some_iff {name : String} {r : Register} : ofName? name = some r ↔ name = r.name := by
  constructor
  · intro found
    have named := List.find?_some found
    exact (of_decide_eq_true named).symm
  · rintro rfl
    exact ofName?_name r

theorem Opcode.ofMnemonic?_eq_some_iff {word : String} {opcode : Opcode} :
    ofMnemonic? word = some opcode ↔ word = opcode.mnemonic := by
  constructor
  · intro found
    have named := List.find?_some found
    exact (of_decide_eq_true named).symm
  · rintro rfl
    exact ofMnemonic?_mnemonic opcode

/-- A mnemonic neither declares a label nor stands for a number. -/
theorem Opcode.mnemonic_reserved (opcode : Opcode) :
    Cell.declared? opcode.mnemonic = none ∧ Literal.data? opcode.mnemonic = none := by
  rcases opcode with op | op | op | _ | op <;> (try cases op) <;> decide

theorem Cell.declared?_eq_some_iff {text name : String} : declared? text = some name ↔ text = name ++ ":" := by
  have colon : (name ++ ":").toList = name.toList ++ [':'] := String.toList_append
  unfold declared?
  constructor
  · intro declared
    split at declared
    · rename_i ends
      obtain ⟨cs, split⟩ := List.getLast?_eq_some_iff.mp ends
      rw [split, List.dropLast_concat] at declared
      rw [← String.toList_inj, colon, split, ← Option.some.inj declared, String.toList_ofList]
    · cases declared
  · rintro rfl
    rw [colon, if_pos List.getLast?_concat, List.dropLast_concat, String.ofList_toList]

theorem Cell.declared?_eq_none {text : String} (ends : text.toList.getLast? ≠ some ':') : declared? text = none :=
  if_neg ends

/-! ## Numerals -/

theorem Numeral.isWord_toString (i : Int) : IsWord (toString i) ∧ (toString i).toList.getLast? ≠ some ':' := by
  have member : ∀ c ∈ (toString i).toList, SourceLine.isSeparator c = false ∧ c ≠ ':' := by
    intro c inside
    rcases mem_toString inside with digit | rfl
    · obtain ⟨low, high⟩ := toNat_of_isDigit digit
      simp [SourceLine.isSeparator, Text.isBlank, Text.blankRanges, ← Char.toNat_inj]
      omega
    · decide
  exact ⟨⟨toString_ne_nil i, fun c inside => (member c inside).1⟩,
    fun ends => (member ':' (List.mem_of_getLast? ends)).2 rfl⟩

theorem Word.isWord_decimal (w : Word) : IsWord w.decimal ∧ w.decimal.toList.getLast? ≠ some ':' :=
  Numeral.isWord_toString w.toInt

theorem Literal.isWord_hash_decimal (w : Word) :
    IsWord ("#" ++ w.decimal) ∧ ("#" ++ w.decimal).toList.getLast? ≠ some ':' := by
  obtain ⟨⟨nonempty, solid⟩, ends⟩ := w.isWord_decimal
  refine ⟨⟨?_, ?_⟩, ?_⟩
  · rw [toList_hash]
    exact List.cons_ne_nil _ _
  · rw [toList_hash]
    rintro c inside
    rcases List.mem_cons.mp inside with rfl | digit
    · decide
    · exact solid c digit
  · rw [toList_hash, List.getLast?_cons_of_ne_nil nonempty]
    exact ends

/-! ## Operands -/

/-- The text can name a label where an operand stands. -/
structure IsName (text : String) : Prop where
  not_immediate : text.toList.head? ≠ some '#'
  not_declaration : text.toList.getLast? ≠ some ':'

theorem Literal.head_of_immediate {opcode : Opcode} {text : String} {value : Word}
    (reads : immediate opcode text = .ok value) : text.toList.head? = some '#' := by
  unfold immediate at reads
  split at reads
  · rename_i starts
    rw [starts]
    rfl
  · cases reads

namespace Operand

theorem blame_eq_ok_iff {α : Type} {token : Token} {e : Except DecodeFailure α} {a : α} :
    blame token e = .ok a ↔ e = .ok a := by
  cases e with
  | error failure => exact ⟨nofun, nofun⟩
  | ok value => exact ⟨fun same => congrArg _ (Except.ok.inj same), fun same => congrArg _ (Except.ok.inj same)⟩

theorem label_eq_ok_iff {opcode : Opcode} {text name : String} :
    label opcode text = .ok name ↔ IsName text ∧ text = name := by
  unfold label
  split
  · rename_i refused
    refine ⟨nofun, ?_⟩
    rintro ⟨isName, -⟩
    exact absurd refused (not_or.mpr ⟨isName.not_immediate, isName.not_declaration⟩)
  · rename_i accepted
    obtain ⟨plain, undeclared⟩ := not_or.mp accepted
    exact ⟨fun same => ⟨⟨plain, undeclared⟩, Except.ok.inj same⟩, fun ⟨_, same⟩ => congrArg _ same⟩

theorem register_eq_ok_iff {opcode : Opcode} {text : String} {target : Register} :
    register opcode text = .ok target ↔ text = target.name := by
  rw [← Register.ofName?_eq_some_iff]
  unfold register
  cases Register.ofName? text with
  | none => exact ⟨nofun, nofun⟩
  | some found => exact ⟨fun same => congrArg _ (Except.ok.inj same), fun same => congrArg _ (Option.some.inj same)⟩

theorem shift_eq_ok_iff {opcode : Opcode} {text : String} {amount : Word} :
    shift opcode text = .ok amount ↔ Literal.immediate opcode text = .ok amount ∧ amount.msb = false := by
  unfold shift
  cases Literal.immediate opcode text with
  | error failure => exact ⟨nofun, nofun⟩
  | ok value =>
    show (if value.msb then Except.error (DecodeFailure.negativeShift opcode) else Except.ok value) = .ok amount ↔ _
    split
    · rename_i negative
      refine ⟨nofun, ?_⟩
      rintro ⟨same, nonneg⟩
      rw [Except.ok.inj same, nonneg] at negative
      cases negative
    · rename_i nonneg
      refine ⟨?_, And.left⟩
      rintro same
      cases same
      exact ⟨rfl, Bool.eq_false_iff.mpr nonneg⟩

/-- The operations that shift take no number that is negative. -/
theorem forImmediate_eq_ok_iff {op : ImmediateOp} {text : String} {value : Word} :
    forImmediate op text = .ok value ↔
      Literal.immediate (.immediate op) text = .ok value ∧ (op = .lsl ∨ op = .lsr → value.msb = false) := by
  cases op with
  | lsl | lsr => simpa [forImmediate] using shift_eq_ok_iff
  | _ => simp [forImmediate]

theorem comparand_eq_ok_iff {text : String} {comparand : Comparand} :
    Operand.comparand text = .ok comparand ↔
      (∃ value, Literal.immediate .compare text = .ok value ∧ .immediate value = comparand) ∨
        IsName text ∧ .label text = comparand := by
  unfold Operand.comparand
  split
  · rename_i hash
    rw [map_eq_ok_iff]
    refine ⟨.inl, ?_⟩
    rintro (immediate | ⟨isName, -⟩)
    · exact immediate
    · exact absurd hash isName.not_immediate
  · rename_i plain
    rw [map_eq_ok_iff]
    constructor
    · rintro ⟨name, label, rfl⟩
      obtain ⟨isName, rfl⟩ := label_eq_ok_iff.mp label
      exact .inr ⟨isName, rfl⟩
    · rintro (⟨value, reads, -⟩ | ⟨isName, rfl⟩)
      · exact absurd (Literal.head_of_immediate reads) plain
      · exact ⟨text, label_eq_ok_iff.mpr ⟨isName, rfl⟩, rfl⟩

end Operand

/-! ## Instructions -/

namespace Instruction

/-- The operation makes the instruction with these operands. -/
inductive Takes : Opcode → List String → Instruction → Prop
  | immediate {op : ImmediateOp} {text : String} {value : Word}
      (reads : Literal.immediate (.immediate op) text = .ok value)
      (amount : op = .lsl ∨ op = .lsr → value.msb = false) :
      Takes (.immediate op) [text] (.immediate op value)
  | label {op : LabelOp} {name : String} (isName : IsName name) : Takes (.label op) [name] (.label op name)
  | register {op : RegisterOp} {target : Register} : Takes (.register op) [target.name] (.register op target)
  | comparedNumber {text : String} {value : Word} (reads : Literal.immediate .compare text = .ok value) :
      Takes .compare [text] (.compare (.immediate value))
  | comparedLabel {name : String} (isName : IsName name) : Takes .compare [name] (.compare (.label name))
  | plain {op : PlainOp} : Takes (.plain op) [] (.plain op)

theorem ofOperand_eq_ok_iff {opcode : Opcode} {text : String} {i : Instruction} :
    ofOperand opcode text = .ok i ↔ Takes opcode [text] i := by
  constructor
  · intro reads
    cases opcode with
    | immediate op =>
      obtain ⟨value, literal, rfl⟩ := map_eq_ok_iff.mp reads
      obtain ⟨literal, amount⟩ := Operand.forImmediate_eq_ok_iff.mp literal
      exact .immediate literal amount
    | label op =>
      obtain ⟨name, label, rfl⟩ := map_eq_ok_iff.mp reads
      obtain ⟨isName, rfl⟩ := Operand.label_eq_ok_iff.mp label
      exact .label isName
    | register op =>
      obtain ⟨target, register, rfl⟩ := map_eq_ok_iff.mp reads
      obtain rfl := Operand.register_eq_ok_iff.mp register
      exact .register
    | compare =>
      obtain ⟨comparand, compared, rfl⟩ := map_eq_ok_iff.mp reads
      obtain ⟨value, literal, rfl⟩ | ⟨isName, rfl⟩ := Operand.comparand_eq_ok_iff.mp compared
      · exact .comparedNumber literal
      · exact .comparedLabel isName
    | plain op => cases reads
  · intro takes
    cases takes with
    | immediate literal amount =>
      exact map_eq_ok_iff.mpr ⟨_, Operand.forImmediate_eq_ok_iff.mpr ⟨literal, amount⟩, rfl⟩
    | label isName => exact map_eq_ok_iff.mpr ⟨_, Operand.label_eq_ok_iff.mpr ⟨isName, rfl⟩, rfl⟩
    | register => exact map_eq_ok_iff.mpr ⟨_, Operand.register_eq_ok_iff.mpr rfl, rfl⟩
    | comparedNumber literal =>
      exact map_eq_ok_iff.mpr ⟨_, Operand.comparand_eq_ok_iff.mpr (.inl ⟨_, literal, rfl⟩), rfl⟩
    | comparedLabel isName =>
      exact map_eq_ok_iff.mpr ⟨_, Operand.comparand_eq_ok_iff.mpr (.inr ⟨isName, rfl⟩), rfl⟩

theorem length_le_of_takes {opcode : Opcode} {operands : List String} {i : Instruction}
    (takes : Takes opcode operands i) : operands.length ≤ 1 := by
  cases takes <;> simp

theorem ofTokens_eq_ok_iff {opcode : Opcode} {mnemonic : Token} {operands : List Token} {i : Instruction} :
    ofTokens opcode mnemonic operands = .ok i ↔ Takes opcode (operands.map Token.text) i := by
  match operands with
  | [] =>
    cases opcode with
    | plain op =>
      constructor
      · intro reads
        cases reads
        exact .plain
      · intro takes
        cases takes
        rfl
    | immediate _ | label _ | register _ | compare => exact ⟨nofun, nofun⟩
  | [operand] => exact Operand.blame_eq_ok_iff.trans ofOperand_eq_ok_iff
  | _ :: _ :: _ =>
    refine ⟨nofun, fun takes => ?_⟩
    have single := length_le_of_takes takes
    simp at single

theorem opcode_of_takes {opcode : Opcode} {operands : List String} {i : Instruction} (takes : Takes opcode operands i) :
    i.opcode = opcode := by
  cases takes <;> rfl

theorem takes_operand {opcode : Opcode} {operands : List String} {i : Instruction} (takes : Takes opcode operands i) :
    Takes opcode i.operand?.toList i := by
  cases takes with
  | immediate reads amount => exact .immediate (Literal.immediate_decimal _ _) amount
  | label isName => exact .label isName
  | register => exact .register
  | comparedNumber reads => exact .comparedNumber (Literal.immediate_decimal _ _)
  | comparedLabel isName => exact .comparedLabel isName
  | plain => exact .plain

theorem getLast?_operand {opcode : Opcode} {operands : List String} {i : Instruction} (takes : Takes opcode operands i) :
    ∀ w ∈ i.operand?, w.toList.getLast? ≠ some ':' := by
  rintro w written
  cases takes with
  | @immediate _ _ value | @comparedNumber _ value =>
    obtain rfl := Option.some.inj written
    exact (Literal.isWord_hash_decimal value).2
  | @label _ name isName | @comparedLabel name isName =>
    obtain rfl := Option.some.inj written
    exact isName.not_declaration
  | @register _ target =>
    obtain rfl := Option.some.inj written
    cases target <;> decide
  | plain => cases written

end Instruction

/-! ## Cells -/

namespace Cell

/-- The label that the words of a line declare. The last one decides. -/
def declaration? (words : List String) : Option String := words.getLast?.bind declared?

/-- The words of a line stand for the cell. -/
inductive Written : List String → Cell → Prop
  | label {words : List String} {name : String} (declares : declaration? words = some name) :
      Written words (.label name)
  | number {words : List String} {value : Word} (undeclared : declaration? words = none)
      (numeral : numeral? words = some value) : Written words (.number value)
  | instruction {mnemonic : String} {operands : List String} {opcode : Opcode} {i : Instruction}
      (undeclared : declaration? (mnemonic :: operands) = none)
      (names : Opcode.ofMnemonic? mnemonic = some opcode) (takes : Instruction.Takes opcode operands i) :
      Written (mnemonic :: operands) (.instruction i)
  | raw {words : List String} (undeclared : declaration? words = none) (not_numeral : numeral? words = none)
      (unnamed : ∀ first ∈ words.head?, Opcode.ofMnemonic? first = none) : Written words (.raw words)

theorem declaration?_texts (first : Token) (rest : List Token) :
    declaration? ((first :: rest).map Token.text) =
      declared? ((first :: rest).getLast (List.cons_ne_nil _ _)).text := by
  rw [declaration?, List.getLast?_map, List.getLast?_eq_some_getLast (List.cons_ne_nil first rest)]
  rfl

theorem numeral?_mnemonic (opcode : Opcode) (operands : List String) :
    numeral? (opcode.mnemonic :: operands) = none := by
  cases operands with
  | nil => exact opcode.mnemonic_reserved.2
  | cons operand operands => rfl

/-- A line of a source is read as the cell that its words stand for. -/
theorem ofTokens_eq_ok_iff {tokens : List Token} {cell : Cell} :
    ofTokens tokens = .ok cell ↔ Written (tokens.map Token.text) cell := by
  cases tokens with
  | nil =>
    constructor
    · intro read
      cases read
      exact .raw rfl rfl nofun
    · intro written
      cases written with
      | label declares => cases declares
      | number undeclared numeral => cases numeral
      | raw => rfl
  | cons first rest =>
    unfold ofTokens
    dsimp only
    rw [← declaration?_texts]
    constructor
    · intro read
      split at read
      · rename_i declares
        cases read
        exact .label declares
      · rename_i undeclared
        split at read
        · rename_i numeral
          cases read
          exact .number undeclared numeral
        · rename_i not_numeral
          split at read
          · rename_i names
            obtain ⟨i, reads, rfl⟩ := map_eq_ok_iff.mp read
            exact .instruction undeclared names (Instruction.ofTokens_eq_ok_iff.mp reads)
          · rename_i unnamed
            cases read
            exact .raw undeclared not_numeral fun w head => Option.some.inj head ▸ unnamed
    · rw [List.map_cons]
      intro written
      cases written with
      | label declares => rw [declares]
      | number undeclared numeral => simp only [undeclared, numeral]
      | instruction undeclared names takes =>
        have not_numeral : numeral? (first.text :: rest.map Token.text) = none := by
          rw [Opcode.ofMnemonic?_eq_some_iff.mp names]
          exact numeral?_mnemonic _ _
        simp only [undeclared, not_numeral, names, Instruction.ofTokens_eq_ok_iff.mpr takes]
        rfl
      | raw undeclared not_numeral unnamed =>
        simp only [undeclared, not_numeral, unnamed first.text rfl]

/-! ## The written form -/

/-- The words that the cell is written with. -/
def words : Cell → List String
  | instruction i => i.opcode.mnemonic :: i.operand?.toList
  | label name => [name ++ ":"]
  | number value => [value.decimal]
  | raw words => words

theorem text_eq_intercalate (cell : Cell) : cell.text = " ".intercalate cell.words := by
  cases cell with
  | instruction i =>
    unfold text words Instruction.text
    dsimp only
    cases i.operand? with
    | none => rfl
    | some operand => rfl
  | label | number | raw => rfl

/-- A cell is written with words of its line and with numerals. -/
theorem Written.mem_words {words : List String} {cell : Cell} (written : Written words cell) :
    ∀ w ∈ cell.words, w ∈ words ∨ ∃ value : Word, w = value.decimal ∨ w = "#" ++ value.decimal := by
  intro w member
  cases written with
  | label declares =>
    obtain ⟨last, ends, declared⟩ := Option.bind_eq_some_iff.mp declares
    rw [List.mem_singleton.mp member, ← declared?_eq_some_iff.mp declared]
    exact .inl (List.mem_of_getLast? ends)
  | number => exact .inr ⟨_, .inl (List.mem_singleton.mp member)⟩
  | instruction undeclared names takes =>
    rcases List.mem_cons.mp member with rfl | operand
    · rw [Instruction.opcode_of_takes takes, ← Opcode.ofMnemonic?_eq_some_iff.mp names]
      exact .inl List.mem_cons_self
    · cases takes with
      | immediate | comparedNumber => exact .inr ⟨_, .inr (List.mem_singleton.mp operand)⟩
      | label | comparedLabel | register => exact .inl (List.mem_cons_of_mem _ operand)
      | plain => cases operand
  | raw => exact .inl member

theorem Written.isLine {words : List String} {cell : Cell} (written : Written words cell) (isLine : IsLine words) :
    IsLine cell.words := by
  refine ⟨?_, fun w member => ?_⟩
  · cases written with
    | raw => exact isLine.ne_nil
    | label | number | instruction => exact List.cons_ne_nil _ _
  · rcases written.mem_words w member with same | ⟨value, rfl | rfl⟩
    · exact isLine.areWords w same
    · exact value.isWord_decimal.1
    · exact (Literal.isWord_hash_decimal value).1

/-- What a cell is written with stands for the cell again. -/
theorem Written.again {words : List String} {cell : Cell} (written : Written words cell) : Written cell.words cell := by
  cases written with
  | @label _ name declares => exact .label (declared?_eq_some_iff.mpr rfl)
  | @number _ value undeclared numeral =>
    exact .number (declared?_eq_none value.isWord_decimal.2) (Literal.data?_decimal value)
  | @instruction mnemonic operands opcode i undeclared names takes =>
    have same := Instruction.opcode_of_takes takes
    have written := Instruction.takes_operand takes
    rw [← same] at written
    refine .instruction ?_ (Opcode.ofMnemonic?_mnemonic i.opcode) written
    cases shown : i.operand? with
    | none => exact i.opcode.mnemonic_reserved.1
    | some w => exact declared?_eq_none (Instruction.getLast?_operand takes w shown)
  | raw undeclared not_numeral unnamed => exact .raw undeclared not_numeral unnamed

end Cell
end Accumulator
