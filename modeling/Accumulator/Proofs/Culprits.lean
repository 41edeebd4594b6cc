import Accumulator.Proofs.Decoding
import Accumulator.Proofs.Places
import Mathlib.Data.List.Pairwise

/-!
Culprits: which token a source is refused for. The first line that does not decode is reported,
and of its tokens just one: the mnemonic where an operand is missing, the second operand
wherever there is one, and else the only operand. Main statement: in a source of less than 2³²
bytes the span of the error is that of the token to blame and of no other, and what the error
says was found is what the source holds there.
-/
namespace Accumulator

/-- The text that the failure is said to have found. -/
def DecodeFailure.found? : DecodeFailure → Option String
  | expectedImmediate _ found | expectedLabel _ found | expectedRegister _ found | unexpectedOperand _ found
  | invalidLiteral found | literalOutOfRange found => some found
  | missingOperand _ | negativeShift _ => none

/-- The failures that are about what the operand of an operation says, and not about how many operands there are. -/
inductive AboutOperand (opcode : Opcode) (text : String) : DecodeFailure → Prop
  | expectedImmediate : AboutOperand opcode text (.expectedImmediate opcode text)
  | expectedLabel : AboutOperand opcode text (.expectedLabel opcode text)
  | expectedRegister : AboutOperand opcode text (.expectedRegister opcode text)
  | invalidLiteral : AboutOperand opcode text (.invalidLiteral text)
  | literalOutOfRange : AboutOperand opcode text (.literalOutOfRange text)
  | negativeShift : AboutOperand opcode text (.negativeShift opcode)

/-- The token that is to blame for a failure, of a line with the mnemonic of the operation and these operands. -/
inductive Culprit : Opcode → Token → List Token → DecodeFailure → Token → Prop
  | mnemonic {opcode : Opcode} {mnemonic : Token} (wanting : ∀ op, opcode ≠ .plain op) :
      Culprit opcode mnemonic [] (.missingOperand opcode) mnemonic
  /-- Whatever the first operand is, the second is one too many. -/
  | second {opcode : Opcode} {mnemonic first second : Token} {rest : List Token} :
      Culprit opcode mnemonic (first :: second :: rest) (.unexpectedOperand opcode second.text) second
  /-- `IN`, `OUT` and `END` take no operand. -/
  | only {op : PlainOp} {mnemonic operand : Token} :
      Culprit (.plain op) mnemonic [operand] (.unexpectedOperand (.plain op) operand.text) operand
  | operand {opcode : Opcode} {mnemonic operand : Token} {failure : DecodeFailure}
      (about : AboutOperand opcode operand.text failure) : Culprit opcode mnemonic [operand] failure operand

theorem Culprit.mem {opcode : Opcode} {mnemonic token : Token} {operands : List Token} {failure : DecodeFailure}
    (culprit : Culprit opcode mnemonic operands failure token) : token ∈ mnemonic :: operands := by
  cases culprit <;> simp

theorem Culprit.found {opcode : Opcode} {mnemonic token : Token} {operands : List Token} {failure : DecodeFailure}
    (culprit : Culprit opcode mnemonic operands failure token) : ∀ text ∈ failure.found?, text = token.text := by
  cases culprit with
  | mnemonic wanting => exact nofun
  | second | only => exact fun text found => (Option.some.inj found).symm
  | operand about => cases about <;> simp [DecodeFailure.found?]

/-! ## Failures of an operand -/

namespace Operand
variable {opcode : Opcode} {text : String} {failure : DecodeFailure}

theorem about_of_immediate (failed : Literal.immediate opcode text = .error failure) :
    AboutOperand opcode text failure := by
  unfold Literal.immediate at failed
  split at failed
  · split at failed
    · cases failed
      exact .invalidLiteral
    · split at failed
      · cases failed
        exact .literalOutOfRange
      · cases failed
  · cases failed
    exact .expectedImmediate

theorem about_of_shift (failed : shift opcode text = .error failure) : AboutOperand opcode text failure := by
  unfold shift at failed
  cases reads : Literal.immediate opcode text with
  | error other =>
    rw [reads] at failed
    cases failed
    exact about_of_immediate reads
  | ok amount =>
    rw [reads] at failed
    replace failed : (if amount.msb then Except.error (.negativeShift opcode) else .ok amount) = .error failure := failed
    split at failed
    · cases failed
      exact .negativeShift
    · cases failed

theorem about_of_forImmediate {op : ImmediateOp} (failed : forImmediate op text = .error failure) :
    AboutOperand (.immediate op) text failure := by
  cases op with
  | lsl | lsr => exact about_of_shift failed
  | ldm | ldr | and | or | xor => exact about_of_immediate failed

theorem about_of_label (failed : label opcode text = .error failure) : AboutOperand opcode text failure := by
  unfold label at failed
  split at failed
  · cases failed
    exact .expectedLabel
  · cases failed

theorem about_of_register (failed : register opcode text = .error failure) : AboutOperand opcode text failure := by
  unfold register at failed
  split at failed
  · cases failed
  · cases failed
    exact .expectedRegister

theorem about_of_comparand (failed : comparand text = .error failure) : AboutOperand .compare text failure := by
  unfold comparand at failed
  split at failed
  · exact about_of_immediate (map_eq_error_iff.mp failed)
  · exact about_of_label (map_eq_error_iff.mp failed)

theorem blame_eq_error_iff {α : Type} {token : Token} {e : Except DecodeFailure α} {error : DecodeError} :
    blame token e = .error error ↔ e = .error error.failure ∧ error.span = token.span := by
  obtain ⟨failure, span⟩ := error
  cases e with
  | ok value => exact ⟨nofun, nofun⟩
  | error other =>
    constructor
    · intro same
      cases same
      exact ⟨rfl, rfl⟩
    · rintro ⟨same, rfl⟩
      cases same
      rfl

end Operand

/-! ## Failures of a line -/

namespace Instruction

theorem about_of_ofOperand {opcode : Opcode} {text : String} {failure : DecodeFailure}
    (failed : ofOperand opcode text = .error failure) :
    (∃ op, opcode = .plain op ∧ failure = .unexpectedOperand opcode text) ∨ AboutOperand opcode text failure := by
  cases opcode with
  | immediate op => exact .inr (Operand.about_of_forImmediate (map_eq_error_iff.mp failed))
  | label op => exact .inr (Operand.about_of_label (map_eq_error_iff.mp failed))
  | register op => exact .inr (Operand.about_of_register (map_eq_error_iff.mp failed))
  | compare => exact .inr (Operand.about_of_comparand (map_eq_error_iff.mp failed))
  | plain op => exact .inl ⟨op, rfl, (Except.error.inj failed).symm⟩

theorem exists_culprit {opcode : Opcode} {mnemonic : Token} {operands : List Token} {e : DecodeError}
    (failed : ofTokens opcode mnemonic operands = .error e) :
    ∃ token, Culprit opcode mnemonic operands e.failure token ∧ e.span = token.span := by
  match operands with
  | [] =>
    cases opcode with
    | plain op => cases failed
    | immediate _ | label _ | register _ | compare =>
      cases failed
      exact ⟨mnemonic, .mnemonic nofun, rfl⟩
  | [operand] =>
    obtain ⟨failed, span⟩ := Operand.blame_eq_error_iff.mp failed
    rcases about_of_ofOperand failed with ⟨op, rfl, failure⟩ | about
    · rw [failure]
      exact ⟨operand, .only, span⟩
    · exact ⟨operand, .operand about, span⟩
  | first :: second :: rest =>
    cases failed
    exact ⟨second, .second, rfl⟩

end Instruction

theorem Cell.exists_culprit {tokens : List Token} {e : DecodeError} (failed : ofTokens tokens = .error e) :
    ∃ opcode mnemonic operands token, tokens = mnemonic :: operands ∧ mnemonic.text = opcode.mnemonic ∧
      Culprit opcode mnemonic operands e.failure token ∧ e.span = token.span := by
  cases tokens with
  | nil => cases failed
  | cons first rest =>
    unfold ofTokens at failed
    dsimp only at failed
    split at failed
    · cases failed
    · split at failed
      · cases failed
      · split at failed
        · rename_i opcode names
          obtain ⟨token, culprit, span⟩ := Instruction.exists_culprit (map_eq_error_iff.mp failed)
          exact ⟨opcode, first, rest, token, rfl, Opcode.ofMnemonic?_eq_some_iff.mp names, culprit, span⟩
        · cases failed

/-! ## Failures of a source -/

namespace Program

theorem ofLine_eq_error_iff {line : SourceLine} {e : DecodeError} :
    ofLine line = .error e ↔ Cell.ofTokens line.tokens = .error e := map_eq_error_iff

theorem parse_eq_error_iff {source : String} {e : DecodeError} :
    parse source = .error e ↔
      ∃ before line after, tokenize source = before ++ line :: after ∧
        (∀ earlier ∈ before, ∃ cell, Cell.ofTokens earlier.tokens = .ok cell) ∧ Cell.ofTokens line.tokens = .error e := by
  unfold parse ofLines
  rw [map_eq_error_iff, mapM_eq_error_iff]
  simp only [ofLine_eq_error_iff, exists_ofLine_iff]

end Program

/-- No two tokens of a source have the same span. -/
theorem IsReading.token_of_span {source : String} {entries : List SourceLine} (reading : IsReading source entries)
    {token other : Token} (member : token ∈ entries.flatMap SourceLine.tokens)
    (other_member : other ∈ entries.flatMap SourceLine.tokens) (same : other.span = token.span) : other = token := by
  have apart : (entries.flatMap SourceLine.tokens).Pairwise fun a b => a.span = b.span → a = b := by
    refine reading.apart.imp fun {a b} gap equal => ?_
    rw [equal, Span.stop] at gap
    omega
  have symmetric : Std.Symm fun a b : Token => a.span = b.span → a = b :=
    ⟨fun a b alike equal => (alike equal.symm).symm⟩
  exact List.Pairwise.forall_of_forall (fun _ _ _ => rfl) apart other_member member same

/-- A source of less than 2³² bytes that is no program is refused for its first line that does
    not decode, and for one token of that line. The error has the span of that token, which no
    other token of the source has; and where it says what was found, it says what the source
    holds at that span. -/
theorem Program.culprit_of_parse_eq_error {source : String} (short : source.utf8ByteSize < 4294967296) {e : DecodeError}
    (failed : parse source = .error e) :
    ∃ before line after, tokenize source = before ++ line :: after ∧
      (∀ earlier ∈ before, ∃ cell, Cell.ofTokens earlier.tokens = .ok cell) ∧ Cell.ofTokens line.tokens = .error e ∧
      ∃ opcode mnemonic operands token, line.tokens = mnemonic :: operands ∧ mnemonic.text = opcode.mnemonic ∧
        Culprit opcode mnemonic operands e.failure token ∧ token ∈ line.tokens ∧ token.span = e.span ∧
        (∀ other ∈ (tokenize source).flatMap SourceLine.tokens, other.span = e.span → other = token) ∧
        ∀ found ∈ e.failure.found?, source.toByteArray.extract e.span.start e.span.stop = found.toByteArray := by
  have reading := isReading_tokenize (Nat.le_of_lt_succ short)
  obtain ⟨before, line, after, split, decoded, refused⟩ := parse_eq_error_iff.mp failed
  obtain ⟨opcode, mnemonic, operands, token, tokens, names, culprit, span⟩ := Cell.exists_culprit refused
  have line_member : line ∈ tokenize source := by
    rw [split]
    exact List.mem_append_right _ List.mem_cons_self
  have member : token ∈ line.tokens := by
    rw [tokens]
    exact culprit.mem
  refine ⟨before, line, after, split, decoded, refused, opcode, mnemonic, operands, token, tokens, names, culprit, member,
    span.symm, ?only, ?found⟩
  case only =>
    intro other other_member same
    exact reading.token_of_span (List.mem_flatMap.mpr ⟨line, line_member, member⟩) other_member (same.trans span)
  case found =>
    intro found named
    rw [culprit.found found named, span]
    exact reading.selects line line_member token member

/-- A comment, an instruction, and one with an operand too many. -/
def Program.extraOperand : String := "@ ü\nEND\nADD é, #1\n"

theorem Program.culprit_of_parse_eq_error_extraOperand : extraOperand.utf8ByteSize < 4294967296 ∧
    parse extraOperand = .error ⟨.unexpectedOperand (.label .add) "#1", Span.clamp 17 2⟩ ∧
    (∃ line ∈ tokenize extraOperand, ∃ token ∈ line.tokens, token.span = Span.clamp 17 2) ∧
    extraOperand.toByteArray.extract 17 19 = "#1".toByteArray := by
  have short : extraOperand.utf8ByteSize < 4294967296 := by decide
  have failed : parse extraOperand = .error ⟨.unexpectedOperand (.label .add) "#1", Span.clamp 17 2⟩ := by
    decide +kernel
  obtain ⟨before, line, after, split, -, -, opcode, mnemonic, operands, token, -, -, -, member, span, -, found⟩ :=
    culprit_of_parse_eq_error short failed
  have inside : line ∈ tokenize extraOperand := by simp [split]
  exact ⟨short, failed, ⟨line, inside, token, member, span⟩, found "#1" rfl⟩

end Accumulator
