import Accumulator.Cell
import Accumulator.Numeral
import Accumulator.Token

/-!
Decoding: which cell the tokens of a line stand for. A line whose last token ends
with a colon declares a label; a single decimal numeral is a number; a line that
begins with a mnemonic is an instruction, and has to be a well-formed one; any
other line is kept as its words.
-/
namespace Accumulator

/-- Why a line that begins with a mnemonic is no instruction. -/
inductive DecodeFailure where
  | expectedImmediate (opcode : Opcode) (found : String)
  | expectedLabel (opcode : Opcode) (found : String)
  | expectedRegister (opcode : Opcode) (found : String)
  | missingOperand (opcode : Opcode)
  | unexpectedOperand (opcode : Opcode) (found : String)
  /-- Not a numeral, or one of a number that does not fit in 32 bits. -/
  | invalidLiteral (found : String)
  | literalOutOfRange (found : String)
  | negativeShift (opcode : Opcode)
deriving DecidableEq

def DecodeFailure.message : DecodeFailure → String
  | expectedImmediate opcode found => s!"`{opcode.mnemonic}` expects an immediate like #5, found `{found}`"
  | expectedLabel opcode found => s!"`{opcode.mnemonic}` expects a label, found `{found}`"
  | expectedRegister opcode found => s!"`{opcode.mnemonic}` expects ACC or IX, found `{found}`"
  | missingOperand opcode => s!"`{opcode.mnemonic}` is missing its operand"
  | unexpectedOperand opcode found => s!"unexpected operand `{found}` after `{opcode.mnemonic}`"
  | invalidLiteral found => s!"invalid literal `{found}`"
  | literalOutOfRange found => s!"literal `{found}` does not fit in 16 bits"
  | negativeShift opcode => s!"`{opcode.mnemonic}` cannot shift by a negative amount"

/-- A failure to decode, and the token that is to blame. -/
structure DecodeError where
  failure : DecodeFailure
  span : Span
deriving DecidableEq

/-! ## Literals -/

namespace Literal

/-- The number of a numeral that fits in 32 bits with a sign. -/
def number? (radix : Nat) (numeral : List Char) : Option Int :=
  (Numeral.signed? radix numeral).filter fun value => -2147483648 ≤ value && value ≤ 2147483647

/-- The radix that the text after `#` is written in, and its numeral. -/
def radixOf : List Char → Nat × List Char
  | 'B' :: numeral => (2, numeral)
  | 'b' :: numeral => (2, numeral)
  | '&' :: numeral => (16, numeral)
  | numeral => (10, numeral)

/-- The word of an immediate operand such as `#12`, `#-3`, `#B1010` or `#&FF`. -/
def immediate (opcode : Opcode) (text : String) : Except DecodeFailure Word :=
  match text.toList with
  | '#' :: body =>
    match number? (radixOf body).1 (radixOf body).2 with
    | none => .error (.invalidLiteral text)
    | some value =>
      match Word.ofLiteral? value with
      | none => .error (.literalOutOfRange text)
      | some word => .ok word
  | _ => .error (.expectedImmediate opcode text)

/-- The word of a number that stands alone on its line. -/
def data? (text : String) : Option Word := (number? 10 text.toList).bind Word.ofLiteral?

end Literal

/-! ## Instructions -/

namespace Operand

/-- Blames a failure on a token. -/
def blame {α : Type} (token : Token) : Except DecodeFailure α → Except DecodeError α
  | .ok value => .ok value
  | .error failure => .error ⟨failure, token.span⟩

/-- The amount of a shift: a number whose word is not negative. -/
def shift (opcode : Opcode) (text : String) : Except DecodeFailure Word := do
  let amount ← Literal.immediate opcode text
  if amount.msb then .error (.negativeShift opcode) else .ok amount

/-- The number that an operation on immediates takes. -/
def forImmediate (op : ImmediateOp) (text : String) : Except DecodeFailure Word :=
  match op with
  | .lsl | .lsr => shift (.immediate op) text
  | _ => Literal.immediate (.immediate op) text

/-- A label is any token that neither begins like an immediate nor ends like a declaration. -/
def label (opcode : Opcode) (text : String) : Except DecodeFailure String :=
  if text.toList.head? = some '#' ∨ text.toList.getLast? = some ':' then .error (.expectedLabel opcode text)
  else .ok text

def register (opcode : Opcode) (text : String) : Except DecodeFailure Register :=
  match Register.ofName? text with
  | some register => .ok register
  | none => .error (.expectedRegister opcode text)

/-- A token that begins like an immediate has to be one. -/
def comparand (text : String) : Except DecodeFailure Comparand :=
  if text.toList.head? = some '#' then (Literal.immediate .compare text).map .immediate
  else (label .compare text).map .label

end Operand

namespace Instruction

/-- The instruction of an operation with an operand. -/
def ofOperand (opcode : Opcode) (text : String) : Except DecodeFailure Instruction :=
  match opcode with
  | .immediate op => (Operand.forImmediate op text).map (.immediate op)
  | .label op => (Operand.label opcode text).map (.label op)
  | .register op => (Operand.register opcode text).map (.register op)
  | .compare => (Operand.comparand text).map .compare
  | .plain _ => .error (.unexpectedOperand opcode text)

/-- The instruction of a mnemonic and the tokens after it. A second operand is to
    blame before anything else is looked at. -/
def ofTokens (opcode : Opcode) (mnemonic : Token) (operands : List Token) : Except DecodeError Instruction :=
  match operands with
  | [] =>
    match opcode with
    | .plain op => .ok (.plain op)
    | _ => .error ⟨.missingOperand opcode, mnemonic.span⟩
  | [operand] => Operand.blame operand (ofOperand opcode operand.text)
  | _ :: extra :: _ => .error ⟨.unexpectedOperand opcode extra.text, extra.span⟩

end Instruction

/-! ## Cells -/

namespace Cell

/-- The name that a token declares: what stands before a colon at its end. -/
def declared? (text : String) : Option String :=
  if text.toList.getLast? = some ':' then some (String.ofList text.toList.dropLast) else none

/-- The number of a line whose only word is a numeral. -/
def numeral? : List String → Option Word
  | [word] => Literal.data? word
  | _ => none

/-- The cell of a line's tokens. The last token decides about a declaration, whatever stands before it. -/
def ofTokens (tokens : List Token) : Except DecodeError Cell :=
  match tokens with
  | [] => .ok (.raw [])
  | first :: rest =>
    match declared? ((first :: rest).getLast (List.cons_ne_nil _ _)).text with
    | some name => .ok (.label name)
    | none =>
      match numeral? (tokens.map Token.text) with
      | some value => .ok (.number value)
      | none =>
        match Opcode.ofMnemonic? first.text with
        | some opcode => (Instruction.ofTokens opcode first rest).map .instruction
        | none => .ok (.raw (tokens.map Token.text))

end Cell
end Accumulator
