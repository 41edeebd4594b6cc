import Accumulator.Word

/-!
Instructions of the machine, by the kind of operand that they take, and their
written form: the mnemonic, and the operand after one space.
-/
namespace Accumulator

/-- The registers that `INC` and `DEC` may name. -/
inductive Register where
  /-- The accumulator. -/
  | acc
  /-- The index register. -/
  | ix
deriving DecidableEq

namespace Register

def name : Register → String
  | acc => "ACC"
  | ix => "IX"

/-- The register of a name. -/
def ofName? (name : String) : Option Register :=
  [acc, ix].find? (·.name = name)

theorem ofName?_name (r : Register) : ofName? r.name = some r := by cases r <;> rfl

end Register

/-- Operations on an immediate number. -/
inductive ImmediateOp where
  /-- Load the number into ACC. -/
  | ldm
  /-- Load the number into IX. -/
  | ldr
  | and
  | or
  | xor
  /-- Shift ACC left. -/
  | lsl
  /-- Shift ACC right, with zeros coming in. -/
  | lsr
deriving DecidableEq

/-- Operations on a label, which stands for the cell after its declaration. -/
inductive LabelOp where
  /-- Load the number there. -/
  | ldd
  /-- Load from the cell after the address that is stored there. -/
  | ldi
  /-- Load from there, IX cells on. -/
  | ldx
  /-- Store ACC there. -/
  | sto
  /-- Store ACC there, IX cells on. -/
  | stx
  | add
  /-- Go there. -/
  | jmp
  /-- Go there if the last comparison found equality. -/
  | jpe
  /-- Go there if it did not. -/
  | jpn
deriving DecidableEq

/-- Operations on a register. -/
inductive RegisterOp where
  | inc
  | dec
deriving DecidableEq

/-- Operations without an operand. -/
inductive PlainOp where
  /-- Take the next character of the input into ACC. -/
  | read
  /-- Emit the character whose code is in ACC. -/
  | write
  | stop
deriving DecidableEq

/-- The 22 operations, by the operand that each takes. `CMP` takes a number or a label. -/
inductive Opcode where
  | immediate (op : ImmediateOp)
  | label (op : LabelOp)
  | register (op : RegisterOp)
  | compare
  | plain (op : PlainOp)
deriving DecidableEq

namespace Opcode

/-- The word that names the operation in a source, in capitals. -/
def mnemonic : Opcode → String
  | immediate .ldm => "LDM"
  | immediate .ldr => "LDR"
  | immediate .and => "AND"
  | immediate .or => "OR"
  | immediate .xor => "XOR"
  | immediate .lsl => "LSL"
  | immediate .lsr => "LSR"
  | label .ldd => "LDD"
  | label .ldi => "LDI"
  | label .ldx => "LDX"
  | label .sto => "STO"
  | label .stx => "STX"
  | label .add => "ADD"
  | label .jmp => "JMP"
  | label .jpe => "JPE"
  | label .jpn => "JPN"
  | register .inc => "INC"
  | register .dec => "DEC"
  | compare => "CMP"
  | plain .read => "IN"
  | plain .write => "OUT"
  | plain .stop => "END"

def all : List Opcode :=
  [immediate .ldm, immediate .ldr, immediate .and, immediate .or, immediate .xor, immediate .lsl, immediate .lsr,
   label .ldd, label .ldi, label .ldx, label .sto, label .stx, label .add, label .jmp, label .jpe, label .jpn,
   register .inc, register .dec, compare, plain .read, plain .write, plain .stop]

/-- The operation of a mnemonic. -/
def ofMnemonic? (word : String) : Option Opcode := all.find? (·.mnemonic = word)

theorem ofMnemonic?_mnemonic (op : Opcode) : ofMnemonic? op.mnemonic = some op := by
  rcases op with op | op | op | _ | op <;> (try cases op) <;> rfl

end Opcode

/-- The right-hand side of a comparison. -/
inductive Comparand where
  | immediate (value : Word)
  | label (name : String)
deriving DecidableEq

/-- An operation together with its operand. -/
inductive Instruction where
  | immediate (op : ImmediateOp) (value : Word)
  | label (op : LabelOp) (name : String)
  | register (op : RegisterOp) (target : Register)
  | compare (comparand : Comparand)
  | plain (op : PlainOp)
deriving DecidableEq

namespace Instruction

def opcode : Instruction → Opcode
  | immediate op _ => .immediate op
  | label op _ => .label op
  | register op _ => .register op
  | compare _ => .compare
  | plain op => .plain op

/-- The label that the operand names. -/
def label? : Instruction → Option String
  | label _ name => some name
  | compare (.label name) => some name
  | _ => none

/-- The operand as it is written, if there is one. -/
def operand? : Instruction → Option String
  | immediate _ value | compare (.immediate value) => some ("#" ++ value.decimal)
  | label _ name | compare (.label name) => some name
  | register _ target => some target.name
  | plain _ => none

/-- The mnemonic and the operand. -/
def text (i : Instruction) : String :=
  match i.operand? with
  | some operand => i.opcode.mnemonic ++ " " ++ operand
  | none => i.opcode.mnemonic

end Instruction
end Accumulator
