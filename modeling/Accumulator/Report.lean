import Accumulator.Machine

/-!
Reports: what is told about a failure beyond its message, with the stretches of the
source that it is about.
-/
namespace Accumulator

/-- A stretch of the source, in bytes, and what is said about it. -/
structure Remark where
  offset : Nat
  length : Nat
  text : String
deriving DecidableEq

structure Report where
  code : String
  message : String
  help : String
  remarks : List Remark
deriving DecidableEq

/-- The remark on a span. -/
def Span.remark (s : Span) (text : String) : Remark := ⟨s.start, s.length, text⟩

/-- The remark on the line of a cell, where the program has that cell. -/
def Program.remarks (p : Program) (index : Nat) (text : String) : List Remark :=
  ((p.span? index).map (·.remark text)).toList

def DecodeFailure.help : DecodeFailure → String
  | invalidLiteral _ | literalOutOfRange _ =>
    "ranges from -32,768 to 32,767 or 0 to 65,535 are allowed, written as #n, #Bn or #&n"
  | expectedImmediate _ _ => "make sure that your immediates start with #"
  | expectedRegister _ _ => "only ACC and IX can be incremented"
  | expectedLabel _ _ | missingOperand _ | unexpectedOperand _ _ | negativeShift _ =>
    "check the operands for this instruction"

def DecodeError.report (e : DecodeError) : Report where
  code := "parse::operand"
  message := e.failure.message
  help := e.failure.help
  remarks := [e.span.remark "here"]

namespace LabelError

def code : LabelError → String
  | notAlone _ _ => "label::not_alone"
  | emptyName _ => "label::empty"
  | undefined _ _ => "label::undefined"

def help : LabelError → String
  | notAlone _ _ => "put the label at the end of its line, like `LOOP:`"
  | emptyName _ => "give the label a name before the colon"
  | undefined _ _ => "declare the label on its own line, ending with `:`"

def remark : LabelError → String
  | notAlone _ _ => "tokens follow the label"
  | emptyName _ => "empty label"
  | undefined _ _ => "undefined label"

def report (e : LabelError) (p : Program) : Report where
  code := e.code
  message := e.message
  help := e.help
  remarks := p.remarks e.index e.remark

end LabelError

def Failure.help : Failure → String
  | address _ => "labels refer to the line after their declaration; check the data stored there"
  | unknownOpcode _ => "execution ran into data; make sure an `END` comes before your data lines"
  | inputExhausted => "supply more input with `--input`"
  | undefinedLabel _ | invalidCharacter _ => "check the value of ACC before this instruction"

def Fault.report (f : Fault) (p : Program) : Report where
  code := "runtime"
  message := f.message
  help := f.failure.help
  remarks := p.remarks f.pc ("failed at address " ++ toString f.pc)

end Accumulator
