import Accumulator.Instruction

/-!
Cells: what one line of a program, and one address of memory, can hold.
-/
namespace Accumulator

inductive Cell where
  | instruction (i : Instruction)
  /-- The declaration of a label. -/
  | label (name : String)
  /-- A number, from the source or stored by the program. -/
  | number (value : Word)
  /-- The words of a line that is none of these. -/
  | raw (words : List String)
deriving DecidableEq

namespace Cell

/-- The cell as a line of a source. -/
def text : Cell → String
  | instruction i => i.text
  | label name => name ++ ":"
  | number value => value.decimal
  | raw words => " ".intercalate words

/-- The number that the cell holds. -/
def number? : Cell → Option Word
  | number value => some value
  | _ => none

/-- The cell as a line, with its number in a radix. -/
def textIn (radix : Radix) : Cell → String
  | number value => value.text radix
  | cell => cell.text

end Cell
end Accumulator
