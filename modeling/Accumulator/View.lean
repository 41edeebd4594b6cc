import Accumulator.Machine
import Accumulator.Escape

/-!
Views: the texts in which registers, memory, program and labels are shown. Headings
are bold and addresses dim, by escape sequences that stand in the text.
-/
namespace Accumulator
namespace View

/-- A line with a bold heading. -/
def heading (title rest : String) : String := Escape.wrap "1" (title ++ ":") ++ rest ++ "\n"

/-- A line with a dim address, four wide, and a text. -/
def addressed (address : Nat) (text : String) : String :=
  Escape.wrap "2" (Text.padLeft 4 (toString address)) ++ "  " ++ text ++ "\n"

/-- A truth value, as a bit where words are shown as bits. -/
def flag (radix : Radix) (value : Bool) : String :=
  match radix, value with
  | .decimal, true => "true"
  | .decimal, false => "false"
  | .binary, true => "1"
  | .binary, false => "0"

end View
open View

/-- The program counter, the registers and the result of the last comparison. -/
def Registers.view (r : Registers) (radix : Radix) : String :=
  heading "Program Counter" (" " ++ toString r.pc) ++ "\n" ++
  heading "Registers" "" ++
  "ACC : " ++ r.acc.text radix ++ "\n" ++
  "IX : " ++ r.ix.text radix ++ "\n" ++ "\n" ++
  heading "Comparison States" "" ++
  "EQ : " ++ flag radix r.equal ++ "\n"

namespace Store

/-- The address after the first `END`, or 0 where there is none. -/
def dataStart (s : Store) : Nat :=
  match s.cells.toList.findIdx? (· = .instruction (.plain .stop)) with
  | some index => index + 1
  | none => 0

/-- Every cell from the start of the data on. -/
def memoryView (s : Store) (radix : Radix) : String :=
  heading "Memory" "" ++
    String.join ((s.entries.drop s.dataStart).map fun entry => addressed entry.2 (entry.1.textIn radix))

/-- A cell in the listing of a program: all but declarations are indented. -/
def listed : Cell → String
  | .label name => (Cell.label name).text
  | cell => "  " ++ cell.text

/-- Every cell of the memory. -/
def programView (s : Store) : String :=
  heading "Program" "" ++ String.join (s.entries.map fun entry => addressed entry.2 (listed entry.1))

end Store

/-- Every label with the index of its last declaration. -/
def LabelTable.view (table : LabelTable) : String :=
  heading "Labels" "" ++
    String.join (table.entries.map fun entry => entry.1 ++ " : " ++ toString entry.2 ++ "\n")

end Accumulator
