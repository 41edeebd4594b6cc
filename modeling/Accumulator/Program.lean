import Accumulator.Decode
import Accumulator.Store

/-!
Programs: the cells of a source in order, each with the place of its line.
-/
namespace Accumulator

/-- A cell and the span of the line that it came from. -/
structure Listed where
  cell : Cell
  span : Span
deriving DecidableEq

structure Program where
  lines : List Listed
deriving DecidableEq

namespace Program

def ofLine (line : SourceLine) : Except DecodeError Listed :=
  (Cell.ofTokens line.tokens).map fun cell => ⟨cell, line.span⟩

/-- The program of tokenized lines. The first line that does not decode is reported. -/
def ofLines (lines : List SourceLine) : Except DecodeError Program :=
  (lines.mapM ofLine).map Program.mk

/-- The program of a source text. -/
def parse (source : String) : Except DecodeError Program := ofLines (tokenize source)

def size (p : Program) : Nat := p.lines.length
def cells (p : Program) : List Cell := p.lines.map Listed.cell
/-- Where the cell of an index stands in the source. -/
def span? (p : Program) (index : Nat) : Option Span := p.lines[index]?.map Listed.span
/-- The memory that the program starts with. -/
def store (p : Program) : Store := Store.ofList p.cells

end Program
end Accumulator
