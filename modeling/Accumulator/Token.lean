import Accumulator.Span
import Accumulator.Text

/-!
Tokens: the maximal runs of characters of a line that separate nothing, each with
its span. A source is read line by line; comments and lines without a token give
nothing, but are counted.
-/
namespace Accumulator
open Text

/-- One word of a source line. -/
structure Token where
  /-- The word itself, without separators. -/
  text : String
  /-- Where the word stands in the source. -/
  span : Span
deriving DecidableEq

/-- The tokens of one source line. -/
structure SourceLine where
  /-- The number of the line in the source, from 1. -/
  number : Nat
  tokens : List Token
deriving DecidableEq

namespace SourceLine

/-- From the first token of the line through its last one. -/
def span (line : SourceLine) : Span :=
  ((line.tokens.head?.map Token.span).getD Span.empty).join
    ((line.tokens.getLast?.map Token.span).getD Span.empty)

/-- Blanks separate tokens, and so do commas. -/
def isSeparator (c : Char) : Bool := isBlank c || c == ','

/-- The first character of a comment that is not blank is `@`. A comma does not count as blank here. -/
def isComment (line : List Char) : Bool := (trimStart line).head? == some '@'

/-- The tokens of a text that starts at the given byte of the source. -/
def tokensAt (offset : Nat) (cs : List Char) : List Token :=
  match _shown : cs.dropWhile isSeparator with
  | [] => []
  | c :: rest =>
    let start := offset + byteSize (cs.takeWhile isSeparator)
    let word := c :: rest.takeWhile (!isSeparator ·)
    ⟨String.ofList word, Span.clamp start (byteSize word)⟩ ::
      tokensAt (start + byteSize word) (rest.dropWhile (!isSeparator ·))
termination_by cs.length
decreasing_by
  have shorter := (List.dropWhile_sublist isSeparator (l := cs)).length_le
  rw [_shown] at shorter
  have := (List.dropWhile_sublist (!isSeparator ·) (l := rest)).length_le
  simp only [List.length_cons] at shorter
  omega

/-- The lines of a source from its given line and byte on: comments and lines
    without a token are left out. -/
def fromLines (number offset : Nat) : List (List Char) → List SourceLine
  | [] => []
  | raw :: rest =>
    let later := fromLines (number + 1) (offset + byteSize raw) rest
    if isComment raw then later
    else match tokensAt offset raw with
      | [] => later
      | tokens => ⟨number, tokens⟩ :: later

end SourceLine

/-- The lines of a source text that hold tokens. Lines end at newlines only. -/
def tokenize (source : String) : List SourceLine :=
  SourceLine.fromLines 1 0 (cutAfter '\n' source.toList)

end Accumulator
