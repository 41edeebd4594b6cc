/-!
Characters and lines: which characters are blank, and how a text is trimmed and
cut after a mark. A mark stays with the piece that it ends, so the places of the
pieces in the text can be counted.
-/
namespace Accumulator.Text

/-! ## Blanks -/

/-- The code points with the Unicode property `White_Space`, as inclusive ranges. -/
def blankRanges : List (Nat × Nat) :=
  [(0x09, 0x0d), (0x20, 0x20), (0x85, 0x85), (0xa0, 0xa0), (0x1680, 0x1680), (0x2000, 0x200a),
   (0x2028, 0x2029), (0x202f, 0x202f), (0x205f, 0x205f), (0x3000, 0x3000)]

/-- The character has the Unicode property `White_Space`. -/
def isBlank (c : Char) : Bool :=
  blankRanges.any fun range => decide (range.1 ≤ c.toNat) && decide (c.toNat ≤ range.2)

/-- The text without the blanks it begins with. -/
def trimStart (cs : List Char) : List Char := cs.dropWhile isBlank
/-- The text without the blanks it ends with. -/
def trimEnd (cs : List Char) : List Char := (cs.reverse.dropWhile isBlank).reverse
/-- The text without the blanks at either end. -/
def trim (cs : List Char) : List Char := trimEnd (trimStart cs)

/-! ## Cutting -/

/-- Puts a character in front of the pieces that follow it: the mark ends a piece,
    any other character joins the piece it stands before. -/
def cutBefore (mark c : Char) (pieces : List (List Char)) : List (List Char) :=
  if c = mark then [c] :: pieces else (c :: pieces.headD []) :: pieces.tail

/-- Cuts a text after every mark. No piece is empty, and only the last may lack the mark. -/
def cutAfter (mark : Char) (cs : List Char) : List (List Char) := cs.foldr (cutBefore mark) []

/-- A piece without the mark that may end it. -/
def dropMark (mark : Char) (piece : List Char) : List Char :=
  if piece.getLast? = some mark then piece.dropLast else piece

/-- The number of bytes of a text in UTF-8. -/
def byteSize (cs : List Char) : Nat := cs.foldr (fun c size => c.utf8Size + size) 0

theorem byteSize_cons (c : Char) (cs : List Char) : byteSize (c :: cs) = c.utf8Size + byteSize cs := rfl

theorem byteSize_append (as bs : List Char) : byteSize (as ++ bs) = byteSize as + byteSize bs := by
  induction as with
  | nil => simp [byteSize]
  | cons c as ih => rw [List.cons_append, byteSize_cons, ih, byteSize_cons, Nat.add_assoc]

/-- The text padded with spaces on the left to a width. -/
def padLeft (width : Nat) (text : String) : String :=
  String.ofList (List.replicate (width - text.length) ' ') ++ text

end Accumulator.Text
