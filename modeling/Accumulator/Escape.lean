/-!
Escape sequences: a terminal shows a text without the stretches from an escape
character through the next `m`. Painting puts a text between a sequence that opens
a style and one that resets it, and opens the style again after each reset inside.
-/
namespace Accumulator.Escape

/-- The character that begins an escape sequence. -/
def mark : Char := '\x1b'

/-! ## What is shown -/

/-- How far a text has been shown. -/
structure Shown where
  /-- The text read so far ends inside an escape sequence. -/
  inside : Bool := false
  /-- The characters shown so far, the latest first. -/
  chars : List Char := []

/-- One more character of the text. -/
def Shown.feed (s : Shown) (c : Char) : Shown :=
  if s.inside then { s with inside := c != 'm' }
  else if c = mark then { s with inside := true }
  else { s with chars := c :: s.chars }

/-- The text without its escape sequences; one that is not ended lasts to the end of the text. -/
def visible (cs : List Char) : List Char := (cs.foldl Shown.feed {}).chars.reverse

/-- The text that a terminal shows of a string. -/
def strip (text : String) : String := String.ofList (visible text.toList)

theorem Shown.mark_not_mem_feed {s : Shown} (h : mark ∉ s.chars) (c : Char) : mark ∉ (s.feed c).chars := by
  unfold Shown.feed
  split
  · exact h
  · split
    · exact h
    · rename_i other
      simpa [eq_comm, other] using h

/-- What is shown has no escape character. -/
theorem mark_not_mem_visible (cs : List Char) : mark ∉ visible cs := by
  have kept : ∀ (s : Shown), mark ∉ s.chars → mark ∉ (cs.foldl Shown.feed s).chars := by
    induction cs with
    | nil => exact fun _ h => h
    | cons c cs ih => exact fun s h => ih (s.feed c) (Shown.mark_not_mem_feed h c)
  simpa [visible] using kept {} (by simp)

/-! ## Styles -/

/-- The sequence that opens the style of some codes. -/
def opening (codes : String) : String := "\x1b[" ++ codes ++ "m"
/-- The sequence that ends all styles. -/
def reset : String := "\x1b[0m"

/-- A text that stands between the sequences of a style, as it is. -/
def wrap (codes text : String) : String := opening codes ++ text ++ reset

/-- Puts a character in front of a text in which the style is opened again after each
    reset. The character may begin a reset itself. -/
def reopenAt (again : List Char) (c : Char) (rest : List Char) : List Char :=
  if c = mark ∧ rest.take 3 = ['[', '0', 'm'] then c :: rest.take 3 ++ again ++ rest.drop 3 else c :: rest

/-- The text with a style opened again after each reset. -/
def reopen (again : List Char) (cs : List Char) : List Char := cs.foldr (reopenAt again) []

/-- The text in the style of some codes, which outlasts every reset in the text. -/
def paint (codes text : String) : String :=
  wrap codes (String.ofList (reopen (opening codes).toList text.toList))

end Accumulator.Escape
