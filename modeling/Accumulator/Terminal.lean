import Accumulator.Escape

/-!
The terminal: what the program emits goes to one stream, and what is said about it
to another. Both share one line on the screen, so the terminal knows whether
anything visible stands on it. In minimal mode only the messages that are always
due are shown, and those without escape sequences.
-/
namespace Accumulator

/-- Whether a message is also due in minimal mode. -/
inductive Condition where
  | always
  | sometimes
deriving DecidableEq

inductive Category where
  | normal
  | info
  | warning
  | error
  | special
deriving DecidableEq

/-- The codes of the style of a category, if it has one. -/
def Category.codes? : Category → Option String
  | normal => none
  | info => some "34"
  | warning => some "33"
  | error => some "31"
  | special => some "1;36"

/-- A text in the style of a category. -/
def Category.paint (category : Category) (text : String) : String :=
  match category.codes? with
  | none => text
  | some codes => Escape.paint codes text

inductive Destination where
  /-- What the program emits, on standard output. -/
  | program
  /-- What is said about the program, on standard error. -/
  | tool (condition : Condition) (category : Category)
deriving DecidableEq

/-- Something to say about the program. -/
structure Message where
  condition : Condition
  category : Category
  text : String
deriving DecidableEq

/-- One write to a stream. -/
structure Printed where
  destination : Destination
  /-- What was to be printed. -/
  text : String
  /-- What was written. -/
  written : String
deriving DecidableEq

structure Terminal where
  minimal : Bool := false
  color : Bool := false
  /-- Nothing visible stands on the line. -/
  atLineStart : Bool := true
  /-- All writes so far, in order. -/
  log : Array Printed := #[]

namespace Terminal

/-! ## Printing -/

/-- Writes a text whose visible part is given. A text that shows nothing leaves the line as it is. -/
def write (t : Terminal) (destination : Destination) (text written : String) (visible : List Char) : Terminal :=
  { t with
    atLineStart := (visible.getLast?.map (· == '\n')).getD t.atLineStart
    log := t.log.push ⟨destination, text, written⟩ }

/-- Prints a single character, as it is. -/
def printChar (t : Terminal) (destination : Destination) (c : Char) : Terminal :=
  t.write destination (String.singleton c) (String.singleton c) [c]

/-- What is written for a text, if anything is. -/
def written? (t : Terminal) (destination : Destination) (text : String) : Option String :=
  match destination with
  | .program => some text
  | .tool condition category =>
    match t.minimal, condition with
    | true, .sometimes => none
    | true, .always => some (Escape.strip text)
    | false, _ => some (if t.color then category.paint text else text)

/-- Prints a text. -/
def print (t : Terminal) (destination : Destination) (text : String) : Terminal :=
  match t.written? destination text with
  | none => t
  | some written => t.write destination text written (Escape.visible text.toList)

/-- Ends the line if anything visible stands on it. -/
def startNewLine (t : Terminal) (destination : Destination) : Terminal :=
  if t.atLineStart then t else t.printChar destination '\n'

def say (t : Terminal) (m : Message) : Terminal := t.print (.tool m.condition m.category) m.text

/-- Says each message in turn. -/
def sayAll (t : Terminal) (ms : List Message) : Terminal := ms.foldl say t

/-- Puts a line on standard output that is not part of what the program emits. The
    screen's line is not looked at. -/
def announce (t : Terminal) (line : String) : Terminal :=
  { t with log := t.log.push ⟨.program, line, line ++ "\n"⟩ }

/-! ## Streams -/

/-- All that was written to standard output. -/
def standardOutput (t : Terminal) : String :=
  String.join ((t.log.toList.filter fun p => p.destination = .program).map Printed.written)

/-- All that was written to standard error. -/
def standardError (t : Terminal) : String :=
  String.join ((t.log.toList.filter fun p => p.destination ≠ .program).map Printed.written)

/-- The terminal with an empty log. -/
def flushed (t : Terminal) : Terminal := { t with log := #[] }

/-! ## What is said -/

@[simp] theorem minimal_say (t : Terminal) (m : Message) : (t.say m).minimal = t.minimal := by
  unfold say print
  split <;> rfl

@[simp] theorem minimal_sayAll (t : Terminal) (ms : List Message) : (t.sayAll ms).minimal = t.minimal := by
  induction ms generalizing t with
  | nil => rfl
  | cons m ms ih => exact (ih (t.say m)).trans (minimal_say t m)

@[simp] theorem minimal_startNewLine (t : Terminal) (destination : Destination) :
    (t.startNewLine destination).minimal = t.minimal := by
  unfold startNewLine
  split <;> rfl

/-- What is said goes to the other stream. -/
theorem standardOutput_write_tool (t : Terminal) (condition : Condition) (category : Category)
    (text written : String) (visible : List Char) :
    (t.write (.tool condition category) text written visible).standardOutput = t.standardOutput := by
  simp [write, standardOutput]

@[simp] theorem standardOutput_say (t : Terminal) (m : Message) : (t.say m).standardOutput = t.standardOutput := by
  unfold say print
  split
  · rfl
  · exact standardOutput_write_tool t _ _ _ _ _

@[simp] theorem standardOutput_sayAll (t : Terminal) (ms : List Message) :
    (t.sayAll ms).standardOutput = t.standardOutput := by
  induction ms generalizing t with
  | nil => rfl
  | cons m ms ih => exact (ih (t.say m)).trans (standardOutput_say t m)

@[simp] theorem standardOutput_startNewLine (t : Terminal) (condition : Condition) (category : Category) :
    (t.startNewLine (.tool condition category)).standardOutput = t.standardOutput := by
  unfold startNewLine
  split
  · rfl
  · exact standardOutput_write_tool t _ _ _ _ _

end Terminal
end Accumulator
