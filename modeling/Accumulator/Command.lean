import Accumulator.Text

/-!
Commands of the debugger, and the lines that they come from. A line holds commands
separated by semicolons; an empty line is one empty command, which steps.
-/
namespace Accumulator
open Text

inductive Command where
  /-- Execute the pending instruction and pause again. -/
  | step
  /-- Execute the rest without a pause. -/
  | resume
  /-- End the run before the pending instruction. -/
  | quit
  | registers
  | memory
  | labels
  | program
  | help
deriving DecidableEq

/-- Why a line is no command. -/
inductive CommandError where
  | notACommand (word : String)
  | takesNoArguments (command : Command)
deriving DecidableEq

namespace Command

def name : Command → String
  | step => "step"
  | resume => "continue"
  | quit => "exit"
  | registers => "registers"
  | memory => "memory"
  | labels => "labels"
  | program => "program"
  | help => "help"

/-- All words for commands, in small letters. -/
def words : List (String × Command) :=
  [("s", step), ("step", step), ("x", resume), ("c", resume), ("continue", resume), ("q", quit), ("exit", quit),
   ("quit", quit), ("r", registers), ("registers", registers), ("m", memory), ("memory", memory), ("l", labels),
   ("labels", labels), ("p", program), ("program", program), ("h", help), ("help", help)]

/-- The command of a word. The words have ASCII letters only, and no letter outside
    ASCII becomes one of theirs in small letters. -/
def ofWord? (word : List Char) : Option Command :=
  words.lookup (String.ofList (word.map Char.toLower))

/-- The command of a line. A line without a word steps. -/
def parse (line : String) : Except CommandError Command :=
  let cs := trimStart line.toList
  let word := cs.takeWhile (!isBlank ·)
  let rest := cs.dropWhile (!isBlank ·)
  if word = [] then .ok step
  else match ofWord? word with
    | none => .error (.notACommand (String.ofList word))
    | some command => if rest.all isBlank then .ok command else .error (.takesNoArguments command)

end Command

def CommandError.message : CommandError → String
  | notACommand word => s!"Not a command: `{word}`"
  | takesNoArguments command => s!"Command `{command.name}` takes no arguments"

namespace CommandText

/-- The commands of one line. A semicolon at its end adds none. -/
def commands (line : List Char) : List String :=
  match cutAfter ';' line with
  | [] => [""]
  | pieces => pieces.map fun piece => String.ofList (dropMark ';' piece)

/-- The lines of a text. A carriage return before a newline belongs to the line's end. -/
def lines (text : List Char) : List (List Char) :=
  (cutAfter '\n' text).map fun piece =>
    if piece.getLast? = some '\n' then dropMark '\r' piece.dropLast else piece

/-- All commands of a text, line by line. -/
def ofText (text : String) : List String := (lines text.toList).flatMap commands

/-- The next line of an input of bytes, and the bytes after it. Carriage returns at its
    end do not count. Where the input has ended, or the line is no UTF-8, there is none. -/
def next (input : List UInt8) : Option (List Char) × List UInt8 :=
  match input with
  | [] => (none, [])
  | _ :: _ =>
    let line := input.takeWhile (· ≠ 10)
    ((String.fromUTF8? ⟨line.toArray⟩).map fun text => trimReturns text.toList,
      (input.dropWhile (· ≠ 10)).tail)
where
  /-- The line without the carriage returns at its end. -/
  trimReturns (line : List Char) : List Char := (line.reverse.dropWhile (· = '\r')).reverse

theorem length_next_lt {input : List UInt8} (h : input ≠ []) : (next input).2.length < input.length := by
  obtain ⟨b, bs, rfl⟩ := List.exists_cons_of_ne_nil h
  simp only [next, List.length_tail]
  have := (List.dropWhile_sublist (fun x : UInt8 => decide (x ≠ 10)) (l := b :: bs)).length_le
  simp only [List.length_cons] at this ⊢
  omega

end CommandText
end Accumulator
