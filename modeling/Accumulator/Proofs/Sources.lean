import Accumulator.Debugger
import Accumulator.Proofs.Places

/-!
Sources of commands: what a debugger has still to take, from a text that it was given or from
standard input. Of a text it has all commands from the start; of standard input it reads a line
only when it has no command left, and the line is read as a line of the text whose bytes stand
there. Either way a pause takes the commands that are offered up to the first that acts, and the
rest is offered after it.
-/
namespace Accumulator
open Text

namespace CommandText

/-! ## Bytes of a text -/

/-- The bytes of a text in UTF-8. -/
def bytes (cs : List Char) : List UInt8 := cs.flatMap String.utf8EncodeChar

theorem toUTF8_eq_bytes (text : String) : text.toUTF8.data.toList = bytes text.toList := by
  rw [String.toUTF8_eq_toByteArray, ← String.utf8Encode_toList, List.utf8Encode, List.toList_data_toByteArray]
  rfl

theorem fromUTF8?_bytes (cs : List Char) : String.fromUTF8? ⟨(bytes cs).toArray⟩ = some (String.ofList cs) := by
  have same : (⟨(bytes cs).toArray⟩ : ByteArray) = (String.ofList cs).toUTF8 := by
    apply ByteArray.ext
    apply Array.toList_inj.mp
    rw [toUTF8_eq_bytes, String.toList_ofList]
  rw [same]
  exact dif_pos (String.ofList cs).isValidUTF8

theorem bytes_append (first second : List Char) : bytes (first ++ second) = bytes first ++ bytes second :=
  List.flatMap_append

theorem bytes_newline (rest : List Char) : bytes ('\n' :: rest) = 10 :: bytes rest := rfl

theorem bytes_ne_nil {cs : List Char} (nonempty : cs ≠ []) : bytes cs ≠ [] := by
  obtain ⟨c, rest, rfl⟩ := List.exists_cons_of_ne_nil nonempty
  intro empty
  have size := String.length_utf8EncodeChar c
  rw [List.append_eq_nil_iff.mp empty |>.1] at size
  exact absurd size.symm (Nat.ne_of_gt c.utf8Size_pos)

/-- The byte of a newline stands in the bytes of a newline alone: all bytes of longer characters
    are beyond ASCII. -/
theorem eq_newline_of_mem_utf8 {c : Char} (member : 10 ∈ String.utf8EncodeChar c) : c = '\n' := by
  refine Char.ext (UInt32.toNat_inj.mp ?_)
  show c.val.toNat = 10
  unfold String.utf8EncodeChar at member
  dsimp only at member
  generalize c.val.toNat = v at member ⊢
  split_ifs at member <;>
    simp only [List.mem_cons, List.not_mem_nil, or_false, ← UInt8.toNat_inj, UInt8.toNat_ofNat',
      UInt8.reduceToNat] at member <;>
    omega

theorem ne_newline_of_mem_bytes {line : List Char} (unbroken : '\n' ∉ line) {byte : UInt8} (member : byte ∈ bytes line) :
    byte ≠ 10 := by
  rintro rfl
  obtain ⟨c, inside, member⟩ := List.mem_flatMap.mp member
  exact unbroken (eq_newline_of_mem_utf8 member ▸ inside)

/-! ## Lines of standard input -/

/-- The commands of a text on standard input, line by line. Carriage returns at the end of a line do not count. -/
def ofPiped (text : List Char) : List String :=
  (cutAfter '\n' text).flatMap fun piece => commands (next.trimReturns (dropMark '\n' piece))

theorem ofPiped_line {line : List Char} (unbroken : '\n' ∉ line) (rest : List Char) :
    ofPiped (line ++ '\n' :: rest) = commands (next.trimReturns line) ++ ofPiped rest := by
  unfold ofPiped
  rw [cutAfter_append unbroken, List.flatMap_cons]
  simp [dropMark]

theorem ofPiped_last {line : List Char} (unbroken : '\n' ∉ line) (nonempty : line ≠ []) :
    ofPiped line = commands (next.trimReturns line) := by
  have unmarked : dropMark '\n' line = line := if_neg fun last => unbroken (List.mem_of_getLast? last)
  unfold ofPiped
  rw [cutAfter_of_not_mem unbroken nonempty, List.flatMap_singleton, unmarked]

theorem decide_of_mem_bytes {line : List Char} (unbroken : '\n' ∉ line) :
    ∀ byte ∈ bytes line, decide (byte ≠ 10) = true :=
  fun _ member => decide_eq_true (ne_newline_of_mem_bytes unbroken member)

theorem next_of_takeWhile {input : List UInt8} {line : List Char} (nonempty : input ≠ [])
    (cut : input.takeWhile (· ≠ 10) = bytes line) :
    next input = (some (next.trimReturns line), (input.dropWhile (· ≠ 10)).tail) := by
  obtain ⟨byte, later, rfl⟩ := List.exists_cons_of_ne_nil nonempty
  unfold next
  dsimp only
  rw [cut, fromUTF8?_bytes, Option.map_some, String.toList_ofList]

theorem next_line {line : List Char} (unbroken : '\n' ∉ line) (rest : List Char) :
    next (bytes (line ++ '\n' :: rest)) = (some (next.trimReturns line), bytes rest) := by
  have before := decide_of_mem_bytes unbroken
  have cut : (bytes line ++ 10 :: bytes rest).takeWhile (· ≠ 10) = bytes line := by
    rw [List.takeWhile_append_of_pos before]
    simp
  rw [bytes_append, bytes_newline, next_of_takeWhile (by simp) cut, List.dropWhile_append_of_pos before]
  simp

theorem next_last {line : List Char} (unbroken : '\n' ∉ line) (nonempty : line ≠ []) :
    next (bytes line) = (some (next.trimReturns line), []) := by
  have before := decide_of_mem_bytes unbroken
  rw [next_of_takeWhile (bytes_ne_nil nonempty) (List.takeWhile_eq_self_iff.mpr before),
    List.dropWhile_eq_nil_iff.mpr before]
  rfl

/-- Standard input is read line by line as the commands of its text are. -/
theorem exists_next {text : List Char} (nonempty : text ≠ []) :
    ∃ line rest, next (bytes text) = (some line, bytes rest) ∧ ofPiped text = commands line ++ ofPiped rest ∧
      rest.length < text.length := by
  by_cases broken : '\n' ∈ text
  · obtain ⟨line, rest, rfl, unbroken⟩ := List.eq_append_cons_of_mem broken
    exact ⟨_, rest, next_line unbroken rest, ofPiped_line unbroken rest, by simp; omega⟩
  · refine ⟨_, [], next_last broken nonempty, ?_, List.length_pos_iff.mpr nonempty⟩
    rw [ofPiped_last broken nonempty]
    exact (List.append_nil _).symm

end CommandText

/-! ## Commands on offer -/

/-- The command that says how a run goes on. -/
def Action.command : Action → Command
  | .proceed => .step
  | .detach => .resume
  | .leave => .quit

namespace Debugger

/-- The commands that a debugger has still to take, one after another, when the given bytes are
    left on standard input. -/
inductive Offers : Debugger → List UInt8 → List String → Prop
  | given (queued : List String) (radix : Radix) (input : List UInt8) : Offers ⟨queued, false, radix⟩ input queued
  | piped (queued : List String) (radix : Radix) (text : List Char) :
    Offers ⟨queued, true, radix⟩ (CommandText.bytes text) (queued ++ CommandText.ofPiped text)

/-- The line is no command that says how a run goes on. -/
def Passes (line : String) : Prop := ∀ action : Action, Command.parse line ≠ .ok action.command

/-- Of the commands those up to the first that acts are taken, and the others are left. If none
    acts, all are taken, and the run goes on without a pause. -/
inductive Takes : (commands taken : List String) → Action → (left : List String) → Prop
  | acts {before : List String} {last : String} {action : Action} (passes : ∀ line ∈ before, Passes line)
    (acts : Command.parse last = .ok action.command) (left : List String) :
    Takes (before ++ last :: left) (before ++ [last]) action left
  | runsOut {commands : List String} (passes : ∀ line ∈ commands, Passes line) : Takes commands commands .detach []

theorem action?_eq_some_iff {line : String} {action : Action} :
    action? line = some action ↔ Command.parse line = .ok action.command := by
  unfold action?
  cases parsed : Command.parse line with
  | error e => simp
  | ok command => cases command <;> cases action <;> simp [Action.command]

theorem action?_eq_none_iff {line : String} : action? line = none ↔ Passes line := by
  unfold Passes
  rw [Option.eq_none_iff_forall_ne_some]
  exact forall_congr' fun action => not_congr action?_eq_some_iff

theorem Takes.after {earlier commands taken left : List String} {action : Action}
    (passes : ∀ line ∈ earlier, Passes line) (takes : Takes commands taken action left) :
    Takes (earlier ++ commands) (earlier ++ taken) action left := by
  cases takes with
  | acts before acts left =>
    rw [← List.append_assoc, ← List.append_assoc]
    exact .acts (List.forall_mem_append.mpr ⟨passes, before⟩) acts left
  | runsOut all => exact .runsOut (List.forall_mem_append.mpr ⟨passes, all⟩)

/-- Nothing is lost and nothing is repeated. -/
theorem Takes.append {commands taken left : List String} {action : Action}
    (takes : Takes commands taken action left) : taken ++ left = commands := by
  cases takes with
  | acts before acts left => simp
  | runsOut all => exact List.append_nil _

/-- Lines that are passed over stand before whatever the queue behind them comes to. -/
theorem takeQueued_behind {before : List String} (passes : ∀ line ∈ before, Passes line) (rest : List String) :
    takeQueued (before ++ rest) = (before ++ (takeQueued rest).1, (takeQueued rest).2) := by
  induction before with
  | nil => rfl
  | cons line before ih =>
    rw [List.forall_mem_cons] at passes
    rw [List.cons_append, takeQueued, action?_eq_none_iff.mpr passes.1, ih passes.2]
    rfl

theorem takeQueued_of_acts {before : List String} {last : String} {action : Action}
    (passes : ∀ line ∈ before, Passes line) (acts : Command.parse last = .ok action.command) (left : List String) :
    takeQueued (before ++ last :: left) = (before ++ [last], some (action, left)) := by
  rw [takeQueued_behind passes, takeQueued, action?_eq_some_iff.mpr acts]

theorem takeQueued_of_passes {queued : List String} (passes : ∀ line ∈ queued, Passes line) :
    takeQueued queued = (queued, none) := by
  have all := takeQueued_behind passes []
  rwa [takeQueued, List.append_nil] at all

/-- A queue has a first command that acts, or none. -/
inductive QueueCase : List String → Prop
  | acts {before : List String} {last : String} {action : Action} (passes : ∀ line ∈ before, Passes line)
    (acts : Command.parse last = .ok action.command) (left : List String) : QueueCase (before ++ last :: left)
  | passes {queued : List String} (all : ∀ line ∈ queued, Passes line) : QueueCase queued

theorem queueCase (queued : List String) : QueueCase queued := by
  induction queued with
  | nil => exact .passes (by simp)
  | cons line queued ih =>
    cases acts : action? line with
    | some action =>
      show QueueCase ([] ++ line :: queued)
      exact .acts (by simp) (action?_eq_some_iff.mp acts) queued
    | none =>
      have passes := action?_eq_none_iff.mp acts
      cases ih with
      | acts others acts left => exact .acts (List.forall_mem_cons.mpr ⟨passes, others⟩) acts left
      | passes all => exact .passes (List.forall_mem_cons.mpr ⟨passes, all⟩)

/-! ## Pauses -/

section
variable {readsInput : Bool} {queued taken left : List String} {input : List UInt8} {action : Action}

theorem take_of_acts (found : takeQueued queued = (taken, some (action, left))) :
    take readsInput queued input = ⟨taken, action, left, input⟩ := by
  unfold take
  rw [found]

theorem take_of_end (found : takeQueued queued = (queued, none)) (ended : ¬ (readsInput = true ∧ input ≠ [])) :
    take readsInput queued input = ⟨queued, .detach, [], input⟩ := by
  unfold take
  rw [found]
  exact dif_neg ended

/-- Where no command in the queue acts, the commands of the next line are taken behind them. -/
theorem take_of_next (found : takeQueued queued = (queued, none)) (nonempty : input ≠ []) {line : List Char}
    {rest : List UInt8} (next : CommandText.next input = (some line, rest)) :
    take true queued input = (take true (CommandText.commands line) rest).after queued := by
  rw [take, found]
  dsimp only
  rw [dif_pos ⟨rfl, nonempty⟩, next]

end

theorem takes_of_given (queued : List String) (radix : Radix) (input : List UInt8) :
    let p := take false queued input
    ∃ left, Takes queued p.taken p.action left ∧ Offers ⟨p.queued, false, radix⟩ p.input left := by
  cases queueCase queued with
  | acts passes acts left =>
    rw [take_of_acts (takeQueued_of_acts passes acts left)]
    exact ⟨left, .acts passes acts left, .given left radix input⟩
  | passes all =>
    rw [take_of_end (takeQueued_of_passes all) (by simp)]
    exact ⟨[], .runsOut all, .given [] radix input⟩

theorem takes_of_piped (queued : List String) (radix : Radix) (text : List Char) :
    let p := take true queued (CommandText.bytes text)
    ∃ left, Takes (queued ++ CommandText.ofPiped text) p.taken p.action left ∧
      Offers ⟨p.queued, true, radix⟩ p.input left := by
  induction size : text.length using Nat.strongRecOn generalizing queued text with
  | ind n ih =>
    cases queueCase queued with
    | acts passes acts left =>
      rw [take_of_acts (takeQueued_of_acts passes acts left), List.append_assoc]
      exact ⟨_, .acts passes acts _, .piped left radix text⟩
    | passes all =>
      have found := takeQueued_of_passes all
      by_cases nonempty : text = []
      · subst nonempty
        rw [take_of_end found (by simp [CommandText.bytes])]
        refine ⟨[], ?_, .piped [] radix []⟩
        rw [show CommandText.ofPiped [] = [] from rfl, List.append_nil]
        exact .runsOut all
      · obtain ⟨line, rest, next, commands, shorter⟩ := CommandText.exists_next nonempty
        rw [take_of_next found (CommandText.bytes_ne_nil nonempty) next, commands]
        obtain ⟨left, takes, offers⟩ := ih rest.length (size ▸ shorter) (CommandText.commands line) rest rfl
        exact ⟨left, takes.after all, offers⟩

/-- A pause takes the commands on offer up to the first that acts, and those after it are on offer then. -/
theorem takes_of_offers {d : Debugger} {input : List UInt8} {commands : List String} (offers : d.Offers input commands) :
    let p := take d.readsInput d.queued input
    ∃ left, Takes commands p.taken p.action left ∧ Offers { d with queued := p.queued } p.input left := by
  cases offers with
  | given _ radix => exact takes_of_given _ radix input
  | piped queued radix text => exact takes_of_piped queued radix text

end Debugger
end Accumulator
