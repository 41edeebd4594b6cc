import Accumulator.Proofs.Styles

/-!
Line starts: the terminal knows whether anything visible stands on its line, whatever is printed
on either stream and in whichever mode. A screen is kept beside it that holds all that is visible
so far, and one request after another they stay in step. A text that shows nothing, be it empty,
hidden by escape sequences or left out in minimal mode, leaves both as they are.
-/
namespace Accumulator
namespace Terminal

/-- What can be asked of a terminal, on either stream. -/
inductive Request where
  | char (destination : Destination) (c : Char)
  | text (destination : Destination) (text : String)
  | newLine (destination : Destination)
  | mode (minimal : Bool)

def perform (t : Terminal) : Request → Terminal
  | .char destination c => t.printChar destination c
  | .text destination text => t.print destination text
  | .newLine destination => t.startNewLine destination
  | .mode minimal => { t with minimal := minimal }

/-- The terminal after requests, one after another. -/
def performAll (t : Terminal) (rs : List Request) : Terminal := rs.foldl perform t

/-! ## What is visible -/

/-- What is visible of a text, which minimal mode may leave out. -/
def shownOf (minimal : Bool) : Destination → String → List Char
  | .tool .sometimes _, text => if minimal then [] else Escape.visible text.toList
  | _, text => Escape.visible text.toList

/-- Nothing is visible, or a newline is the last that is. -/
def BeginsLine (shown : List Char) : Prop := shown = [] ∨ shown.getLast? = some '\n'

instance : DecidablePred BeginsLine := fun _ => inferInstanceAs (Decidable (_ ∨ _))

/-- The mode, and all that is visible so far on the two streams together. -/
structure Screen where
  minimal : Bool
  shown : List Char

/-- A character is visible as it is, a text without its escape sequences. A new line is
    started where none begins. -/
def Screen.after (s : Screen) : Request → Screen
  | .char _ c => { s with shown := s.shown ++ [c] }
  | .text destination text => { s with shown := s.shown ++ shownOf s.minimal destination text }
  | .newLine _ => { s with shown := s.shown ++ if BeginsLine s.shown then [] else ['\n'] }
  | .mode minimal => { s with minimal := minimal }

def Screen.afterAll (s : Screen) (rs : List Request) : Screen := rs.foldl after s

/-- What a request adds to the log. -/
def writes (t : Terminal) (r : Request) : List Printed := (t.perform r).log.toList.drop t.log.size

/-- What is visible of the writes of a request: for a text they are read without escape sequences. -/
def Request.visible (r : Request) (writes : List Printed) : List Char :=
  writes.flatMap fun p =>
    match r with
    | .text _ _ => Escape.visible p.written.toList
    | _ => p.written.toList

/-- What is visible of all that requests write, one after another. -/
def visibleWrites (t : Terminal) : List Request → List Char
  | [] => []
  | r :: rs => r.visible (t.writes r) ++ (t.perform r).visibleWrites rs

/-! ## Single requests -/

variable {t : Terminal} {s : Screen} {r : Request}

theorem writes_of_same (same : (t.perform r).log = t.log) : t.writes r = [] := by
  rw [writes, same, ← Array.length_toList, List.drop_length]

theorem writes_of_write {destination : Destination} {text written : String} {visible : List Char}
    (wrote : t.perform r = t.write destination text written visible) : t.writes r = [⟨destination, text, written⟩] := by
  rw [writes, wrote]
  show (t.log.push _).toList.drop _ = _
  rw [Array.toList_push, ← Array.length_toList, List.drop_left]

/-- A text is written just if minimal mode does not leave it out, and what is written shows what
    is visible of the text. -/
theorem print_cases (t : Terminal) (destination : Destination) (text : String) :
    (t.print destination text = t ∧ shownOf t.minimal destination text = []) ∨
      ∃ written, t.print destination text = t.write destination text written (Escape.visible text.toList) ∧
        Escape.visible written.toList = Escape.visible text.toList ∧
        shownOf t.minimal destination text = Escape.visible text.toList := by
  cases wrote : t.written? destination text with
  | none =>
    refine .inl ⟨by rw [print, wrote], ?_⟩
    -- Only a message that is due at times is ever left out.
    cases destination with
    | program => cases wrote
    | tool condition _ =>
      cases condition <;> cases mode : t.minimal <;> simp [written?, mode] at wrote
      rfl
  | some written =>
    have same := strip_of_written? wrote
    rw [Escape.strip, Escape.strip, ← String.toList_inj, String.toList_ofList, String.toList_ofList] at same
    refine .inr ⟨written, by rw [print, wrote], same, ?_⟩
    cases destination with
    | program => rfl
    | tool condition _ =>
      cases condition with
      | always => rfl
      | sometimes =>
        cases mode : t.minimal with
        | false => rfl
        | true => simp [written?, mode] at wrote

/-- The terminal has the mode of the screen, and knows where the screen begins a line. -/
structure Tracks (t : Terminal) (s : Screen) : Prop where
  minimal : t.minimal = s.minimal
  line : t.atLineStart = true ↔ BeginsLine s.shown

theorem beginsLine_append_singleton (shown : List Char) (c : Char) : BeginsLine (shown ++ [c]) ↔ c = '\n' := by
  simp [BeginsLine]

theorem Tracks.write (tracks : t.Tracks s) (destination : Destination) (text written : String) (visible : List Char) :
    (t.write destination text written visible).Tracks { s with shown := s.shown ++ visible } := by
  refine ⟨tracks.minimal, ?_⟩
  obtain rfl | ⟨init, last, rfl⟩ := List.eq_nil_or_concat visible
  · rw [List.append_nil]
    exact tracks.line
  · dsimp only [Terminal.write]
    rw [List.concat_eq_append, ← List.append_assoc, beginsLine_append_singleton]
    simp

theorem Tracks.of_same (tracks : t.Tracks s) (same : t.perform r = t) (shown : s.after r = s) :
    (t.perform r).Tracks (s.after r) ∧ (s.after r).shown = s.shown ++ r.visible (t.writes r) := by
  rw [writes_of_same (congrArg log same), same, shown]
  exact ⟨tracks, by simp [Request.visible]⟩

theorem Tracks.of_write (tracks : t.Tracks s) {destination : Destination} {text written : String} {visible : List Char}
    (wrote : t.perform r = t.write destination text written visible)
    (shown : s.after r = { s with shown := s.shown ++ visible })
    (reads : r.visible [⟨destination, text, written⟩] = visible) :
    (t.perform r).Tracks (s.after r) ∧ (s.after r).shown = s.shown ++ r.visible (t.writes r) := by
  rw [writes_of_write wrote, wrote, shown, reads]
  exact ⟨tracks.write destination text written visible, rfl⟩

/-- A terminal and a screen that are in step stay so, and what the screen then shows in addition is
    what is visible of the writes. -/
theorem Tracks.perform (tracks : t.Tracks s) (r : Request) :
    (t.perform r).Tracks (s.after r) ∧ (s.after r).shown = s.shown ++ r.visible (t.writes r) := by
  cases r with
  | char destination c => exact tracks.of_write rfl rfl (by simp [Request.visible])
  | text destination text =>
    obtain ⟨same, hidden⟩ | ⟨written, wrote, same, visible⟩ := t.print_cases destination text
    · rw [tracks.minimal] at hidden
      exact tracks.of_same same (by simp [Screen.after, hidden])
    · rw [tracks.minimal] at visible
      exact tracks.of_write wrote (by simp [Screen.after, visible]) (by simp [Request.visible, same])
  | newLine destination =>
    by_cases start : t.atLineStart = true
    · exact tracks.of_same (if_pos start) (by simp [Screen.after, tracks.line.mp start])
    · have broken : ¬ BeginsLine s.shown := mt tracks.line.mpr start
      exact tracks.of_write (if_neg start) (by simp [Screen.after, broken]) (by simp [Request.visible])
  | mode minimal =>
    have same : (t.perform (.mode minimal)).log = t.log := rfl
    rw [writes_of_same same]
    exact ⟨⟨rfl, tracks.line⟩, by simp [Screen.after, Request.visible]⟩

/-! ## Sequences of requests -/

theorem Tracks.performAll (tracks : t.Tracks s) (rs : List Request) :
    (t.performAll rs).Tracks (s.afterAll rs) ∧ (s.afterAll rs).shown = s.shown ++ t.visibleWrites rs := by
  induction rs generalizing t s with
  | nil => exact ⟨tracks, (List.append_nil _).symm⟩
  | cons r rs ih =>
    obtain ⟨first, shown⟩ := tracks.perform r
    obtain ⟨rest, later⟩ := ih first
    refine ⟨rest, ?_⟩
    rw [visibleWrites, ← List.append_assoc, ← shown]
    exact later

theorem atLineStart_startNewLine (t : Terminal) (destination : Destination) :
    (t.startNewLine destination).atLineStart = true := by
  rw [startNewLine]
  split
  · assumption
  · rfl

/-- After any requests, the terminal takes its line to be at the start just if nothing is visible of
    what has been written, or a newline is the last that is. A new line is then started by one
    newline exactly where none begins, on the stream that is asked for, and only the first of two
    requests for one can write anything. -/
theorem atLineStart_exact (minimal color : Bool) (rs : List Request) :
    let start : Terminal := { minimal := minimal, color := color }
    let t := start.performAll rs
    let shown := ((Screen.mk minimal []).afterAll rs).shown
    shown = start.visibleWrites rs ∧ (t.atLineStart = true ↔ BeginsLine shown) ∧
      (∀ destination, (t.startNewLine destination).log.toList =
        t.log.toList ++ if BeginsLine shown then [] else [⟨destination, "\n", "\n"⟩]) ∧
      ∀ destination other, (t.startNewLine destination).startNewLine other = t.startNewLine destination := by
  intro start t shown
  have fresh : start.Tracks ⟨minimal, []⟩ := ⟨rfl, ⟨fun _ => .inl rfl, fun _ => rfl⟩⟩
  obtain ⟨tracks, visible⟩ := fresh.performAll rs
  refine ⟨visible, tracks.line, fun destination => ?log, fun destination other => ?again⟩
  case log =>
    by_cases begins : BeginsLine shown
    · rw [if_pos begins, List.append_nil, startNewLine, if_pos (tracks.line.mpr begins)]
    · rw [if_neg begins, startNewLine, if_neg (mt tracks.line.mp begins)]
      exact Array.toList_push
  case again => exact if_pos (t.atLineStart_startNewLine destination)

end Terminal
end Accumulator
