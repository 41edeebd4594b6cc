import Accumulator.Proofs.Accounts
import Accumulator.Proofs.Styles

/-!
Display: how a run is shown makes no difference to it, and minimal mode only leaves out. The
radix and the mode change what is said; no command is taken for it, and no cell is changed. A
run in minimal mode says what the full run says, less the messages that are due at times and
less the escape sequences. For this the two must agree whether the line is at its start, and
after the messages that only one of them shows they need not. They agree again at the line
that announces the instruction, which both show, and so at the end of every pause.
-/
namespace Accumulator

/-- A text that begins outside an escape sequence shows something. -/
theorem Escape.visible_cons_ne_nil {c : Char} (shown : c ≠ mark) (cs : List Char) : visible (c :: cs) ≠ [] := by
  rw [visible_char shown]
  exact List.cons_ne_nil c _

/-- What a write comes to in minimal mode: a message that is due at times is not written, one
    that is always due is written without its escape sequences. -/
def Printed.inMinimal? (p : Printed) : Option String :=
  match p.destination with
  | .program | .tool .sometimes _ => none
  | .tool .always _ => some (Escape.strip p.text)

namespace Terminal

/-! ## Terminals in the two modes -/

/-- What minimal mode would have written to standard error for the writes so far. -/
def inMinimal (t : Terminal) : String := String.join (t.log.toList.filterMap Printed.inMinimal?)

theorem inMinimal_write (t : Terminal) (destination : Destination) (text written : String) (visible : List Char) :
    (t.write destination text written visible).inMinimal =
      t.inMinimal ++ (Printed.inMinimal? ⟨destination, text, written⟩).getD "" := by
  unfold inMinimal write
  rw [Array.toList_push, List.filterMap_append, String.join_append]
  cases kept : Printed.inMinimal? ⟨destination, text, written⟩ <;> simp [kept]

theorem standardError_write_tool (t : Terminal) (condition : Condition) (category : Category)
    (text written : String) (visible : List Char) :
    (t.write (.tool condition category) text written visible).standardError = t.standardError ++ written := by
  simp [write, standardError]

theorem standardError_write_program (t : Terminal) (text written : String) (visible : List Char) :
    (t.write .program text written visible).standardError = t.standardError := by
  simp [write, standardError]

/-- Nothing visible stands on the line after a text. -/
def lineAfter (before : Bool) (text : String) : Bool :=
  ((Escape.visible text.toList).getLast?.map (· == '\n')).getD before

theorem lineAfter_eq {text : String} (shown : Escape.visible text.toList ≠ []) (before before' : Bool) :
    lineAfter before text = lineAfter before' text := by
  unfold lineAfter
  rw [List.getLast?_eq_some_getLast shown]
  rfl

variable {small full t : Terminal} {m : Message}

theorem say_of_verbose (mode : t.minimal = false) (m : Message) :
    ∃ written, t.say m = t.write (.tool m.condition m.category) m.text written (Escape.visible m.text.toList) := by
  unfold say print written?
  rw [mode]
  exact ⟨_, rfl⟩

theorem say_of_always (mode : t.minimal = true) (always : m.condition = .always) :
    t.say m =
      t.write (.tool .always m.category) m.text (Escape.strip m.text) (Escape.visible m.text.toList) := by
  unfold say print written?
  rw [mode, always]

theorem say_of_sometimes (mode : t.minimal = true) (sometimes : m.condition = .sometimes) : t.say m = t := by
  unfold say print written?
  rw [mode, sometimes]

theorem atLineStart_say_of_always (always : m.condition = .always) :
    (t.say m).atLineStart = lineAfter t.atLineStart m.text := by
  cases mode : t.minimal with
  | true => rw [say_of_always mode always]; rfl
  | false =>
    obtain ⟨written, said⟩ := say_of_verbose mode m
    rw [said]
    rfl

/-- The first terminal is in minimal mode and has said what that leaves of the messages of
    the second, which is not. -/
structure Abridges (small full : Terminal) : Prop where
  minimal : small.minimal = true
  verbose : full.minimal = false
  said : small.standardError = full.inMinimal

structure InStep (small full : Terminal) : Prop extends Abridges small full where
  /-- On both, or on neither, something visible stands on the line. -/
  line : small.atLineStart = full.atLineStart

theorem Abridges.say (abridges : small.Abridges full) (m : Message) : (small.say m).Abridges (full.say m) where
  minimal := (minimal_say small m).trans abridges.minimal
  verbose := (minimal_say full m).trans abridges.verbose
  said := by
    obtain ⟨written, said⟩ := say_of_verbose abridges.verbose m
    rw [said, inMinimal_write, ← abridges.said]
    cases condition : m.condition with
    | sometimes =>
      rw [say_of_sometimes abridges.minimal condition]
      exact String.append_empty.symm
    | always =>
      rw [say_of_always abridges.minimal condition, standardError_write_tool]
      rfl

theorem Abridges.sayAll (abridges : small.Abridges full) (ms : List Message) :
    (small.sayAll ms).Abridges (full.sayAll ms) := by
  induction ms generalizing small full with
  | nil => exact abridges
  | cons m ms ih => exact ih (abridges.say m)

/-- A message that both show, and that shows something, brings them in step. -/
theorem Abridges.inStep_say (abridges : small.Abridges full) (always : m.condition = .always)
    (shown : Escape.visible m.text.toList ≠ []) : (small.say m).InStep (full.say m) where
  toAbridges := abridges.say m
  line := by
    rw [atLineStart_say_of_always always, atLineStart_say_of_always always]
    exact lineAfter_eq shown _ _

theorem InStep.say (inStep : small.InStep full) (always : m.condition = .always) :
    (small.say m).InStep (full.say m) where
  toAbridges := inStep.toAbridges.say m
  line := by rw [atLineStart_say_of_always always, atLineStart_say_of_always always, inStep.line]

theorem InStep.sayAll {ms : List Message} (inStep : small.InStep full) (always : ∀ m ∈ ms, m.condition = .always) :
    (small.sayAll ms).InStep (full.sayAll ms) := by
  induction ms generalizing small full with
  | nil => exact inStep
  | cons m ms ih =>
    rw [List.forall_mem_cons] at always
    exact ih (inStep.say always.1) always.2

theorem InStep.startNewLine (inStep : small.InStep full) (category : Category) :
    (small.startNewLine (.tool .always category)).InStep (full.startNewLine (.tool .always category)) := by
  unfold Terminal.startNewLine
  rw [← inStep.line]
  split
  · exact inStep
  · refine ⟨⟨inStep.minimal, inStep.verbose, ?_⟩, rfl⟩
    have newline : Escape.strip (String.singleton '\n') = String.singleton '\n' := by decide
    unfold printChar
    rw [standardError_write_tool, inMinimal_write, inStep.said]
    exact congrArg (full.inMinimal ++ ·) newline.symm

theorem InStep.printChar (inStep : small.InStep full) (c : Char) :
    (small.printChar .program c).InStep (full.printChar .program c) := by
  refine ⟨⟨inStep.minimal, inStep.verbose, ?_⟩, rfl⟩
  unfold Terminal.printChar
  rw [standardError_write_program, inMinimal_write, inStep.said]
  exact String.append_empty.symm

end Terminal

namespace Debugger

def commands (d : Debugger) : List String × Bool := (d.queued, d.readsInput)

/-! ## What a pause says -/

theorem always_of_mem_closing {action : Action} {message : Message} (said : message ∈ closing action) :
    message.condition = .always := by
  cases action with
  | detach => rw [List.mem_singleton.mp said]
  | proceed => cases said
  | leave => cases said

/-- In a pause the views come first, and then a line that is always shown; so is all after it. -/
theorem messages_eq (radix : Radix) (m : Machine) (p : Pause) :
    ∃ views line later, messages radix m p = views ++ line :: later ∧ line.condition = .always ∧
      Escape.visible line.text.toList ≠ [] ∧ ∀ message ∈ later, message.condition = .always := by
  refine ⟨(opening radix m).take 5, _, p.taken.flatMap (respond radix m) ++ closing p.action, rfl, rfl, ?_, ?_⟩
  · rw [String.toList_append, String.toList_append, String.toList_append]
    exact Escape.visible_cons_ne_nil (by decide) _
  · intro message said
    rcases List.mem_append.mp said with replied | closed
    · exact (account_respond radix m p.taken).always message replied
    · exact always_of_mem_closing closed

end Debugger

theorem Terminal.InStep.sayMessages {small full : Terminal} (inStep : small.InStep full) (radix : Radix) (m : Machine)
    (p : Debugger.Pause) :
    (small.sayAll (Debugger.messages radix m p)).InStep (full.sayAll (Debugger.messages radix m p)) := by
  obtain ⟨views, line, later, split, always, shown, rest⟩ := Debugger.messages_eq radix m p
  -- The full terminal alone shows the views, and the line after them settles where both stand.
  have apart := inStep.toAbridges.sayAll views
  unfold Terminal.sayAll at apart ⊢
  rw [split, List.foldl_append, List.foldl_append, List.foldl_cons, List.foldl_cons]
  exact (apart.inStep_say always shown).sayAll rest

namespace Session

/-! ## Sessions that are shown in different ways -/

/-- The sessions are alike, and their debuggers take the same commands. -/
structure Parallel (s t : Session) : Prop extends s.Alike t where
  commands : s.debugger.map Debugger.commands = t.debugger.map Debugger.commands

theorem Parallel.pause {s t : Session} (parallel : s.Parallel t) :
    s.pause.1 = t.pause.1 ∧ s.pause.2.Parallel t.pause.2 := by
  have output := (output_pause s).trans (parallel.output.trans (output_pause t).symm)
  have commands := parallel.commands
  cases first : s.debugger with
  | none =>
    rw [first] at commands
    rw [pause_of_alone first, pause_of_alone (Option.map_eq_none_iff.mp commands.symm)]
    exact ⟨rfl, parallel⟩
  | some d =>
    rw [first] at commands
    obtain ⟨e, second, same⟩ := Option.map_eq_some_iff.mp commands.symm
    obtain ⟨queued, readsInput⟩ := Prod.mk.inj same
    have taken : Debugger.take e.readsInput e.queued t.input = Debugger.take d.readsInput d.queued s.input := by
      rw [queued, readsInput, parallel.input]
    rw [pause_of_attached first rfl, pause_of_attached second taken] at output ⊢
    refine ⟨rfl, ⟨parallel.machine, parallel.limit, parallel.channel, rfl, output⟩, ?_⟩
    dsimp only
    split
    · rfl
    · exact congrArg (fun r => some (_, r)) readsInput.symm

theorem Parallel.step {s t : Session} (parallel : s.Parallel t) :
    s.step.1 = t.step.1 ∧ s.step.2.Parallel t.step.2 := by
  obtain ⟨outcome, alike⟩ := parallel.toAlike.step
  refine ⟨outcome, alike, ?_⟩
  rw [debugger_step, debugger_step]
  exact parallel.commands

/-- The sessions are alike and have the same debugger, and the first says in minimal mode what
    the second says in full. -/
structure Abridged (s t : Session) : Prop extends s.Alike t where
  debugger : s.debugger = t.debugger
  terminal : s.terminal.InStep t.terminal

theorem Abridged.pause {s t : Session} (abridged : s.Abridged t) :
    s.pause.1 = t.pause.1 ∧ s.pause.2.Abridged t.pause.2 := by
  have parallel : s.Parallel t := ⟨abridged.toAlike, congrArg _ abridged.debugger⟩
  have alike := parallel.pause.2.toAlike
  cases attached : t.debugger with
  | none =>
    rw [pause_of_alone attached, pause_of_alone (abridged.debugger.trans attached)]
    exact ⟨rfl, abridged⟩
  | some d =>
    have taken : Debugger.take d.readsInput d.queued t.input = Debugger.take d.readsInput d.queued s.input := by
      rw [abridged.input]
    rw [pause_of_attached (abridged.debugger.trans attached) rfl, pause_of_attached attached taken] at alike ⊢
    refine ⟨rfl, alike, rfl, ?_⟩
    dsimp only
    rw [abridged.machine]
    exact (abridged.terminal.startNewLine .normal).sayMessages d.radix t.machine _

theorem Abridged.step {s t : Session} (abridged : s.Abridged t) :
    s.step.1 = t.step.1 ∧ s.step.2.Abridged t.step.2 := by
  obtain ⟨outcome, alike⟩ := abridged.toAlike.step
  refine ⟨outcome, alike, ?_, ?_⟩
  · rw [debugger_step, debugger_step, abridged.debugger]
  · show (s.apply s.cycle).terminal.InStep (t.apply t.cycle).terminal
    rw [apply_eq, apply_eq, abridged.toAlike.cycle, abridged.channel]
    unfold Channel.terminalAfter
    dsimp only
    split
    · exact abridged.terminal.printChar _
    · exact abridged.terminal

end Session
end Accumulator
