import Accumulator.Proofs.Pauses
import Accumulator.Proofs.Sources

/-!
Accounts of pauses: a pause takes no more commands than it needs, and says of each what there is
to say. It takes the commands on offer up to the first that acts; each is repeated once, and then
comes the one view that it asks for, or what is wrong with it. All of this is written in minimal
mode too. The commands after the first that acts are on offer at the next pause.
-/
namespace Accumulator

namespace Terminal

/-! ## The log -/

/-- The write that a message comes to, if it is written at all. -/
def record? (t : Terminal) (m : Message) : Option Printed :=
  (t.written? (.tool m.condition m.category) m.text).map fun written =>
    ⟨.tool m.condition m.category, m.text, written⟩

theorem log_say (t : Terminal) (m : Message) : (t.say m).log.toList = t.log.toList ++ (t.record? m).toList := by
  unfold say print record?
  cases t.written? (.tool m.condition m.category) m.text with
  | none => exact (List.append_nil _).symm
  | some written => exact Array.toList_push

/-- What is written for a message depends on the mode and on the colors, and neither changes. -/
theorem record?_say (t : Terminal) (m : Message) : (t.say m).record? = t.record? := by
  unfold say print
  split <;> rfl

theorem log_sayAll (t : Terminal) (ms : List Message) :
    (t.sayAll ms).log.toList = t.log.toList ++ ms.filterMap t.record? := by
  induction ms generalizing t with
  | nil => exact (List.append_nil _).symm
  | cons m ms ih =>
    have rest := ih (t.say m)
    rw [log_say, record?_say, List.append_assoc] at rest
    rw [List.filterMap_cons]
    cases written : t.record? m with
    | none => rwa [written] at rest
    | some record => rwa [written] at rest

theorem record?_startNewLine (t : Terminal) (destination : Destination) :
    (t.startNewLine destination).record? = t.record? := by
  unfold startNewLine
  split <;> rfl

theorem isSome_record?_of_always (t : Terminal) {m : Message} (always : m.condition = .always) :
    (t.record? m).isSome := by
  unfold record? written?
  rw [always]
  cases t.minimal <;> rfl

end Terminal

namespace Debugger

/-! ## What is said of commands -/

/-- The message that repeats a command. -/
def echo (line : String) : Message := ⟨.always, .special, "Command: " ++ String.ofList (Text.trim line.toList) ++ "\n"⟩

/-- The one message that a command asks for. -/
inductive Displays (radix : Radix) (m : Machine) : Command → Message → Prop
  | registers : Displays radix m .registers ⟨.always, .normal, m.registers.view radix⟩
  | memory : Displays radix m .memory ⟨.always, .normal, m.store.memoryView radix⟩
  | program : Displays radix m .program ⟨.always, .normal, m.store.programView⟩
  | labels (declared : m.labels.size ≠ 0) : Displays radix m .labels ⟨.always, .normal, m.labels.view⟩
  | noLabels (bare : m.labels.size = 0) : Displays radix m .labels ⟨.always, .info, "No labels declared.\n"⟩
  | help : Displays radix m .help ⟨.always, .special, "\n" ++ help ++ "\n"⟩

/-- What is said of commands, one after another: each is repeated once, and then there is one
    view for a command that displays, or one error for a line that is no command. -/
inductive Account (radix : Radix) (m : Machine) : List String → List Message → Prop
  | nil : Account radix m [] []
  | acts {line : String} {action : Action} {lines : List String} {said : List Message}
    (parsed : Command.parse line = .ok action.command) (rest : Account radix m lines said) :
    Account radix m (line :: lines) (echo line :: said)
  | displays {line : String} {command : Command} {view : Message} {lines : List String} {said : List Message}
    (parsed : Command.parse line = .ok command) (displays : Displays radix m command view)
    (rest : Account radix m lines said) : Account radix m (line :: lines) (echo line :: view :: said)
  | refuses {line : String} {error : CommandError} {lines : List String} {said : List Message}
    (parsed : Command.parse line = .error error) (rest : Account radix m lines said) :
    Account radix m (line :: lines)
      (echo line :: ⟨.always, .error, error.message⟩ ::
        ⟨.always, .error, " Type `help` for a list of commands.\n"⟩ :: said)

theorem Displays.always {radix : Radix} {m : Machine} {command : Command} {view : Message}
    (displays : Displays radix m command view) : view.condition = .always := by
  cases displays <;> rfl

theorem Account.always {radix : Radix} {m : Machine} {lines : List String} {said : List Message}
    (account : Account radix m lines said) : ∀ message ∈ said, message.condition = .always := by
  induction account with
  | nil => simp
  | acts parsed rest ih => exact List.forall_mem_cons.mpr ⟨rfl, ih⟩
  | displays parsed displays rest ih =>
    exact List.forall_mem_cons.mpr ⟨rfl, List.forall_mem_cons.mpr ⟨displays.always, ih⟩⟩
  | refuses parsed rest ih =>
    exact List.forall_mem_cons.mpr ⟨rfl, List.forall_mem_cons.mpr ⟨rfl, List.forall_mem_cons.mpr ⟨rfl, ih⟩⟩⟩

theorem Displays.respond {radix : Radix} {m : Machine} {line : String} {command : Command} {view : Message}
    (displays : Displays radix m command view) (parsed : Command.parse line = .ok command) :
    respond radix m line = [echo line, view] := by
  unfold Debugger.respond
  rw [parsed]
  cases displays with
  | labels declared => exact congrArg (echo line :: ·) (if_neg declared)
  | noLabels bare => exact congrArg (echo line :: ·) (if_pos bare)
  | registers => rfl
  | memory => rfl
  | program => rfl
  | help => rfl

theorem respond_of_acts {radix : Radix} {m : Machine} {line : String} {action : Action}
    (parsed : Command.parse line = .ok action.command) : respond radix m line = [echo line] := by
  unfold respond
  rw [parsed]
  cases action <;> rfl

/-- Every command acts or displays. -/
theorem acts_or_displays (radix : Radix) (m : Machine) (command : Command) :
    (∃ action : Action, command = action.command) ∨ ∃ view, Displays radix m command view := by
  cases command with
  | step => exact .inl ⟨.proceed, rfl⟩
  | resume => exact .inl ⟨.detach, rfl⟩
  | quit => exact .inl ⟨.leave, rfl⟩
  | registers => exact .inr ⟨_, .registers⟩
  | memory => exact .inr ⟨_, .memory⟩
  | program => exact .inr ⟨_, .program⟩
  | help => exact .inr ⟨_, .help⟩
  | labels =>
    by_cases bare : m.labels.size = 0
    · exact .inr ⟨_, .noLabels bare⟩
    · exact .inr ⟨_, .labels bare⟩

theorem account_respond (radix : Radix) (m : Machine) (lines : List String) :
    Account radix m lines (lines.flatMap (respond radix m)) := by
  induction lines with
  | nil => exact .nil
  | cons line lines ih =>
    rw [List.flatMap_cons]
    cases parsed : Command.parse line with
    | error e =>
      have said : respond radix m line = echo line :: complaint e := by
        unfold respond
        rw [parsed]
        rfl
      rw [said]
      exact .refuses parsed ih
    | ok command =>
      obtain ⟨action, rfl⟩ | ⟨view, displays⟩ := acts_or_displays radix m command
      · rw [respond_of_acts parsed]
        exact .acts parsed ih
      · rw [displays.respond parsed]
        exact .displays parsed displays ih

end Debugger

namespace Session

/-- A pause takes the commands on offer up to the first that acts, or all where none does, in
    order and each once; the others are on offer after it. It announces the machine, then gives
    its account of the commands that it has taken, all of which is written whatever the mode,
    and says so if the run goes on without it. -/
theorem pause_exact {s : Session} {d : Debugger} (attached : s.debugger = some d) {commands : List String}
    (offers : d.Offers s.input commands) :
    let p := Debugger.take d.readsInput d.queued s.input
    (∃ left, Debugger.Takes commands p.taken p.action left ∧ p.taken ++ left = commands ∧
        Debugger.Offers { d with queued := p.queued } p.input left) ∧
      s.pause.1 = p.action ∧ s.pause.2.input = p.input ∧
      s.pause.2.debugger = (if p.action = .detach then none else some { d with queued := p.queued }) ∧
      ∃ said, Debugger.Account d.radix s.machine p.taken said ∧ (∀ m ∈ said, (s.terminal.record? m).isSome) ∧
        s.pause.2.terminal.log.toList =
          (s.terminal.startNewLine (.tool .always .normal)).log.toList ++
            (Debugger.opening d.radix s.machine ++ said ++ Debugger.closing p.action).filterMap s.terminal.record? := by
  intro p
  rw [pause_of_attached attached rfl]
  have account := Debugger.account_respond d.radix s.machine p.taken
  refine ⟨?taken, rfl, rfl, rfl, _, account, ?written, ?log⟩
  case taken =>
    obtain ⟨left, takes, rest⟩ := Debugger.takes_of_offers offers
    exact ⟨left, takes, takes.append, rest⟩
  case written => exact fun m said => s.terminal.isSome_record?_of_always (account.always m said)
  case log =>
    dsimp only
    rw [Terminal.log_sayAll, Terminal.record?_startNewLine]
    rfl

/-- A session whose debugger has one command left, and two lines with others before it. -/
def pipedSession : Session :=
  { countingSession with
    debugger := some ⟨["r"], true, .decimal⟩
    input := CommandText.bytes "jump\r\n;x".toList }

theorem pause_exact_piped :
    Debugger.Offers ⟨["r"], true, .decimal⟩ pipedSession.input ["r", "jump", "", "x"] ∧
      pipedSession.pause.1 = .proceed ∧
      (pipedSession.pause.2.debugger, pipedSession.pause.2.input) = (some ⟨["x"], true, .decimal⟩, []) ∧
      ∃ said, Debugger.Account .decimal pipedSession.machine ["r", "jump", ""] said := by
  have offers : Debugger.Offers ⟨["r"], true, .decimal⟩ pipedSession.input ["r", "jump", "", "x"] := by
    have commands : CommandText.ofPiped "jump\r\n;x".toList = ["jump", "", "x"] := by decide
    have piped := Debugger.Offers.piped ["r"] .decimal "jump\r\n;x".toList
    rwa [commands] at piped
  have unbroken : '\n' ∉ "jump\r".toList := by decide
  have first : CommandText.next pipedSession.input = (some "jump".toList, CommandText.bytes ";x".toList) :=
    CommandText.next_line unbroken ";x".toList
  have second : CommandText.next (CommandText.bytes ";x".toList) = (some ";x".toList, []) :=
    CommandText.next_last (by decide) (by decide)
  have taken : Debugger.take true ["r"] pipedSession.input = ⟨["r", "jump", ""], .proceed, ["x"], []⟩ := by
    have stepped : Debugger.takeQueued ["", "x"] = ([""], some (.proceed, ["x"])) := by decide
    have split : CommandText.commands ";x".toList = ["", "x"] := by decide
    rw [Debugger.take_of_next (by decide) (by decide) first, Debugger.take_of_next (by decide) (by decide) second,
      split, Debugger.take_of_acts stepped]
    rfl
  have paused := pause_exact (s := pipedSession) rfl offers
  rw [taken] at paused
  obtain ⟨-, action, input, debugger, said, account, -⟩ := paused
  exact ⟨offers, action, Prod.ext debugger input, said, account⟩

end Session
end Accumulator
