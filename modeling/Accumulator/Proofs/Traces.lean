import Accumulator.Proofs.Accounts
import Accumulator.Proofs.Display

/-!
Traces: what a watched run announces is what it does. Before each cycle the debugger names the
address and the cell that come next, and the cycle after it is the cycle of just that cell, which
memory holds there by then. No other message, and nothing that the program writes, looks like an
announcement. A run that the debugger leaves has announced one cell that it does not execute; a run
that goes on without the debugger announces nothing more.
-/
namespace Accumulator

/-- The next cycle is that of the cell at the address, as memory is now, whatever is next in the
    input. If it fails, the fault names the same address and the same text. -/
structure Machine.Fetches (m : Machine) (entry : Nat × Cell) : Prop where
  pc : m.registers.pc = entry.1
  found : m.store.get? entry.1 = some entry.2
  cycle : ∀ next, m.cycle next = m.cycleCell entry.2 next
  fault : ∀ next fault, (m.cycle next).outcome = .error fault → fault.pc = entry.1 ∧ fault.cell = entry.2.text

namespace Machine

variable {m : Machine} {entry other : Nat × Cell}

theorem fetches_iff : m.Fetches entry ↔ m.registers.pc = entry.1 ∧ m.store.get? entry.1 = some entry.2 := by
  refine ⟨fun fetches => ⟨fetches.pc, fetches.found⟩, fun ⟨pc, found⟩ => ?_⟩
  have at_pc := found
  rw [← pc] at at_pc
  refine ⟨pc, found, fun next => cycle_of_get? next at_pc, fun next fault failed => ?_⟩
  obtain ⟨cell, same, address, text, -⟩ := cycle_fault failed
  rw [at_pc] at same
  cases same
  exact ⟨address.trans pc, text⟩

/-- Only one cell is fetched. -/
theorem Fetches.unique (fetches : m.Fetches entry) (also : m.Fetches other) : entry = other := by
  have address : entry.1 = other.1 := fetches.pc.symm.trans also.pc
  have found := fetches.found
  rw [address, also.found] at found
  exact Prod.ext address (Option.some.inj found).symm

end Machine

namespace Debugger

/-- The message that announces an address and its cell. -/
def executing (entry : Nat × Cell) : Message :=
  ⟨.always, .special, "Executing instruction " ++ toString entry.1 ++ ": " ++ entry.2.text ++ "\n"⟩

/-- The text begins as announcements do, whether or not a cell is named in it. -/
def isAnnouncement (text : String) : Bool := "Executing instruction ".toList.isPrefixOf text.toList

/-! ## Texts that announce nothing -/

/-- The text begins with a character that no announcement begins with. -/
def BeginsApart (text : String) : Prop := ∃ c cs, text.toList = c :: cs ∧ c ≠ 'E'

theorem BeginsApart.append {text : String} (apart : BeginsApart text) (more : String) : BeginsApart (text ++ more) := by
  obtain ⟨c, cs, begins, other⟩ := apart
  exact ⟨c, cs ++ more.toList, by rw [String.toList_append, begins]; rfl, other⟩

theorem BeginsApart.not_announcement {text : String} (apart : BeginsApart text) : isAnnouncement text = false := by
  obtain ⟨c, cs, begins, other⟩ := apart
  have first : "Executing instruction ".toList = 'E' :: "xecuting instruction ".toList := by decide
  unfold isAnnouncement
  rw [begins, first, List.isPrefixOf_cons_cons, beq_false_of_ne (Ne.symm other), Bool.false_and]

theorem beginsApart_newline : BeginsApart "\n" := ⟨'\n', [], rfl, by decide⟩

theorem beginsApart_heading (title rest : String) : BeginsApart (View.heading title rest) := by
  have mark : BeginsApart "\x1b[" := ⟨Escape.mark, ['['], by decide, by decide⟩
  unfold View.heading Escape.wrap Escape.opening
  exact ((((mark.append _).append _).append _).append _).append _ |>.append _

theorem beginsApart_registers (r : Registers) (radix : Radix) : BeginsApart (r.view radix) := by
  unfold Registers.view
  iterate 13 refine BeginsApart.append ?_ _
  exact beginsApart_heading _ _

theorem Displays.beginsApart {radix : Radix} {m : Machine} {command : Command} {view : Message}
    (displays : Displays radix m command view) : BeginsApart view.text := by
  cases displays with
  | registers => exact beginsApart_registers m.registers radix
  | memory => exact (beginsApart_heading "Memory" "").append _
  | program => exact (beginsApart_heading "Program" "").append _
  | labels declared => exact (beginsApart_heading "Labels" "").append _
  | noLabels bare => exact ⟨'N', _, rfl, by decide⟩
  | help => exact ((beginsApart_newline).append _).append _

theorem beginsApart_echo (line : String) : BeginsApart (echo line).text := by
  have command : BeginsApart "Command: " := ⟨'C', _, rfl, by decide⟩
  exact (command.append _).append _

theorem beginsApart_error (error : CommandError) : BeginsApart error.message := by
  cases error with
  | notACommand word =>
    have words : BeginsApart "Not a command: `" := ⟨'N', _, rfl, by decide⟩
    exact (words.append _).append _
  | takesNoArguments command =>
    have words : BeginsApart "Command `" := ⟨'C', _, rfl, by decide⟩
    exact (words.append _).append _

theorem Account.beginsApart {radix : Radix} {m : Machine} {lines : List String} {said : List Message}
    (account : Account radix m lines said) : ∀ message ∈ said, BeginsApart message.text := by
  induction account with
  | nil => simp
  | acts parsed rest ih => exact List.forall_mem_cons.mpr ⟨beginsApart_echo _, ih⟩
  | displays parsed displays rest ih =>
    exact List.forall_mem_cons.mpr ⟨beginsApart_echo _, List.forall_mem_cons.mpr ⟨displays.beginsApart, ih⟩⟩
  | refuses parsed rest ih =>
    refine List.forall_mem_cons.mpr ⟨beginsApart_echo _, List.forall_mem_cons.mpr ⟨beginsApart_error _, ?_⟩⟩
    exact List.forall_mem_cons.mpr ⟨⟨' ', _, rfl, by decide⟩, ih⟩

theorem isAnnouncement_executing (entry : Nat × Cell) : isAnnouncement (executing entry).text = true := by
  unfold isAnnouncement executing
  rw [List.isPrefixOf_iff_prefix]
  simp only [String.toList_append, List.append_assoc]
  exact List.prefix_append _ _

/-- A pause announces the cell that comes next, and nothing else. -/
theorem exists_messages_eq {m : Machine} {entry : Nat × Cell} (fetches : m.Fetches entry) (radix : Radix) (p : Pause) :
    ∃ before after, messages radix m p = before ++ executing entry :: after ∧
      (∀ message ∈ before, BeginsApart message.text) ∧ ∀ message ∈ after, BeginsApart message.text := by
  have opens : opening radix m = (opening radix m).take 5 ++ [executing entry] := by
    unfold opening executing
    rw [fetches.pc, fetches.found]
    simp only [String.append_assoc]
    rfl
  refine ⟨(opening radix m).take 5, p.taken.flatMap (respond radix m) ++ closing p.action, ?split, ?before, ?after⟩
  case split =>
    rw [messages, opens, List.append_assoc, List.append_assoc]
    rfl
  case before =>
    have dashes : BeginsApart (String.ofList (List.replicate 40 '-') ++ "\n") := ⟨'-', _, rfl, by decide⟩
    intro message view
    simp only [opening, List.take, List.mem_cons, List.not_mem_nil, or_false] at view
    rcases view with rfl | rfl | rfl | rfl | rfl
    · exact dashes
    · exact beginsApart_registers m.registers radix
    · exact beginsApart_newline
    · exact (beginsApart_heading "Memory" "").append _
    · exact beginsApart_newline
  case after =>
    intro message said
    rcases List.mem_append.mp said with replied | closed
    · exact (account_respond radix m p.taken).beginsApart message replied
    · cases acts : p.action with
      | detach =>
        rw [acts] at closed
        rw [List.mem_singleton.mp closed]
        exact ⟨'C', _, rfl, by decide⟩
      | proceed => rw [acts] at closed; cases closed
      | leave => rw [acts] at closed; cases closed

end Debugger

/-! ## Announcements on a terminal -/

/-- The write is of a text that begins as announcements do, on standard error. -/
def Printed.announces (p : Printed) : Bool := p.destination ≠ .program && Debugger.isAnnouncement p.text

namespace Terminal

/-- All announcements so far, in order. -/
def announcements (t : Terminal) : List Printed := t.log.toList.filter Printed.announces

/-- What the second terminal announces after what the first has announced are the given cells,
    with their addresses and in this order. Both write in the same mode. -/
structure Adds (t u : Terminal) (entries : List (Nat × Cell)) : Prop where
  announced : u.announcements = t.announcements ++ entries.filterMap fun entry => t.record? (Debugger.executing entry)
  mode : u.record? = t.record?

theorem Adds.refl (t : Terminal) : t.Adds t [] := ⟨(List.append_nil _).symm, rfl⟩

theorem Adds.trans {t u v : Terminal} {first second : List (Nat × Cell)} (tu : t.Adds u first) (uv : u.Adds v second) :
    t.Adds v (first ++ second) where
  announced := by rw [uv.announced, tu.announced, tu.mode, List.filterMap_append, List.append_assoc]
  mode := uv.mode.trans tu.mode

theorem announces_of_record? {t : Terminal} {m : Message} {p : Printed} (written : t.record? m = some p) :
    p.announces = Debugger.isAnnouncement m.text := by
  obtain ⟨text, -, rfl⟩ := Option.map_eq_some_iff.mp written
  simp [Printed.announces]

theorem announcements_say (t : Terminal) (m : Message) :
    (t.say m).announcements =
      t.announcements ++ if Debugger.isAnnouncement m.text then (t.record? m).toList else [] := by
  unfold announcements
  rw [log_say, List.filter_append]
  cases written : t.record? m with
  | none => simp
  | some p =>
    have announces := announces_of_record? written
    cases announced : Debugger.isAnnouncement m.text <;> simp [announces, announced]

theorem adds_say {t : Terminal} {m : Message} (apart : Debugger.BeginsApart m.text) : t.Adds (t.say m) [] where
  announced := by
    rw [announcements_say, apart.not_announcement]
    rfl
  mode := record?_say t m

theorem adds_sayAll {t : Terminal} {ms : List Message} (apart : ∀ m ∈ ms, Debugger.BeginsApart m.text) :
    t.Adds (t.sayAll ms) [] := by
  induction ms generalizing t with
  | nil => exact .refl t
  | cons m ms ih =>
    rw [List.forall_mem_cons] at apart
    exact (adds_say apart.1).trans (ih apart.2)

theorem adds_executing (t : Terminal) (entry : Nat × Cell) : t.Adds (t.say (Debugger.executing entry)) [entry] where
  announced := by
    rw [announcements_say, Debugger.isAnnouncement_executing, List.filterMap_cons]
    cases t.record? (Debugger.executing entry) <;> rfl
  mode := record?_say t _

/-- A single character is no announcement. -/
theorem adds_printChar (t : Terminal) (destination : Destination) (c : Char) : t.Adds (t.printChar destination c) [] where
  announced := by
    have short : Debugger.isAnnouncement (String.singleton c) = false := by
      unfold Debugger.isAnnouncement
      rw [Bool.eq_false_iff, ne_eq, List.isPrefixOf_iff_prefix]
      intro begins
      have size : "Executing instruction ".toList.length = 22 := by decide
      have length := begins.length_le
      rw [size, String.toList_singleton, List.length_singleton] at length
      exact absurd length (by decide)
    unfold announcements printChar write
    rw [Array.toList_push, List.filter_append]
    simp [Printed.announces, short]
  mode := rfl

theorem adds_startNewLine (t : Terminal) (destination : Destination) : t.Adds (t.startNewLine destination) [] := by
  unfold startNewLine
  split
  · exact .refl t
  · exact adds_printChar t destination _

/-- All that is said in a pause announces the cell that comes next. -/
theorem adds_messages (t : Terminal) {m : Machine} {entry : Nat × Cell} (fetches : m.Fetches entry) (radix : Radix)
    (p : Debugger.Pause) : t.Adds (t.sayAll (Debugger.messages radix m p)) [entry] := by
  obtain ⟨before, after, split, first, last⟩ := Debugger.exists_messages_eq fetches radix p
  have parts : t.sayAll (Debugger.messages radix m p) =
      ((t.sayAll before).say (Debugger.executing entry)).sayAll after := by
    rw [split]
    exact List.foldl_append
  rw [parts]
  exact ((adds_sayAll first).trans (adds_executing _ entry)).trans (adds_sayAll last)

end Terminal

/-! ## Pauses that a script has in store -/

namespace Debugger

theorem Takes.stepsBefore_eq {commands taken left : List String} {action : Action}
    (takes : Takes commands taken action left) :
    stepsBefore (script commands) = if action = .proceed then stepsBefore (script left) + 1 else 0 := by
  cases takes with
  | acts passes acts left =>
    rw [(script_of_passes passes _).1, script_cons_ok acts, stepsBefore_cons]
    cases action <;> rfl
  | runsOut passes =>
    obtain ⟨steps, -⟩ := script_of_passes passes []
    rwa [List.append_nil] at steps

end Debugger

namespace Session

/-- The pauses that a script has in store: one for each step before it exits or continues, and the one
    in which it does so. -/
def pausesLeft (s : Session) : Nat :=
  match s.debugger with
  | none => 0
  | some d => Debugger.stepsBefore (Debugger.script d.queued) + 1

/-- A debugger stops pausing with the pause that ends by a continue or by the end of the commands. -/
theorem debugger_pause_eq_none_iff {s : Session} {d : Debugger} (attached : s.debugger = some d) :
    s.pause.2.debugger = none ↔ s.pause.1 = .detach := by
  rw [pause_of_attached attached rfl]
  dsimp only
  split
  case isTrue detaches => exact iff_of_true rfl detaches
  case isFalse stays => exact iff_of_false nofun stays

/-- A pause of a script uses up one of those in store, and all of them unless the script steps. -/
theorem pausesLeft_pause {s : Session} (scripted : s.Scripted) {d : Debugger} (attached : s.debugger = some d) :
    s.pausesLeft = (if s.pause.1 = .leave then 0 else s.pause.2.pausesLeft) + 1 := by
  have given := scripted d attached
  obtain ⟨queued, _, radix⟩ := d
  cases given
  obtain ⟨left, takes, offers⟩ := Debugger.takes_of_given queued radix s.input
  have steps := takes.stepsBefore_eq
  unfold pausesLeft
  rw [pause_of_attached attached rfl, attached]
  dsimp only at steps ⊢
  rw [steps]
  cases acts : (Debugger.take false queued s.input).action with
  | leave => rfl
  | detach => rfl
  | proceed => cases offers; rfl

theorem exists_fetches {s : Session} (on : s.stop? = none) : ∃ entry, s.machine.Fetches entry := by
  obtain ⟨cell, found⟩ := Store.exists_get? (stop?_eq_none_iff.mp on).1
  exact ⟨(s.machine.registers.pc, cell), Machine.fetches_iff.mpr ⟨rfl, found⟩⟩

theorem adds_pause {s : Session} {d : Debugger} (attached : s.debugger = some d) {entry : Nat × Cell}
    (fetches : s.machine.Fetches entry) : s.terminal.Adds s.pause.2.terminal [entry] := by
  have newLine := s.terminal.adds_startNewLine (.tool .always .normal)
  rw [pause_of_attached attached rfl]
  exact newLine.trans (Terminal.adds_messages _ fetches d.radix _)

theorem adds_step (s : Session) : s.terminal.Adds s.step.2.terminal [] := by
  show s.terminal.Adds (s.apply s.cycle).terminal []
  rw [apply_eq]
  unfold Channel.terminalAfter
  dsimp only
  split
  · exact s.terminal.adds_printChar _ _
  · exact .refl s.terminal

/-! ## Turns -/

theorem ending?_step_ne_exited (s : Session) : ending? s.step.1 ≠ some (.ok .exited) := by
  intro exited
  rcases halt_step exited with ⟨other, -⟩ | other <;> cases other

/-- All that a turn of a session with a debugger can be. -/
inductive WatchedTurn (s : Session) : Prop
  /-- A check stops the run before the pause. -/
  | stops (halt : Halt) (other : halt ≠ .exited) (turn : s.turn = (some (.ok halt), s)) (sees : s.turnSees = [])
  /-- The debugger leaves the run at the pause. -/
  | leaves (entry : Nat × Cell) (u : Session) (fetches : s.machine.Fetches entry)
    (adds : s.terminal.Adds u.terminal [entry]) (attached : u.debugger ≠ none) (machine : u.machine = s.machine)
    (left : s.Scripted → s.pausesLeft = 1) (turn : s.turn = (some (.ok .exited), u)) (sees : s.turnSees = [])
  /-- A cycle follows the pause. -/
  | cycles (entry : Nat × Cell) (u : Session) (fetches : s.machine.Fetches entry)
    (adds : s.terminal.Adds u.step.2.terminal [entry])
    (left : s.Scripted → s.pausesLeft = u.step.2.pausesLeft + 1 ∧ u.step.2.Scripted)
    (turn : s.turn = (ending? u.step.1, u.step.2)) (sees : s.turnSees = [u.next?])

theorem watchedTurn {s : Session} {d : Debugger} (attached : s.debugger = some d) : s.WatchedTurn := by
  cases s.turnForm with
  | stops halt stopped turn sees =>
    refine .stops halt ?_ turn sees
    rintro rfl
    rcases stop?_cases stopped with other | other <;> cases other
  | leaves on leaves turn sees =>
    obtain ⟨entry, fetches⟩ := exists_fetches on
    refine .leaves entry s.pause.2 fetches (adds_pause attached fetches) ?attached s.machine_pause (fun scripted => ?left)
      turn sees
    case attached =>
      rw [ne_eq, debugger_pause_eq_none_iff attached, leaves]
      exact nofun
    case left => rw [pausesLeft_pause scripted attached, if_pos leaves]
  | cycles on stays turn sees =>
    obtain ⟨entry, fetches⟩ := exists_fetches on
    refine .cycles entry s.pause.2 fetches ((adds_pause attached fetches).trans (adds_step _))
      (fun scripted => ⟨?left, ?scripted⟩) turn sees
    case left =>
      have left := pausesLeft_pause scripted attached
      unfold pausesLeft at left ⊢
      rw [left, if_neg stays, debugger_step]
    case scripted =>
      intro e kept
      rw [debugger_step] at kept
      exact scripted_pause scripted e kept

/-! ## Runs -/

theorem runSees_of_turn {s t : Session} {ending : Ending} (ended : s.turn = (some ending, t)) (turns : Nat) :
    s.runSees (turns + 1) = s.turnSees := by
  rw [runSees, ended]
  exact List.append_nil _

theorem runSees_of_turn_none {s t : Session} (on : s.turn = (none, t)) (turns : Nat) :
    s.runSees (turns + 1) = s.turnSees ++ t.runSees turns := by
  rw [runSees, on]

/-- A run makes the cycles that it is said to see the input of, one with each turn. -/
theorem machine_run_succ {s : Session} {turns i : Nat} {next : Option Char} (made : (s.runSees turns)[i]? = some next) :
    (s.run (i + 1)).2.machine = ((s.run i).2.machine.cycle next).machine := by
  induction turns generalizing s i with
  | zero => cases made
  | succ turns ih =>
    obtain ⟨halt, t, same, turn, sees⟩ | ⟨t, same, turn, sees⟩ := turn_cases s
    · rw [runSees_of_turn turn, sees] at made
      cases made
    · have first : t.step.2.machine = ((s.run 0).2.machine.cycle t.next?).machine := by
        rw [machine_step, same]
        rfl
      cases result : ending? t.step.1 with
      | some ending =>
        rw [result] at turn
        rw [runSees_of_turn turn, sees] at made
        cases i with
        | zero =>
          cases made
          rwa [run_of_turn turn]
        | succ i => cases made
      | none =>
        rw [result] at turn
        rw [runSees_of_turn_none turn, sees] at made
        cases i with
        | zero =>
          cases made
          rwa [run_of_turn_none turn]
        | succ i =>
          rw [run_of_turn_none turn, run_of_turn_none turn]
          exact ih made

theorem steps_turn (s : Session) :
    s.turn.2.machine.registers.steps = s.machine.registers.steps + s.turnSees.length := by
  cases s.turnForm with
  | stops halt stopped turn sees =>
    rw [turn, sees]
    rfl
  | leaves on action turn sees =>
    rw [turn, sees]
    exact congrArg (·.registers.steps) s.machine_pause
  | cycles on action turn sees =>
    have inside : s.pause.2.machine.registers.pc < s.pause.2.machine.store.size := by
      rw [machine_pause]
      exact (stop?_eq_none_iff.mp on).1
    rw [turn, sees]
    exact (steps_step inside).trans (congrArg (·.registers.steps + 1) s.machine_pause)

/-- The step counter counts the cycles that a run makes. -/
theorem steps_run (s : Session) (turns : Nat) :
    (s.run turns).2.machine.registers.steps = s.machine.registers.steps + (s.runSees turns).length := by
  induction turns generalizing s with
  | zero => rfl
  | succ turns ih =>
    have counted := s.steps_turn
    rcases turn : s.turn with ⟨_ | ending, t⟩
    · rw [turn] at counted
      rw [run_of_turn_none turn, runSees_of_turn_none turn, ih, counted, List.length_append, Nat.add_assoc]
    · rw [turn] at counted
      rwa [run_of_turn turn, runSees_of_turn turn]

/-- The cycles that a run comes to: those that it makes, and the one that the debugger leaves it before. -/
def reached (s : Session) (turns : Nat) : Nat :=
  (s.runSees turns).length + if (s.run turns).1 = some (.ok .exited) then 1 else 0

/-- What a run announces, an address and a cell for each pause. -/
structure Traces (s : Session) (turns : Nat) (entries : List (Nat × Cell)) : Prop where
  /-- The announcements of the run are those of the entries, each with its cell. -/
  adds : s.terminal.Adds (s.run turns).2.terminal entries
  /-- Each entry is the address and the cell of its cycle, as the cycles before it have left memory. -/
  fetched : ∀ i entry, entries[i]? = some entry → (s.run i).2.machine.Fetches entry
  /-- There is at most one for each cycle that the run comes to. -/
  atMost : entries.length ≤ s.reached turns
  /-- There is one for each as long as the debugger is attached. -/
  all : (s.run turns).2.debugger ≠ none → entries.length = s.reached turns
  /-- A debugger that leaves is attached to the end, and the last entry is of the cycle that would come next. -/
  exited : (s.run turns).1 = some (.ok .exited) → (s.run turns).2.debugger ≠ none ∧
    ∃ entry, entries.getLast? = some entry ∧ (s.run turns).2.machine.Fetches entry
  /-- A script announces the cycles up to its first exit or continue, or to its end. -/
  scripted : s.Scripted → entries.length = min s.pausesLeft (s.reached turns)

theorem adds_run_of_alone {s : Session} (alone : s.debugger = none) (turns : Nat) :
    s.terminal.Adds (s.run turns).2.terminal [] := by
  induction turns generalizing s with
  | zero => exact .refl _
  | succ turns ih =>
    cases turnCase alone with
    | stops halt stopped turn => rw [run_of_turn turn]; exact .refl _
    | ends ending on result turn => rw [run_of_turn turn]; exact adds_step s
    | goes on result turn =>
      rw [run_of_turn_none turn]
      exact (adds_step s).trans (ih ((debugger_step s).trans alone))

theorem not_exited_of_alone {s : Session} (alone : s.debugger = none) (turns : Nat) :
    (s.run turns).1 ≠ some (.ok .exited) := by
  induction turns generalizing s with
  | zero => exact nofun
  | succ turns ih =>
    cases turnCase alone with
    | stops halt stopped turn =>
      rw [run_of_turn turn]
      rcases stop?_cases stopped with rfl | rfl <;> exact nofun
    | ends ending on result turn =>
      rw [run_of_turn turn, ← result]
      exact ending?_step_ne_exited s
    | goes on result turn =>
      rw [run_of_turn_none turn]
      exact ih ((debugger_step s).trans alone)

/-- Without a debugger nothing is announced, and the run is not left. -/
theorem traces_of_alone {s : Session} (alone : s.debugger = none) (turns : Nat) : s.Traces turns [] where
  adds := adds_run_of_alone alone turns
  fetched _ _ found := nomatch found
  atMost := Nat.zero_le _
  all attached := absurd (alone_call alone (c := .run turns) trivial) attached
  exited left := absurd left (not_exited_of_alone alone turns)
  scripted _ := by
    unfold pausesLeft
    rw [alone]
    exact (Nat.zero_min _).symm

theorem fetched_single {s : Session} {entry : Nat × Cell} (fetches : s.machine.Fetches entry) (i : Nat)
    (e : Nat × Cell) (found : [entry][i]? = some e) : (s.run i).2.machine.Fetches e := by
  cases i with
  | zero =>
    cases found
    exact fetches
  | succ i => cases found

/-- A turn with a pause and a cycle comes before what the rest of the run announces. -/
theorem Traces.cons {s t : Session} {turns : Nat} {entries : List (Nat × Cell)} (rest : t.Traces turns entries)
    {entry : Nat × Cell} {next : Option Char} (fetches : s.machine.Fetches entry)
    (adds : s.terminal.Adds t.terminal [entry]) (left : s.Scripted → s.pausesLeft = t.pausesLeft + 1 ∧ t.Scripted)
    (turn : s.turn = (none, t)) (sees : s.turnSees = [next]) :
    s.Traces (turns + 1) (entry :: entries) := by
  have run := run_of_turn_none turn turns
  have seen : s.runSees (turns + 1) = next :: t.runSees turns := by
    rw [runSees_of_turn_none turn, sees]
    rfl
  have reached : s.reached (turns + 1) = t.reached turns + 1 := by
    unfold Session.reached
    rw [run, seen, List.length_cons]
    omega
  refine ⟨?adds, ?fetched, ?atMost, ?all, ?exited, ?scripted⟩
  case adds =>
    rw [run]
    exact adds.trans rest.adds
  case fetched =>
    intro i e found
    cases i with
    | zero =>
      cases found
      exact fetches
    | succ i =>
      rw [run_of_turn_none turn]
      exact rest.fetched i e found
  case atMost =>
    rw [reached, List.length_cons]
    exact Nat.succ_le_succ rest.atMost
  case all =>
    rw [run, reached, List.length_cons]
    exact fun attached => congrArg (· + 1) (rest.all attached)
  case exited =>
    rw [run]
    intro left
    obtain ⟨attached, last, ends, fetches⟩ := rest.exited left
    exact ⟨attached, last, by rw [List.getLast?_cons, ends]; rfl, fetches⟩
  case scripted =>
    intro scripted
    obtain ⟨left, scripted⟩ := left scripted
    rw [reached, List.length_cons, rest.scripted scripted, left, Nat.add_min_add_right]

/-- A turn that ends the run announces a cell for its pause, if it comes to that. -/
theorem traces_of_ended {s t : Session} {ending : Ending} (turn : s.turn = (some ending, t))
    {entries : List (Nat × Cell)} (adds : s.terminal.Adds t.terminal entries)
    (fetched : ∀ i entry, entries[i]? = some entry → (s.run i).2.machine.Fetches entry)
    (length : entries.length = s.turnSees.length + if ending = .ok .exited then 1 else 0)
    (exited : ending = .ok .exited →
      t.debugger ≠ none ∧ ∃ entry, entries.getLast? = some entry ∧ t.machine.Fetches entry) (left : s.Scripted → entries.length ≤ s.pausesLeft)
    (turns : Nat) : s.Traces (turns + 1) entries := by
  have run := run_of_turn turn turns
  have seen := runSees_of_turn turn turns
  have reached : s.reached (turns + 1) = entries.length := by
    unfold Session.reached
    simp only [run, seen, length, Option.some.injEq]
  refine ⟨?adds, fetched, reached.ge, fun _ => reached.symm, ?exited, fun scripted => ?scripted⟩
  case adds => rwa [run]
  case exited =>
    rw [run]
    exact fun result => exited (Option.some.inj result)
  case scripted => rw [reached, Nat.min_eq_right (left scripted)]

theorem exists_traces (s : Session) (turns : Nat) : ∃ entries, s.Traces turns entries := by
  induction turns generalizing s with
  | zero => exact ⟨[], .refl _, nofun, Nat.zero_le _, fun _ => rfl, nofun, fun _ => (Nat.min_zero _).symm⟩
  | succ turns ih =>
    cases attached : s.debugger with
    | none => exact ⟨[], traces_of_alone attached _⟩
    | some d =>
      cases watchedTurn attached with
      | stops halt other turn sees =>
        refine ⟨[], traces_of_ended turn (.refl _) nofun ?_ (fun exited => ?_) (fun _ => Nat.zero_le _) turns⟩
        · rw [sees, if_neg (by simpa using other)]
          rfl
        · exact absurd (Except.ok.inj exited) other
      | leaves entry u fetches adds kept machine left turn sees =>
        refine ⟨[entry], traces_of_ended turn adds (fetched_single fetches) ?_
          (fun _ => ⟨kept, entry, rfl, machine ▸ fetches⟩) (fun scripted => ?_) turns⟩
        · rw [sees, if_pos rfl]
          rfl
        · exact (left scripted).ge
      | cycles entry u fetches adds left turn sees =>
        cases result : ending? u.step.1 with
        | none =>
          rw [result] at turn
          obtain ⟨entries, rest⟩ := ih u.step.2
          exact ⟨entry :: entries, rest.cons fetches adds left turn sees⟩
        | some ending =>
          rw [result] at turn
          have stays : ending ≠ .ok .exited := fun exited => ending?_step_ne_exited u (by rw [result, exited])
          refine ⟨[entry], traces_of_ended turn adds (fetched_single fetches) ?_ (fun exited => absurd exited stays)
            (fun scripted => ?_) turns⟩
          · rw [sees, if_neg stays]
            rfl
          · rw [(left scripted).1]
            exact Nat.le_add_left 1 _

/-- Whatever a run announces, it names one cell after another with the address of each, always
    with the cell, and the cycle that comes then is the cycle of that cell, which memory holds at
    that address by then. Each is written, whatever the mode. The run makes one cycle with each
    turn, and the step counter counts them; they are announced one by one as long as the debugger
    is attached, and if it leaves the run, the last announcement is of the first cycle that is not
    made. A debugger is gone after the pause that ends by a continue or by the end of the commands,
    and from then on nothing more is announced; with a script it is known when that is. -/
theorem run_announced (s : Session) (turns : Nat) :
    (∃ entries, s.Traces turns entries) ∧
      (∀ i next, (s.runSees turns)[i]? = some next →
        (s.run (i + 1)).2.machine = ((s.run i).2.machine.cycle next).machine) ∧
      (s.run turns).2.machine.registers.steps = s.machine.registers.steps + (s.runSees turns).length ∧
      (∀ entry, (s.terminal.record? (Debugger.executing entry)).isSome) ∧
      (∀ d, s.debugger = some d → (s.pause.2.debugger = none ↔ s.pause.1 = .detach)) ∧
      ∀ first, first ≤ turns → (s.run first).2.debugger = none →
        (s.run turns).2.terminal.announcements = (s.run first).2.terminal.announcements := by
  have written (entry : Nat × Cell) := s.terminal.isSome_record?_of_always (m := Debugger.executing entry) rfl
  refine ⟨s.exists_traces turns, fun i next => machine_run_succ, s.steps_run turns, written,
    fun d => debugger_pause_eq_none_iff, fun first le gone => ?_⟩
  obtain ⟨more, rfl⟩ := Nat.exists_eq_add_of_le le
  rw [run_add]
  rcases before : s.run first with ⟨_ | ending, t⟩
  · rw [before] at gone
    have later := (adds_run_of_alone gone more).announced
    rwa [List.filterMap_nil, List.append_nil] at later
  · rfl

/-- A session over a program that stores over its `END` before it comes to it. -/
def rewritingSession : Session where
  machine := ⟨.ofList [.instruction (.immediate .ldm 5), .instruction (.label .sto "A"), .label "A",
    .instruction (.plain .stop)], ⟨[("A", 2)], []⟩, {}⟩
  channel := .buffer [] ""

/-- The cells that it comes to, the last of them as it has been stored. -/
def rewritingEntries : List (Nat × Cell) :=
  [(0, .instruction (.immediate .ldm 5)), (1, .instruction (.label .sto "A")), (2, .label "A"), (3, .number 5)]

/-- The debugger announces the number in place of the `END`, and leaves before it is executed. -/
theorem run_announced_rewriting :
    let s := rewritingSession.attach (some "s;s;;q") .decimal
    s.machine.store.get? 3 = some (.instruction (.plain .stop)) ∧ (s.run 4).1 = some (.ok .exited) ∧
      s.Traces 4 rewritingEntries ∧ (s.run 4).2.terminal.announcements.map Printed.text =
        ["Executing instruction 0: LDM #5\n", "Executing instruction 1: STO A\n", "Executing instruction 2: A:\n",
          "Executing instruction 3: 5\n"] := by
  intro s
  have left : (s.run 4).1 = some (.ok .exited) := by decide +kernel
  have seen : s.runSees 4 = [none, none, none] := by decide +kernel
  have moments : ∀ i : Fin rewritingEntries.length, (s.run i).2.machine.registers.pc = rewritingEntries[i].1 ∧
      (s.run i).2.machine.store.get? rewritingEntries[i].1 = some rewritingEntries[i].2 := by decide +kernel
  obtain ⟨⟨entries, traces⟩, -⟩ := run_announced s 4
  have count : entries.length = rewritingEntries.length := by
    rw [traces.all (traces.exited left).1, reached, seen, left]
    rfl
  have same : entries = rewritingEntries := List.ext_getElem count fun i inside also =>
    (traces.fetched i _ (List.getElem?_eq_getElem inside)).unique (Machine.fetches_iff.mpr (moments ⟨i, also⟩))
  rw [same] at traces
  refine ⟨rfl, left, traces, ?_⟩
  rw [traces.adds.announced]
  decide +kernel

end Session
end Accumulator
