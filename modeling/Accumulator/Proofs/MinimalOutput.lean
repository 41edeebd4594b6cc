import Accumulator.CommandLine
import Accumulator.Proofs.Channels

/-!
Minimal output: a request in minimal mode writes to standard output what its program writes,
and nothing else. The run on the console agrees with one on a buffer; before it, between its
cycles and after it all that is said goes to the other stream, and a status to none.
-/
namespace Accumulator

namespace Session

/-- The session is on the console, and in minimal mode. -/
structure Quiet (s : Session) : Prop where
  console : ∃ script, s.channel = .console script
  minimal : s.terminal.minimal = true

namespace Quiet

variable {s : Session}

theorem pause (quiet : s.Quiet) : s.pause.2.Quiet := by
  obtain ⟨console, minimal⟩ := quiet
  unfold Session.pause
  cases s.debugger with
  | none => exact ⟨console, minimal⟩
  | some d => exact ⟨console, by simpa using minimal⟩

theorem apply (quiet : s.Quiet) (c : Cycle) : (s.apply c).Quiet := by
  obtain ⟨⟨script, console⟩, minimal⟩ := quiet
  rw [apply_eq, console]
  exact ⟨⟨_, rfl⟩, (Channel.minimal_terminalAfter _ c _).trans minimal⟩

theorem output (quiet : s.Quiet) : s.output = s.terminal.standardOutput := by
  obtain ⟨⟨script, console⟩, _⟩ := quiet
  unfold Session.output
  rw [console]

end Quiet

/-- Runs of sessions that agree, of which the first is on the console in minimal mode. -/
theorem simulation_quiet (a b : String) : Simulation id fun s t => Agree a b s t ∧ s.Quiet :=
  (simulation_agree a b).keeping (fun _ quiet => quiet.pause) (fun s quiet => quiet.apply s.cycle)
    (fun _ _ quiet => ⟨quiet.console, quiet.minimal⟩)

end Session

/-- What shows of the end of the program: its standard output, and the trouble if it exits with a failure. -/
def Outcome.shown (o : Outcome) : String × Option Trouble := (o.terminal.standardOutput, o.trouble)

namespace CommandLine

/-- A run of a machine as a request asks for it, with a buffer in place of the console. -/
def buffered (s : Surroundings) (r : RunRequest) (m : Machine) : Session where
  machine := m
  limit := r.limit.or s.settings.limit
  debugger := r.debug.map fun command => Debugger.new command (radix s r)
  channel := .buffer ((r.input.map String.toList).getD (s.input.map fun byte => Char.ofNat byte.toNat)) ""

/-- What is to show of a run: what the program has written, and the fault that has ended it. -/
def expectedRun (program : Program) : Option Ending × Session → Option (String × Option Trouble)
  | (none, _) => none
  | (some (.error fault), t) => some (t.output, some (.report (fault.report program)))
  | (some (.ok _), t) => some (t.output, none)

/-- What is to show of a source: nothing on standard output if it does not parse or its labels do
    not resolve, and else what is to show of its run. -/
def expected (s : Surroundings) (r : RunRequest) (source : String) : Option (String × Option Trouble) :=
  match Program.parse source with
  | .error e => some ("", some (.report e.report))
  | .ok program =>
    match Machine.ofProgram program with
    | .error e => some ("", some (.report (e.report program)))
    | .ok m => expectedRun program ((buffered s r m).run Session.turnLimit)

section
variable {s : Surroundings} {r : RunRequest}

theorem begin_of_trouble (minimal : r.minimal = true) {trouble : Trouble} (found : s.source.bind load = .error trouble) :
    begin s r = .error ⟨{ minimal := r.minimal, color := s.color }, trouble⟩ := by
  unfold begin loadFile
  dsimp only
  rw [status_of_minimal minimal, found]
  rfl

theorem readsInput_of_debug (scripted : r.debug ≠ some none) {radix : Radix} {d : Debugger}
    (attached : r.debug.map (fun command => Debugger.new command radix) = some d) : d.readsInput = false := by
  obtain ⟨command, asked, rfl⟩ := Option.map_eq_some_iff.mp attached
  cases command with
  | none => exact absurd asked scripted
  | some text => rfl

theorem begin_of_loaded (minimal : r.minimal = true) (scripted : r.debug ≠ some none) {loaded : Loaded}
    (found : s.source.bind load = .ok loaded) :
    ∃ begun, begin s r = .ok begun ∧ begun.program = loaded.program ∧
      begun.session.Agree "" "" (buffered s r loaded.machine) ∧ begun.session.Quiet := by
  have quiet : ∀ ms m, ((({ minimal := r.minimal, color := s.color } : Terminal).sayAll ms).say m).minimal = true := by
    intro ms m
    simpa using minimal
  unfold begin loadFile
  dsimp only
  rw [status_of_minimal minimal, found]
  refine ⟨_, rfl, rfl, ⟨rfl, rfl, rfl, ?scripted, ?unread, "", ?written, rfl⟩, ⟨_, rfl⟩, ?minimal⟩
  case scripted => exact fun d attached => readsInput_of_debug scripted attached
  case unread =>
    unfold Session.unread buffered
    cases r.input <;> rfl
  case written =>
    show (status _ _ _ _).standardOutput = ""
    rw [status_of_minimal (quiet _ _), Terminal.standardOutput_say, Terminal.standardOutput_sayAll]
    rfl
  case minimal =>
    show (status _ _ _ _).minimal = true
    rw [status_of_minimal (quiet _ _)]
    exact quiet _ _

theorem finish_of_quiet {t u : Session} (agree : t.Agree "" "" u) (quiet : t.Quiet) (program : Program)
    (ending : Ending) : some (finish s r program ending t).shown = expectedRun program (some ending, u) := by
  have same : t.terminal.standardOutput = u.output := by
    obtain ⟨text, first, second⟩ := agree.written
    rw [← quiet.output, first, second]
  cases ending with
  | error fault =>
    show some (t.terminal.standardOutput, _) = some (u.output, _)
    rw [same]
    rfl
  | ok halt =>
    show some ((status _ _ _ _).standardOutput, _) = some (u.output, _)
    rw [status_of_minimal (by simp [quiet.minimal]), Terminal.standardOutput_sayAll,
      Terminal.standardOutput_startNewLine, same]
    rfl

theorem run_of_trouble (minimal : r.minimal = true) {trouble : Trouble} (found : s.source.bind load = .error trouble) :
    (run s r).map Outcome.shown = some ("", some trouble) := by
  unfold run
  rw [begin_of_trouble minimal found]
  rfl

theorem run_of_loaded (minimal : r.minimal = true) (scripted : r.debug ≠ some none) {loaded : Loaded}
    (found : s.source.bind load = .ok loaded) :
    (run s r).map Outcome.shown =
      expectedRun loaded.program ((buffered s r loaded.machine).run Session.turnLimit) := by
  obtain ⟨begun, ready, own, start⟩ := begin_of_loaded minimal scripted found
  obtain ⟨same, agree, quiet⟩ := (Session.simulation_quiet "" "").run start Session.turnLimit
  unfold run
  rw [ready]
  dsimp only
  rcases first : begun.session.run Session.turnLimit with ⟨ending, t⟩
  rcases second : (buffered s r loaded.machine).run Session.turnLimit with ⟨other, u⟩
  rw [first, second] at same agree
  rw [first] at quiet
  obtain rfl : ending = other := by simpa using same
  cases ending with
  | none => rfl
  | some ending => rw [← own]; exact finish_of_quiet agree quiet begun.program ending

/-- A request in minimal mode writes to standard output what its program writes, and nothing else, and
    exits without a failure exactly if the source parses, its labels resolve and its run does not fail.
    This is for any UTF-8 source, any characters for `IN`, any limit and any commands given for a debugger. -/
theorem execute_of_minimal {source : String} (utf8 : s.contents = .ok source.toUTF8.data.toList)
    (minimal : r.minimal = true) (scripted : r.debug ≠ some none) :
    (execute s (.run r)).map Outcome.shown = expected s r source := by
  have found : s.source.bind load = _ := (congrArg (·.bind load) (Surroundings.source_of_utf8 utf8)).trans (load_eq source)
  show (run s r).map Outcome.shown = _
  unfold expected
  cases parsed : Program.parse source with
  | error e =>
    rw [parsed] at found
    exact run_of_trouble minimal found
  | ok program =>
    cases made : Machine.ofProgram program with
    | error e =>
      simp only [parsed, made] at found ⊢
      exact run_of_trouble minimal found
    | ok m =>
      simp only [parsed, made] at found ⊢
      exact run_of_loaded minimal scripted found

end

/-- A program that copies two characters and then wants a third. -/
def wanting : String := "IN\nOUT\nIN\nOUT\nIN\n"

def wantingSurroundings : Surroundings where
  contents := .ok wanting.toUTF8.data.toList
  environment := ⟨[]⟩
  input := []

/-- It is debugged with two characters to read. -/
def wantingRequest : RunRequest where
  path := "want.asm"
  minimal := true
  input := some "AB"
  debug := some (some "s;registers;x")

theorem execute_of_minimal_wanting :
    wantingRequest.minimal = true ∧ wantingRequest.debug ≠ some none ∧
      (execute wantingSurroundings (.run wantingRequest)).map Outcome.shown =
        some ("AB", some (.report
          { code := "runtime"
            message := "`IN` at address 4: no input left to read"
            help := "supply more input with `--input`"
            remarks := [⟨14, 2, "failed at address 4"⟩] })) := by
  have scripted : wantingRequest.debug ≠ some none := by decide
  have shown : (execute wantingSurroundings (.run wantingRequest)).map Outcome.shown =
      expected wantingSurroundings wantingRequest wanting := execute_of_minimal rfl rfl scripted
  refine ⟨rfl, scripted, shown.trans ?_⟩
  decide +kernel

end CommandLine
end Accumulator
