import Accumulator.Proofs.Simulation
import Accumulator.Proofs.Sources

/-!
Pauses: a debugger with a script does not change what a program computes. Two sessions are
alike when they differ in their debuggers at most, and in what has been said; a step keeps
them alike, and a pause only says something. So a run with a script goes as the run without
a debugger does, cycle by cycle, unless the script comes to its exit before that run stops.
-/
namespace Accumulator

/-! ## Scripts -/

/-- After the command there is no further pause. -/
def Command.isLast : Command → Bool
  | .resume | .quit => true
  | _ => false

namespace Debugger

/-- The commands that lines stand for. A line that is no command stands for none. -/
def script (lines : List String) : List Command := lines.filterMap fun line => (Command.parse line).toOption

/-- The number of steps that a script makes before it exits or continues. -/
def stepsBefore (commands : List Command) : Nat := (commands.takeWhile (!·.isLast)).count .step

/-- A script exits before it continues, if it ever does either. -/
def Quits (commands : List Command) : Prop := commands.find? Command.isLast = some .quit

theorem stepsBefore_cons (c : Command) (commands : List Command) :
    stepsBefore (c :: commands) =
      if c.isLast then 0 else if c = .step then stepsBefore commands + 1 else stepsBefore commands := by
  unfold stepsBefore
  rw [List.takeWhile_cons]
  cases c <;> simp [Command.isLast]

theorem quits_cons (c : Command) (commands : List Command) :
    Quits (c :: commands) ↔ if c.isLast then c = .quit else Quits commands := by
  unfold Quits
  rw [List.find?_cons]
  cases c <;> simp [Command.isLast]

theorem script_cons_ok {line : String} {c : Command} (parsed : Command.parse line = .ok c) (lines : List String) :
    script (line :: lines) = c :: script lines :=
  List.filterMap_cons_some (by rw [parsed]; rfl)

theorem script_cons_error {line : String} {e : CommandError} (parsed : Command.parse line = .error e)
    (lines : List String) : script (line :: lines) = script lines :=
  List.filterMap_cons_none (by rw [parsed]; rfl)

/-- How a run goes on by the lines that are queued, and those that are left. -/
def verdict (queued : List String) : Action × List String := (takeQueued queued).2.getD (.detach, [])

/-- What the verdict of lines means for their script. -/
inductive VerdictCase (lines : List String) : Prop
  | proceed (later : List String) (verdict : verdict lines = (.proceed, later))
    (steps : stepsBefore (script lines) = stepsBefore (script later) + 1)
    (quits : Quits (script lines) ↔ Quits (script later))
  | leave (later : List String) (verdict : verdict lines = (.leave, later)) (steps : stepsBefore (script lines) = 0)
    (quits : Quits (script lines))
  | detach (later : List String) (verdict : verdict lines = (.detach, later)) (stays : ¬ Quits (script lines))

/-- A command that does not say how a run goes on neither ends a script nor steps. -/
theorem isLast_of_ne {c : Command} (other : ∀ action : Action, c ≠ action.command) : c.isLast = false ∧ c ≠ .step := by
  refine ⟨?_, other .proceed⟩
  cases c with
  | resume => exact absurd rfl (other .detach)
  | quit => exact absurd rfl (other .leave)
  | _ => rfl

/-- Lines that are passed over count for nothing in a script. -/
theorem script_of_passes {before : List String} (passes : ∀ line ∈ before, Passes line) (rest : List String) :
    stepsBefore (script (before ++ rest)) = stepsBefore (script rest) ∧
      (Quits (script (before ++ rest)) ↔ Quits (script rest)) := by
  induction before with
  | nil => exact ⟨rfl, Iff.rfl⟩
  | cons line before ih =>
    rw [List.forall_mem_cons] at passes
    have later := ih passes.2
    rw [List.cons_append]
    cases parsed : Command.parse line with
    | error e => rwa [script_cons_error parsed]
    | ok c =>
      obtain ⟨on, other⟩ := isLast_of_ne fun action same => passes.1 action (same ▸ parsed)
      rw [script_cons_ok parsed, stepsBefore_cons, quits_cons]
      simpa [on, other] using later

theorem verdictCase (lines : List String) : VerdictCase lines := by
  cases queueCase lines with
  | @acts before last action passes acts left =>
    have verdict : verdict (before ++ last :: left) = (action, left) := by
      rw [Debugger.verdict, takeQueued_of_acts passes acts]
      rfl
    obtain ⟨steps, quits⟩ := script_of_passes passes (last :: left)
    rw [script_cons_ok acts, stepsBefore_cons] at steps
    rw [script_cons_ok acts, quits_cons] at quits
    cases action with
    | proceed => exact .proceed left verdict steps quits
    | leave => exact .leave left verdict steps (quits.mpr rfl)
    | detach => exact .detach left verdict fun exits => nomatch quits.mp exits
  | passes all =>
    have verdict : verdict lines = (.detach, []) := by
      rw [Debugger.verdict, takeQueued_of_passes all]
      rfl
    obtain ⟨-, quits⟩ := script_of_passes all []
    rw [List.append_nil] at quits
    exact .detach [] verdict fun exits => nomatch quits.mp exits

theorem take_of_script (queued : List String) (input : List UInt8) :
    (take false queued input).action = (verdict queued).1 ∧ (take false queued input).queued = (verdict queued).2 ∧
      (take false queued input).input = input := by
  unfold take verdict
  rcases takeQueued queued with ⟨taken, _ | ⟨action, later⟩⟩
  · simp
  · exact ⟨rfl, rfl, rfl⟩

end Debugger

namespace Session

/-! ## Sessions that are alike -/

/-- The sessions differ in their debuggers at most, and in what has been said. Output to a
    console counts as well as output to a buffer. -/
structure Alike (s t : Session) : Prop where
  machine : s.machine = t.machine
  limit : s.limit = t.limit
  channel : s.channel = t.channel
  input : s.input = t.input
  output : s.output = t.output

theorem Alike.trans {s t u : Session} (st : s.Alike t) (tu : t.Alike u) : s.Alike u where
  machine := st.machine.trans tu.machine
  limit := st.limit.trans tu.limit
  channel := st.channel.trans tu.channel
  input := st.input.trans tu.input
  output := st.output.trans tu.output

theorem Alike.stop? {s t : Session} (alike : s.Alike t) : s.stop? = t.stop? := by
  unfold Session.stop?
  rw [alike.machine, alike.limit]

theorem Alike.cycle {s t : Session} (alike : s.Alike t) : s.cycle = t.cycle := by
  unfold Session.cycle next?
  rw [alike.machine, alike.channel, alike.input]

theorem Alike.apply {s t : Session} (alike : s.Alike t) (c : Cycle) : (s.apply c).Alike (t.apply c) where
  machine := (machine_apply s c).trans (machine_apply t c).symm
  limit := (s.apply_frame c).1.trans (alike.limit.trans (t.apply_frame c).1.symm)
  channel := by rw [apply_eq, apply_eq, alike.channel]
  input := by
    rw [apply_eq, apply_eq]
    dsimp only
    rw [alike.channel, alike.input]
  output := by rw [output_apply, output_apply, alike.output]

theorem Alike.step {s t : Session} (alike : s.Alike t) : s.step.1 = t.step.1 ∧ s.step.2.Alike t.step.2 := by
  unfold Session.step
  rw [alike.cycle]
  exact ⟨rfl, alike.apply t.cycle⟩

/-! ## Pauses -/

theorem pause_of_attached {s : Session} {d : Debugger} {p : Debugger.Pause} (attached : s.debugger = some d)
    (taken : Debugger.take d.readsInput d.queued s.input = p) :
    s.pause = (p.action, { s with
      debugger := if p.action = .detach then none else some { d with queued := p.queued }
      input := p.input
      terminal := (s.terminal.startNewLine (.tool .always .normal)).sayAll (Debugger.messages d.radix s.machine p) }) := by
  unfold pause
  rw [attached, ← taken]

theorem output_pause (s : Session) : s.pause.2.output = s.output := by
  cases attached : s.debugger with
  | none => rw [pause_of_alone attached]
  | some d =>
    rw [pause_of_attached attached rfl]
    unfold output
    cases s.channel with
    | buffer input output => rfl
    | console script => exact (Terminal.standardOutput_sayAll _ _).trans (Terminal.standardOutput_startNewLine _ _ _)

/-! ## Pauses with a script -/

/-- The debugger takes its commands from a script, of which the given lines are left. -/
def Follows (s : Session) (lines : List String) : Prop :=
  ∃ d, s.debugger = some d ∧ d.readsInput = false ∧ d.queued = lines

/-- A pause with a script says something and passes on the verdict of its lines. -/
theorem pause_of_scripted {s : Session} {d : Debugger} (attached : s.debugger = some d) (scripted : d.readsInput = false) :
    s.pause.1 = (Debugger.verdict d.queued).1 ∧ s.pause.2.Alike s ∧
      s.pause.2.debugger =
        if (Debugger.verdict d.queued).1 = .detach then none
        else some { d with queued := (Debugger.verdict d.queued).2 } := by
  obtain ⟨queued, _, radix⟩ := d
  cases scripted
  obtain ⟨action, left, input⟩ := Debugger.take_of_script queued s.input
  have output := output_pause s
  rw [pause_of_attached attached rfl] at output ⊢
  dsimp only at output ⊢
  rw [← action, ← left]
  exact ⟨rfl, ⟨rfl, rfl, rfl, input, output⟩, rfl⟩

/-- Commands are taken from a script alone, if any are. -/
def Scripted (s : Session) : Prop := ∀ d, s.debugger = some d → d.readsInput = false

theorem scripted_pause {s : Session} (scripted : s.Scripted) : s.pause.2.Scripted := by
  intro e kept
  cases attached : s.debugger with
  | none =>
    rw [pause_of_alone attached] at kept
    exact scripted e kept
  | some d =>
    rw [(pause_of_scripted attached (scripted d attached)).2.2] at kept
    split at kept
    · cases kept
    · cases kept
      exact scripted d attached

theorem pause_of_follows {s : Session} {lines : List String} (follows : s.Follows lines) :
    ∃ t : Session, t.Alike s ∧ s.pause = ((Debugger.verdict lines).1, t) ∧
      ((Debugger.verdict lines).1 = .detach → t.debugger = none) ∧
      ((Debugger.verdict lines).1 ≠ .detach → t.Follows (Debugger.verdict lines).2) := by
  obtain ⟨d, attached, scripted, rfl⟩ := follows
  obtain ⟨action, alike, left⟩ := pause_of_scripted attached scripted
  refine ⟨s.pause.2, alike, Prod.ext action rfl, fun detached => left.trans (if_pos detached), fun stays => ?_⟩
  exact ⟨_, left.trans (if_neg stays), scripted, rfl⟩

/-! ## Turns and runs -/

/-- All that a turn of a session with a script can be, where no check stops it. -/
inductive ScriptedTurn (s : Session) (lines : List String) : Prop
  | proceeds (later : List String) (u : Session) (alike : u.Alike s) (follows : u.Follows later)
    (steps : Debugger.stepsBefore (Debugger.script lines) = Debugger.stepsBefore (Debugger.script later) + 1)
    (quits : Debugger.Quits (Debugger.script lines) ↔ Debugger.Quits (Debugger.script later))
    (turn : s.turn = (ending? u.step.1, u.step.2))
  | leaves (u : Session) (alike : u.Alike s) (steps : Debugger.stepsBefore (Debugger.script lines) = 0)
    (quits : Debugger.Quits (Debugger.script lines)) (turn : s.turn = (some (.ok .exited), u))
  | detaches (u : Session) (alike : u.Alike s) (alone : u.debugger = none)
    (stays : ¬ Debugger.Quits (Debugger.script lines)) (turn : s.turn = (ending? u.step.1, u.step.2))

theorem scriptedTurn {s : Session} {lines : List String} (follows : s.Follows lines) (on : s.stop? = none) :
    s.ScriptedTurn lines := by
  obtain ⟨u, alike, pause, detached, kept⟩ := pause_of_follows follows
  cases Debugger.verdictCase lines with
  | proceed later verdict steps quits =>
    rw [verdict] at pause kept
    refine .proceeds later u alike (kept nofun) steps quits ?_
    unfold turn
    rw [on, pause]
  | leave later verdict steps quits =>
    rw [verdict] at pause
    refine .leaves u alike steps quits ?_
    unfold turn
    rw [on, pause]
  | detach later verdict stays =>
    rw [verdict] at pause detached
    refine .detaches u alike (detached rfl) stays ?_
    unfold turn
    rw [on, pause]

/-- The runs end in the same way, or not yet, and the sessions after them are alike. -/
def SameRun (s t : Session) (turns : Nat) : Prop :=
  (s.run turns).1 = (t.run turns).1 ∧ (s.run turns).2.Alike (t.run turns).2

section
variable {s t : Session}

theorem sameRun_zero (alike : s.Alike t) : s.SameRun t 0 := ⟨rfl, alike⟩

theorem sameRun_of_stop (alike : s.Alike t) {halt : Halt} (stopped : t.stop? = some halt) (turns : Nat) :
    s.SameRun t turns := by
  cases turns with
  | zero => exact sameRun_zero alike
  | succ turns =>
    unfold SameRun
    rw [run_of_turn (turn_of_stop (alike.stop?.trans stopped)), run_of_turn (turn_of_stop stopped)]
    exact ⟨rfl, alike⟩

/-- Two turns that come down to the same step make no difference to the runs after them. -/
theorem sameRun_succ {u : Session} (alike : u.Alike t) (turn : s.turn = (ending? u.step.1, u.step.2))
    (plain : t.turn = (ending? t.step.1, t.step.2)) {turns : Nat}
    (rest : ending? t.step.1 = none → u.step.2.SameRun t.step.2 turns) : s.SameRun t (turns + 1) := by
  obtain ⟨same, after⟩ := alike.step
  rw [same] at turn
  unfold SameRun
  cases result : ending? t.step.1 with
  | some ending =>
    rw [result] at turn plain
    rw [run_of_turn turn, run_of_turn plain]
    exact ⟨rfl, after⟩
  | none =>
    rw [result] at turn plain
    rw [run_of_turn_none turn, run_of_turn_none plain]
    exact rest result

theorem sameRun_of_alone (alike : s.Alike t) (first : s.debugger = none) (second : t.debugger = none) (turns : Nat) :
    s.SameRun t turns := by
  induction turns generalizing s t with
  | zero => exact sameRun_zero alike
  | succ turns ih =>
    cases stopped : t.stop? with
    | some halt => exact sameRun_of_stop alike stopped _
    | none =>
      refine sameRun_succ alike (turn_of_alone first (alike.stop?.trans stopped)) (turn_of_alone second stopped) ?_
      exact fun _ => ih alike.step.2 ((debugger_step s).trans first) ((debugger_step t).trans second)

theorem sameRun_of_stays {lines : List String} (alike : s.Alike t) (follows : s.Follows lines)
    (alone : t.debugger = none) (stays : ¬ Debugger.Quits (Debugger.script lines)) (turns : Nat) :
    s.SameRun t turns := by
  induction turns generalizing s t lines with
  | zero => exact sameRun_zero alike
  | succ turns ih =>
    cases stopped : t.stop? with
    | some halt => exact sameRun_of_stop alike stopped _
    | none =>
      have plain := turn_of_alone alone stopped
      have alone_after := (debugger_step t).trans alone
      cases scriptedTurn follows (alike.stop?.trans stopped) with
      | proceeds later u same kept steps quits turn =>
        refine sameRun_succ (same.trans alike) turn plain fun _ => ?_
        obtain ⟨d, attached, rest⟩ := kept
        exact ih (same.trans alike).step.2 ⟨d, (debugger_step u).trans attached, rest⟩ alone_after
          fun exits => stays (quits.mpr exits)
      | leaves u same steps quits turn => exact absurd quits stays
      | detaches u same gone stays turn =>
        refine sameRun_succ (same.trans alike) turn plain fun _ => ?_
        exact sameRun_of_alone (same.trans alike).step.2 ((debugger_step u).trans gone) alone_after turns

/-- The run is still going after the given number of cycles, and no check stops it then. -/
def GoesPast (s : Session) (cycles : Nat) : Prop :=
  (s.run cycles).1 = none ∧ (s.run cycles).2.stop? = none

theorem not_goesPast_of_stop {halt : Halt} (stopped : s.stop? = some halt) (cycles : Nat) : ¬ s.GoesPast cycles := by
  rintro ⟨going, on⟩
  cases cycles with
  | zero => exact absurd (stopped.symm.trans on) nofun
  | succ cycles =>
    rw [run_of_turn (turn_of_stop stopped)] at going
    cases going

/-- The first run exits after the given number of cycles, as the second is then, if that goes
    past them. If it does not, the two go the same way, turn by turn. -/
structure ExitsAfter (s t : Session) (cycles : Nat) : Prop where
  exits : t.GoesPast cycles → ∀ turns, cycles < turns →
    (s.run turns).1 = some (.ok .exited) ∧ (s.run turns).2.Alike (t.run cycles).2
  stops : ¬ t.GoesPast cycles → ∀ turns, s.SameRun t turns

theorem exitsAfter_of_stop (alike : s.Alike t) {halt : Halt} (stopped : t.stop? = some halt) (cycles : Nat) :
    s.ExitsAfter t cycles where
  exits past := absurd past (not_goesPast_of_stop stopped cycles)
  stops _ := sameRun_of_stop alike stopped

theorem exitsAfter_zero {u : Session} (alike : u.Alike t) (on : t.stop? = none)
    (turn : s.turn = (some (.ok .exited), u)) : s.ExitsAfter t 0 where
  exits _ turns lt := by
    obtain ⟨turns, rfl⟩ := Nat.exists_eq_succ_of_ne_zero (Nat.ne_of_gt lt)
    rw [run_of_turn turn]
    exact ⟨rfl, alike⟩
  stops stays := absurd ⟨rfl, on⟩ stays

/-- A cycle that both runs make comes before the exit. -/
theorem exitsAfter_succ {u : Session} (start : s.Alike t) (alike : u.Alike t)
    (turn : s.turn = (ending? u.step.1, u.step.2))
    (plain : t.turn = (ending? t.step.1, t.step.2)) {cycles : Nat}
    (rest : ending? t.step.1 = none → u.step.2.ExitsAfter t.step.2 cycles) : s.ExitsAfter t (cycles + 1) := by
  refine ⟨fun past turns lt => ?exits, fun stays turns => ?stops⟩
  case exits =>
    obtain ⟨turns, rfl⟩ := Nat.exists_eq_succ_of_ne_zero (Nat.ne_of_gt (Nat.zero_lt_of_lt lt))
    cases result : ending? t.step.1 with
    | some ending =>
      have going := past.1
      rw [run_of_turn (plain.trans (by rw [result]))] at going
      cases going
    | none =>
      rw [alike.step.1, result] at turn
      rw [result] at plain
      unfold GoesPast at past
      rw [run_of_turn_none plain] at past ⊢
      rw [run_of_turn_none turn]
      exact (rest result).exits past turns (Nat.lt_of_succ_lt_succ lt)
  case stops =>
    cases turns with
    | zero => exact sameRun_zero start
    | succ turns =>
      refine sameRun_succ alike turn plain fun result => (rest result).stops (fun past => stays ?_) turns
      rw [result] at plain
      unfold GoesPast
      rwa [run_of_turn_none plain]

theorem exitsAfter_of_quits {lines : List String} (alike : s.Alike t) (follows : s.Follows lines)
    (alone : t.debugger = none) (quits : Debugger.Quits (Debugger.script lines)) {k : Nat}
    (count : Debugger.stepsBefore (Debugger.script lines) = k) : s.ExitsAfter t k := by
  induction k using Nat.strongRecOn generalizing s t lines with
  | ind k ih =>
    cases stopped : t.stop? with
    | some halt => exact exitsAfter_of_stop alike stopped k
    | none =>
      have plain := turn_of_alone alone stopped
      cases scriptedTurn follows (alike.stop?.trans stopped) with
      | detaches u same gone stays turn => exact absurd quits stays
      | leaves u same steps quits turn =>
        obtain rfl : k = 0 := count.symm.trans steps
        exact exitsAfter_zero (same.trans alike) stopped turn
      | proceeds later u same kept steps exits turn =>
        obtain rfl : k = Debugger.stepsBefore (Debugger.script later) + 1 := count.symm.trans steps
        have both := same.trans alike
        obtain ⟨d, attached, rest⟩ := kept
        refine exitsAfter_succ alike both turn plain fun _ => ?_
        exact ih _ (Nat.lt_succ_self _) both.step.2 ⟨d, (debugger_step u).trans attached, rest⟩
          ((debugger_step t).trans alone) (exits.mp quits) rfl

end

/-- Take a run with a debugger whose commands come from a text, and the run without one. If
    the text exits before it continues, the first run exits after the steps of the text, in
    the session that the second has come to by then, unless the second stops earlier. In
    every other case both go the same way, turn by turn, and so end in the same way if they end. -/
theorem run_attach (s : Session) (text : String) (radix : Radix) :
    let plain := { s with debugger := none }
    let watched := s.attach (some text) radix
    let commands := Debugger.script (CommandText.ofText text)
    (Debugger.Quits commands → watched.ExitsAfter plain (Debugger.stepsBefore commands)) ∧
      (¬ Debugger.Quits commands → ∀ turns, watched.SameRun plain turns) := by
  intro plain watched commands
  have alike : watched.Alike plain := ⟨rfl, rfl, rfl, rfl, rfl⟩
  have follows : watched.Follows (CommandText.ofText text) := ⟨_, rfl, rfl, rfl⟩
  exact ⟨fun quits => exitsAfter_of_quits alike follows rfl quits rfl,
    fun stays => sameRun_of_stays alike follows rfl stays⟩

theorem run_attach_exiting :
    Debugger.Quits (Debugger.script (CommandText.ofText "s;registers;jump;;q;s")) ∧ countingSession.GoesPast 2 ∧
      ((countingSession.attach (some "s;registers;jump;;q;s") .decimal).run 3).1 = some (.ok .exited) ∧
      ((countingSession.attach (some "s;registers;jump;;q;s") .decimal).run 3).2.machine.registers.acc = 1 := by
  have commands : Debugger.script (CommandText.ofText "s;registers;jump;;q;s") =
    [.step, .registers, .step, .quit, .step] := by decide
  have quits : Debugger.Quits (Debugger.script (CommandText.ofText "s;registers;jump;;q;s")) := by rw [commands]; rfl
  have past : countingSession.GoesPast 2 := ⟨rfl, rfl⟩
  have exits := ((run_attach countingSession "s;registers;jump;;q;s" .decimal).1 quits).exits
  rw [commands] at exits
  obtain ⟨exited, alike⟩ := exits past 3 (by decide)
  exact ⟨quits, past, exited, congrArg (·.registers.acc) alike.machine⟩

end Session
end Accumulator
