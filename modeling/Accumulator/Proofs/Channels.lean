import Accumulator.Proofs.Pauses
import Accumulator.Proofs.Splits

/-!
Channels: it makes no difference to a program where its input comes from and where its output
goes. Two sessions agree when they have the same machine, the same limit and debugger and the
same characters before them, and have written the same text so far; they may differ in all
else. Steps and pauses keep this, and so do runs, whole or in parts.
-/
namespace Accumulator

theorem Machine.written_append (emitted : Option Char) (before text : String) :
    written emitted (before ++ text) = before ++ written emitted text := by
  cases emitted with
  | none => rfl
  | some c =>
    show (before ++ text).push c = before ++ text.push c
    rw [String.push_eq_append, String.push_eq_append, String.append_assoc]

namespace Session

/-- The sessions differ at most in where they read and write and in what has been said, and have
    written the same text behind the given ones. Their debuggers take no commands from standard input. -/
structure Agree (before before' : String) (s t : Session) : Prop where
  machine : s.machine = t.machine
  limit : s.limit = t.limit
  debugger : s.debugger = t.debugger
  scripted : ∀ d, t.debugger = some d → d.readsInput = false
  unread : s.unread = t.unread
  written : ∃ text, s.output = before ++ text ∧ t.output = before' ++ text

theorem Alike.unread {s t : Session} (alike : s.Alike t) : s.unread = t.unread := by
  unfold Session.unread
  rw [alike.channel, alike.input]

namespace Agree

variable {a b : String} {s t : Session}

theorem pause (agree : Agree a b s t) : s.pause.1 = t.pause.1 ∧ Agree a b s.pause.2 t.pause.2 := by
  cases attached : t.debugger with
  | none =>
    rw [pause_of_alone attached, pause_of_alone (agree.debugger.trans attached)]
    exact ⟨rfl, agree⟩
  | some d =>
    have scripted := agree.scripted d attached
    obtain ⟨action, alike, left⟩ := pause_of_scripted attached scripted
    obtain ⟨action', alike', left'⟩ := pause_of_scripted (agree.debugger.trans attached) scripted
    refine ⟨action'.trans action.symm, ?_, ?_, left'.trans left.symm, ?_, ?_, ?_⟩
    · rw [alike.machine, alike'.machine, agree.machine]
    · rw [alike.limit, alike'.limit, agree.limit]
    · exact scripted_pause agree.scripted
    · rw [alike.unread, alike'.unread, agree.unread]
    · rw [alike.output, alike'.output]
      exact agree.written

theorem apply (agree : Agree a b s t) (c : Cycle) : Agree a b (s.apply c) (t.apply c) where
  machine := (machine_apply s c).trans (machine_apply t c).symm
  limit := (s.apply_frame c).1.trans (agree.limit.trans (t.apply_frame c).1.symm)
  debugger := (s.apply_frame c).2.trans (agree.debugger.trans (t.apply_frame c).2.symm)
  scripted := by
    rw [(t.apply_frame c).2]
    exact agree.scripted
  unread := by rw [unread_apply, unread_apply, agree.unread]
  written := by
    obtain ⟨text, first, second⟩ := agree.written
    rw [output_apply, output_apply, first, second, Machine.written_append, Machine.written_append]
    exact ⟨_, rfl, rfl⟩

theorem step (agree : Agree a b s t) : s.step.1 = t.step.1 ∧ Agree a b s.step.2 t.step.2 := by
  have cycle : s.cycle = t.cycle := by
    unfold Session.cycle
    rw [next?_eq_head?_unread, next?_eq_head?_unread, agree.machine, agree.unread]
  unfold Session.step
  rw [cycle]
  exact ⟨rfl, agree.apply t.cycle⟩

end Agree

theorem simulation_agree (a b : String) : Simulation id (Agree a b) where
  stop agree := by
    unfold stop?
    rw [agree.machine, agree.limit]
  pause agree := agree.pause
  step agree := ⟨by rw [agree.step.1], agree.step.2⟩
  limit agree limit := { agree with limit := rfl }

/-- Runs of sessions that agree end in the same way, when they have written the same. -/
theorem Agree.ends_iff {a b : String} {s t : Session} (agree : Agree a b s t) {ending : Ending} {m : Machine}
    {text : String} : s.Ends ending m (a ++ text) ↔ t.Ends ending m (b ++ text) := by
  refine exists_congr fun turns => ?_
  obtain ⟨same, after⟩ := (simulation_agree a b).run agree turns
  obtain ⟨more, first, second⟩ := after.written
  rw [Option.map_id, id, id] at same
  rw [same, after.machine, first, second, String.append_right_inj, String.append_right_inj]

/-- Calls on the first session are parts of a run that is a whole run of the second. -/
structure InParts (s t : Session) (cs : List Call) : Prop where
  /-- Where one more call ends the run within its limit, the whole run ends in that way. -/
  last : ∀ c ending text, c.Drives → settled? ((s.calls cs).result? c) = some ending →
    ((s.calls cs).call c).Within t.limit → ((s.calls cs).call c).output = s.output ++ text →
      t.Ends ending ((s.calls cs).call c).machine (t.output ++ text)
  /-- Taken up after the calls under its limit, the run ends as the whole run does. -/
  resumed : (s.calls cs).Within t.limit → ∀ ending m text,
    ((s.calls cs).limited t.limit).Ends ending m (s.output ++ text) ↔ t.Ends ending m (t.output ++ text)

theorem Agree.inParts {s t : Session} (agree : Agree s.output t.output s t) (alone : s.debugger = none)
    {cs : List Call} (drive : ∀ c ∈ cs, c.Drives) (unended : s.Unended cs) : InParts s t cs := by
  have own : s.limited t.limit = s := by rw [← agree.limit]; rfl
  refine ⟨fun c ending text drives ended within written => ?_, fun within ending m text => ?_⟩
  · obtain ⟨done, parts⟩ := exists_run_of_unended alone drive unended (within_of_calls [c] within)
    obtain ⟨more, part⟩ := exists_run_of_call (alone_calls alone drive) drives within
    have whole : (s.limited t.limit).run (done + more) = (some ending, ((s.calls cs).call c).limited t.limit) := by
      rw [run_add, parts, ← ended]
      exact part
    rw [own] at whole
    refine agree.ends_iff.mp ⟨done + more, ?_⟩
    rw [whole]
    exact ⟨rfl, rfl, written⟩
  · obtain ⟨done, parts⟩ := exists_run_of_unended alone drive unended within
    rw [own] at parts
    rw [ends_iff_of_run parts, agree.ends_iff]

/-- Without a debugger it makes no difference whether a program reads given bytes from standard input,
    their characters from a script or the same characters from a buffer. Any step or run, after any others,
    ends in the same way with the same machine and the same input left, and has written the same. A run
    that is taken in parts on the console ends as the whole run on the buffer does. -/
theorem channels_agree {s : Session} (alone : s.debugger = none) (bytes : List UInt8) :
    let characters := bytes.map fun byte => Char.ofNat byte.toNat
    let kept := { s with channel := .buffer characters "" }
    ∀ console ∈ [{ s with channel := .console none, input := bytes }, { s with channel := .console (some characters) }],
      ∀ cs : List Call, (∀ c ∈ cs, c.Drives) →
        (∀ c : Call, c.Drives →
          (console.calls cs).result? c = (kept.calls cs).result? c ∧
            Agree console.output "" ((console.calls cs).call c) ((kept.calls cs).call c)) ∧
        (console.Unended cs → InParts console kept cs) := by
  intro characters kept console either cs drive
  have start : console.debugger = none ∧ Agree console.output "" console kept := by
    simp only [List.mem_cons, List.not_mem_nil, or_false] at either
    rcases either with rfl | rfl
    all_goals
      refine ⟨alone, rfl, rfl, rfl, ?_, rfl, "", by simp, rfl⟩
      intro d attached
      cases alone.symm.trans attached
  obtain ⟨quiet, agree⟩ := start
  have simulation := simulation_agree console.output ""
  refine ⟨fun c drives => ?_, agree.inParts quiet drive⟩
  simpa using simulation.call (simulation.calls agree drive) drives

/-- A session over a program that writes what it reads, for ever. Two bytes are there, of which one is not ASCII. -/
def echoingSession : Session where
  machine := ⟨.ofList [.label "A", .instruction (.plain .read), .instruction (.plain .write),
    .instruction (.label .jmp "A")], ⟨[("A", 0)], []⟩, {}⟩
  channel := .console none
  input := [65, 200]

/-- The first byte is echoed under a limit of its own. -/
def echoingParts : List Call := [.limit (some 4), .run 5, .limit none]

theorem channels_agree_echoing :
    echoingSession.debugger = none ∧ (∀ c ∈ echoingParts, c.Drives) ∧ echoingSession.Unended echoingParts ∧
      { echoingSession with channel := .buffer ['A', '\u00c8'] "" }.Ends (.error ⟨1, "IN", .inputExhausted⟩)
        ((echoingSession.calls echoingParts).call (.run 9)).machine "A\u00c8" := by
  have drive : ∀ c ∈ echoingParts, c.Drives := by simp [echoingParts, Call.Drives]
  have cut : (echoingSession.call (.limit (some 4))).result? (.run 5) = some (.ok .stepLimit) := by rfl
  have unended : echoingSession.Unended echoingParts := ⟨rfl, congrArg settled? cut, rfl, trivial⟩
  have exhausted : (echoingSession.calls echoingParts).result? (.run 9) = some (.error ⟨1, "IN", .inputExhausted⟩) := by rfl
  have echoed : ((echoingSession.calls echoingParts).call (.run 9)).output = echoingSession.output ++ "A\u00c8" := by decide
  have agree := channels_agree (s := echoingSession) rfl [65, 200] echoingSession (List.mem_cons_self ..) echoingParts drive
  obtain ⟨turns, ended, same, written⟩ :=
    (agree.2 unended).last (.run 9) _ "A\u00c8" trivial (congrArg settled? exhausted) nofun echoed
  exact ⟨rfl, drive, unended, turns, ended, same, written.trans String.empty_append⟩

end Session
end Accumulator
