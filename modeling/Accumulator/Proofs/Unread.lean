import Accumulator.Proofs.Simulation

/-!
Unread input: what a run has not read makes no difference to it. Only `IN` looks at the next
character, and it fails where there is none, so a cycle that does not fail for want of input
goes the same way with more characters behind those of the buffer. Then so does a run.
-/
namespace Accumulator

namespace Machine

theorem execute_of_ne_read {i : Instruction} (other : i ≠ .plain .read) (m : Machine) (next : Option Char) :
    m.execute i next = m.execute i none := by
  cases i with
  | plain op =>
    cases op with
    | read => exact absurd rfl other
    | write => rfl
    | stop => rfl
  | immediate op n => rfl
  | label op name => rfl
  | register op target => rfl
  | compare c => rfl

/-- A cycle that does without input is the same whatever comes next in the input. -/
theorem cycle_eq_cycle_none {m : Machine}
    (enough : ∀ fault, (m.cycle none).outcome = .error fault → fault.failure ≠ .inputExhausted)
    (next : Option Char) : m.cycle next = m.cycle none := by
  cases found : m.store.get? m.registers.pc with
  | none => rw [cycle_of_get?_none next found, cycle_of_get?_none none found]
  | some cell =>
    rw [cycle_of_get? none found] at enough ⊢
    rw [cycle_of_get? next found]
    cases cell with
    | label name => rfl
    | number value => rfl
    | raw words => rfl
    | instruction i =>
      by_cases read : i = .plain .read
      · subst read
        exact absurd rfl (enough _ rfl)
      · simp only [cycleCell, cycleInstruction, execute_of_ne_read read m.count next]

theorem isSome_of_taken {m : Machine} {next : Option Char} (taken : (m.cycle next).taken = true) : next.isSome := by
  cases m.cycleCase next with
  | ended found cycle => simp [cycle] at taken
  | passed name found cycle => simp [cycle] at taken
  | unknown cell found data cycle => simp [cycle] at taken
  | failed i failure found result cycle => simp_all
  | done i halt found result cycle => simp_all

theorem left_append {taken : Bool} {input : List Char} (there : taken = true → input ≠ []) (more : List Char) :
    left taken (input ++ more) = left taken input ++ more := by
  cases taken with
  | false => rfl
  | true => exact List.tail_append_of_ne_nil (there rfl)

end Machine

namespace Session

/-- The second session is the first with more characters behind those in its buffer. -/
def Fed (more : List Char) (s t : Session) : Prop :=
  ∃ input output, s.channel = .buffer input output ∧ t = { s with channel := .buffer (input ++ more) output }

theorem apply_of_buffer {s : Session} {input : List Char} {output : String} (buffered : s.channel = .buffer input output)
    (c : Cycle) :
    s.apply c =
      { s with
        machine := c.machine
        channel := .buffer (Machine.left c.taken input) (Machine.written c.emitted output) } := by
  rw [apply_eq, buffered]
  rfl

section
variable {more : List Char} {s t : Session}

theorem Fed.cycle (fed : Fed more s t) (enough : ∀ fault, s.step.1 = .error fault → fault.failure ≠ .inputExhausted) :
    t.cycle = s.cycle := by
  obtain ⟨input, output, buffered, rfl⟩ := fed
  unfold step Session.cycle next? at *
  simp only [buffered] at enough ⊢
  cases input with
  | nil => exact Machine.cycle_eq_cycle_none enough _
  | cons c rest => rfl

theorem Fed.step (fed : Fed more s t) (enough : ∀ fault, s.step.1 = .error fault → fault.failure ≠ .inputExhausted) :
    t.step.1 = s.step.1 ∧ Fed more s.step.2 t.step.2 := by
  have same := fed.cycle enough
  obtain ⟨input, output, buffered, rfl⟩ := fed
  have there : s.cycle.taken = true → input ≠ [] := by
    rintro taken rfl
    have some := Machine.isSome_of_taken taken
    simp [next?, buffered] at some
  unfold Session.step
  rw [same]
  refine ⟨rfl, Machine.left s.cycle.taken input, Machine.written s.cycle.emitted output, ?_, ?_⟩
  · rw [apply_of_buffer buffered]
  · rw [apply_of_buffer buffered, apply_of_buffer rfl, Machine.left_append there]

theorem Fed.stop? (fed : Fed more s t) : t.stop? = s.stop? := by
  obtain ⟨input, output, buffered, rfl⟩ := fed
  rfl

theorem Fed.debugger (fed : Fed more s t) : t.debugger = s.debugger := by
  obtain ⟨input, output, buffered, rfl⟩ := fed
  rfl

/-- A run that does not come to want input goes the same way with more of it, and leaves that unread. -/
theorem Fed.run {turns : Nat} {ending : Ending} {u : Session} (fed : Fed more s t) (alone : s.debugger = none)
    (ended : s.run turns = (some ending, u))
    (enough : ∀ fault, ending = .error fault → fault.failure ≠ .inputExhausted) :
    ∃ v, Fed more u v ∧ t.run turns = (some ending, v) := by
  induction turns generalizing s t with
  | zero => cases ended
  | succ turns ih =>
    have other := fed.debugger.trans alone
    cases turnCase alone with
    | stops halt stopped turn =>
      rw [run_of_turn turn] at ended
      cases ended
      exact ⟨t, fed, run_of_turn (turn_of_stop (fed.stop?.trans stopped)) turns⟩
    | ends last on result turn =>
      rw [run_of_turn turn] at ended
      cases ended
      -- Only the last step may fail, and then the run ends in that fault, which is not for want of input.
      obtain ⟨same, after⟩ := fed.step fun fault failed => enough fault (by simpa [failed, ending?] using result.symm)
      refine ⟨_, after, run_of_turn ?_ turns⟩
      rw [turn_of_alone other (fed.stop?.trans on), same, result]
    | goes on result turn =>
      rw [run_of_turn_none turn] at ended
      obtain ⟨same, after⟩ := fed.step fun fault failed => by simp [failed, ending?] at result
      obtain ⟨v, kept, run⟩ := ih after ((debugger_step s).trans alone) ended
      refine ⟨v, kept, (run_of_turn_none ?_ turns).trans run⟩
      rw [turn_of_alone other (fed.stop?.trans on), same, result]

end

/-- A run of a session without a debugger that does not end for want of input ends in the same way,
    and in the same session, when more text follows its input; that text is left unread. -/
theorem run_more_input {s u : Session} {x y output : String} {turns : Nat} {ending : Ending} (alone : s.debugger = none)
    (ended : { s with channel := .buffer x.toList output }.run turns = (some ending, u))
    (enough : ∀ fault, ending = .error fault → fault.failure ≠ .inputExhausted) :
    ∃ rest written, u.channel = .buffer rest written ∧
      { s with channel := .buffer (x ++ y).toList output }.run turns =
        (some ending, { u with channel := .buffer (rest ++ y.toList) written }) := by
  have fed : Fed y.toList { s with channel := .buffer x.toList output }
      { s with channel := .buffer (x ++ y).toList output } := ⟨_, _, rfl, by rw [String.toList_append]⟩
  obtain ⟨v, ⟨rest, written, buffered, rfl⟩, run⟩ := fed.run alone ended enough
  exact ⟨rest, written, buffered, run⟩

/-- A session over a program that copies a character and then reads another. -/
def copyingSession : Session where
  machine := ⟨.ofList [.instruction (.plain .read), .instruction (.plain .write), .instruction (.plain .read)],
    .empty, {}⟩
  channel := .buffer [] ""

/-- The second character is rejected, and so has been read. -/
theorem run_more_input_rejecting :
    let fault : Fault := ⟨2, "IN", .invalidCharacter 40000⟩
    ∃ u, { copyingSession with channel := .buffer "A\u9c40".toList "" }.run 4 = (some (.error fault), u) ∧
      copyingSession.debugger = none ∧ (∀ f, (.error fault : Ending) = .error f → f.failure ≠ .inputExhausted) ∧
      u.channel = .buffer [] "A" ∧
      { copyingSession with channel := .buffer ("A\u9c40" ++ "BC").toList "" }.run 4 =
        (some (.error fault), { u with channel := .buffer ['B', 'C'] "A" }) := by
  intro fault
  have ended : ∃ u, { copyingSession with channel := .buffer "A\u9c40".toList "" }.run 4 = (some (.error fault), u) ∧
      u.channel = .buffer [] "A" := ⟨_, rfl, rfl⟩
  obtain ⟨u, run, buffered⟩ := ended
  have enough : ∀ f, (.error fault : Ending) = .error f → f.failure ≠ .inputExhausted := by
    rintro _ ⟨⟩
    decide
  obtain ⟨rest, written, same, more⟩ := run_more_input (y := "BC") (s := copyingSession) rfl run enough
  cases buffered.symm.trans same
  exact ⟨u, run, rfl, enough, buffered, more⟩

end Session
end Accumulator
