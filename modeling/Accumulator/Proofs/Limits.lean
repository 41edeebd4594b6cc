import Accumulator.Proofs.Turns

/-!
Limits: a limit on cycles only cuts a run short. A run under a limit always ends, since
each of its turns counts a cycle; it takes the steps that would be taken without a run, as
far as the limit goes. What ends it before the limit ends it under any larger limit in the
same way, and where the limit ends it, it can be taken up again as if it had not stopped.
-/
namespace Accumulator
namespace Session

/-- The session with the given limit in place of its own. -/
def limited (s : Session) (limit : Option Nat) : Session := { s with limit := limit }

/-- Steps, one after another, until one of them ends, or until a number of cycles has been
    counted: what the last one ended in, if it did, and the session after it. -/
inductive Stepped (n : Nat) : Session → Option Ending → Session → Prop
  | counted {s : Session} (reached : n ≤ s.machine.registers.steps) : Stepped n s none s
  | ended {s : Session} {ending : Ending} (below : s.machine.registers.steps < n)
    (last : ending? s.step.1 = some ending) : Stepped n s (some ending) s.step.2
  | more {s t : Session} {last : Option Ending} (below : s.machine.registers.steps < n)
    (on : ending? s.step.1 = none) (rest : Stepped n s.step.2 last t) : Stepped n s last t

/-! ## Steps and turns under another limit -/

theorem step_limited (s : Session) (limit : Option Nat) :
    (s.limited limit).step = (s.step.1, s.step.2.limited limit) := by
  have apply_limited : ∀ c : Cycle, (s.limited limit).apply c = (s.apply c).limited limit := by
    intro c
    rw [apply_eq, apply_eq]
    rfl
  exact Prod.ext rfl (apply_limited s.cycle)

theorem step_of_ended {s : Session} (ended : s.machine.store.size ≤ s.machine.registers.pc) :
    s.step = (.ok (some .endOfProgram), s) := by
  have cycle : s.cycle = { machine := s.machine, outcome := .ok (some .endOfProgram) } :=
    Machine.cycle_of_get?_none s.next? (Store.get?_eq_none_iff.mpr ended)
  unfold step
  rw [cycle]
  rfl

/-- The larger limit, or none, does not stop a run earlier. -/
theorem stop?_limited_eq_none {s : Session} {n : Nat} (own : s.limit = some n) {m : Option Nat}
    (le : ∀ k, m = some k → n ≤ k) (on : s.stop? = none) : (s.limited m).stop? = none := by
  obtain ⟨inside, below⟩ := stop?_eq_none_iff.mp on
  exact stop?_eq_none_iff.mpr ⟨inside, fun k limit => Nat.lt_of_lt_of_le (below n own) (le k limit)⟩

section
variable {s t : Session} {n turns : Nat}

/-! ## Ends of a run under a limit -/

/-- Each turn that does not end the run counts a cycle, so the run ends with the limit. -/
theorem exists_ending (alone : s.debugger = none) (own : s.limit = some n)
    (enough : n < s.machine.registers.steps + turns ∧ 0 < turns) :
    ∃ ending t, s.run turns = (some ending, t) := by
  induction turns generalizing s with
  | zero => exact absurd enough.2 (Nat.lt_irrefl 0)
  | succ turns ih =>
    cases turnCase alone with
    | stops halt stopped turn => exact ⟨.ok halt, s, run_of_turn turn turns⟩
    | ends ending on result turn => exact ⟨ending, s.step.2, run_of_turn turn turns⟩
    | goes on result turn =>
      obtain ⟨inside, below⟩ := stop?_eq_none_iff.mp on
      have count := steps_step inside
      have limit := below n own
      rw [run_of_turn_none turn]
      exact ih ((debugger_step s).trans alone) ((limit_step s).trans own) (by omega)

theorem steps_le_of_run (alone : s.debugger = none) (own : s.limit = some n) :
    (s.run turns).2.machine.registers.steps ≤ max n s.machine.registers.steps := by
  induction turns generalizing s with
  | zero => exact Nat.le_max_right _ _
  | succ turns ih =>
    -- A cycle is only begun below the limit.
    have below : s.stop? = none → s.step.2.machine.registers.steps ≤ n := by
      intro on
      obtain ⟨inside, below⟩ := stop?_eq_none_iff.mp on
      rw [steps_step inside]
      exact below n own
    cases turnCase alone with
    | stops halt stopped turn =>
      rw [run_of_turn turn]
      exact Nat.le_max_right _ _
    | ends ending on result turn =>
      rw [run_of_turn turn]
      exact Nat.le_trans (below on) (Nat.le_max_left _ _)
    | goes on result turn =>
      rw [run_of_turn_none turn]
      have rest := ih ((debugger_step s).trans alone) ((limit_step s).trans own)
      have here := below on
      omega

/-- Below its limit only the end of memory stops a run, and a step would find the same. -/
theorem step_of_stop (own : s.limit = some n) (below : s.machine.registers.steps < n) {halt : Halt}
    (stopped : s.stop? = some halt) : s.step = (.ok (some halt), s) := by
  rcases stop?_cases stopped with rfl | rfl
  · exact step_of_ended (stop?_eq_endOfProgram_iff.mp stopped)
  · obtain ⟨_, limit, same, reached⟩ := stop?_eq_stepLimit_iff.mp stopped
    rw [own] at same
    cases same
    exact absurd below (Nat.not_lt_of_le reached)

/-- A run under a limit takes the steps up to the limit. What the last of them ended in is
    what the run ends in; where none of them ended, a check stops the run. -/
theorem stepped_of_run (alone : s.debugger = none) (own : s.limit = some n) {ending : Ending}
    (ended : s.run turns = (some ending, t)) :
    ∃ last, Stepped n s last t ∧
      (last = some ending ∨ last = none ∧ ∃ halt, t.stop? = some halt ∧ ending = .ok halt) := by
  induction turns generalizing s with
  | zero => cases ended
  | succ turns ih =>
    cases turnCase alone with
    | stops halt stopped turn =>
      rw [run_of_turn turn] at ended
      obtain ⟨same, rfl⟩ := Prod.mk.inj ended
      cases same
      by_cases below : s.machine.registers.steps < n
      · have step := step_of_stop own below stopped
        have last : Stepped n s (some (.ok halt)) s.step.2 := .ended below (by rw [step]; rfl)
        rw [step] at last
        exact ⟨_, last, .inl rfl⟩
      · exact ⟨none, .counted (Nat.le_of_not_lt below), .inr ⟨rfl, halt, stopped, rfl⟩⟩
    | ends last on result turn =>
      rw [run_of_turn turn] at ended
      cases ended
      exact ⟨_, .ended ((stop?_eq_none_iff.mp on).2 n own) result, .inl rfl⟩
    | goes on result turn =>
      rw [run_of_turn_none turn] at ended
      obtain ⟨last, rest, ends⟩ := ih ((debugger_step s).trans alone) ((limit_step s).trans own) ended
      exact ⟨last, .more ((stop?_eq_none_iff.mp on).2 n own) result rest, ends⟩

/-! ## Two limits -/

variable {m : Option Nat}

theorem turn_limited (alone : s.debugger = none) (own : s.limit = some n) (le : ∀ k, m = some k → n ≤ k)
    (on : s.stop? = none) : (s.limited m).turn = (ending? s.step.1, s.step.2.limited m) := by
  have larger := turn_of_alone (s := s.limited m) alone (stop?_limited_eq_none own le on)
  rwa [step_limited] at larger

theorem run_of_larger (alone : s.debugger = none) (own : s.limit = some n) (le : ∀ k, m = some k → n ≤ k)
    {ending : Ending} (ended : s.run turns = (some ending, t)) (early : ending ≠ .ok .stepLimit) :
    (s.limited m).run turns = (some ending, t.limited m) := by
  induction turns generalizing s with
  | zero => cases ended
  | succ turns ih =>
    cases turnCase alone with
    | stops halt stopped turn =>
      rw [run_of_turn turn] at ended
      cases ended
      rcases stop?_cases stopped with rfl | rfl
      · have beyond := stop?_eq_endOfProgram_iff.mp stopped
        exact run_of_turn (turn_of_stop (s := t.limited m) (stop?_of_ended beyond)) turns
      · exact absurd rfl early
    | ends last on result turn =>
      have larger := turn_limited alone own le on
      rw [result] at larger
      rw [run_of_turn turn] at ended
      cases ended
      exact run_of_turn larger turns
    | goes on result turn =>
      have larger := turn_limited alone own le on
      rw [result] at larger
      rw [run_of_turn_none turn] at ended
      rw [run_of_turn_none larger]
      exact ih ((debugger_step s).trans alone) ((limit_step s).trans own) ended

/-- Where its limit ends a run, the run under a larger limit comes past the same session. -/
theorem run_past_limit (alone : s.debugger = none) (own : s.limit = some n) (le : ∀ k, m = some k → n ≤ k)
    (ended : s.run turns = (some (.ok .stepLimit), t)) :
    ∃ done, (s.limited m).run done = (none, t.limited m) := by
  induction turns generalizing s with
  | zero => cases ended
  | succ turns ih =>
    cases turnCase alone with
    | stops halt stopped turn =>
      rw [run_of_turn turn] at ended
      cases ended
      exact ⟨0, rfl⟩
    | ends last on result turn =>
      rw [run_of_turn turn] at ended
      cases ended
      -- No step ends in the limit.
      rcases halt_step result with ⟨other, _⟩ | other <;> cases other
    | goes on result turn =>
      have larger := turn_limited alone own le on
      rw [result] at larger
      rw [run_of_turn_none turn] at ended
      obtain ⟨done, past⟩ := ih ((debugger_step s).trans alone) ((limit_step s).trans own) ended
      exact ⟨done + 1, (run_of_turn_none larger done).trans past⟩

end

/-- What the limit n makes of a run, beside the run under the limit m: the first ends in the
    given way and leaves the given session. -/
structure CutShort (s : Session) (n : Nat) (m : Option Nat) (ending : Ending) (t : Session) : Prop where
  /-- The run ends, after at most one turn more than the limit. -/
  returns : ∀ turns, n < turns → (s.limited (some n)).run turns = (some ending, t)
  steps : t.machine.registers.steps ≤ max n s.machine.registers.steps
  /-- It takes the steps up to the limit, and no others. -/
  stepped : ∃ last, Stepped n (s.limited (some n)) last t ∧
    (last = some ending ∨ last = none ∧ ∃ halt, t.stop? = some halt ∧ ending = .ok halt)
  /-- What ends it before the limit ends the other run too, in the same session. -/
  early : ending ≠ .ok .stepLimit → ∀ turns, n < turns → (s.limited m).run turns = (some ending, t.limited m)
  /-- Where the limit ends it, to go on under the other limit is to run under that from the start. -/
  resumed : ending = .ok .stepLimit → ∀ later u,
    (∃ turns, (t.limited m).run turns = (some later, u)) ↔ ∃ turns, (s.limited m).run turns = (some later, u)

/-- A limit does no more than cut a run short: without a debugger, whatever the larger limit is. -/
theorem exists_cutShort {s : Session} (alone : s.debugger = none) (n : Nat) {m : Option Nat}
    (le : ∀ k, m = some k → n ≤ k) : ∃ ending t, s.CutShort n m ending t := by
  obtain ⟨ending, t, ended⟩ : ∃ ending t, (s.limited (some n)).run (n + 1) = (some ending, t) :=
    exists_ending alone rfl (by omega)
  refine ⟨ending, t, ?returns, ?steps, ?stepped, ?early, ?resumed⟩
  case returns => exact fun turns lt => run_of_le lt ended
  case steps =>
    have counted : ((s.limited (some n)).run (n + 1)).2.machine.registers.steps ≤ max n s.machine.registers.steps :=
      steps_le_of_run alone rfl
    rw [ended] at counted
    exact counted
  case stepped => exact stepped_of_run (s := s.limited (some n)) alone rfl ended
  case early =>
    exact fun other turns lt => run_of_larger (s := s.limited (some n)) alone rfl le (run_of_le lt ended) other
  case resumed =>
    rintro rfl later u
    obtain ⟨done, past⟩ := run_past_limit (s := s.limited (some n)) alone rfl le ended
    replace past : (s.limited m).run done = (none, t.limited m) := past
    have onward : ∀ turns, (s.limited m).run (done + turns) = (t.limited m).run turns := by
      intro turns
      rw [run_add, past]
    constructor
    · rintro ⟨turns, resumed⟩
      exact ⟨done + turns, (onward turns).trans resumed⟩
    · rintro ⟨turns, whole⟩
      exact ⟨turns, (onward turns).symm.trans (run_of_le (Nat.le_add_left turns done) whole)⟩

theorem exists_cutShort_counting :
    countingSession.debugger = none ∧ (∀ k, some 5 = some k → 2 ≤ k) ∧
      ∃ t, countingSession.CutShort 2 (some 5) (.ok .stepLimit) t ∧ t.machine.registers.acc = 1 := by
  have le : ∀ k, some 5 = some k → 2 ≤ k := by
    intro k same
    cases same
    decide
  obtain ⟨ending, t, cut⟩ := exists_cutShort (s := countingSession) rfl 2 le
  have run : ∃ u, (countingSession.limited (some 2)).run 3 = (some (.ok .stepLimit), u) ∧
      u.machine.registers.acc = 1 := ⟨_, rfl, rfl⟩
  obtain ⟨u, whole, acc⟩ := run
  rw [cut.returns 3 (by decide)] at whole
  cases whole
  exact ⟨rfl, le, t, cut, acc⟩

end Session
end Accumulator
