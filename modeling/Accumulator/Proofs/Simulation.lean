import Accumulator.Proofs.LockStep
import Accumulator.Proofs.Turns

/-!
Simulations: relations between sessions that pauses, steps and limits keep. Where related
sessions are stopped by the same checks and their steps end in the same way, as far as a view
of endings tells, so do their runs, turn by turn, and any calls that drive them on.
-/
namespace Accumulator

/-- The call drives the session on or limits it, and leaves its debugger and its input as they are. -/
def Call.Drives : Call → Prop
  | .step | .run _ | .limit _ => True
  | .attach _ _ | .connect _ _ _ => False

namespace Session

/-- Related sessions stay related whatever a run does to them, and what ends one run ends the other
    in the same way, as far as the view tells. -/
structure Simulation {α : Type} (view : Ending → α) (R : Session → Session → Prop) : Prop where
  stop : ∀ {s t}, R s t → s.stop? = t.stop?
  pause : ∀ {s t}, R s t → s.pause.1 = t.pause.1 ∧ R s.pause.2 t.pause.2
  step : ∀ {s t}, R s t → (ending? s.step.1).map view = (ending? t.step.1).map view ∧ R s.step.2 t.step.2
  limit : ∀ {s t}, R s t → ∀ limit, R { s with limit := limit } { t with limit := limit }

section
variable {α : Type} {view : Ending → α} {R : Session → Session → Prop} (simulation : Simulation view R)
  {s t : Session} (related : R s t)
include simulation related

theorem Simulation.turn : s.turn.1.map view = t.turn.1.map view ∧ R s.turn.2 t.turn.2 := by
  have stop := simulation.stop related
  obtain ⟨action, paused⟩ := simulation.pause related
  unfold Session.turn
  rw [stop]
  cases t.stop? with
  | some halt => exact ⟨rfl, related⟩
  | none =>
    rcases first : s.pause with ⟨own, u⟩
    rcases second : t.pause with ⟨other, v⟩
    rw [first, second] at action paused
    obtain rfl : own = other := action
    cases own with
    | leave => exact ⟨rfl, paused⟩
    | proceed => exact simulation.step paused
    | detach => exact simulation.step paused

theorem Simulation.run (turns : Nat) :
    (s.run turns).1.map view = (t.run turns).1.map view ∧ R (s.run turns).2 (t.run turns).2 := by
  induction turns generalizing s t with
  | zero => exact ⟨rfl, related⟩
  | succ turns ih =>
    obtain ⟨ending, after⟩ := simulation.turn related
    rcases first : s.turn with ⟨_ | e, u⟩ <;> rcases second : t.turn with ⟨_ | e', v⟩ <;> rw [first, second] at ending after
    · rw [run_of_turn_none first, run_of_turn_none second]
      exact ih after
    · cases ending
    · cases ending
    · rw [run_of_turn first, run_of_turn second]
      exact ⟨ending, after⟩

theorem Simulation.call {c : Call} (drives : c.Drives) :
    (s.result? c).map view = (t.result? c).map view ∧ R (s.call c) (t.call c) := by
  cases c with
  | step => exact simulation.step related
  | run turns => exact simulation.run related turns
  | limit limit => exact ⟨rfl, simulation.limit related limit⟩
  | attach command radix => exact drives.elim
  | connect channel input terminal => exact drives.elim

theorem Simulation.calls {cs : List Call} (drive : ∀ c ∈ cs, c.Drives) : R (s.calls cs) (t.calls cs) := by
  induction cs generalizing s t with
  | nil => exact related
  | cons c cs ih =>
    rw [List.forall_mem_cons] at drive
    exact ih (simulation.call related drive.1).2 drive.2

end

theorem simulation_eq : Simulation id Eq where
  stop := by rintro s _ rfl; rfl
  pause := by rintro s _ rfl; exact ⟨rfl, rfl⟩
  step := by rintro s _ rfl; exact ⟨rfl, rfl⟩
  limit := by rintro s _ rfl limit; rfl

/-- A property that pauses, steps and limits keep may be added to the relation. -/
theorem Simulation.keeping {α : Type} {view : Ending → α} {R : Session → Session → Prop} {P : Session → Prop}
    (simulation : Simulation view R) (pause : ∀ s, P s → P s.pause.2) (step : ∀ s, P s → P s.step.2)
    (limit : ∀ (s : Session) limit, P s → P { s with limit := limit }) : Simulation view fun s t => R s t ∧ P s where
  stop both := simulation.stop both.1
  pause both := ⟨(simulation.pause both.1).1, (simulation.pause both.1).2, pause _ both.2⟩
  step both := ⟨(simulation.step both.1).1, (simulation.step both.1).2, step _ both.2⟩
  limit both l := ⟨simulation.limit both.1 l, limit _ l both.2⟩

theorem pause_of_alone {s : Session} (alone : s.debugger = none) : s.pause = (.proceed, s) := by
  unfold pause
  rw [alone]

theorem alone_call {s : Session} (alone : s.debugger = none) {c : Call} (drives : c.Drives) :
    (s.call c).debugger = none := by
  have simulation := simulation_eq.keeping (P := fun s => s.debugger = none) ?pause ?step fun _ _ alone => alone
  case pause =>
    intro s alone
    rw [pause_of_alone alone]
    exact alone
  case step => exact fun s alone => (debugger_step s).trans alone
  exact (simulation.call ⟨rfl, alone⟩ drives).2.2

theorem alone_calls {s : Session} (alone : s.debugger = none) {cs : List Call} (drive : ∀ c ∈ cs, c.Drives) :
    (s.calls cs).debugger = none := by
  induction cs generalizing s with
  | nil => exact alone
  | cons c cs ih =>
    rw [List.forall_mem_cons] at drive
    exact ih (alone_call alone drive.1) drive.2

end Session
end Accumulator
