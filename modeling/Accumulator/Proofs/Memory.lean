import Accumulator.Proofs.Calls
import Accumulator.Proofs.Faults

/-!
Memory: after any run a cell holds the number that was last stored at its address, and
where none was, what it held at the start; cells that have been added hold zero. One
cycle is looked at first, by what it stores and where. A run is many cycles, and of two
numbers stored at one address the later one counts.
-/
namespace Accumulator

/-! ## Histories of a memory -/

namespace Store

/-- What the first memory becomes, when the given numbers are those last stored in it. -/
structure Becomes (s t : Store) (stored : Nat → Option Word) : Prop where
  size_le : s.size ≤ t.size
  inside : ∀ {a w}, stored a = some w → a < t.size
  get? : ∀ {a}, a < t.size → t.get? a = some (match stored a with
    | some w => .number w
    | none => (s.get? a).getD (.number 0))

theorem becomes_self (s : Store) : s.Becomes s fun _ => none where
  size_le := Nat.le_refl _
  inside stored := by cases stored
  get? inside := by
    obtain ⟨cell, found⟩ := exists_get? inside
    rw [found]
    rfl

theorem becomes_growTo (s : Store) (a : Int) : s.Becomes (s.growTo a) fun _ => none where
  size_le := by rw [size_growTo]; omega
  inside stored := by cases stored
  get? := by
    intro b inside
    rw [get?_growTo]
    by_cases old : b < s.size
    · obtain ⟨cell, found⟩ := exists_get? old
      rw [if_pos old, found]
      rfl
    · rw [if_neg old, if_pos inside, get?_eq_none_iff.mpr (Nat.le_of_not_lt old)]
      rfl

theorem becomes_put {s t : Store} {a : Int} {w : Word} (put : s.put a w = .ok t) :
    s.Becomes t fun b => if a = b then some w else none where
  size_le := Nat.le_of_eq (size_put put).symm
  inside := by
    intro b v stored
    obtain ⟨n, rfl, inside, _⟩ := put_eq_ok_iff.mp put
    rw [size_put put]
    split at stored
    · omega
    · cases stored
  get? := by
    intro b inside
    rw [get?_put put]
    by_cases here : a = b
    · rw [if_pos here, if_pos here]
    · rw [size_put put] at inside
      obtain ⟨cell, found⟩ := exists_get? inside
      rw [if_neg here, if_neg here, found]
      rfl

/-- Of two numbers stored one after the other at an address, the later one stays. -/
theorem Becomes.trans {s t u : Store} {first second : Nat → Option Word} (st : s.Becomes t first)
    (tu : t.Becomes u second) : s.Becomes u fun a => (second a).or (first a) where
  size_le := Nat.le_trans st.size_le tu.size_le
  inside := by
    intro a w stored
    cases later : second a with
    | some v => exact tu.inside later
    | none =>
      rw [later] at stored
      exact Nat.lt_of_lt_of_le (st.inside stored) tu.size_le
  get? := by
    intro a inside
    rw [tu.get? inside]
    cases second a with
    | some v => rfl
    | none =>
      by_cases old : a < t.size
      · rw [st.get? old]
        rfl
      · -- The address came with the growth from the second memory to the third.
        have unstored : first a = none := by
          cases stored : first a with
          | none => rfl
          | some w => exact absurd (st.inside stored) old
        have fresh : s.get? a = none := get?_eq_none_iff.mpr (Nat.le_trans st.size_le (Nat.le_of_not_lt old))
        rw [unstored, fresh, get?_eq_none_iff.mpr (Nat.le_of_not_lt old)]
        rfl

theorem Becomes.number_or_same {s t : Store} {stored : Nat → Option Word} (becomes : s.Becomes t stored) {a : Nat}
    {cell : Cell} (found : t.get? a = some cell) : (∃ w, cell = .number w) ∨ s.get? a = some cell := by
  rw [becomes.get? (lt_size_of_get? found)] at found
  obtain rfl := Option.some.inj found
  cases stored a with
  | some w => exact .inl ⟨w, rfl⟩
  | none =>
    cases s.get? a with
    | some old => exact .inr rfl
    | none => exact .inl ⟨0, rfl⟩

end Store

/-! ## What a cycle stores -/

namespace Machine

/-- The address at which an instruction is to store ACC, if it is one that does. -/
def destination? (m : Machine) : Instruction → Option Int
  | .label .sto name => (m.labels.target? name).map Int.ofNat
  | .label .stx name => (m.labels.target? name).map fun target => Int.ofNat target + m.registers.ix.toInt
  | _ => none

/-- What a cycle stores at an address: ACC, if the cycle is at a `STO` or `STX` with that
    address, and succeeds. -/
def stores? (m : Machine) (next : Option Char) (a : Nat) : Option Word :=
  match m.store.get? m.registers.pc with
  | some (.instruction i) =>
    if (m.cycle next).outcome.isOk ∧ m.destination? i = some (a : Int) then some m.registers.acc else none
  | _ => none

/-- The number that cycles have stored last at an address, if they have stored any. -/
def lastStored? (m : Machine) : List (Option Char) → Nat → Option Word
  | [], _ => none
  | next :: seen, a => ((m.cycle next).machine.lastStored? seen a).or (m.stores? next a)

theorem destination?_sto {m : Machine} {name : String} {a : Int} (found : m.target name = .ok a) :
    m.destination? (.label .sto name) = some a := by
  show (m.labels.target? name).map Int.ofNat = some a
  rw [target_eq] at found
  cases known : m.labels.target? name with
  | none =>
    rw [known] at found
    cases found
  | some target =>
    rw [known] at found
    cases found
    rfl

theorem destination?_stx {m : Machine} {name : String} {a : Int} (found : m.indexed name = .ok a) :
    m.destination? (.label .stx name) = some a := by
  show (m.labels.target? name).map (fun target => Int.ofNat target + m.registers.ix.toInt) = some a
  rw [indexed_eq] at found
  cases known : m.labels.target? name with
  | none =>
    rw [known] at found
    cases found
  | some target =>
    rw [known] at found
    cases found
    rfl

/-- What an instruction that does not fail makes of the memory of a machine. -/
def Stores (m : Machine) (e : Effect) (a? : Option Int) : Prop :=
  ∀ halt, e.outcome = .ok halt →
    m.store.Becomes e.store fun b => if a? = some (b : Int) then some m.registers.acc else none

theorem stores_none {m : Machine} {e : Effect} (becomes : m.store.Becomes e.store fun _ => none) : m.Stores e none :=
  fun _ _ => becomes

theorem stores_become (m : Machine) (r : Registers) : m.Stores (m.become r) none :=
  stores_none m.store.becomes_self

theorem stores_fail (m : Machine) (failure : Failure) (a? : Option Int) : m.Stores (m.fail failure) a? := by
  intro halt done
  cases done

theorem stores_given {α : Type} {m : Machine} {found : Except Failure α} {go : α → Effect} {a? : Option Int}
    (stores : ∀ value, found = .ok value → m.Stores (go value) a?) : m.Stores (m.given found go) a? := by
  cases found with
  | ok value => exact stores value rfl
  | error failure => exact stores_fail m failure a?

theorem stores_load (m : Machine) (a : Int) : m.Stores (m.load a) none :=
  stores_given fun _ _ => stores_become m _

theorem stores_save (m : Machine) (a : Int) : m.Stores (m.save a) (some a) := by
  refine stores_given fun store put halt done => ?_
  have becomes : m.store.put a m.registers.acc = .ok store := by
    cases result : m.store.put a m.registers.acc with
    | error e =>
      rw [result] at put
      cases put
    | ok t =>
      rw [result] at put
      cases put
      rfl
  simpa only [Option.some.injEq] using Store.becomes_put becomes

theorem stores_jumpIf (m : Machine) (condition : Bool) (name : String) : m.Stores (m.jumpIf condition name) none := by
  cases condition with
  | true => exact stores_given fun _ _ => stores_become m _
  | false => exact stores_become m _

/-- Growth before an instruction adds zeros to what it makes of the memory. -/
theorem stores_of_grown {m : Machine} {a : Int} {e : Effect} {a? : Option Int} (stores : (m.grown a).Stores e a?) :
    m.Stores e a? := by
  intro halt done
  have becomes := (m.store.becomes_growTo a).trans (stores halt done)
  simp only [Option.or_none] at becomes
  exact becomes

theorem stores_execute (m : Machine) (i : Instruction) (next : Option Char) :
    m.Stores (m.execute i next) (m.destination? i) := by
  cases i with
  | immediate op n => cases op <;> exact stores_become m _
  | label op name =>
    cases op with
    | ldd => exact stores_given fun a _ => stores_load m a
    | ldi => exact stores_given fun pointer _ => stores_load m _
    | ldx => exact stores_given fun a _ => stores_of_grown (stores_load _ a)
    | sto =>
      refine stores_given fun a found => ?_
      rw [destination?_sto found]
      exact stores_save m a
    | stx =>
      refine stores_given fun a found => ?_
      rw [destination?_stx found]
      exact stores_of_grown (stores_save _ a)
    | add => exact stores_given fun _ _ => stores_become m _
    | jmp => exact stores_given fun _ _ => stores_become m _
    | jpe => exact stores_jumpIf m _ name
    | jpn => exact stores_jumpIf m _ name
  | register op target => cases op <;> exact stores_become m _
  | compare c => exact stores_given fun _ _ => stores_become m _
  | plain op =>
    cases op with
    | read =>
      show m.Stores (m.read next) none
      unfold read
      split
      · exact stores_fail m _ none
      · split
        · exact stores_none m.store.becomes_self
        · exact stores_none m.store.becomes_self
    | write =>
      show m.Stores m.write none
      unfold write
      split
      · exact stores_none m.store.becomes_self
      · exact stores_fail m _ none
    | stop => exact stores_none m.store.becomes_self

theorem stores?_of_fault {m : Machine} {next : Option Char} {fault : Fault}
    (failed : (m.cycle next).outcome = .error fault) : m.stores? next = fun _ => none := by
  funext a
  unfold stores?
  split
  · rw [failed]
    exact if_neg fun both => Bool.noConfusion both.1
  · rfl

theorem stores?_of_data {m : Machine} {next : Option Char}
    (data : ∀ i, m.store.get? m.registers.pc ≠ some (.instruction i)) : m.stores? next = fun _ => none := by
  funext a
  unfold stores?
  split
  · exact absurd ‹_› (data _)
  · rfl

theorem becomes_cycle (m : Machine) (next : Option Char) :
    m.store.Becomes (m.cycle next).machine.store (m.stores? next) := by
  cases m.cycleCase next with
  | ended found cycle =>
    rw [stores?_of_data (by simp [found]), cycle]
    exact m.store.becomes_self
  | passed name found cycle =>
    rw [stores?_of_data (by simp [found]), cycle]
    exact m.store.becomes_self
  | unknown cell found data cycle =>
    rw [stores?_of_fault (by rw [cycle]), cycle]
    exact m.store.becomes_self
  | failed i failure found result cycle =>
    rw [stores?_of_fault (by rw [cycle]), cycle]
    exact m.store.becomes_self
  | done i halt found result cycle =>
    have stores : m.stores? next =
        fun (a : Nat) => if m.destination? i = some (a : Int) then some m.registers.acc else none := by
      funext a
      simp [stores?, found, cycle, Except.isOk, Except.toBool]
    rw [cycle, stores]
    exact stores_execute m.count i next halt result

/-- A run makes of the memory what was stored last at each address. -/
theorem becomes_cycles (m : Machine) (seen : List (Option Char)) :
    m.store.Becomes (m.cycles seen).store (m.lastStored? seen) := by
  induction seen generalizing m with
  | nil => exact m.store.becomes_self
  | cons next seen ih => exact (becomes_cycle m next).trans (ih (m.cycle next).machine)

end Machine

/-! ## Runs -/

namespace Session

/-- After any calls on a session over a memory, a cell holds the number that was last
    stored at its address. Where none was, it is the cell of the memory at the start, or
    zero beyond its end. So no instruction appears that was not there, and all that has
    been added is numbers. -/
theorem cell_after_calls {store : Store} {s : Session} (accepted : Machine.ofStore store = .ok s.machine)
    (calls : List Call) {a : Nat} (inside : a < (s.calls calls).machine.store.size) :
    (s.calls calls).machine.store.get? a =
        some (match s.machine.lastStored? (s.sees calls) a with
          | some w => .number w
          | none => if a < store.size then (store.get? a).getD (.number 0) else .number 0) ∧
      (∀ i, (s.calls calls).machine.store.get? a = some (.instruction i) → store.get? a = some (.instruction i)) ∧
      (store.size ≤ a → ∃ w, (s.calls calls).machine.store.get? a = some (.number w)) := by
  rw [machine_calls] at inside ⊢
  have becomes := s.machine.becomes_cycles (s.sees calls)
  rw [(Machine.ofStore_eq_ok_iff.mp accepted).2.1] at becomes
  rw [becomes.get? inside]
  cases s.machine.lastStored? (s.sees calls) a with
  | some w =>
    refine ⟨rfl, ?_, fun _ => ⟨w, rfl⟩⟩
    intro i same
    cases same
  | none =>
    by_cases old : a < store.size
    · obtain ⟨cell, found⟩ := Store.exists_get? old
      rw [found, if_pos old]
      exact ⟨rfl, fun i same => same, fun beyond => absurd old (Nat.not_lt_of_le beyond)⟩
    · rw [Store.get?_eq_none_iff.mpr (Nat.le_of_not_lt old), if_neg old]
      refine ⟨rfl, ?_, fun _ => ⟨0, rfl⟩⟩
      intro i same
      cases same

/-- A program that stores 7 beyond its end, in a cell that this adds. -/
def beyond : Store :=
  .ofList [.instruction (.immediate .ldm 7), .instruction (.label .stx "A"), .instruction (.plain .stop), .label "A"]

/-- A session over that program. -/
def beyondSession : Session where
  machine := ⟨beyond, ⟨[("A", 3)], []⟩, {}⟩
  channel := .buffer [] ""

theorem cell_after_calls_beyond :
    Machine.ofStore beyond = .ok beyondSession.machine ∧
      4 < (beyondSession.calls [.step, .run 1]).machine.store.size ∧
      (beyondSession.calls [.step, .run 1]).machine.store.get? 4 = some (.number 7) := by
  have accepted : Machine.ofStore beyond = .ok beyondSession.machine := by rfl
  have inside : 4 < (beyondSession.calls [.step, .run 1]).machine.store.size := by decide
  exact ⟨accepted, inside, (cell_after_calls accepted [.step, .run 1] inside).1⟩

end Session
end Accumulator
