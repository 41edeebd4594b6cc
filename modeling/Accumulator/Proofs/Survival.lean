import Accumulator.Proofs.Memory
import Accumulator.Proofs.Resolution

/-!
Survival: what becomes of labels when the memory that a run has left is resolved again. A run
stores numbers only, so every declaration and every instruction that is left was there at the
start. The new table has the declarations that survive, and a memory is refused only for an
instruction that survives all declarations of its label.
-/
namespace Accumulator

namespace Store

variable {s t : Store}

/-- What is no number in the second memory is left from the first. -/
def Leaves (s t : Store) : Prop := ∀ a cell, t.get? a = some cell → (∃ w, cell = .number w) ∨ s.get? a = some cell

/-- The declaration of a label at an address is still there. -/
def Survives (s t : Store) (name : String) (a : Nat) : Prop :=
  s.get? a = some (.label name) ∧ t.get? a = some (.label name)

/-- An instruction is still there, and all declarations of its label have been overwritten. -/
inductive Stranded (s t : Store) : Nat → String → Prop
  | intro {a : Nat} {i : Instruction} {name : String} (found : s.get? a = some (.instruction i))
      (left : t.get? a = some (.instruction i)) (names : i.label? = some name)
      (overwritten : ∀ b, s.get? b = some (.label name) → t.get? b ≠ some (.label name)) : Stranded s t a name

theorem Leaves.label (leaves : s.Leaves t) {a : Nat} {name : String} :
    t.get? a = some (.label name) ↔ s.Survives t name a := by
  refine ⟨fun left => ⟨?_, left⟩, And.right⟩
  obtain ⟨w, number⟩ | same := leaves a _ left
  · cases number
  · exact same

theorem Leaves.malformed (leaves : s.Leaves t) {e : LabelError} (malformed : LabelTable.Malformed t e) :
    LabelTable.Malformed s e := by
  cases malformed with
  | emptyName left =>
    obtain ⟨w, number⟩ | found := leaves _ _ left
    · cases number
    · exact .emptyName found
  | notAlone left ends first =>
    obtain ⟨w, number⟩ | found := leaves _ _ left
    · cases number
    · exact .notAlone found ends first

theorem Leaves.undeclared (leaves : s.Leaves t) {a : Nat} {name : String} :
    LabelTable.Undeclared t (.undefined a name) ↔ s.Stranded t a name := by
  constructor
  · rintro ⟨left, names, absent⟩
    obtain ⟨w, number⟩ | found := leaves _ _ left
    · cases number
    · exact ⟨found, left, names, fun b _ => absent b⟩
  · rintro ⟨_, left, names, overwritten⟩
    exact .undefined left names fun b declared => overwritten b (leaves.label.mp declared).1 declared

end Store

namespace LabelTable

section
variable {s t : Store} {old : LabelTable} (accepted : ofStore s = .ok old) (leaves : s.Leaves t)
include accepted leaves

theorem not_malformed_of_leaves (e : LabelError) : ¬ Malformed t e := fun malformed =>
  (ofStore_eq_ok_iff_declareAll.mp accepted).1 e (leaves.malformed malformed)

/-- Nothing is to be reported of what is left but stranded instructions, and the first of these. -/
theorem ofStore_eq_error_iff_stranded {e : LabelError} :
    ofStore t = .error e ↔ ∃ a name, e = .undefined a name ∧ s.Stranded t a name ∧
      ∀ b other, s.Stranded t b other → a ≤ b := by
  have wellFormed := not_malformed_of_leaves accepted leaves
  rw [ofStore_eq_error_iff]
  constructor
  · rintro (⟨malformed, -⟩ | ⟨-, undeclared, first⟩)
    · exact absurd malformed (wellFormed e)
    · obtain @⟨a, i, name, left, names, absent⟩ := undeclared
      refine ⟨a, name, rfl, leaves.undeclared.mp (.undefined left names absent), fun b other stranded => ?_⟩
      exact first _ (leaves.undeclared.mpr stranded)
  · rintro ⟨a, name, rfl, stranded, first⟩
    refine .undeclared wellFormed ⟨leaves.undeclared.mpr stranded, ?_⟩
    rintro _ @⟨b, i, other, left, names, absent⟩
    exact first b other (leaves.undeclared.mp (.undefined left names absent))

theorem exists_ofStore_iff_stranded : (∃ table, ofStore t = .ok table) ↔ ∀ a name, ¬ s.Stranded t a name := by
  simp only [ofStore_eq_ok_iff_declareAll, exists_and_left, exists_eq', and_true]
  constructor
  · rintro ⟨-, declared⟩ a name stranded
    exact declared _ (leaves.undeclared.mpr stranded)
  · intro unstranded
    refine ⟨not_malformed_of_leaves accepted leaves, ?_⟩
    rintro _ @⟨a, i, name, left, names, absent⟩
    exact unstranded a name (leaves.undeclared.mp (.undefined left names absent))

end

section
variable {s t : Store} (leaves : s.Leaves t) {table : LabelTable} (made : ofStore t = .ok table)
include leaves made

theorem get?_iff_survives {name : String} {a : Nat} :
    table.get? name = some a ↔ s.Survives t name a ∧ ∀ b, s.Survives t name b → b ≤ a := by
  simp only [(resolves_of_ofStore made).last, leaves.label]

theorem mem_names_iff_survives {name : String} :
    name ∈ table.entries.map Prod.fst ↔ ∃ a, s.Survives t name a := by
  obtain ⟨-, -, rfl⟩ := ofStore_eq_ok_iff_declareAll.mp made
  rw [← isSome_get?_iff, isSome_get?_declareAll_iff]
  exact exists_congr fun a => leaves.label

end

theorem exists_last_of_declared {store : Store} {table : LabelTable} (made : ofStore store = .ok table) {name : String}
    {a : Nat} (declared : store.get? a = some (.label name)) : ∃ last, table.get? name = some last ∧ a ≤ last := by
  have known : (table.get? name).isSome := by
    obtain ⟨-, -, rfl⟩ := ofStore_eq_ok_iff_declareAll.mp made
    exact isSome_get?_declareAll_iff.mpr ⟨a, declared⟩
  obtain ⟨last, found⟩ := Option.isSome_iff_exists.mp known
  exact ⟨last, found, (((resolves_of_ofStore made).last name last).mp found).2 a declared⟩

end LabelTable

theorem Machine.ofStore_eq_error_iff {store : Store} {e : LabelError} :
    ofStore store = .error e ↔ LabelTable.ofStore store = .error e := by
  unfold ofStore
  cases LabelTable.ofStore store with
  | error other => exact ⟨fun same => congrArg _ (Except.error.inj same), fun same => congrArg _ (Except.error.inj same)⟩
  | ok table => exact ⟨nofun, nofun⟩

theorem Machine.exists_ofStore_iff {store : Store} :
    (∃ m, ofStore store = .ok m) ↔ ∃ table, LabelTable.ofStore store = .ok table := by
  simp only [ofStore_eq_ok_iff]
  exact ⟨fun ⟨m, made, _⟩ => ⟨m.labels, made⟩, fun ⟨table, made⟩ => ⟨⟨store, table, {}⟩, made, rfl, rfl⟩⟩

namespace Session

theorem leaves_calls {store : Store} {s : Session} (accepted : Machine.ofStore store = .ok s.machine)
    (calls : List Call) : store.Leaves (s.calls calls).machine.store := by
  intro a cell left
  rw [machine_calls] at left
  rw [← (Machine.ofStore_eq_ok_iff.mp accepted).2.1]
  exact (s.machine.becomes_cycles (s.sees calls)).number_or_same left

/-- What is made anew of the memory that any calls have left of an accepted one. No declaration in it
    is malformed. It is refused just if an instruction is stranded, and the first of these is
    reported. Its table else has the labels of the declarations that survive, each with the last
    of them, which is not behind the one that the label stood for before. -/
theorem resolve_again {store : Store} {s : Session} (accepted : Machine.ofStore store = .ok s.machine)
    (calls : List Call) :
    let left := (s.calls calls).machine.store
    (∀ a, Machine.ofStore left ≠ .error (.emptyName a)) ∧
      (∀ a token, Machine.ofStore left ≠ .error (.notAlone a token)) ∧
      (∀ a name, Machine.ofStore left = .error (.undefined a name) ↔
        store.Stranded left a name ∧ ∀ b other, store.Stranded left b other → a ≤ b) ∧
      ((∃ m, Machine.ofStore left = .ok m) ↔ ∀ a name, ¬ store.Stranded left a name) ∧
      ∀ m, Machine.ofStore left = .ok m →
        (∀ name, name ∈ m.labels.entries.map Prod.fst ↔ ∃ a, store.Survives left name a) ∧
        ∀ name a, (m.labels.get? name = some a ↔
            store.Survives left name a ∧ ∀ b, store.Survives left name b → b ≤ a) ∧
          (m.labels.get? name = some a → ∃ old, s.machine.labels.get? name = some old ∧ a ≤ old) := by
  intro left
  have leaves : store.Leaves left := leaves_calls accepted calls
  have resolved := (Machine.ofStore_eq_ok_iff.mp accepted).1
  have refused (e : LabelError) : LabelTable.ofStore left = .error e ↔ _ :=
    LabelTable.ofStore_eq_error_iff_stranded resolved leaves
  simp only [Machine.ofStore_eq_error_iff, Machine.exists_ofStore_iff, ne_eq, refused]
  refine ⟨by simp, by simp, fun a name => ?reported, LabelTable.exists_ofStore_iff_stranded resolved leaves, ?table⟩
  case reported =>
    constructor
    · rintro ⟨_, _, same, first⟩
      cases same
      exact first
    · exact fun first => ⟨a, name, rfl, first⟩
  case table =>
    intro m made
    have table := (Machine.ofStore_eq_ok_iff.mp made).1
    refine ⟨fun name => LabelTable.mem_names_iff_survives leaves table, fun name a => ?_⟩
    have last : m.labels.get? name = some a ↔ _ := LabelTable.get?_iff_survives leaves table
    refine ⟨last, fun stands => ?_⟩
    obtain ⟨⟨declared, -⟩, -⟩ := last.mp stands
    exact LabelTable.exists_last_of_declared resolved declared

/-- A program that overwrites the second declaration of its label. -/
def revivingSession : Session where
  machine := ⟨.ofList [.label "A", .instruction (.immediate .ldr (-1)), .instruction (.label .stx "A"), .label "A"],
    ⟨[("A", 3)], ["A"]⟩, {}⟩
  channel := .buffer [] ""

/-- The label comes to stand for its first declaration, which is the only one that survives. -/
theorem resolve_again_reviving :
    Machine.ofStore revivingSession.machine.store = .ok revivingSession.machine ∧
      revivingSession.machine.labels.get? "A" = some 3 ∧
      ∃ m, Machine.ofStore (revivingSession.calls [.run 3]).machine.store = .ok m ∧ m.labels.get? "A" = some 0 ∧
        ∀ a, revivingSession.machine.store.Survives (revivingSession.calls [.run 3]).machine.store "A" a → a ≤ 0 := by
  have accepted : Machine.ofStore revivingSession.machine.store = .ok revivingSession.machine := by rfl
  have made : Machine.ofStore (revivingSession.calls [.run 3]).machine.store =
      .ok ⟨(revivingSession.calls [.run 3]).machine.store, ⟨[("A", 0)], []⟩, {}⟩ := by rfl
  obtain ⟨-, -, -, -, table⟩ := resolve_again accepted [.run 3]
  have last := ((table _ made).2 "A" 0).1.mp rfl
  exact ⟨accepted, rfl, _, made, rfl, last.2⟩

end Session
end Accumulator
