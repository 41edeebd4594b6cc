import Accumulator.Machine

/-!
Declarations: where the labels of a memory are declared last, and that the table of an
accepted memory says just that. The table is made by one pass from the front, in which
a later declaration takes the place of an earlier one.
-/
namespace Accumulator

namespace Store

/-- The index of the last declaration of a label, if there is one. -/
def lastDeclaration? (s : Store) (name : String) : Option Nat :=
  (s.entries.reverse.find? fun entry => entry.1 = .label name).map Prod.snd

theorem mem_entries {s : Store} {cell : Cell} {a : Nat} : (cell, a) ∈ s.entries ↔ s.get? a = some cell := by
  unfold entries get?
  rw [List.mk_mem_zipIdx_iff_getElem?, Array.getElem?_toList]

theorem pairwise_entries (s : Store) : s.entries.Pairwise fun earlier later => earlier.2 < later.2 := by
  have indices : (s.entries.map Prod.snd).Pairwise (· < ·) := by
    unfold entries
    rw [List.zipIdx_map_snd]
    exact List.pairwise_lt_range'
  exact List.pairwise_map.mp indices

theorem last_of_lastDeclaration? {s : Store} {name : String} {a : Nat} (last : s.lastDeclaration? name = some a) :
    s.get? a = some (.label name) ∧ ∀ b, a < b → s.get? b ≠ some (.label name) := by
  obtain ⟨⟨cell, index⟩, found, rfl⟩ := Option.map_eq_some_iff.mp last
  obtain ⟨declares, later, earlier, split, others⟩ := List.find?_eq_some_iff_append.mp found
  obtain rfl : cell = .label name := of_decide_eq_true declares
  have member : (Cell.label name, index) ∈ s.entries := List.mem_reverse.mp (split ▸ by simp)
  refine ⟨mem_entries.mp member, fun b after declared => ?_⟩
  have listed : (Cell.label name, b) ∈ s.entries.reverse := List.mem_reverse.mpr (mem_entries.mpr declared)
  have order := List.pairwise_reverse.mpr s.pairwise_entries
  rw [split] at listed order
  obtain ⟨_, tail, _⟩ := List.pairwise_append.mp order
  rcases List.mem_append.mp listed with before | rest
  · simpa using others _ before
  · rcases List.mem_cons.mp rest with same | behind
    · cases same
      exact Nat.lt_irrefl _ after
    · exact Nat.lt_asymm after ((List.pairwise_cons.mp tail).1 _ behind)

theorem lastDeclaration?_eq_some_iff {s : Store} {name : String} {a : Nat} :
    s.lastDeclaration? name = some a ↔
      s.get? a = some (.label name) ∧ ∀ b, a < b → s.get? b ≠ some (.label name) := by
  refine ⟨last_of_lastDeclaration?, ?_⟩
  rintro ⟨declared, last⟩
  cases found : s.lastDeclaration? name with
  | none =>
    have absent := List.find?_eq_none.mp (Option.map_eq_none_iff.mp found)
    simpa using absent _ (List.mem_reverse.mpr (mem_entries.mpr declared))
  | some b =>
    obtain ⟨other, none⟩ := last_of_lastDeclaration? found
    rcases Nat.lt_trichotomy a b with before | same | after
    · exact absurd other (last b before)
    · rw [same]
    · exact absurd declared (none a after)

end Store

namespace LabelTable

theorem get?_addCell {table t : LabelTable} {cell : Cell} {index : Nat} (added : table.addCell cell index = .ok t)
    (name : String) : t.get? name = if cell = .label name then some index else table.get? name := by
  unfold addCell at added
  cases cell with
  | label other =>
    simp only at added
    split at added
    · cases added
    · cases added
      rw [get?_declare]
      simp only [Cell.label.injEq, eq_comm]
  | raw words =>
    simp only at added
    split at added
    · cases added
    · cases added
      rfl
  | instruction i =>
    cases added
    rfl
  | number value =>
    cases added
    rfl

theorem get?_addCells {entries : List (Cell × Nat)} {table t : LabelTable}
    (added : entries.foldlM (fun table entry => table.addCell entry.1 entry.2) table = .ok t) (name : String) :
    t.get? name =
      ((entries.reverse.find? fun entry => entry.1 = .label name).map Prod.snd).or (table.get? name) := by
  induction entries generalizing table with
  | nil =>
    cases added
    rfl
  | cons entry rest ih =>
    rw [List.foldlM_cons] at added
    cases first : table.addCell entry.1 entry.2 with
    | error e =>
      rw [first] at added
      cases added
    | ok u =>
      rw [first] at added
      rw [ih added, get?_addCell first, List.reverse_cons, List.find?_append]
      cases rest.reverse.find? fun entry => entry.1 = .label name with
      | some later => rfl
      | none =>
        by_cases declares : entry.1 = .label name
        · simp [declares]
        · simp [declares]

theorem ofStore_eq_ok_iff {store : Store} {table : LabelTable} :
    ofStore store = .ok table ↔
      store.entries.foldlM (fun table entry => table.addCell entry.1 entry.2) empty = .ok table ∧
        ∀ entry ∈ store.entries, table.undefined? entry = none := by
  unfold ofStore
  cases store.entries.foldlM (fun table entry => table.addCell entry.1 entry.2) empty with
  | error e => exact ⟨fun h => (by cases h), fun h => (by cases h.1)⟩
  | ok made =>
    cases found : store.entries.findSome? made.undefined? with
    | some e =>
      simp only [bind, Except.bind, found]
      constructor
      · intro accepted
        cases accepted
      · rintro ⟨same, defined⟩
        cases same
        rw [List.findSome?_eq_none_iff.mpr defined] at found
        cases found
    | none =>
      simp only [bind, Except.bind, found]
      constructor
      · intro accepted
        cases accepted
        exact ⟨rfl, List.findSome?_eq_none_iff.mp found⟩
      · rintro ⟨same, _⟩
        exact same

theorem get?_ofStore {store : Store} {table : LabelTable} (accepted : ofStore store = .ok table) (name : String) :
    table.get? name = store.lastDeclaration? name := by
  rw [get?_addCells (ofStore_eq_ok_iff.mp accepted).1]
  exact Option.or_none

theorem isSome_get?_of_label? {store : Store} {table : LabelTable} (accepted : ofStore store = .ok table) {a : Nat}
    {i : Instruction} {name : String} (found : store.get? a = some (.instruction i)) (names : i.label? = some name) :
    (table.get? name).isSome := by
  have defined := (ofStore_eq_ok_iff.mp accepted).2 _ (Store.mem_entries.mpr found)
  unfold undefined? at defined
  simp only [names] at defined
  split at defined
  · assumption
  · cases defined

end LabelTable
end Accumulator
