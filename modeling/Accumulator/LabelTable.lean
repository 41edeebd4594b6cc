import Accumulator.Store

/-!
Label tables: every declared label with the index of its last declaration, in the
order of the first ones. A table is made before a program runs, from a store in
which every declaration is well formed and every label that an instruction names
is declared.
-/
namespace Accumulator

/-- Why the labels of a store cannot be resolved. -/
inductive LabelError where
  /-- A declaration that is not the last token of its line. -/
  | notAlone (index : Nat) (token : String)
  /-- A colon without a name. -/
  | emptyName (index : Nat)
  /-- An instruction names a label that is declared nowhere. -/
  | undefined (index : Nat) (label : String)
deriving DecidableEq

namespace LabelError

/-- The index of the cell that is to blame. -/
def index : LabelError → Nat
  | notAlone index _ | emptyName index | undefined index _ => index

def message : LabelError → String
  | notAlone index token => s!"label `{token}` at address {index} must be the last token on its line"
  | emptyName index => s!"label at address {index} has no name"
  | undefined index label => s!"instruction at address {index} refers to undefined label `{label}`"

end LabelError

structure LabelTable where
  /-- Each label with the index of its last declaration. -/
  entries : List (String × Nat)
  /-- The names of the declarations that came after another of the same name. -/
  duplicates : List String
deriving DecidableEq

namespace LabelTable

def empty : LabelTable := ⟨[], []⟩

/-- The index of the last declaration of a label. -/
def get? (table : LabelTable) (name : String) : Option Nat := table.entries.lookup name

/-- The index of the cell after the declaration, which the label stands for. -/
def target? (table : LabelTable) (name : String) : Option Nat := (table.get? name).map (· + 1)

def size (table : LabelTable) : Nat := table.entries.length

/-- Gives a name an index: a name that is there keeps its place, a new one comes last. -/
def place (name : String) (index : Nat) : List (String × Nat) → List (String × Nat)
  | [] => [(name, index)]
  | entry :: rest => if entry.1 = name then (name, index) :: rest else entry :: place name index rest

/-- The table after one more declaration. -/
def declare (table : LabelTable) (name : String) (index : Nat) : LabelTable where
  entries := place name index table.entries
  duplicates := if (table.get? name).isSome then table.duplicates ++ [name] else table.duplicates

/-- The table after one more cell, which has to declare its label well. -/
def addCell (table : LabelTable) (cell : Cell) (index : Nat) : Except LabelError LabelTable :=
  match cell with
  | .label name => if name = "" then .error (.emptyName index) else .ok (table.declare name index)
  | .raw words =>
    match words.find? (·.toList.getLast? = some ':') with
    | some token => .error (.notAlone index token)
    | none => .ok table
  | .instruction _ | .number _ => .ok table

/-- The label that a cell's instruction names and the table lacks. -/
def undefined? (table : LabelTable) : Cell × Nat → Option LabelError
  | (.instruction i, index) =>
    match i.label? with
    | some name => if (table.get? name).isSome then none else some (.undefined index name)
    | none => none
  | _ => none

/-- The label table of a store. Malformed declarations are reported before undefined labels. -/
def ofStore (store : Store) : Except LabelError LabelTable := do
  let table ← store.entries.foldlM (fun table entry => table.addCell entry.1 entry.2) empty
  match store.entries.findSome? table.undefined? with
  | some error => .error error
  | none => .ok table

/-! ## Looking up -/

theorem lookup_entry (name other : String) (index : Nat) (rest : List (String × Nat)) :
    ((name, index) :: rest).lookup other = if other = name then some index else rest.lookup other := by
  rw [List.lookup_cons]
  by_cases same : other = name
  · rw [if_pos same, beq_iff_eq.mpr same]
  · rw [if_neg same, beq_eq_false_iff_ne.mpr same]

theorem lookup_place (name other : String) (index : Nat) (entries : List (String × Nat)) :
    (place name index entries).lookup other = if other = name then some index else entries.lookup other := by
  induction entries with
  | nil => exact lookup_entry name other index []
  | cons entry rest ih =>
    obtain ⟨first, old⟩ := entry
    unfold place
    by_cases here : first = name
    · subst here
      rw [if_pos rfl, lookup_entry, lookup_entry]
      by_cases same : other = first
      · rw [if_pos same, if_pos same]
      · rw [if_neg same, if_neg same, if_neg same]
    · rw [if_neg here, lookup_entry, lookup_entry, ih]
      by_cases same : other = first
      · rw [if_pos same, if_neg (fun h => here (same.symm.trans h)), if_pos same]
      · rw [if_neg same, if_neg same]

/-- A declaration gives its name its index and leaves all other names as they are. -/
theorem get?_declare (table : LabelTable) (name other : String) (index : Nat) :
    (table.declare name index).get? other = if other = name then some index else table.get? other :=
  lookup_place name other index table.entries

end LabelTable
end Accumulator
