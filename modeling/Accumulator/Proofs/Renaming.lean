import Mathlib.Logic.Equiv.Basic
import Accumulator.Proofs.Resolution
import Accumulator.Proofs.Simulation

/-!
Renaming: labels matter only through where they are declared. Where all labels of a memory are
exchanged for others, different ones for different ones, the table that is made of it has the
same indices, and a run goes the same way cell by cell: it ends in the same way but for the
texts of cells, in the memory that the other run ends in with its labels exchanged.
-/
namespace Accumulator

/-! ## The renaming of each part -/

def Instruction.rename (f : String → String) : Instruction → Instruction
  | label op name => label op (f name)
  | compare (.label name) => compare (.label (f name))
  | i => i

/-- Words that are no instruction keep their colons, if they have any. -/
def Cell.rename (f : String → String) : Cell → Cell
  | instruction i => instruction (i.rename f)
  | label name => label (f name)
  | cell => cell

def Store.rename (f : String → String) (s : Store) : Store := ⟨s.cells.map (Cell.rename f)⟩

namespace LabelTable

def rename (f : String → String) (table : LabelTable) : LabelTable where
  entries := table.entries.map fun entry => (f entry.1, entry.2)
  duplicates := table.duplicates.map f

end LabelTable

/-- The error of the same kind at the same index. -/
def LabelError.rename (f : String → String) : LabelError → LabelError
  | undefined index label => undefined index (f label)
  | e => e

def Machine.rename (f : String → String) (m : Machine) : Machine :=
  ⟨m.store.rename f, m.labels.rename f, m.registers⟩

def Session.rename (f : String → String) (s : Session) : Session := { s with machine := s.machine.rename f }

/-! ## What is the same -/

/-- The failure without the texts in it. -/
def Failure.bare : Failure → Failure
  | address (.notANumber a _) => address (.notANumber a "")
  | unknownOpcode _ => unknownOpcode ""
  | undefinedLabel _ => undefinedLabel ""
  | failure => failure

/-- The fault without the texts in it: its address, its kind and its numbers. -/
def Fault.bare (fault : Fault) : Fault := ⟨fault.pc, "", fault.failure.bare⟩

/-- The ending, with a fault without its texts. -/
def Ending.bare (ending : Ending) : Ending := ending.mapError Fault.bare

section
variable {f : String → String}

theorem Cell.number?_rename (cell : Cell) : (cell.rename f).number? = cell.number? := by
  cases cell <;> rfl

theorem Instruction.label?_rename (i : Instruction) : (i.rename f).label? = i.label?.map f := by
  cases i with
  | compare c => cases c <;> rfl
  | _ => rfl

/-! ## Memory -/

namespace Store

theorem size_rename (s : Store) : (s.rename f).size = s.size := by simp [rename, size]

theorem get?_rename (s : Store) (a : Nat) : (s.rename f).get? a = (s.get? a).map (Cell.rename f) := by
  simp [rename, get?]

theorem entries_rename (s : Store) : (s.rename f).entries = s.entries.map (Prod.map (Cell.rename f) id) := by
  simp [rename, entries, List.zipIdx_map]

theorem growTo_rename (s : Store) (a : Int) : (s.rename f).growTo a = (s.growTo a).rename f := by
  unfold growTo
  rw [size_rename]
  by_cases inside : 0 ≤ a
  · simp [inside, rename, Cell.rename]
  · simp [inside]

theorem put_rename (s : Store) (a : Int) (w : Word) : (s.rename f).put a w = (s.put a w).map (rename f) := by
  by_cases inside : 0 ≤ a ∧ a < s.size
  · have put : s.put a w = .ok ⟨s.cells.setIfInBounds a.toNat (.number w)⟩ :=
      put_eq_ok_iff.mpr ⟨a.toNat, by omega, by omega, rfl⟩
    rw [put]
    refine put_eq_ok_iff.mpr ⟨a.toNat, by omega, by rw [size_rename]; omega, ?_⟩
    simp [rename, Cell.rename]
  · rw [put_of_outside inside, put_of_outside (by rwa [size_rename]), size_rename]
    rfl

theorem declarations_rename (s : Store) :
    (s.rename f).declarations = s.declarations.map fun d => (f d.1, d.2) := by
  unfold declarations
  rw [entries_rename, List.filterMap_map, List.map_filterMap]
  congr 1
  funext ⟨cell, index⟩
  cases cell <;> rfl

end Store

/-! ## Resolution -/

section
variable (injective : Function.Injective f) (empty : f "" = "")
include injective

namespace LabelTable

theorem place_rename (name : String) (index : Nat) (entries : List (String × Nat)) :
    place (f name) index (entries.map fun entry => (f entry.1, entry.2)) =
      (place name index entries).map fun entry => (f entry.1, entry.2) := by
  induction entries with
  | nil => rfl
  | cons entry rest ih =>
    by_cases here : entry.1 = name
    · simp [place, here]
    · simp [place, here, injective.ne here, ih]

theorem get?_rename (table : LabelTable) (name : String) : (table.rename f).get? (f name) = table.get? name := by
  unfold get? rename
  induction table.entries with
  | nil => rfl
  | cons entry rest ih =>
    rw [List.map_cons, lookup_entry, lookup_entry, ih]
    simp only [injective.eq_iff]

theorem declare_rename (table : LabelTable) (name : String) (index : Nat) :
    (table.rename f).declare (f name) index = (table.declare name index).rename f := by
  unfold declare
  rw [get?_rename injective]
  cases (table.get? name).isSome <;> simp [rename, place_rename injective]

theorem declareAll_rename (table : LabelTable) (declarations : List (String × Nat)) :
    (table.rename f).declareAll (declarations.map fun d => (f d.1, d.2)) =
      (table.declareAll declarations).rename f := by
  induction declarations generalizing table with
  | nil => rfl
  | cons d rest ih => exact (congrArg (declareAll · _) (declare_rename injective table d.1 d.2)).trans (ih _)

theorem undefined?_rename (table : LabelTable) (entry : Cell × Nat) :
    (table.rename f).undefined? (Prod.map (Cell.rename f) id entry) =
      (table.undefined? entry).map (LabelError.rename f) := by
  obtain ⟨cell, index⟩ := entry
  cases cell with
  | instruction i =>
    simp only [undefined?, Prod.map, Cell.rename, Instruction.label?_rename]
    cases i.label? with
    | none => rfl
    | some name =>
      simp only [Option.map_some, get?_rename injective]
      cases (table.get? name).isSome <;> rfl
  | label _ | number _ | raw _ => rfl

omit injective in
theorem findSome?_rename {report? report?' : Cell × Nat → Option LabelError}
    (same : ∀ entry, report?' (Prod.map (Cell.rename f) id entry) = (report? entry).map (LabelError.rename f))
    (store : Store) :
    (store.rename f).entries.findSome? report?' = (store.entries.findSome? report?).map (LabelError.rename f) := by
  rw [Store.entries_rename, List.findSome?_map, List.map_findSome?]
  exact congrArg (List.findSome? · store.entries) (funext same)

include empty

theorem malformed?_rename (entry : Cell × Nat) :
    malformed? (Prod.map (Cell.rename f) id entry) = (malformed? entry).map (LabelError.rename f) := by
  obtain ⟨cell, index⟩ := entry
  cases cell with
  | label name =>
    have bare : f name = "" ↔ name = "" := by rw [← injective.eq_iff (a := name), empty]
    by_cases none : name = ""
    · simp [malformed?, Cell.rename, none, empty, LabelError.rename]
    · simp [malformed?, Cell.rename, none, bare]
  | raw words =>
    simp only [malformed?, Prod.map, Cell.rename, Option.map_map]
    rfl
  | instruction _ | number _ => rfl

theorem ofStore_rename (store : Store) :
    ofStore (store.rename f) = ((ofStore store).map (rename f)).mapError (LabelError.rename f) := by
  have table := declareAll_rename injective LabelTable.empty store.declarations
  rw [← Store.declarations_rename] at table
  replace table : LabelTable.empty.declareAll (store.rename f).declarations = _ := table
  rw [ofStore_eq, ofStore_eq, table, findSome?_rename (malformed?_rename injective empty),
    findSome?_rename (undefined?_rename injective _)]
  cases store.entries.findSome? malformed? with
  | some e => rfl
  | none => cases store.entries.findSome? (LabelTable.empty.declareAll store.declarations).undefined? <;> rfl

end LabelTable

include empty in
theorem Machine.ofStore_rename (store : Store) :
    ofStore (store.rename f) = ((ofStore store).map (rename f)).mapError (LabelError.rename f) := by
  unfold ofStore
  rw [LabelTable.ofStore_rename injective empty]
  cases LabelTable.ofStore store <;> rfl

end

/-! ## Instructions -/

/-- The results are the same, or failures that differ in texts only. -/
def SameButTexts {α : Type} (x y : Except Failure α) : Prop := x.mapError Failure.bare = y.mapError Failure.bare

/-- The second effect is the first in a memory with other labels. -/
structure Effect.Renamed (f : String → String) (e e' : Effect) : Prop where
  store : e'.store = e.store.rename f
  registers : e'.registers = e.registers
  taken : e'.taken = e.taken
  emitted : e'.emitted = e.emitted
  outcome : SameButTexts e'.outcome e.outcome

theorem sameButTexts_bind {α β : Type} {x y : Except Failure α} {go go' : α → Except Failure β} (same : SameButTexts x y)
    (next : ∀ value, SameButTexts (go value) (go' value)) : SameButTexts (x >>= go) (y >>= go') := by
  cases x with
  | ok value =>
    cases y with
    | ok other =>
      cases same
      exact next value
    | error _ => cases same
  | error failure =>
    cases y with
    | ok _ => cases same
    | error other => exact congrArg Except.error (Except.error.inj same)

namespace Machine
open Effect

section
variable {m : Machine}

theorem renamed_become (r : Registers) : Renamed f (m.become r) ((m.rename f).become r) := ⟨rfl, rfl, rfl, rfl, rfl⟩

theorem renamed_fail {failure failure' : Failure} (same : failure'.bare = failure.bare) :
    Renamed f (m.fail failure) ((m.rename f).fail failure') := ⟨rfl, rfl, rfl, rfl, congrArg Except.error same⟩

theorem renamed_given {α : Type} {found found' : Except Failure α} {go go' : α → Effect} (same : SameButTexts found' found)
    (next : ∀ value, Renamed f (go value) (go' value)) : Renamed f (m.given found go) ((m.rename f).given found' go') := by
  cases found with
  | ok value =>
    cases found' with
    | ok other =>
      cases same
      exact next value
    | error _ => cases same
  | error failure =>
    cases found' with
    | ok _ => cases same
    | error other => exact renamed_fail (Except.error.inj same)

theorem number_rename (s : Store) (a : Int) : SameButTexts (number (s.rename f) a) (number s a) := by
  unfold number
  by_cases inside : 0 ≤ a ∧ a < s.size
  · obtain ⟨n, rfl⟩ := Int.eq_ofNat_of_zero_le inside.1
    obtain ⟨cell, found⟩ := Store.exists_get? (s := s) (a := n) (by omega)
    have other : (s.rename f).get? n = some (cell.rename f) := by rw [Store.get?_rename, found]; rfl
    rw [Store.number_of_get? found, Store.number_of_get? other, Cell.number?_rename]
    cases cell.number? <;> rfl
  · rw [Store.number_of_outside inside, Store.number_of_outside (by rwa [Store.size_rename]), Store.size_rename]
    exact rfl

theorem renamed_load (a : Int) : Renamed f (m.load a) ((m.rename f).load a) :=
  renamed_given (number_rename m.store a) fun _ => renamed_become _

theorem renamed_save (a : Int) : Renamed f (m.save a) ((m.rename f).save a) := by
  have put : (m.rename f).store.put a (m.rename f).registers.acc = _ := m.store.put_rename a m.registers.acc
  unfold save
  rw [put]
  cases m.store.put a m.registers.acc with
  | ok store => exact ⟨rfl, rfl, rfl, rfl, rfl⟩
  | error e => exact renamed_fail rfl

theorem grown_rename (a : Int) : (m.rename f).grown a = (m.grown a).rename f := by
  unfold grown
  exact congrArg (Machine.mk · _ _) (m.store.growTo_rename a)

section
variable (injective : Function.Injective f) (name : String)
include injective

theorem declaration_rename : SameButTexts ((m.rename f).declaration (f name)) (m.declaration name) := by
  have known : (m.rename f).labels.get? (f name) = m.labels.get? name := LabelTable.get?_rename injective m.labels name
  unfold declaration
  rw [known]
  cases m.labels.get? name <;> exact rfl

theorem target_rename : SameButTexts ((m.rename f).target (f name)) (m.target name) :=
  sameButTexts_bind (declaration_rename injective name) fun _ => rfl

theorem indexed_rename : SameButTexts ((m.rename f).indexed (f name)) (m.indexed name) :=
  sameButTexts_bind (target_rename injective name) fun _ => rfl

theorem numberAt_rename : SameButTexts ((m.rename f).numberAt (f name)) (m.numberAt name) :=
  sameButTexts_bind (target_rename injective name) fun a => number_rename m.store a

theorem renamed_jump : Renamed f (m.jump name) ((m.rename f).jump (f name)) :=
  renamed_given (declaration_rename injective name) fun _ => renamed_become _

theorem renamed_jumpIf (condition : Bool) : Renamed f (m.jumpIf condition name) ((m.rename f).jumpIf condition (f name)) := by
  cases condition with
  | true => exact renamed_jump injective name
  | false => exact renamed_become _

theorem renamed_executeLabel (op : LabelOp) :
    Renamed f (m.executeLabel op name) ((m.rename f).executeLabel op (f name)) := by
  cases op with
  | ldd => exact renamed_given (target_rename injective name) renamed_load
  | ldi => exact renamed_given (numberAt_rename injective name) fun _ => renamed_load _
  | ldx =>
    refine renamed_given (indexed_rename injective name) fun a => ?_
    rw [grown_rename]
    exact renamed_load a
  | sto => exact renamed_given (target_rename injective name) renamed_save
  | stx =>
    refine renamed_given (indexed_rename injective name) fun a => ?_
    rw [grown_rename]
    exact renamed_save a
  | add => exact renamed_given (numberAt_rename injective name) fun _ => renamed_become _
  | jmp => exact renamed_jump injective name
  | jpe => exact renamed_jumpIf injective name _
  | jpn => exact renamed_jumpIf injective name _

end

theorem renamed_read (next : Option Char) : Renamed f (m.read next) ((m.rename f).read next) := by
  unfold read
  cases next with
  | none => exact renamed_fail rfl
  | some c =>
    dsimp only
    cases Word.ofCode? c.toNat <;> exact ⟨rfl, rfl, rfl, rfl, rfl⟩

theorem renamed_write : Renamed f m.write (m.rename f).write := by
  unfold write
  have char : (m.rename f).registers.acc.char? = m.registers.acc.char? := rfl
  rw [char]
  cases m.registers.acc.char? <;> exact ⟨rfl, rfl, rfl, rfl, rfl⟩

theorem renamed_execute (injective : Function.Injective f) (i : Instruction) (next : Option Char) :
    Renamed f (m.execute i next) ((m.rename f).execute (i.rename f) next) := by
  cases i with
  | immediate op n => cases op <;> exact renamed_become _
  | label op name => exact renamed_executeLabel injective name op
  | register op target => cases op <;> exact renamed_become _
  | compare c =>
    cases c with
    | immediate n => exact renamed_become _
    | label name => exact renamed_given (numberAt_rename injective name) fun _ => renamed_become _
  | plain op =>
    cases op with
    | read => exact renamed_read next
    | write => exact renamed_write
    | stop => exact ⟨rfl, rfl, rfl, rfl, rfl⟩

end

end Machine

/-! ## Cycles -/

/-- The second cycle is the first in a memory with other labels. -/
structure Cycle.Renamed (f : String → String) (c c' : Cycle) : Prop where
  machine : c'.machine = c.machine.rename f
  taken : c'.taken = c.taken
  emitted : c'.emitted = c.emitted
  outcome : c'.outcome.mapError Fault.bare = c.outcome.mapError Fault.bare

namespace Machine

variable (injective : Function.Injective f)
include injective

theorem renamed_cycleInstruction (m : Machine) (i : Instruction) (next : Option Char) :
    Cycle.Renamed f (m.cycleInstruction i next) ((m.rename f).cycleInstruction (i.rename f) next) := by
  have effect : Effect.Renamed f (m.count.execute i next) ((m.rename f).count.execute (i.rename f) next) :=
    renamed_execute injective i next
  have after : (m.rename f).count.after ((m.rename f).count.execute (i.rename f) next) =
      (m.count.after (m.count.execute i next)).rename f := by
    unfold after
    rw [effect.store, effect.registers]
    rfl
  have same := effect.outcome
  unfold cycleInstruction
  cases first : (m.count.execute i next).outcome with
  | ok halt =>
    cases second : ((m.rename f).count.execute (i.rename f) next).outcome with
    | ok other =>
      rw [first, second] at same
      cases same
      simp only [first, second]
      exact ⟨congrArg moveOn after, effect.taken, effect.emitted, rfl⟩
    | error failure =>
      rw [first, second] at same
      cases same
  | error failure =>
    cases second : ((m.rename f).count.execute (i.rename f) next).outcome with
    | ok other =>
      rw [first, second] at same
      cases same
    | error other =>
      rw [first, second] at same
      have bare : other.bare = failure.bare := Except.error.inj same
      simp only [first, second]
      refine ⟨after, effect.taken, effect.emitted, ?_⟩
      show Except.error (Fault.bare _) = Except.error (Fault.bare _)
      simp only [Fault.bare, bare]
      rfl

theorem renamed_cycle (m : Machine) (next : Option Char) :
    Cycle.Renamed f (m.cycle next) ((m.rename f).cycle next) := by
  have fetched : (m.rename f).store.get? (m.rename f).registers.pc = _ := m.store.get?_rename m.registers.pc
  cases found : m.store.get? m.registers.pc with
  | none =>
    rw [found] at fetched
    rw [cycle_of_get?_none next found, cycle_of_get?_none next fetched]
    exact ⟨rfl, rfl, rfl, rfl⟩
  | some cell =>
    rw [found] at fetched
    rw [cycle_of_get? next found, cycle_of_get? next fetched]
    cases cell with
    | instruction i => exact renamed_cycleInstruction injective m i next
    | label name => exact ⟨rfl, rfl, rfl, rfl⟩
    | number value => exact ⟨rfl, rfl, rfl, rfl⟩
    | raw words => exact ⟨rfl, rfl, rfl, rfl⟩

end Machine

/-! ## Sessions -/

namespace Session

theorem apply_rename (s : Session) {c c' : Cycle} (renamed : Cycle.Renamed f c c') :
    (s.rename f).apply c' = (s.apply c).rename f := by
  rw [apply_eq, apply_eq]
  unfold rename Channel.after Channel.inputAfter Channel.terminalAfter
  rw [renamed.machine, renamed.taken, renamed.emitted]

theorem map_ending? (outcome : Except Fault (Option Halt)) :
    (ending? outcome).map Ending.bare = ending? (outcome.mapError Fault.bare) := by
  cases outcome with
  | error fault => rfl
  | ok halt => cases halt <;> rfl

/-- Sessions without a debugger over the same memory with other labels go the same way. -/
theorem simulation_rename (injective : Function.Injective f) :
    Simulation Ending.bare fun s t => s.debugger = none ∧ t = s.rename f where
  stop := by
    rintro s _ ⟨-, rfl⟩
    have size : (s.rename f).machine.store.size = s.machine.store.size := s.machine.store.size_rename
    unfold stop?
    rw [size]
    rfl
  pause := by
    rintro s _ ⟨alone, rfl⟩
    rw [pause_of_alone alone, pause_of_alone (s := s.rename f) alone]
    exact ⟨rfl, alone, rfl⟩
  step := by
    rintro s _ ⟨alone, rfl⟩
    have renamed : Cycle.Renamed f s.cycle (s.rename f).cycle := s.machine.renamed_cycle injective s.next?
    refine ⟨?_, (debugger_step s).trans alone, s.apply_rename renamed⟩
    rw [map_ending?, map_ending?]
    exact congrArg ending? renamed.outcome.symm
  limit := by
    rintro s _ ⟨alone, rfl⟩ limit
    exact ⟨alone, rfl⟩

end Session

end

namespace Session

/-- Other labels make no difference, if they are different for different labels and only the empty one
    is empty. A memory is accepted with them if it is accepted, and else refused in the same way at the
    same index. Any steps and runs without a debugger then leave the same registers, input and output and
    the same memory with the other labels, and end in the same way but for the texts in a fault. -/
theorem calls_rename {f : String → String} (injective : Function.Injective f) (empty : f "" = "") :
    (∀ store m, Machine.ofStore store = .ok m → Machine.ofStore (store.rename f) = .ok (m.rename f)) ∧
    (∀ store e, Machine.ofStore store = .error e →
      Machine.ofStore (store.rename f) = .error (e.rename f) ∧ (e.rename f).index = e.index) ∧
    ∀ s : Session, s.debugger = none → ∀ cs : List Call, (∀ c ∈ cs, c.Drives) →
      (s.rename f).calls cs = (s.calls cs).rename f ∧
        ∀ c : Call, c.Drives →
          (((s.rename f).calls cs).result? c).map Ending.bare = ((s.calls cs).result? c).map Ending.bare := by
  refine ⟨?accepted, ?refused, ?runs⟩
  case accepted =>
    intro store m accepted
    rw [Machine.ofStore_rename injective empty, accepted]
    rfl
  case refused =>
    intro store e refused
    rw [Machine.ofStore_rename injective empty, refused]
    exact ⟨rfl, by cases e <;> rfl⟩
  case runs =>
    intro s alone cs drive
    have simulation := simulation_rename injective
    obtain ⟨quiet, same⟩ := simulation.calls ⟨alone, rfl⟩ drive
    exact ⟨same, fun c drives => (simulation.call ⟨quiet, same⟩ drives).1.symm⟩

/-- A program that writes over an instruction and then comes to read another as a number. -/
def overreaching : Store :=
  .ofList [.instruction (.label .sto "B"), .instruction (.label .ldd "A"), .label "A", .label "B",
    .instruction (.label .sto "A"), .label "A", .instruction (.label .jmp "B")]

/-- A session over that program. -/
def overreachingSession : Session where
  machine := ⟨overreaching, ⟨[("A", 5), ("B", 3)], ["A"]⟩, {}⟩
  channel := .buffer [] ""

/-- The labels `A` and `B` take each other's place. -/
theorem calls_rename_swapping :
    let f := Equiv.swap "A" "B"
    Function.Injective f ∧ f "" = "" ∧ Machine.ofStore overreaching = .ok overreachingSession.machine ∧
      Machine.ofStore (overreaching.rename f) = .ok (overreachingSession.machine.rename f) ∧
      overreachingSession.debugger = none ∧ (∀ c ∈ [Call.run 1], c.Drives) ∧ Call.step.Drives ∧
      ((overreachingSession.rename f).calls [.run 1]).machine.store.get? 4 = some (.number 0) ∧
      (overreachingSession.calls [.run 1]).result? .step =
        some (.error ⟨1, "LDD A", .address (.notANumber 6 "JMP B")⟩) ∧
      (((overreachingSession.rename f).calls [.run 1]).result? .step).map Ending.bare =
        some (.error ⟨1, "", .address (.notANumber 6 "")⟩) := by
  intro f
  have injective : Function.Injective f := f.injective
  have empty : f "" = "" := Equiv.swap_apply_of_ne_of_ne (by decide) (by decide)
  have accepted : Machine.ofStore overreaching = .ok overreachingSession.machine := by rfl
  have drive : ∀ c ∈ [Call.run 1], c.Drives := by simp [Call.Drives]
  obtain ⟨accepts, -, runs⟩ := calls_rename injective empty
  obtain ⟨same, ends⟩ := runs overreachingSession rfl [.run 1] drive
  refine ⟨injective, empty, accepted, accepts _ _ accepted, rfl, drive, trivial, ?_, by rfl, ?_⟩
  · rw [same]
    exact (Store.get?_rename _ 4).trans (by rfl)
  · exact (ends .step trivial).trans (by rfl)

end Session
end Accumulator
