import Accumulator.CommandLine
import Accumulator.Proofs.Declarations
import Accumulator.Proofs.Memory

/-!
Definedness: labels are resolved once, before a run, and no instruction ever meets one
that is not. A run may overwrite declarations and instructions, but it brings no new
instruction into memory, so those that are left name labels of the table.
-/
namespace Accumulator

namespace Machine

/-- Every label that an instruction in memory names is in the table. -/
def LabelsDefined (m : Machine) : Prop :=
  ∀ a i name, m.store.get? a = some (.instruction i) → i.label? = some name → (m.labels.get? name).isSome

theorem labelsDefined_of_ofStore {store : Store} {m : Machine} (accepted : ofStore store = .ok m) :
    m.LabelsDefined := by
  intro a i name found names
  obtain ⟨table, same, _⟩ := ofStore_eq_ok_iff.mp accepted
  rw [same] at found
  exact LabelTable.isSome_get?_of_label? table found names

theorem labels_cycle (m : Machine) (next : Option Char) : (m.cycle next).machine.labels = m.labels := by
  cases m.cycleCase next with
  | ended found cycle => rw [cycle]
  | passed name found cycle => rw [cycle]; rfl
  | unknown cell found data cycle => rw [cycle]; rfl
  | failed i failure found result cycle => rw [cycle]; rfl
  | done i halt found result cycle => rw [cycle]; rfl

theorem instruction_of_cycle {m : Machine} {next : Option Char} {a : Nat} {i : Instruction}
    (found : (m.cycle next).machine.store.get? a = some (.instruction i)) :
    m.store.get? a = some (.instruction i) := by
  rcases (m.becomes_cycle next).number_or_same found with ⟨w, same⟩ | old
  · cases same
  · exact old

theorem labelsDefined_cycle (m : Machine) (next : Option Char) (defined : m.LabelsDefined) :
    (m.cycle next).machine.LabelsDefined := by
  intro a i name found names
  rw [labels_cycle]
  exact defined a i name (instruction_of_cycle found) names

/-! ## Failures for want of a label -/

/-- A result that is a failure for want of a label is so for the given one, which the table lacks. -/
def Blames {α : Type} (m : Machine) (name? : Option String) (result : Except Failure α) : Prop :=
  ∀ name, result = .error (.undefinedLabel name) → name? = some name ∧ m.labels.get? name = none

theorem blames_ok {α : Type} (m : Machine) (name? : Option String) (value : α) : m.Blames name? (.ok value) := by
  intro name failed
  cases failed

theorem blames_bind {α β : Type} {m : Machine} {name? : Option String} {result : Except Failure α}
    {go : α → Except Failure β} (first : m.Blames name? result) (second : ∀ value, m.Blames name? (go value)) :
    m.Blames name? (result >>= go) := by
  cases result with
  | ok value => exact second value
  | error failure =>
    intro name failed
    cases failed
    exact first name rfl

theorem blames_given {α : Type} {m : Machine} {name? : Option String} {found : Except Failure α} {go : α → Effect}
    (first : m.Blames name? found) (second : ∀ value, m.Blames name? (go value).outcome) :
    m.Blames name? (m.given found go).outcome := by
  cases found with
  | ok value => exact second value
  | error failure =>
    intro name failed
    cases failed
    exact first name rfl

theorem blames_declaration (m : Machine) (name : String) : m.Blames (some name) (m.declaration name) := by
  intro other failed
  unfold declaration at failed
  split at failed
  · cases failed
  · cases failed
    exact ⟨rfl, ‹_›⟩

theorem blames_target (m : Machine) (name : String) : m.Blames (some name) (m.target name) :=
  blames_bind (blames_declaration m name) fun _ => blames_ok m _ _

theorem blames_indexed (m : Machine) (name : String) : m.Blames (some name) (m.indexed name) :=
  blames_bind (blames_target m name) fun _ => blames_ok m _ _

theorem blames_address {α : Type} (m : Machine) (name? : Option String) (result : Except AddressError α) :
    m.Blames name? (result.mapError Failure.address) := by
  intro name failed
  cases result with
  | ok value => cases failed
  | error e => cases failed

theorem blames_numberAt (m : Machine) (name : String) : m.Blames (some name) (m.numberAt name) :=
  blames_bind (blames_target m name) fun _ => blames_address m _ _

theorem blames_load (m : Machine) (name? : Option String) (a : Int) : m.Blames name? (m.load a).outcome :=
  blames_given (blames_address m name? _) fun _ => blames_ok m _ _

theorem blames_save (m : Machine) (name? : Option String) (a : Int) : m.Blames name? (m.save a).outcome :=
  blames_given (blames_address m name? _) fun _ => blames_ok m _ _

theorem blames_jumpIf (m : Machine) (condition : Bool) (name : String) :
    m.Blames (some name) (m.jumpIf condition name).outcome := by
  cases condition with
  | true => exact blames_given (blames_declaration m name) fun _ => blames_ok m _ _
  | false => exact blames_ok m _ _

theorem blames_executeLabel (m : Machine) (op : LabelOp) (name : String) :
    m.Blames (some name) (m.executeLabel op name).outcome := by
  cases op with
  | ldd => exact blames_given (blames_target m name) fun a => blames_load m _ a
  | ldi => exact blames_given (blames_numberAt m name) fun _ => blames_load m _ _
  | ldx => exact blames_given (blames_indexed m name) fun a => blames_load (m.grown a) _ a
  | sto => exact blames_given (blames_target m name) fun a => blames_save m _ a
  | stx => exact blames_given (blames_indexed m name) fun a => blames_save (m.grown a) _ a
  | add => exact blames_given (blames_numberAt m name) fun _ => blames_ok m _ _
  | jmp => exact blames_jumpIf m true name
  | jpe => exact blames_jumpIf m _ name
  | jpn => exact blames_jumpIf m _ name

theorem blames_execute (m : Machine) (i : Instruction) (next : Option Char) :
    m.Blames i.label? (m.execute i next).outcome := by
  cases i with
  | immediate op n => cases op <;> exact blames_ok m _ _
  | label op name => exact blames_executeLabel m op name
  | register op target => cases op <;> exact blames_ok m _ _
  | compare c =>
    cases c with
    | immediate n => exact blames_ok m _ _
    | label name => exact blames_given (blames_numberAt m name) fun _ => blames_ok m _ _
  | plain op =>
    intro name failed
    cases op with
    | read =>
      obtain ⟨_, same⟩ | ⟨c, _, same⟩ := read_error failed <;> cases same
    | write =>
      replace failed : m.write.outcome = .error (.undefinedLabel name) := failed
      unfold write at failed
      split at failed <;> cases failed
    | stop => cases failed

theorem LabelsDefined.not_undefinedLabel {m : Machine} (defined : m.LabelsDefined) {next : Option Char} {fault : Fault}
    (failed : (m.cycle next).outcome = .error fault) (name : String) : fault.failure ≠ .undefinedLabel name := by
  cases m.cycleCase next with
  | ended found cycle =>
    rw [cycle] at failed
    cases failed
  | passed other found cycle =>
    rw [cycle] at failed
    cases failed
  | done i halt found result cycle =>
    rw [cycle] at failed
    cases failed
  | unknown cell found data cycle =>
    rw [cycle] at failed
    cases failed
    intro same
    cases same
  | failed i failure found result cycle =>
    rw [cycle] at failed
    cases failed
    rintro rfl
    obtain ⟨names, absent⟩ := blames_execute m.count i next name result
    have present := defined _ i name found names
    rw [show m.labels.get? name = none from absent] at present
    cases present

theorem ComesTo.not_undefinedLabel {m : Machine} {fault : Fault} (defined : m.LabelsDefined)
    (ahead : m.ComesTo fault) (name : String) : fault.failure ≠ .undefinedLabel name := by
  obtain ⟨n, next, kept, failed⟩ := ahead.exists_kept labelsDefined_cycle defined
  exact kept.not_undefinedLabel failed name

end Machine

/-! ## Calls and requests -/

theorem Session.not_undefinedLabel {store : Store} {s : Session} (accepted : Machine.ofStore store = .ok s.machine)
    {calls : List Call} {c : Call} {fault : Fault} (ended : (s.calls calls).result? c = some (.error fault))
    (name : String) : fault.failure ≠ .undefinedLabel name :=
  (comesTo_of_calls ended).not_undefinedLabel (Machine.labelsDefined_of_ofStore accepted) name

namespace CommandLine

theorem machine_of_load {source : String} {loaded : Loaded} (ok : load source = .ok loaded) :
    Machine.ofStore loaded.program.store = .ok loaded.machine := by
  rw [load_eq] at ok
  cases parsed : Program.parse source with
  | error e => simp [parsed] at ok
  | ok program =>
    cases made : Machine.ofProgram program with
    | error e => simp [parsed, made] at ok
    | ok machine =>
      simp only [parsed, made] at ok
      cases ok
      exact made

theorem begin_of_check {w : Surroundings} {path : String} (passed : (check w path).trouble = none) (r : RunRequest) :
    ∃ begun, begin w r = .ok begun ∧ Machine.ofStore begun.program.store = .ok begun.session.machine := by
  have loads : ∃ loaded, w.source.bind load = .ok loaded := by
    unfold check loadFile at passed
    cases result : w.source.bind load with
    | ok loaded => exact ⟨loaded, rfl⟩
    | error trouble =>
      rw [result] at passed
      cases passed
  obtain ⟨loaded, found⟩ := loads
  unfold begin loadFile
  rw [found]
  refine ⟨_, rfl, ?_⟩
  cases source : w.source with
  | error trouble =>
    rw [source] at found
    cases found
  | ok text =>
    rw [source] at found
    exact machine_of_load found

end CommandLine

/-- No step and no run fails for want of a label, after any calls on a session whose memory
    was accepted at its start; so neither does a program whose source has passed a check. -/
theorem labels_stay_defined :
    (∀ (store : Store) (s : Session), Machine.ofStore store = .ok s.machine →
      ∀ (calls : List Call) (c : Call) (fault : Fault), (s.calls calls).result? c = some (.error fault) →
        ∀ name, fault.failure ≠ .undefinedLabel name) ∧
    ∀ (w : Surroundings) (path : String), (CommandLine.check w path).trouble = none →
      ∀ r : RunRequest, ∃ begun, CommandLine.begin w r = .ok begun ∧
        ∀ (calls : List Call) (c : Call) (fault : Fault),
          (begun.session.calls calls).result? c = some (.error fault) →
            ∀ name, fault.failure ≠ .undefinedLabel name := by
  refine ⟨fun store s accepted calls c fault ended => Session.not_undefinedLabel accepted ended, ?_⟩
  intro w path passed r
  obtain ⟨begun, ready, accepted⟩ := CommandLine.begin_of_check passed r
  exact ⟨begun, ready, fun calls c fault ended => Session.not_undefinedLabel accepted ended⟩

/-- A program that overwrites the declaration of the label that it goes on to name. -/
def overwriting : Store :=
  .ofList [.label "A", .instruction (.immediate .ldr (-1)), .instruction (.label .stx "A"),
    .instruction (.label .ldd "A")]

/-- A session over that program. -/
def overwritingSession : Session where
  machine := ⟨overwriting, ⟨[("A", 0)], []⟩, {}⟩
  channel := .buffer [] ""

theorem labels_stay_defined_overwriting :
    Machine.ofStore overwriting = .ok overwritingSession.machine ∧
      (overwritingSession.calls [.run 3]).machine.store.get? 0 = some (.number 0) ∧
      (overwritingSession.calls [.run 3]).result? .step =
        some (.error ⟨3, "LDD A", .address (.notANumber 1 "LDR #-1")⟩) ∧
      ∀ name, Failure.address (.notANumber 1 "LDR #-1") ≠ .undefinedLabel name := by
  have accepted : Machine.ofStore overwriting = .ok overwritingSession.machine := by rfl
  have ended : (overwritingSession.calls [.run 3]).result? .step =
      some (.error ⟨3, "LDD A", .address (.notANumber 1 "LDR #-1")⟩) := by rfl
  exact ⟨accepted, by rfl, ended, labels_stay_defined.1 _ _ accepted _ _ _ ended⟩

end Accumulator
