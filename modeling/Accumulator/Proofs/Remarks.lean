import Accumulator.Report
import Accumulator.Proofs.Growth
import Accumulator.Proofs.Listing
import Accumulator.Proofs.Resolution

/-!
Remarks: which line of the source a report on a program points at. The cells of a program
have the indices of its lines, and a run may change what a cell holds, but not where it is.
So an index below the size of the program still means that line of the source, and only the
cells that a run has added are on no line.
-/
namespace Accumulator

/-- The report points at the span of the line with the given index, and at nothing else. -/
def Report.PointsAt (r : Report) (source : String) (index : Nat) (text : String) : Prop :=
  ∃ line, (tokenize source)[index]? = some line ∧ r.remarks = [line.span.remark text]

namespace Program

theorem size_store (p : Program) : p.store.size = p.size := by
  rw [store, Store.size_ofList, cells, List.length_map, size]

/-! ## Indices and lines -/

theorem size_of_parse {source : String} {p : Program} (parsed : parse source = .ok p) :
    p.size = (tokenize source).length := (parse_eq_ok_iff.mp parsed).length_eq.symm

theorem span?_of_parse {source : String} {p : Program} (parsed : parse source = .ok p) (index : Nat) :
    p.span? index = (tokenize source)[index]?.map SourceLine.span := by
  have spans : List.Forall₂ (· = ·) (p.lines.map Listed.span) ((tokenize source).map SourceLine.span) := by
    rw [List.forall₂_map_left_iff, List.forall₂_map_right_iff]
    exact (parse_eq_ok_iff.mp parsed).flip.imp fun listed line read => (ofLine_eq_ok_iff.mp read).2
  rw [List.forall₂_eq_eq_eq] at spans
  rw [span?, ← List.getElem?_map, spans, List.getElem?_map]

/-- The program starts with the cell of each line at the index of that line. -/
theorem ofTokens_of_get? {source : String} {p : Program} (parsed : parse source = .ok p) {index : Nat}
    {line : SourceLine} (found : (tokenize source)[index]? = some line) {cell : Cell}
    (start : p.store.get? index = some cell) : Cell.ofTokens line.tokens = .ok cell := by
  rw [store, Store.get?_ofList, cells, List.getElem?_map] at start
  obtain ⟨listed, listed_found, rfl⟩ := Option.map_eq_some_iff.mp start
  obtain ⟨inside, rfl⟩ := List.getElem?_eq_some_iff.mp found
  obtain ⟨listed_inside, rfl⟩ := List.getElem?_eq_some_iff.mp listed_found
  exact (ofLine_eq_ok_iff.mp ((parse_eq_ok_iff.mp parsed).get inside listed_inside)).1

theorem remarks_of_lt {source : String} {p : Program} (parsed : parse source = .ok p) {index : Nat}
    (inside : index < p.size) (text : String) :
    ∃ line, (tokenize source)[index]? = some line ∧ p.remarks index text = [line.span.remark text] := by
  rw [size_of_parse parsed] at inside
  have found := List.getElem?_eq_getElem inside
  refine ⟨_, found, ?_⟩
  rw [remarks, span?_of_parse parsed, found]
  rfl

theorem remarks_of_le {p : Program} {index : Nat} (beyond : p.size ≤ index) (text : String) :
    p.remarks index text = [] := by
  rw [remarks, span?, List.getElem?_eq_none beyond]
  rfl

/-! ## Reports -/

/-- What is said of a fault of a run of the program: it points at a line just if there is one,
    and else at a cell that the cycles have added. -/
structure Remarked (source : String) (p : Program) (m : Machine) (seen : List (Option Char)) (fault : Fault) :
    Prop where
  points : (fault.report p).remarks ≠ [] ↔ fault.pc < p.size
  line : fault.pc < p.size →
    (fault.report p).PointsAt source fault.pc ("failed at address " ++ toString fault.pc)
  /-- What has failed is the cell of that line, or a number that was stored over it. -/
  cell : ∀ line, (tokenize source)[fault.pc]? = some line →
    ∃ cell, m.FailsAt seen fault cell ∧ (Cell.ofTokens line.tokens = .ok cell ∨ ∃ w, cell = .number w)
  beyond : p.size ≤ fault.pc → m.FailsBeyond seen fault

theorem index_lt_of_reported {p : Program} {e : LabelError} (reported : LabelTable.Reported p.store e) :
    e.index < p.size := by
  rw [← size_store]
  rcases reported with ⟨malformed, -⟩ | ⟨-, undeclared, -⟩
  · cases malformed with
    | emptyName found => exact Store.lt_size_of_get? found
    | notAlone found ends first => exact Store.lt_size_of_get? found
  · cases undeclared with
    | undefined found names absent => exact Store.lt_size_of_get? found

theorem remarked_of_endsIn {source : String} {p : Program} (parsed : parse source = .ok p) {m : Machine}
    (start : m.store = p.store) {seen : List (Option Char)} {fault : Fault} (ends : m.EndsIn seen fault) :
    Remarked source p m seen fault := by
  refine ⟨⟨?inside, ?points⟩, fun inside => remarks_of_lt parsed inside _, ?cell, ?beyond⟩
  case inside =>
    intro points
    by_contra outside
    exact points (remarks_of_le (Nat.le_of_not_lt outside) _)
  case points =>
    intro inside
    obtain ⟨line, -, points⟩ := remarks_of_lt parsed inside ("failed at address " ++ toString fault.pc)
    show p.remarks fault.pc _ ≠ []
    rw [points]
    exact List.cons_ne_nil _ _
  case cell =>
    intro line found
    obtain ⟨cell, fails⟩ := Machine.exists_failsAt ends
    refine ⟨cell, fails, fails.origin.imp_left fun old => ?_⟩
    rw [start] at old
    exact ofTokens_of_get? parsed found old
  case beyond =>
    intro beyond
    rw [← size_store, ← start] at beyond
    exact Machine.failsBeyond_of_endsIn ends beyond

/-- Reports on a program point at the lines of its source. A label that cannot be resolved is on
    one of them, and so is every fault of a run, whatever is asked of its session, but for those
    in cells that `LDX` or `STX` have added: there all that fails is that the cell is no instruction. -/
theorem remarks_exact {source : String} {p : Program} (parsed : parse source = .ok p) :
    (∀ e, LabelTable.ofStore p.store = .error e →
      e.index < p.size ∧ (e.report p).PointsAt source e.index e.remark) ∧
    ∀ s : Session, Machine.ofProgram p = .ok s.machine → ∀ calls c fault,
      (s.calls calls).result? c = some (.error fault) →
        Remarked source p s.machine (s.sees (calls ++ [c])) fault := by
  refine ⟨?labels, ?faults⟩
  case labels =>
    intro e refused
    have inside := index_lt_of_reported (LabelTable.ofStore_eq_error_iff.mp refused)
    exact ⟨inside, remarks_of_lt parsed inside e.remark⟩
  case faults =>
    intro s accepted calls c fault ended
    have start := (Machine.ofStore_eq_ok_iff.mp accepted).2.1
    exact remarked_of_endsIn parsed start (Session.endsIn_of_calls ended)

/-- A program that stores beyond its end and runs on into the cell that this adds. -/
def runningOn : Program :=
  ⟨[⟨.label "A", Span.clamp 0 2⟩, ⟨.instruction (.immediate .ldr 2), Span.clamp 3 6⟩,
    ⟨.instruction (.label .stx "A"), Span.clamp 10 5⟩]⟩

/-- A program that names a label which it does not declare. -/
def astray : Program :=
  ⟨[⟨.instruction (.plain .stop), Span.clamp 0 3⟩, ⟨.instruction (.label .jmp "L"), Span.clamp 4 5⟩]⟩

/-- A session over the first program. -/
def runningOnSession : Session where
  machine := ⟨runningOn.store, ⟨[("A", 0)], []⟩, {}⟩
  channel := .buffer [] ""

theorem remarks_exact_runningOn :
    parse "A:\nLDR #2\nSTX A" = .ok runningOn ∧ parse "END\nJMP L" = .ok astray ∧
      ((LabelError.undefined 1 "L").report astray).PointsAt "END\nJMP L" 1 "undefined label" ∧
      runningOnSession.result? (.run 4) = some (.error ⟨3, "0", .unknownOpcode "0"⟩) ∧
      (Fault.report ⟨3, "0", .unknownOpcode "0"⟩ runningOn).remarks = [] ∧
      runningOnSession.machine.Adds (runningOnSession.sees [.run 4]) 3 := by
  have parsed : parse "A:\nLDR #2\nSTX A" = .ok runningOn := by decide +kernel
  have parsed_astray : parse "END\nJMP L" = .ok astray := by decide +kernel
  have refused : LabelTable.ofStore astray.store = .error (.undefined 1 "L") := by rfl
  have accepted : Machine.ofProgram runningOn = .ok runningOnSession.machine := by rfl
  have ended : runningOnSession.result? (.run 4) = some (.error ⟨3, "0", .unknownOpcode "0"⟩) := by rfl
  have remarked := (remarks_exact parsed).2 runningOnSession accepted [] (.run 4) _ ended
  exact ⟨parsed, parsed_astray, ((remarks_exact parsed_astray).1 _ refused).2, ended, rfl,
    (remarked.beyond (by decide)).added⟩

end Program
end Accumulator
