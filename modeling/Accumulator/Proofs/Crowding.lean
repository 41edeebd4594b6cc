import Accumulator.Proofs.Listing
import Accumulator.Proofs.Resolution

/-!
Crowded lines: what becomes of a word that ends like a declaration where another word
follows it. Main statement: a line with such a word is refused, by the reader or when labels
are resolved, unless its last word ends like a declaration too. Then that last one is declared,
and the words before it are passed over without a report.
-/
namespace Accumulator

/-- Among the words, one that ends like a declaration is followed by another. -/
def Crowded (words : List String) : Prop :=
  ∃ before word after, words = before ++ word :: after ∧ after ≠ [] ∧ word.toList.getLast? = some ':'

theorem crowded_cons_iff {word : String} {words : List String} :
    Crowded (word :: words) ↔ (word.toList.getLast? = some ':' ∧ words ≠ []) ∨ Crowded words := by
  constructor
  · rintro ⟨before, found, after, split, follows, ends⟩
    cases before with
    | nil =>
      obtain ⟨rfl, rfl⟩ := List.cons.inj split
      exact .inl ⟨ends, follows⟩
    | cons first before => exact .inr ⟨before, found, after, (List.cons.inj split).2, follows, ends⟩
  · rintro (⟨ends, follows⟩ | ⟨before, found, after, rfl, follows, ends⟩)
    · exact ⟨[], word, words, rfl, follows, ends⟩
    · exact ⟨word :: before, found, after, rfl, follows, ends⟩

theorem Crowded.two_le_length {words : List String} (crowded : Crowded words) : 2 ≤ words.length := by
  obtain ⟨before, word, after, rfl, follows, -⟩ := crowded
  have positive := List.length_pos_iff.mpr follows
  rw [List.length_append, List.length_cons]
  omega

namespace Cell

/-- No instruction is crowded: its mnemonic declares nothing, and its operand is the last word. -/
theorem not_crowded_of_takes {mnemonic : String} {operands : List String} {opcode : Opcode} {i : Instruction}
    (names : Opcode.ofMnemonic? mnemonic = some opcode) (takes : Instruction.Takes opcode operands i) :
    ¬ Crowded (mnemonic :: operands) := by
  obtain rfl := Opcode.ofMnemonic?_eq_some_iff.mp names
  rw [crowded_cons_iff]
  rintro (⟨ends, -⟩ | crowded)
  · have reserved := opcode.mnemonic_reserved.1
    rw [declared?, if_pos ends] at reserved
    cases reserved
  · have several := crowded.two_le_length
    have single := Instruction.length_le_of_takes takes
    omega

theorem Written.of_crowded {words : List String} {cell : Cell} (written : Written words cell) (crowded : Crowded words) :
    (∃ name, declaration? words = some name ∧ cell = .label name) ∨ declaration? words = none ∧ cell = .raw words := by
  cases written with
  | @label _ name declares => exact .inl ⟨name, declares, rfl⟩
  | number undeclared numeral =>
    -- A number is the only word of its line.
    match words, crowded.two_le_length, numeral with
    | _ :: _ :: _, _, numeral => cases numeral
  | instruction undeclared names takes => exact absurd crowded (not_crowded_of_takes names takes)
  | raw undeclared => exact .inr ⟨undeclared, rfl⟩

end Cell

namespace LabelTable

theorem exists_malformed {store : Store} {index : Nat} {words : List String}
    (found : store.get? index = some (.raw words)) (crowded : Crowded words) :
    ∃ token, Malformed store (.notAlone index token) := by
  obtain ⟨before, word, after, rfl, -, ends⟩ := crowded
  exact exists_notAlone found (List.mem_append_right _ List.mem_cons_self) ends

theorem exists_refusal {store : Store} {error : LabelError} (malformed : Malformed store error) :
    ∃ e, ofStore store = .error e ∧ Malformed store e ∧ e.index ≤ error.index := by
  cases resolved : ofStore store with
  | error e =>
    rcases ofStore_eq_error_iff.mp resolved with first | ⟨wellFormed, -⟩
    · exact ⟨e, rfl, first.1, first.2 error malformed⟩
    · exact absurd malformed (wellFormed error)
  | ok table => exact absurd malformed ((ofStore_eq_ok_iff_declareAll.mp resolved).1 error)

end LabelTable

namespace Program

theorem exists_written {source : String} {p : Program} (parsed : parse source = .ok p) {index : Nat} {line : SourceLine}
    (found : (tokenize source)[index]? = some line) :
    ∃ cell, p.store.get? index = some cell ∧ Cell.Written line.words cell := by
  obtain ⟨same, written⟩ := List.forall₂_iff_get.mp (parse_cells.mp ⟨p, parsed, rfl⟩)
  obtain ⟨inside, rfl⟩ := List.getElem?_eq_some_iff.mp found
  have inside_words : index < ((tokenize source).map SourceLine.words).length := by rwa [List.length_map]
  have inside_cells : index < p.cells.length := same ▸ inside_words
  refine ⟨p.cells.get ⟨index, inside_cells⟩, ?_, by simpa using written index inside_words inside_cells⟩
  rw [store, Store.get?_ofList]
  exact List.getElem?_eq_getElem inside_cells

theorem declares_of_crowded {source : String} {p : Program} {table : LabelTable} (parsed : parse source = .ok p)
    (accepted : LabelTable.ofStore p.store = .ok table) {line : SourceLine} (member : line ∈ tokenize source)
    (crowded : Crowded line.words) :
    ∃ name, name ≠ "" ∧ Cell.declaration? line.words = some name ∧ (table.get? name).isSome := by
  obtain ⟨index, inside, rfl⟩ := List.mem_iff_getElem.mp member
  obtain ⟨cell, found, written⟩ := exists_written parsed (List.getElem?_eq_getElem inside)
  obtain ⟨wellFormed, -, rfl⟩ := LabelTable.ofStore_eq_ok_iff_declareAll.mp accepted
  rcases written.of_crowded crowded with ⟨name, declares, rfl⟩ | ⟨-, rfl⟩
  · have named : name ≠ "" := fun bare => wellFormed _ (.emptyName (bare ▸ found))
    exact ⟨name, named, declares, LabelTable.isSome_get?_declareAll_iff.mpr ⟨index, found⟩⟩
  · obtain ⟨token, malformed⟩ := LabelTable.exists_malformed found crowded
    exact absurd malformed (wellFormed _)

theorem refused_of_crowded {source : String} {p : Program} (parsed : parse source = .ok p) {index : Nat}
    {line : SourceLine} (place : (tokenize source)[index]? = some line) (crowded : Crowded line.words)
    (undeclared : Cell.declaration? line.words = none) :
    ∃ e, LabelTable.ofStore p.store = .error e ∧ e.index ≤ index ∧
      ((∃ token, e = .notAlone e.index token) ∨ e = .emptyName e.index) := by
  obtain ⟨cell, found, written⟩ := exists_written parsed place
  rcases written.of_crowded crowded with ⟨name, declares, -⟩ | ⟨-, rfl⟩
  · rw [undeclared] at declares
    cases declares
  · obtain ⟨token, malformed⟩ := LabelTable.exists_malformed found crowded
    obtain ⟨e, refused, kind, least⟩ := LabelTable.exists_refusal malformed
    refine ⟨e, refused, least, ?_⟩
    cases kind with
    | emptyName => exact .inr rfl
    | @notAlone _ _ _ token => exact .inl ⟨token, rfl⟩

/-- What becomes of a crowded line. If its source is accepted, it declares its last word; and if
    it declares none, a malformed declaration is reported, of this line or of one before it. -/
theorem crowded_exact (source : String) :
    (∀ p table, parse source = .ok p → LabelTable.ofStore p.store = .ok table →
      ∀ line ∈ tokenize source, Crowded line.words →
        ∃ name, name ≠ "" ∧ Cell.declaration? line.words = some name ∧ (table.get? name).isSome) ∧
    ∀ index line, (tokenize source)[index]? = some line → Crowded line.words →
      Cell.declaration? line.words = none →
        (∃ failure, parse source = .error failure) ∨
          ∃ p e, parse source = .ok p ∧ LabelTable.ofStore p.store = .error e ∧ e.index ≤ index ∧
            ((∃ token, e = .notAlone e.index token) ∨ e = .emptyName e.index) := by
  constructor
  · intro p table parsed accepted line member crowded
    exact declares_of_crowded parsed accepted member crowded
  · intro index line place crowded undeclared
    cases parsed : parse source with
    | error failure => exact .inl ⟨failure, rfl⟩
    | ok p =>
      obtain ⟨e, refused⟩ := refused_of_crowded parsed place crowded undeclared
      exact .inr ⟨p, e, rfl, refused⟩

/-- A declaration with another one behind it is no error: the source is accepted, and only the
    last of them is declared. -/
theorem crowded_accepted : ∃ p table line, parse "A: B:\n" = .ok p ∧ LabelTable.ofStore p.store = .ok table ∧
    line ∈ tokenize "A: B:\n" ∧ Crowded line.words ∧ table.get? "A" = none ∧ table.get? "B" = some 0 :=
  ⟨⟨[⟨.label "B", Span.clamp 0 5⟩]⟩, ⟨[("B", 0)], []⟩, ⟨1, [⟨"A:", Span.clamp 0 2⟩, ⟨"B:", Span.clamp 3 2⟩]⟩,
    by decide +kernel, by decide +kernel, by decide +kernel, ⟨[], "A:", ["B:"], rfl, List.cons_ne_nil _ _, by decide⟩,
    by decide, by decide⟩

end Program
end Accumulator
