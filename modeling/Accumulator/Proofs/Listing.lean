import Accumulator.Program
import Accumulator.Proofs.Grammar

/-!
Listings: the cells of a program, each written on a line of its own. A listing is a source
of the same cells, unless a cell is written like a comment. Such a cell comes from a line on
which something that is not written again stands before the `@`: a comma, or the words
before a declaration.
-/
namespace Accumulator

namespace Program

/-- The cells as a source text, each on a line of its own. -/
def listing (cells : List Cell) : String := String.join (cells.map fun cell => cell.text ++ "\n")

theorem listing_eq_sourceOf (cells : List Cell) : listing cells = sourceOf (cells.map Cell.words) := by
  unfold listing sourceOf
  rw [List.map_map]
  exact congrArg String.join (List.map_congr_left fun cell _ => by rw [Cell.text_eq_intercalate]; rfl)

/-! ## Reading cells -/

theorem ofLine_eq_ok_iff {line : SourceLine} {listed : Listed} :
    ofLine line = .ok listed ↔ Cell.ofTokens line.tokens = .ok listed.cell ∧ listed.span = line.span := by
  unfold ofLine
  rw [map_eq_ok_iff]
  constructor
  · rintro ⟨cell, decoded, rfl⟩
    exact ⟨decoded, rfl⟩
  · rintro ⟨decoded, same⟩
    exact ⟨listed.cell, decoded, by rw [← same]⟩

theorem parse_eq_ok_iff {source : String} {p : Program} :
    parse source = .ok p ↔ List.Forall₂ (fun line l => ofLine line = .ok l) (tokenize source) p.lines := by
  rw [← mapM_eq_ok_iff]
  unfold parse ofLines
  rw [map_eq_ok_iff]
  constructor
  · rintro ⟨listed, lines, rfl⟩
    exact lines
  · intro lines
    exact ⟨p.lines, lines, rfl⟩

/-- A source is read as the cells that its lines stand for, one for each in order. -/
theorem parse_cells {source : String} {cells : List Cell} :
    (∃ p, parse source = .ok p ∧ p.cells = cells) ↔
      List.Forall₂ Cell.Written ((tokenize source).map SourceLine.words) cells := by
  simp only [parse_eq_ok_iff, List.forall₂_map_left_iff]
  constructor
  · rintro ⟨p, lines, rfl⟩
    refine List.forall₂_map_right_iff.mpr (lines.imp fun line listed read => ?_)
    exact Cell.ofTokens_eq_ok_iff.mp (ofLine_eq_ok_iff.mp read).1
  · intro written
    generalize tokenize source = lines at written ⊢
    induction written with
    | nil => exact ⟨⟨[]⟩, .nil, rfl⟩
    | @cons line cell lines cells written others ih =>
      obtain ⟨p, rest, rfl⟩ := ih
      have read : ofLine line = .ok ⟨cell, line.span⟩ :=
        ofLine_eq_ok_iff.mpr ⟨Cell.ofTokens_eq_ok_iff.mpr written, rfl⟩
      exact ⟨⟨_ :: p.lines⟩, .cons read rest, rfl⟩

/-! ## Reading a listing -/

theorem exists_line_of_parse {source : String} {p : Program} (parsed : parse source = .ok p) {cell : Cell}
    (member : cell ∈ p.cells) : ∃ line ∈ tokenize source, Cell.Written line.words cell := by
  have lines := parse_cells.mp ⟨p, parsed, rfl⟩
  obtain ⟨index, inside, rfl⟩ := List.getElem_of_mem member
  have listed := lines.length_eq ▸ inside
  obtain ⟨line, read, same⟩ := List.mem_map.mp (List.getElem_mem listed)
  have written := lines.get listed inside
  rw [List.get_eq_getElem, List.get_eq_getElem, ← same] at written
  exact ⟨line, read, written⟩

theorem written_of_parse {source : String} {p : Program} (parsed : parse source = .ok p) :
    ∀ cell ∈ p.cells, IsLine cell.words ∧ Cell.Written cell.words cell := by
  intro cell member
  obtain ⟨line, read, written⟩ := exists_line_of_parse parsed member
  exact ⟨written.isLine (isLine_of_mem_tokenize read), written.again⟩

/-- The listing of a program is read as its cells, but for those that are written like comments. -/
theorem parse_listing {source : String} {p : Program} (parsed : parse source = .ok p) :
    ∃ q, parse (listing p.cells) = .ok q ∧ q.cells = p.cells.filter fun cell => cell.text.toList.head? != some '@' := by
  have written := written_of_parse parsed
  have areLines : ∀ words ∈ p.cells.map Cell.words, IsLine words := by
    rintro words member
    obtain ⟨cell, inside, rfl⟩ := List.mem_map.mp member
    exact (written cell inside).1
  rw [parse_cells, listing_eq_sourceOf, words_tokenize_sourceOf areLines, List.filter_map, List.forall₂_map_left_iff]
  simp only [Function.comp_def, ← Cell.text_eq_intercalate]
  exact List.forall₂_same.mpr fun cell kept => (written cell (List.mem_of_mem_filter kept)).2

theorem ofTokens_text {source : String} {p : Program} (parsed : parse source = .ok p) {cell : Cell}
    (member : cell ∈ p.cells) (offset : Nat) :
    Cell.ofTokens (SourceLine.tokensAt offset cell.text.toList) = .ok cell := by
  obtain ⟨isLine, written⟩ := written_of_parse parsed cell member
  have texts := SourceLine.texts_intercalate isLine.areWords [] (List.forall_mem_nil _) offset
  rw [List.append_nil, ← Cell.text_eq_intercalate] at texts
  rw [Cell.ofTokens_eq_ok_iff, texts]
  exact written

/-- The listing of a program is a source of the same cells just if none of them is written like
    a comment, and the text of each cell by itself is read as that cell. -/
theorem parse_listing_iff {source : String} {p : Program} (parsed : parse source = .ok p) :
    ((∃ q, parse (listing p.cells) = .ok q ∧ q.cells = p.cells) ↔
        ∀ cell ∈ p.cells, cell.text.toList.head? ≠ some '@') ∧
      ∀ cell ∈ p.cells, ∀ offset, Cell.ofTokens (SourceLine.tokensAt offset cell.text.toList) = .ok cell := by
  obtain ⟨q, read, cells⟩ := parse_listing parsed
  refine ⟨?_, fun cell member offset => ofTokens_text parsed member offset⟩
  constructor
  · rintro ⟨r, again, same⟩
    cases read.symm.trans again
    have all := List.filter_eq_self.mp (cells.symm.trans same)
    exact fun cell member => by simpa using all cell member
  · intro visible
    refine ⟨q, read, cells.trans (List.filter_eq_self.mpr ?_)⟩
    exact fun cell member => by simpa using visible cell member

/-- A source with a line of every kind. -/
def everyKind : String := "x, A:\n LDM #b11 \nCMP, A\n+65535\nhello,@"

theorem cells_everyKind : (parse everyKind).toOption.map cells =
    some [.label "A", .instruction (.immediate .ldm 3), .instruction (.compare (.label "A")), .number 65535,
      .raw ["hello", "@"]] := by
  decide +kernel

theorem parse_listing_iff_everyKind :
    ∃ p, parse everyKind = .ok p ∧ ∃ q, parse (listing p.cells) = .ok q ∧ q.cells = p.cells := by
  have read := cells_everyKind
  cases parsed : parse everyKind with
  | error failure =>
    rw [parsed] at read
    cases read
  | ok p =>
    rw [parsed] at read
    have same : p.cells = _ := Option.some.inj read
    refine ⟨p, rfl, (parse_listing_iff parsed).1.mpr ?_⟩
    rw [same]
    decide

/-- Behind a comma or a word `@` is not the start of a comment, but in the listing it is. -/
example : (parse ", @note\nx @y:").toOption.map cells = some [.raw ["@note"], .label "@y"] ∧
    (parse (listing [.raw ["@note"], .label "@y"])).toOption.map cells = some [] := by
  decide +kernel

end Program
end Accumulator
