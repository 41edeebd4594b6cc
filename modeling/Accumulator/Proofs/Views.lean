import Accumulator.View
import Accumulator.Proofs.Listing
import Accumulator.Proofs.Literals
import Accumulator.Proofs.Places
import Accumulator.Proofs.Styles
import Accumulator.Proofs.Survival

/-!
Views: what is shown of the memory loses nothing of it. With the escape sequences taken out, a
view is its heading and then one line for each cell, because no cell of a program without escape
characters holds one or breaks a line, whatever the program has stored since. Each line is read
back: first its address, and behind it the cell, or a number by its numeral in the radix.
-/
namespace Accumulator
open Text

/-! ## Numerals of words -/

theorem Numeral.digits?_append (radix read : Nat) (as bs : List Char) :
    digits? radix read (as ++ bs) = (digits? radix read as).bind (digits? radix · bs) := by
  induction as generalizing read with
  | nil => rfl
  | cons c as ih =>
    rw [List.cons_append, digits?, digits?]
    cases digit? radix c with
    | none => rfl
    | some d => exact ih (read * radix + d)

theorem Numeral.digits?_bit (read : Nat) (bit : Bool) :
    digits? 2 read [if bit then '1' else '0'] = some (read * 2 + bit.toNat) := by
  cases bit <;> rfl

/-- The base of the numerals that words are shown with. -/
def Radix.base : Radix → Nat
  | .decimal => 10
  | .binary => 2

namespace Word

/-- The highest bits of a word, as they are written, stand for the word without the others. -/
theorem digits?_bits (w : Word) {n : Nat} (le : n ≤ 16) :
    Numeral.digits? 2 0 ((List.range n).map fun i => if w.getMsbD i then '1' else '0') =
      some (w.toNat / 2 ^ (16 - n)) := by
  induction n with
  | zero => rw [Nat.div_eq_of_lt w.isLt]; rfl
  | succ n ih =>
    have halves : w.toNat / 2 ^ (16 - n) = w.toNat / 2 ^ (16 - (n + 1)) / 2 := by
      rw [Nat.div_div_eq_div_mul, ← Nat.pow_succ, show (16 - (n + 1)).succ = 16 - n by omega]
    have bit : w.getMsbD n = decide (w.toNat / 2 ^ (16 - (n + 1)) % 2 = 1) := by
      rw [BitVec.getMsbD_eq_getLsbD, decide_eq_true (by omega), Bool.true_and, BitVec.getLsbD,
        Nat.testBit_eq_decide_div_mod_eq, show 16 - 1 - n = 16 - (n + 1) by omega]
    rw [List.range_succ, List.map_append, Numeral.digits?_append, ih (by omega), halves, List.map_singleton, bit,
      Option.bind_some, Numeral.digits?_bit]
    -- The bit that is read next is the one that halving drops.
    generalize w.toNat / 2 ^ (16 - (n + 1)) = v
    by_cases odd : v % 2 = 1
    · simp [odd]
      omega
    · simp [odd]
      omega

theorem mem_bits {w : Word} {c : Char} (member : c ∈ w.bits.toList) : c = '0' ∨ c = '1' := by
  rw [bits, String.toList_ofList] at member
  obtain ⟨i, -, rfl⟩ := List.mem_map.mp member
  cases w.getMsbD i
  · exact .inl rfl
  · exact .inr rfl

theorem ofLiteral?_toNat (w : Word) : ofLiteral? w.toNat = some w := by
  have small := w.isLt
  unfold ofLiteral? literalMin literalMax
  rw [if_pos (by omega), BitVec.ofInt_natCast, BitVec.ofNat_toNat, BitVec.setWidth_eq]

end Word

/-- The word that a numeral of the radix stands for. -/
def Literal.wordIn? (radix : Radix) (text : String) : Option Word :=
  (number? radix.base text.toList).bind Word.ofLiteral?

theorem Literal.number?_bits (w : Word) : number? 2 w.bits.toList = some (w.toNat : Int) := by
  have small := w.isLt
  have digits := w.digits?_bits (le_refl 16)
  rw [show 16 - 16 = 0 from rfl, Nat.pow_zero, Nat.div_one] at digits
  have natural : Numeral.natural? 2 w.bits.toList = some w.toNat := by
    rw [Word.bits, String.toList_ofList, Numeral.natural?, if_neg (by simp), digits]
  have stands := (Numeral.natural?_eq_some_iff (by decide)).mp natural
  rw [number?, (Numeral.signed?_eq_some_iff (by decide)).mpr (.bare stands), Option.filter_some,
    if_pos (by simp; omega)]

/-- A word is read back from its numeral, also where that is the pattern of a negative number. -/
theorem Literal.wordIn?_text (radix : Radix) (w : Word) : wordIn? radix (w.text radix) = some w := by
  cases radix with
  | decimal => exact data?_decimal w
  | binary => exact (congrArg (·.bind Word.ofLiteral?) (number?_bits w)).trans w.ofLiteral?_toNat

/-! ## Words without escape characters -/

/-- The text is a word, and a terminal shows it as it is. -/
structure IsClear (text : String) : Prop extends IsWord text where
  plain : Escape.mark ∉ text.toList

theorem Numeral.isClear_toString (i : Int) : IsClear (toString i) := by
  refine ⟨(isWord_toString i).1, fun escaped => ?_⟩
  rcases mem_toString escaped with digit | sign
  · exact absurd digit (by decide)
  · exact absurd sign (by decide)

theorem Word.isClear_text (radix : Radix) (w : Word) : IsClear (w.text radix) := by
  cases radix with
  | decimal => exact Numeral.isClear_toString w.toInt
  | binary =>
    refine ⟨⟨by simp [text, bits], fun c member => ?_⟩, fun escaped => ?_⟩
    · rcases mem_bits member with rfl | rfl <;> decide
    · rcases mem_bits escaped with zero | one
      · exact absurd zero (by decide)
      · exact absurd one (by decide)

theorem Word.isClear_hash (w : Word) : IsClear ("#" ++ w.decimal) := by
  refine ⟨(Literal.isWord_hash_decimal w).1, ?_⟩
  rw [Literal.toList_hash, List.mem_cons, not_or]
  exact ⟨by decide, (w.isClear_text .decimal).plain⟩

namespace Cell

/-- The words that the cell is shown with, a number in the radix. -/
def wordsIn (radix : Radix) : Cell → List String
  | number value => [value.text radix]
  | cell => cell.words

theorem textIn_eq_intercalate (radix : Radix) (cell : Cell) : cell.textIn radix = " ".intercalate (cell.wordsIn radix) := by
  cases cell with
  | number value => rfl
  | instruction i => exact text_eq_intercalate (.instruction i)
  | label name => exact text_eq_intercalate (.label name)
  | raw words => exact text_eq_intercalate (.raw words)

/-- The words of a cell are all clear, and they stand for the cell. -/
structure IsClear (cell : Cell) : Prop where
  areClear : ∀ w ∈ cell.words, Accumulator.IsClear w
  written : Written cell.words cell

theorem isClear_number (w : Word) : (number w).IsClear where
  areClear := List.forall_mem_singleton.mpr (w.isClear_text .decimal)
  written := .number (declared?_eq_none w.isWord_decimal.2) (Literal.data?_decimal w)

theorem IsClear.areClearIn {cell : Cell} (clear : cell.IsClear) (radix : Radix) :
    ∀ w ∈ cell.wordsIn radix, Accumulator.IsClear w := by
  cases cell with
  | number value => exact List.forall_mem_singleton.mpr (value.isClear_text radix)
  | instruction | label | raw => exact clear.areClear

end Cell

theorem SourceLine.mem_of_mem_runs {line : List Char} {word : String} (member : word ∈ runs line) {c : Char}
    (inside : c ∈ word.toList) : c ∈ line := by
  induction line using runs_induction with
  | nil => simp [runs] at member
  | separator d rest separates ih =>
    rw [runs_separator separates] at member
    exact List.mem_cons_of_mem d (ih member)
  | run first rest isWord cut ih =>
    rw [runs_word isWord cut] at member
    rcases List.mem_cons.mp member with rfl | later
    · exact List.mem_append_left rest inside
    · exact List.mem_append_right _ (ih later)

/-- The words of the lines of a source are made of its characters. -/
theorem mem_of_mem_words {source : String} {line : SourceLine} (member : line ∈ tokenize source) {word : String}
    (inside : word ∈ line.words) {c : Char} (shown : c ∈ word.toList) : c ∈ source.toList := by
  obtain ⟨left, text, right, whole, isLine⟩ := SourceLine.exists_line_of_mem_tokenize member
  rw [isLine.entry_eq, SourceLine.words, SourceLine.texts_tokensAt] at inside
  rw [whole]
  exact List.mem_append_right left (List.mem_append_left right (SourceLine.mem_of_mem_runs inside shown))

namespace Program

theorem isClear_of_parse {source : String} {p : Program} (parsed : parse source = .ok p)
    (plain : Escape.mark ∉ source.toList) : ∀ cell ∈ p.cells, cell.IsClear := by
  intro cell member
  obtain ⟨isLine, again⟩ := written_of_parse parsed cell member
  obtain ⟨line, read, written⟩ := exists_line_of_parse parsed member
  refine ⟨fun w inside => ?_, again⟩
  rcases written.mem_words w inside with same | ⟨value, rfl | rfl⟩
  · exact ⟨isLine.areWords w inside, fun escaped => plain (mem_of_mem_words read same escaped)⟩
  · exact value.isClear_text .decimal
  · exact value.isClear_hash

end Program

/-! ## Lines of views -/

/-- The text of a clear cell does not break its line, and a terminal shows it as it is. -/
theorem Cell.IsClear.textIn {cell : Cell} (clear : cell.IsClear) (radix : Radix) :
    Escape.mark ∉ (cell.textIn radix).toList ∧ '\n' ∉ (cell.textIn radix).toList := by
  have areClear := clear.areClearIn radix
  rw [textIn_eq_intercalate]
  exact ⟨SourceLine.not_mem_intercalate (by decide) fun w member => (areClear w member).plain,
    SourceLine.not_mem_intercalate (by decide) fun w member => (areClear w member).not_mem_of_isSeparator rfl⟩

namespace View

/-- In the listing of a program, all but declarations are indented. -/
def indent : Cell → String
  | .label _ => ""
  | _ => "  "

/-- The line that shows a text at an address, which is padded to a width of four. -/
def line (address : Nat) (text : String) : String := padLeft 4 (toString address) ++ "  " ++ text

theorem toList_line (address : Nat) (text : String) : (line address text).toList =
    List.replicate (4 - (toString address).length) ' ' ++ ((toString address).toList ++ ([' ', ' '] ++ text.toList)) := by
  simp [line, padLeft]

theorem not_mem_padLeft {c : Char} (solid : c ≠ ' ') {width : Nat} {text : String} (absent : c ∉ text.toList) :
    c ∉ (padLeft width text).toList := by
  simp only [padLeft, String.toList_append, String.toList_ofList, List.mem_append, List.mem_replicate, not_or]
  exact ⟨fun blank => solid blank.2, absent⟩

theorem newline_not_mem_line (address : Nat) {text : String} (unbroken : '\n' ∉ text.toList) :
    '\n' ∉ (line address text).toList := by
  have digits : '\n' ∉ (toString address).toList := (Numeral.isClear_toString address).not_mem_of_isSeparator rfl
  simp only [line, String.toList_append, List.mem_append, not_or]
  exact ⟨⟨not_mem_padLeft (by decide) digits, by decide⟩, unbroken⟩

/-- What is visible of a line with its address. -/
theorem visible_addressed {address : Nat} {text : String} (plain : Escape.mark ∉ text.toList) (rest : List Char) :
    Escape.visible ((addressed address text).toList ++ rest) =
      (line address text).toList ++ ['\n'] ++ Escape.visible rest := by
  have dim : Escape.mark ∉ (padLeft 4 (toString address)).toList :=
    not_mem_padLeft (by decide) (Numeral.isClear_toString address).plain
  have behind : Escape.mark ∉ ("  " ++ text ++ "\n").toList := by
    simp only [String.toList_append, List.mem_append, not_or]
    exact ⟨⟨by decide, plain⟩, by decide⟩
  rw [addressed, String.append_assoc, String.append_assoc, String.toList_append, List.append_assoc,
    ← String.append_assoc, Escape.visible_wrap (by decide) dim, Escape.visible_append behind]
  simp [line]

theorem visible_heading {title : String} (plain : Escape.mark ∉ title.toList) (rest : List Char) :
    Escape.visible ((heading title "").toList ++ rest) = (title ++ ":").toList ++ ['\n'] ++ Escape.visible rest := by
  have bold : Escape.mark ∉ (title ++ ":").toList := by
    rw [String.toList_append, List.mem_append, not_or]
    exact ⟨plain, by decide⟩
  have behind : Escape.mark ∉ ("" ++ "\n").toList := by decide
  rw [heading, String.append_assoc, String.toList_append, List.append_assoc, Escape.visible_wrap (by decide) bold,
    Escape.visible_append behind, List.append_assoc]
  rfl

/-- What is visible of a view is its heading and one line for each entry, each with its newline. -/
theorem visible_view {title : String} (titled : Escape.mark ∉ title.toList) (text : Cell → String)
    {entries : List (Cell × Nat)} (plain : ∀ entry ∈ entries, Escape.mark ∉ (text entry.1).toList) :
    Escape.visible (heading title "" ++ String.join (entries.map fun e => addressed e.2 (text e.1))).toList =
      ((title ++ ":").toList :: entries.map fun e => (line e.2 (text e.1)).toList).flatMap (· ++ ['\n']) := by
  have lines : Escape.visible (String.join (entries.map fun e => addressed e.2 (text e.1))).toList =
      (entries.map fun e => (line e.2 (text e.1)).toList).flatMap (· ++ ['\n']) := by
    induction entries with
    | nil => rfl
    | cons entry entries ih =>
      rw [List.forall_mem_cons] at plain
      rw [List.map_cons, String.join_cons, String.toList_append, visible_addressed plain.1, ih plain.2]
      rfl
  rw [String.toList_append, visible_heading titled, lines]
  rfl

/-! ## Reading lines -/

/-- The address that a line begins with. -/
def address? (line : List Char) : Option Nat :=
  (SourceLine.runs line).head?.bind fun word => Numeral.natural? 10 word.toList

/-- The number of a line that shows nothing else at its address. -/
def number? (radix : Radix) (line : List Char) : Option Word :=
  match SourceLine.runs line with
  | [_, numeral] => Literal.wordIn? radix numeral
  | _ => none

/-- The cell that the words behind the address of a line stand for in a source. -/
def cell? (line : List Char) : Option Cell := (Cell.ofTokens (SourceLine.tokensAt 0 line).tail).toOption

theorem runs_blanks {blanks : List Char} (separate : ∀ c ∈ blanks, SourceLine.isSeparator c = true) (rest : List Char) :
    SourceLine.runs (blanks ++ rest) = SourceLine.runs rest := by
  induction blanks with
  | nil => rfl
  | cons c blanks ih =>
    rw [List.forall_mem_cons] at separate
    rw [List.cons_append, SourceLine.runs_separator separate.1, ih separate.2]

/-- A line is cut into its address and the words behind it. -/
theorem runs_line (address : Nat) {words : List String} (areWords : ∀ w ∈ words, IsWord w) {indent : String}
    (blank : ∀ c ∈ indent.toList, SourceLine.isSeparator c = true) :
    SourceLine.runs ((line address (indent ++ " ".intercalate words)).toList ++ ['\n']) = toString address :: words := by
  have blanks (n : Nat) : ∀ c ∈ List.replicate n ' ', SourceLine.isSeparator c = true := by
    intro c member
    rw [List.eq_of_mem_replicate member]
    rfl
  have between : ∀ c ∈ [' ', ' '], SourceLine.isSeparator c = true := blanks 2
  have isWord : IsWord (toString address) := (Numeral.isClear_toString address).toIsWord
  have texts := SourceLine.texts_intercalate areWords ['\n'] (List.forall_mem_singleton.mpr rfl) 0
  rw [SourceLine.texts_tokensAt] at texts
  rw [toList_line, String.toList_append, List.append_assoc, runs_blanks (blanks _), List.append_assoc,
    SourceLine.runs_word isWord (fun c first => by cases first; rfl), List.append_assoc,
    runs_blanks between, List.append_assoc, runs_blanks blank, texts]

/-- The line shows the cell at the address. It says so in this form, the address is read back from
    it, a number is read back by its numeral, and in decimal all that a cell can be is. -/
structure Shows (radix : Radix) (indent : Cell → String) (line : List Char) (address : Nat) (cell : Cell) : Prop where
  form : line = (padLeft 4 (toString address) ++ "  " ++ indent cell ++ cell.textIn radix ++ "\n").toList
  address : address? line = some address
  number : ∀ w, cell = .number w → number? radix line = some w
  cell : radix = .decimal → cell? line = some cell

theorem shows_line (radix : Radix) {indent : Cell → String} {cell : Cell} (clear : cell.IsClear)
    (blank : ∀ c ∈ (indent cell).toList, SourceLine.isSeparator c = true) (address : Nat) :
    Shows radix indent ((line address (indent cell ++ cell.textIn radix)).toList ++ ['\n']) address cell := by
  have runs := runs_line address (fun w member => (clear.areClearIn radix w member).toIsWord) blank
  rw [← Cell.textIn_eq_intercalate] at runs
  refine ⟨?form, ?address, ?number, ?decoded⟩
  case form => simp [line]
  case address =>
    rw [address?, runs]
    exact Numeral.natural?_toString address
  case number =>
    rintro w rfl
    rw [number?, runs]
    exact Literal.wordIn?_text radix w
  case decoded =>
    rintro rfl
    have words : cell.wordsIn .decimal = cell.words := by cases cell <;> rfl
    rw [← SourceLine.texts_tokensAt 0, words] at runs
    have tail := congrArg List.tail runs
    rw [← List.map_tail, List.tail_cons] at tail
    rw [cell?, Cell.ofTokens_eq_ok_iff.mpr (tail ▸ clear.written)]
    rfl

-- In binary a word that is beyond all numbers of a source is shown like a number.
example : Cell.ofTokens (SourceLine.tokensAt 0 "1111111111111111".toList) = .ok (.raw ["1111111111111111"]) ∧
    (Cell.raw ["1111111111111111"]).textIn .binary = (Cell.number (-1)).textIn .binary := by decide +kernel

end View

/-! ## Views -/

namespace Store
open View

/-- What is visible of the view is its heading and then one line for each cell from an address on,
    in the order of their addresses. -/
def ListedIn (s : Store) (view title : String) (radix : Radix) (indent : Cell → String) (start : Nat) : Prop :=
  ∃ lines, cutAfter '\n' (Escape.strip view).toList = (title ++ ":\n").toList :: lines ∧
    start + lines.length = s.size ∧
    ∀ address cell, start ≤ address → s.get? address = some cell →
      ∃ line, lines[address - start]? = some line ∧ Shows radix indent line address cell

/-- The data begin behind the first `END`, or with the memory where it has none. -/
inductive DataFrom (s : Store) : Nat → Prop
  | behind {a : Nat} (found : s.get? a = some (.instruction (.plain .stop)))
      (first : ∀ b < a, s.get? b ≠ some (.instruction (.plain .stop))) : DataFrom s (a + 1)
  | all (absent : ∀ a, s.get? a ≠ some (.instruction (.plain .stop))) : DataFrom s 0

theorem dataFrom_dataStart (s : Store) : s.DataFrom s.dataStart := by
  have at_index (a : Nat) : s.cells.toList[a]? = s.get? a := Array.getElem?_toList
  unfold dataStart
  cases found : s.cells.toList.findIdx? (· = .instruction (.plain .stop)) with
  | none =>
    refine .all fun a stop => ?_
    have others := List.findIdx?_eq_none_iff.mp found _ (List.mem_of_getElem? ((at_index a).trans stop))
    simp at others
  | some index =>
    obtain ⟨inside, stop, others⟩ := List.findIdx?_eq_some_iff_getElem.mp found
    refine .behind ?_ fun b before stop => ?_
    · rw [← at_index, List.getElem?_eq_getElem inside, of_decide_eq_true stop]
    · rw [← at_index, List.getElem?_eq_getElem (Nat.lt_trans before inside)] at stop
      exact others b before (decide_eq_true (Option.some.inj stop))

theorem DataFrom.le_size {s : Store} {start : Nat} (data : s.DataFrom start) : start ≤ s.size := by
  cases data with
  | behind found first => exact lt_size_of_get? found
  | all absent => exact Nat.zero_le _

/-- There is one place where the data begin. -/
theorem DataFrom.unique {s : Store} {start other : Nat} (data : s.DataFrom start) (also : s.DataFrom other) :
    start = other := by
  cases data with
  | all absent =>
    cases also with
    | all => rfl
    | behind found => exact absurd found (absent _)
  | @behind a found first =>
    cases also with
    | all absent => exact absurd found (absent _)
    | @behind b stop others =>
      have le : b ≤ a := Nat.le_of_not_lt fun before => others a before found
      have ge : a ≤ b := Nat.le_of_not_lt fun before => first b before stop
      rw [Nat.le_antisymm le ge]

theorem getElem?_drop_entries (s : Store) (start i : Nat) :
    (s.entries.drop start)[i]? = (s.get? (start + i)).map fun cell => (cell, start + i) := by
  rw [List.getElem?_drop, entries, List.getElem?_zipIdx, Array.getElem?_toList, get?, Nat.zero_add]

/-- A view of clear cells is listed, whatever its heading and its indentation. -/
theorem listedIn_of_isClear {s : Store} (clear : ∀ address cell, s.get? address = some cell → cell.IsClear)
    (radix : Radix) (indent : Cell → String) (blank : ∀ cell, ∀ c ∈ (indent cell).toList, c = ' ') {title : String}
    (titled : Escape.mark ∉ title.toList) (unbroken : '\n' ∉ (title ++ ":").toList) {start : Nat}
    (inside : start ≤ s.size) :
    s.ListedIn (heading title "" ++ String.join ((s.entries.drop start).map fun e =>
      addressed e.2 (indent e.1 ++ e.1.textIn radix))) title radix indent start := by
  have clearAt : ∀ e ∈ s.entries.drop start, e.1.IsClear := fun e member =>
    clear e.2 e.1 (mem_entries.mp (List.mem_of_mem_drop member))
  have absent {mark : Char} (visible : mark ≠ ' ') {cell : Cell} (unmarked : mark ∉ (cell.textIn radix).toList) :
      mark ∉ (indent cell ++ cell.textIn radix).toList := by
    rw [String.toList_append, List.mem_append, not_or]
    exact ⟨fun blanked => visible (blank cell mark blanked), unmarked⟩
  have plain : ∀ e ∈ s.entries.drop start, Escape.mark ∉ (indent e.1 ++ e.1.textIn radix).toList := fun e member =>
    absent (by decide) ((clearAt e member).textIn radix).1
  refine ⟨(s.entries.drop start).map fun e => (line e.2 (indent e.1 ++ e.1.textIn radix)).toList ++ ['\n'],
    ?cut, ?count, ?shown⟩
  case cut =>
    rw [Escape.strip, String.toList_ofList, visible_view titled (fun cell => indent cell ++ cell.textIn radix) plain,
      cutAfter_lines, List.map_cons, List.map_map]
    · simp [Function.comp_def]
    · refine List.forall_mem_cons.mpr ⟨unbroken, fun line member => ?_⟩
      obtain ⟨e, listed, rfl⟩ := List.mem_map.mp member
      exact newline_not_mem_line e.2 (absent (by decide) ((clearAt e listed).textIn radix).2)
  case count =>
    have total : s.entries.length = s.size := by simp [entries, size]
    rw [List.length_map, List.length_drop, total]
    omega
  case shown =>
    intro address cell from_start found
    refine ⟨_, ?_, shows_line radix (clear address cell found) (fun c member => ?_) address⟩
    · rw [List.getElem?_map, getElem?_drop_entries, Nat.add_sub_of_le from_start, found]
      rfl
    · rw [blank cell c member]
      rfl

theorem programView_eq (s : Store) : s.programView = heading "Program" "" ++
    String.join ((s.entries.drop 0).map fun e => addressed e.2 (indent e.1 ++ e.1.textIn .decimal)) := by
  have listed_eq (cell : Cell) : listed cell = indent cell ++ cell.textIn .decimal := by
    cases cell with
    | label name => exact String.empty_append.symm
    | instruction | number | raw => rfl
  simp only [programView, listed_eq, List.drop_zero]

theorem memoryView_eq (s : Store) (radix : Radix) : s.memoryView radix = heading "Memory" "" ++
    String.join ((s.entries.drop s.dataStart).map fun e => addressed e.2 ("" ++ e.1.textIn radix)) := by
  simp only [memoryView, String.empty_append]

end Store

/-- The memory that a program starts with, and what any calls make of it. -/
inductive Program.Reaches (p : Program) : Store → Prop
  | start : p.Reaches p.store
  | calls {s : Session} (accepted : Machine.ofProgram p = .ok s.machine) (calls : List Call) :
      p.Reaches (s.calls calls).machine.store

/-- What a program without escape characters reaches can be shown. -/
theorem Program.Reaches.isClear {source : String} {p : Program} {store : Store} (reached : p.Reaches store)
    (parsed : parse source = .ok p) (plain : Escape.mark ∉ source.toList) {address : Nat} {cell : Cell}
    (found : store.get? address = some cell) : cell.IsClear := by
  have old (found : p.store.get? address = some cell) : cell.IsClear := by
    rw [Program.store, Store.get?_ofList] at found
    exact isClear_of_parse parsed plain cell (List.mem_of_getElem? found)
  cases reached with
  | start => exact old found
  | calls accepted calls =>
    rcases Session.leaves_calls accepted calls address cell found with ⟨w, rfl⟩ | left
    · exact Cell.isClear_number w
    · exact old left

/-- The numbers that are read from the lines of a view, in order. -/
def View.numbers (radix : Radix) (view : String) : List (Option Word) :=
  (cutAfter '\n' (Escape.strip view).toList).tail.map (number? radix)

theorem Store.ListedIn.numbers {s : Store} {view title : String} {radix : Radix} {indent : Cell → String} {start : Nat}
    (listed : s.ListedIn view title radix indent start) {address : Nat} {w : Word} (from_start : start ≤ address)
    (found : s.get? address = some (.number w)) : (View.numbers radix view)[address - start]? = some (some w) := by
  obtain ⟨lines, cut, -, shown⟩ := listed
  obtain ⟨line, at_address, shows⟩ := shown address _ from_start found
  rw [View.numbers, cut, List.tail_cons, List.getElem?_map, at_address, ← shows.number w rfl]
  rfl

/-- The views of whatever memory a program reaches lose nothing, if its source has no escape
    characters. The listing has one line for each cell, the view of the data one for each cell
    behind the first `END` that there is then, in order. Each line tells its address and cell, and
    in both radixes its number, so that the two views of the data agree on all numbers. -/
theorem Program.views_exact {source : String} (plain : Escape.mark ∉ source.toList) {p : Program}
    (parsed : parse source = .ok p) {store : Store} (reached : p.Reaches store) :
    store.ListedIn store.programView "Program" .decimal View.indent 0 ∧
      ∃ start, (∀ other, store.DataFrom other ↔ other = start) ∧
        (∀ radix, store.ListedIn (store.memoryView radix) "Memory" radix (fun _ => "") start) ∧
        ∀ address w, start ≤ address → store.get? address = some (.number w) →
          ∀ radix, (View.numbers radix (store.memoryView radix))[address - start]? = some (some w) := by
  have clear : ∀ address cell, store.get? address = some cell → cell.IsClear := fun address cell =>
    reached.isClear parsed plain
  have data := store.dataFrom_dataStart
  have listed (radix : Radix) : store.ListedIn (store.memoryView radix) "Memory" radix (fun _ => "") store.dataStart := by
    rw [Store.memoryView_eq]
    exact Store.listedIn_of_isClear clear radix (fun _ => "") (by simp) (by decide) (by decide) data.le_size
  refine ⟨?program, store.dataStart, fun other => ⟨fun also => also.unique data, fun same => same ▸ data⟩, listed,
    ?numbers⟩
  case program =>
    rw [Store.programView_eq]
    refine Store.listedIn_of_isClear clear .decimal View.indent (fun cell => ?_) (by decide) (by decide) (Nat.zero_le _)
    cases cell <;> simp [View.indent]
  case numbers =>
    intro address w from_start found radix
    exact (listed radix).numbers from_start found

/-- A program that stores over its only `END`. -/
def Program.unending : Program :=
  ⟨[⟨.instruction (.immediate .ldm (-1)), Span.clamp 0 7⟩, ⟨.instruction (.label .sto "A"), Span.clamp 8 5⟩,
    ⟨.label "A", Span.clamp 14 2⟩, ⟨.instruction (.plain .stop), Span.clamp 17 3⟩, ⟨.raw ["hi"], Span.clamp 21 2⟩,
    ⟨.number (-2), Span.clamp 24 2⟩]⟩

/-- A session over it. -/
def Program.unendingSession : Session where
  machine := ⟨unending.store, ⟨[("A", 2)], []⟩, {}⟩
  channel := .buffer [] ""

theorem Program.views_exact_unending :
    let store := (unendingSession.calls [.run 2]).machine.store
    parse "LDM #-1\nSTO A\nA:\nEND\nhi\n-2" = .ok unending ∧ unending.store.DataFrom 4 ∧ store.DataFrom 0 ∧
      ∀ radix, (View.numbers radix (store.memoryView radix))[3]? = some (some (-1 : Word)) ∧
        (View.numbers radix (store.memoryView radix))[5]? = some (some (-2 : Word)) := by
  intro store
  have plain : Escape.mark ∉ "LDM #-1\nSTO A\nA:\nEND\nhi\n-2".toList := by decide
  have parsed : parse "LDM #-1\nSTO A\nA:\nEND\nhi\n-2" = .ok unending := by decide +kernel
  have accepted : Machine.ofProgram unending = .ok unendingSession.machine := by rfl
  obtain ⟨-, start, exact_start, -, numbers⟩ := views_exact plain parsed (.calls accepted [.run 2])
  have moved : store.DataFrom 0 := store.dataFrom_dataStart
  obtain rfl := (exact_start 0).mp moved
  have stored : store.get? 3 = some (.number (-1)) := by rfl
  have declared : store.get? 5 = some (.number (-2)) := by rfl
  exact ⟨parsed, unending.store.dataFrom_dataStart, moved, fun radix =>
    ⟨numbers 3 (-1) (Nat.zero_le 3) stored radix, numbers 5 (-2) (Nat.zero_le 5) declared radix⟩⟩

end Accumulator
