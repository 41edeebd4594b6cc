import Accumulator.Token
import Mathlib.Data.List.TakeWhile

/-!
Tokens: what lines are cut into. Every token is a word, a text that can stand between
separators, and words with a space after each but the last are cut into just those words.
A text of lines is cut into those lines, and only a line that begins with `@` is a comment.
-/
namespace Accumulator
open Text

/-- The text can be a token: it is not empty, and no character of it separates. -/
structure IsWord (text : String) : Prop where
  ne_nil : text.toList ≠ []
  solid : ∀ c ∈ text.toList, SourceLine.isSeparator c = false

theorem IsWord.not_mem_of_isSeparator {text : String} (isWord : IsWord text) {c : Char}
    (separates : SourceLine.isSeparator c = true) : c ∉ text.toList := fun member => by
  rw [isWord.solid c member] at separates
  cases separates

/-- The words can stand on a line of their own. -/
structure IsLine (words : List String) : Prop where
  ne_nil : words ≠ []
  areWords : ∀ w ∈ words, IsWord w

theorem toList_intercalate_cons (word next : String) (words : List String) :
    (" ".intercalate (word :: next :: words)).toList =
      word.toList ++ ' ' :: (" ".intercalate (next :: words)).toList := by
  simp [String.toList_intercalate]

namespace SourceLine

/-! ## Cutting a line into tokens -/

theorem tokensAt_eq_nil {cs : List Char} (blank : cs.dropWhile isSeparator = []) (offset : Nat) :
    tokensAt offset cs = [] := by
  unfold tokensAt
  split
  · rfl
  · rename_i shown
    rw [blank] at shown
    cases shown

theorem tokensAt_nil (offset : Nat) : tokensAt offset [] = [] := tokensAt_eq_nil rfl offset

theorem tokensAt_eq_cons {cs rest : List Char} {c : Char} (left : cs.dropWhile isSeparator = c :: rest) (offset : Nat) :
    tokensAt offset cs =
      let start := offset + byteSize (cs.takeWhile isSeparator)
      let word := c :: rest.takeWhile (!isSeparator ·)
      ⟨String.ofList word, Span.clamp start (byteSize word)⟩ ::
        tokensAt (start + byteSize word) (rest.dropWhile (!isSeparator ·)) := by
  rw [tokensAt]
  split
  · rename_i shown
    rw [left] at shown
    cases shown
  · rename_i shown
    rw [left] at shown
    cases shown
    rfl

theorem tokensAt_eq_nil_iff {offset : Nat} {cs : List Char} :
    tokensAt offset cs = [] ↔ ∀ c ∈ cs, isSeparator c = true := by
  refine ⟨fun none_left => ?_, fun separate => tokensAt_eq_nil (List.dropWhile_eq_nil_iff.mpr separate) offset⟩
  cases left : cs.dropWhile isSeparator with
  | nil => exact List.dropWhile_eq_nil_iff.mp left
  | cons c rest => rw [tokensAt_eq_cons left] at none_left; cases none_left

theorem tokensAt_separator {c : Char} (separates : isSeparator c = true) (offset : Nat) (rest : List Char) :
    tokensAt offset (c :: rest) = tokensAt (offset + c.utf8Size) rest := by
  have dropped : (c :: rest).dropWhile isSeparator = rest.dropWhile isSeparator := List.dropWhile_cons_of_pos separates
  cases left : rest.dropWhile isSeparator with
  | nil => rw [tokensAt_eq_nil (dropped.trans left), tokensAt_eq_nil left]
  | cons d later =>
    rw [tokensAt_eq_cons (dropped.trans left), tokensAt_eq_cons left, List.takeWhile_cons_of_pos separates]
    simp only [byteSize, List.foldr_cons, Nat.add_assoc]

theorem tokensAt_word {word : String} (isWord : IsWord word) {rest : List Char}
    (cut : ∀ c ∈ rest.head?, isSeparator c = true) (offset : Nat) :
    tokensAt offset (word.toList ++ rest) =
      ⟨word, Span.clamp offset (byteSize word.toList)⟩ :: tokensAt (offset + byteSize word.toList) rest := by
  obtain ⟨nonempty, solid⟩ := isWord
  obtain ⟨c, cs, text⟩ := List.exists_cons_of_ne_nil nonempty
  have same : word = String.ofList (c :: cs) := by rw [← text, String.ofList_toList]
  rw [text] at solid ⊢
  have first : ¬ isSeparator c = true := by simp [solid c List.mem_cons_self]
  have inner : ∀ d ∈ cs, (!isSeparator d) = true := fun d member => by
    simp [solid d (List.mem_cons_of_mem c member)]
  have stops : rest.takeWhile (!isSeparator ·) = [] ∧ rest.dropWhile (!isSeparator ·) = rest := by
    cases rest with
    | nil => exact ⟨rfl, rfl⟩
    | cons d later =>
      have separates : ¬ (!isSeparator d) = true := by simp [cut d rfl]
      exact ⟨List.takeWhile_cons_of_neg separates, List.dropWhile_cons_of_neg separates⟩
  rw [List.cons_append, tokensAt_eq_cons (List.dropWhile_cons_of_neg first), List.takeWhile_cons_of_neg first]
  simp only [List.takeWhile_append_of_pos inner, List.dropWhile_append_of_pos inner, stops.1, stops.2,
    List.append_nil, ← same]
  rfl

theorem isWord_takeWhile {c : Char} (solid : isSeparator c = false) (rest : List Char) :
    IsWord (String.ofList (c :: rest.takeWhile (!isSeparator ·))) := by
  refine ⟨by simp, fun d inside => ?_⟩
  rw [String.toList_ofList] at inside
  rcases List.mem_cons.mp inside with rfl | inner
  · exact solid
  · simpa using List.all_eq_true.mp List.all_takeWhile d inner

theorem isWord_of_mem_tokensAt {offset : Nat} {cs : List Char} {token : Token} (member : token ∈ tokensAt offset cs) :
    IsWord token.text := by
  induction offset, cs using tokensAt.induct with
  | case1 offset cs blank =>
    rw [tokensAt_eq_nil blank] at member
    cases member
  | case2 offset cs c rest left start word ih =>
    -- Where dropping separators stops, there is none.
    have solid := List.head?_dropWhile_not isSeparator cs
    rw [left] at solid
    rw [tokensAt_eq_cons left] at member
    rcases List.mem_cons.mp member with same | later
    · rw [same]
      exact isWord_takeWhile solid rest
    · exact ih later

/-- Words that are put together with spaces are cut into the same words, wherever they stand
    and whatever separators follow them. -/
theorem texts_intercalate {words : List String} (areWords : ∀ w ∈ words, IsWord w) (blanks : List Char)
    (separate : ∀ c ∈ blanks, isSeparator c = true) (offset : Nat) :
    (tokensAt offset ((" ".intercalate words).toList ++ blanks)).map Token.text = words := by
  induction words generalizing offset with
  | nil =>
    rw [show (" ".intercalate []).toList = [] from rfl, List.nil_append]
    rw [tokensAt_eq_nil (List.dropWhile_eq_nil_iff.mpr separate)]
    rfl
  | cons word words ih =>
    have isWord := areWords word List.mem_cons_self
    have others : ∀ w ∈ words, IsWord w := fun w later => areWords w (List.mem_cons_of_mem word later)
    cases words with
    | nil =>
      have cut : ∀ c ∈ blanks.head?, isSeparator c = true := fun c first => separate c (List.mem_of_head? first)
      have ends := ih others (offset + byteSize word.toList)
      rw [show " ".intercalate [word] = word from rfl, tokensAt_word isWord cut, List.map_cons]
      exact congrArg _ ends
    | cons next words =>
      have cut : ∀ c ∈ (' ' :: ((" ".intercalate (next :: words)).toList ++ blanks)).head?, isSeparator c = true :=
        fun c first => by rw [← Option.mem_some.mp first]; rfl
      rw [toList_intercalate_cons, List.append_assoc, List.cons_append, tokensAt_word isWord cut, List.map_cons,
        tokensAt_separator rfl]
      exact congrArg _ (ih others _)

/-! ## Lines that are read -/

/-- The line is read: it is no comment, a line whose first character that is not blank is
    `@`, and some character of it does not separate. -/
def IsRead (line : List Char) : Prop :=
  line.find? (!isBlank ·) ≠ some '@' ∧ ∃ c ∈ line, isSeparator c = false

instance : DecidablePred IsRead := fun _ => inferInstanceAs (Decidable (_ ∧ _))

theorem isComment_iff {line : List Char} : isComment line = true ↔ line.find? (!isBlank ·) = some '@' := by
  rw [isComment, trimStart, List.find?_eq_head?_dropWhile_not, beq_iff_eq]
  simp only [Bool.not_not]

/-- What a line with the number and the first byte is read as: an entry, or nothing. -/
def reading (number offset : Nat) (line : List Char) : List SourceLine :=
  if IsRead line then [⟨number, tokensAt offset line⟩] else []

theorem mem_reading {number offset : Nat} {line : List Char} {entry : SourceLine} :
    entry ∈ reading number offset line ↔ IsRead line ∧ entry = ⟨number, tokensAt offset line⟩ := by
  rw [reading]
  split
  · rename_i read
    rw [List.mem_singleton]
    exact (and_iff_right read).symm
  · rename_i unread
    exact ⟨fun member => (by cases member), fun shown => absurd shown.1 unread⟩

theorem fromLines_cons (number offset : Nat) (raw : List Char) (raws : List (List Char)) :
    fromLines number offset (raw :: raws) =
      reading number offset raw ++ fromLines (number + 1) (offset + byteSize raw) raws := by
  rw [fromLines]
  by_cases comment : isComment raw = true
  · rw [if_pos comment, reading, if_neg fun read => read.1 (isComment_iff.mp comment), List.nil_append]
  · rw [if_neg comment]
    split
    · rename_i none_left
      have blank : ¬ IsRead raw := fun ⟨_, c, member, solid⟩ => by
        rw [tokensAt_eq_nil_iff.mp none_left c member] at solid
        cases solid
      rw [reading, if_neg blank, List.nil_append]
    · rename_i some_token
      have read : IsRead raw := by
        refine ⟨fun first => comment (isComment_iff.mpr first), ?_⟩
        by_contra none_solid
        refine some_token (tokensAt_eq_nil_iff.mpr fun c member => ?_)
        simpa using fun solid => none_solid ⟨c, member, solid⟩
      rw [reading, if_pos read, List.singleton_append]

/-! ## Lines of words -/

/-- The words of the line, without their places. -/
def words (line : SourceLine) : List String := line.tokens.map Token.text

theorem exists_cons_intercalate {words : List String} (isLine : IsLine words) :
    ∃ c rest, (" ".intercalate words).toList = c :: rest ∧ isSeparator c = false := by
  obtain ⟨word, words, rfl⟩ := List.exists_cons_of_ne_nil isLine.ne_nil
  obtain ⟨nonempty, solid⟩ := isLine.areWords word List.mem_cons_self
  obtain ⟨c, cs, text⟩ := List.exists_cons_of_ne_nil nonempty
  have first : isSeparator c = false := solid c (by rw [text]; exact List.mem_cons_self)
  cases words with
  | nil => exact ⟨c, cs, text, first⟩
  | cons next words =>
    rw [toList_intercalate_cons, text]
    exact ⟨c, _, rfl, first⟩

/-- A character that is in none of the words is not between them either, but for the blank. -/
theorem not_mem_intercalate {c : Char} (solid : c ≠ ' ') {words : List String} (absent : ∀ w ∈ words, c ∉ w.toList) :
    c ∉ (" ".intercalate words).toList := by
  induction words with
  | nil => exact List.not_mem_nil
  | cons word words ih =>
    obtain ⟨first, others⟩ := List.forall_mem_cons.mp absent
    cases words with
    | nil => exact first
    | cons next words =>
      rw [toList_intercalate_cons, List.mem_append, List.mem_cons, not_or, not_or]
      exact ⟨first, solid, ih others⟩

theorem isLine_of_mem_fromLines {number offset : Nat} {raws : List (List Char)} {line : SourceLine}
    (member : line ∈ fromLines number offset raws) : IsLine line.words := by
  induction raws generalizing number offset with
  | nil => cases member
  | cons raw raws ih =>
    rw [fromLines_cons] at member
    rcases List.mem_append.mp member with first | later
    · obtain ⟨read, rfl⟩ := mem_reading.mp first
      refine ⟨?_, fun w inside => ?_⟩
      · obtain ⟨c, member, solid⟩ := read.2
        intro none_left
        rw [tokensAt_eq_nil_iff.mp (List.map_eq_nil_iff.mp none_left) c member] at solid
        cases solid
      · obtain ⟨token, member, rfl⟩ := List.mem_map.mp inside
        exact isWord_of_mem_tokensAt member
    · exact ih later

/-- A line that begins with a character that separates nothing is read, unless that is `@`. -/
theorem isRead_cons {c : Char} (solid : isSeparator c = false) (rest : List Char) : IsRead (c :: rest) ↔ c ≠ '@' := by
  have visible : isBlank c = false := (Bool.or_eq_false_iff.mp solid).1
  have first : (c :: rest).find? (!isBlank ·) = some c := List.find?_cons_of_pos (by rw [visible]; rfl)
  rw [IsRead, first, ne_eq, Option.some.injEq]
  exact and_iff_left ⟨c, List.mem_cons_self, solid⟩

theorem words_fromLines {lines : List (List String)} (areLines : ∀ words ∈ lines, IsLine words) (number offset : Nat) :
    (fromLines number offset (lines.map fun words => (" ".intercalate words).toList ++ ['\n'])).map words =
      lines.filter fun words => (" ".intercalate words).toList.head? != some '@' := by
  induction lines generalizing number offset with
  | nil => rfl
  | cons line lines ih =>
    have isLine := areLines line List.mem_cons_self
    have tokens := texts_intercalate isLine.areWords ['\n'] (List.forall_mem_singleton.mpr rfl) offset
    obtain ⟨c, rest, text, solid⟩ := exists_cons_intercalate isLine
    have read := isRead_cons solid (rest ++ ['\n'])
    rw [List.map_cons, List.filter_cons, fromLines_cons, List.map_append,
      ih fun words member => areLines words (List.mem_cons_of_mem line member)]
    rw [text, List.cons_append] at tokens ⊢
    rw [List.head?_cons]
    by_cases at_sign : c = '@'
    · rw [reading, if_neg fun shown => read.mp shown at_sign, if_neg (by simpa using at_sign)]
      rfl
    · rw [reading, if_pos (read.mpr at_sign), if_pos (by simpa using at_sign)]
      exact congrArg (· :: _) tokens

end SourceLine

/-! ## Sources -/

theorem Text.cutAfter_append {mark : Char} {line : List Char} (unmarked : mark ∉ line) (rest : List Char) :
    cutAfter mark (line ++ mark :: rest) = (line ++ [mark]) :: cutAfter mark rest := by
  induction line with
  | nil => exact if_pos rfl
  | cons c line ih =>
    have pieces : cutAfter mark (c :: line ++ mark :: rest) = cutBefore mark c (cutAfter mark (line ++ mark :: rest)) :=
      rfl
    rw [pieces, ih (List.not_mem_of_not_mem_cons unmarked), cutBefore,
      if_neg (Ne.symm (List.ne_of_not_mem_cons unmarked))]
    rfl

/-- Lines that are put together with their marks are cut into the same lines. -/
theorem Text.cutAfter_lines {mark : Char} {lines : List (List Char)} (unmarked : ∀ line ∈ lines, mark ∉ line) :
    cutAfter mark (lines.flatMap (· ++ [mark])) = lines.map (· ++ [mark]) := by
  induction lines with
  | nil => rfl
  | cons line lines ih =>
    rw [List.forall_mem_cons] at unmarked
    rw [List.flatMap_cons, List.append_assoc, List.singleton_append, cutAfter_append unmarked.1, ih unmarked.2]
    rfl

/-- The source whose lines hold the given words, each line with its newline. -/
def sourceOf (lines : List (List String)) : String := String.join (lines.map fun words => " ".intercalate words ++ "\n")

theorem cutAfter_sourceOf {lines : List (List String)} (areLines : ∀ words ∈ lines, IsLine words) :
    cutAfter '\n' (sourceOf lines).toList = lines.map fun words => (" ".intercalate words).toList ++ ['\n'] := by
  have text : (sourceOf lines).toList =
      (lines.map fun words => (" ".intercalate words).toList).flatMap (· ++ ['\n']) := by
    simp [sourceOf, String.toList_join, List.flatMap_map]
  rw [text, cutAfter_lines, List.map_map]
  · rfl
  · rintro _ member
    obtain ⟨words, inside, rfl⟩ := List.mem_map.mp member
    exact SourceLine.not_mem_intercalate (by decide) fun w member =>
      ((areLines words inside).areWords w member).not_mem_of_isSeparator rfl

theorem isLine_of_mem_tokenize {source : String} {line : SourceLine} (member : line ∈ tokenize source) :
    IsLine line.words := SourceLine.isLine_of_mem_fromLines member

/-- Lines of words are read as those words, but for the lines that begin with `@`. -/
theorem words_tokenize_sourceOf {lines : List (List String)} (areLines : ∀ words ∈ lines, IsLine words) :
    (tokenize (sourceOf lines)).map SourceLine.words =
      lines.filter fun words => (" ".intercalate words).toList.head? != some '@' := by
  unfold tokenize
  rw [cutAfter_sourceOf areLines]
  exact SourceLine.words_fromLines areLines 1 0

end Accumulator
