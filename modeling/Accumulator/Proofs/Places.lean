import Accumulator.Proofs.Tokens

/-!
Places: what of a source is read, and where its tokens stand. Main statement: a source
of less than 2³² bytes is cut at newlines only; every line that is no comment and
holds more than separators gives one entry, with the number of the line and its runs;
and every span selects the bytes of its own token, the spans following one another
without touching.
-/
namespace Accumulator
open Text

theorem Text.byteSize_toList (text : String) : byteSize text.toList = text.utf8ByteSize := by
  rw [← String.ofList_toList (s := text), String.toList_ofList]
  induction text.toList with
  | nil => rfl
  | cons c cs ih =>
    rw [← List.singleton_append, byteSize_append, ih, String.ofList_append, String.utf8ByteSize_append]
    simp [byteSize]

theorem Text.cutAfter_of_not_mem {mark : Char} {line : List Char} (unmarked : mark ∉ line) (nonempty : line ≠ []) :
    cutAfter mark line = [line] := by
  induction line with
  | nil => exact absurd rfl nonempty
  | cons c line ih =>
    have unlike : c ≠ mark := Ne.symm (List.ne_of_not_mem_cons unmarked)
    cases line with
    | nil => exact if_neg unlike
    | cons d line =>
      have pieces : cutAfter mark (c :: d :: line) = cutBefore mark c (cutAfter mark (d :: line)) := rfl
      rw [pieces, ih (List.not_mem_of_not_mem_cons unmarked) (List.cons_ne_nil _ _), cutBefore, if_neg unlike]
      rfl

/-- The word stands between the two texts as a run of its own: on either side a
    separator or the end cuts it off. -/
structure IsRun (before : List Char) (word : String) (after : List Char) : Prop where
  isWord : IsWord word
  opened : ∀ c ∈ before.getLast?, SourceLine.isSeparator c = true
  closed : ∀ c ∈ after.head?, SourceLine.isSeparator c = true

/-- A run in a part of a text is one of the whole text, where separators or the ends bound the part. -/
theorem IsRun.within {before after left right : List Char} {word : String} (run : IsRun before word after)
    (opened : ∀ c ∈ left.getLast?, SourceLine.isSeparator c = true)
    (closed : ∀ c ∈ right.head?, SourceLine.isSeparator c = true) : IsRun (left ++ before) word (after ++ right) := by
  refine ⟨run.isWord, fun c last => ?_, fun c first => ?_⟩
  · rw [List.getLast?_append] at last
    cases inner : before.getLast? with
    | none => rw [inner] at last; exact opened c last
    | some d => rw [inner] at last; exact run.opened c (inner.trans last)
  · rw [List.head?_append] at first
    cases inner : after.head? with
    | none => rw [inner] at first; exact closed c first
    | some d => rw [inner] at first; exact run.closed c (inner.trans first)

namespace SourceLine

/-! ## Runs of a line -/

/-- A text can be taken up from its front, separator by separator and run by run. -/
@[elab_as_elim]
theorem runs_induction {motive : List Char → Prop} (cs : List Char) (nil : motive [])
    (separator : ∀ c rest, isSeparator c = true → motive rest → motive (c :: rest))
    (run : ∀ word rest, IsWord word → (∀ c ∈ rest.head?, isSeparator c = true) → motive rest →
      motive (word.toList ++ rest)) : motive cs := by
  match cs with
  | [] => exact nil
  | c :: rest =>
    by_cases separates : isSeparator c = true
    · exact separator c rest separates (runs_induction rest nil separator run)
    · have isWord := isWord_takeWhile (Bool.eq_false_iff.mpr separates) rest
      have cut : ∀ d ∈ (rest.dropWhile (!isSeparator ·)).head?, isSeparator d = true := fun d first => by
        have stop := List.head?_dropWhile_not (!isSeparator ·) rest
        rw [Option.mem_def.mp first] at stop
        simpa using stop
      have whole := run _ _ isWord cut (runs_induction (rest.dropWhile (!isSeparator ·)) nil separator run)
      rwa [String.toList_ofList, List.cons_append, List.takeWhile_append_dropWhile] at whole
termination_by cs.length
decreasing_by
  · simp
  · exact Nat.lt_succ_of_le (List.length_dropWhile_le _ rest)

/-- The maximal runs of characters of a line that do not separate. -/
def runs (line : List Char) : List String := ((line.splitOnP isSeparator).filter (· ≠ [])).map String.ofList

theorem runs_separator {c : Char} (separates : isSeparator c = true) (rest : List Char) : runs (c :: rest) = runs rest := by
  rw [runs, List.splitOnP_cons_eq_if_modifyHead, if_pos separates, List.filter_cons_of_neg (by simp), runs]

theorem runs_word {word : String} (isWord : IsWord word) {rest : List Char}
    (cut : ∀ c ∈ rest.head?, isSeparator c = true) : runs (word.toList ++ rest) = word :: runs rest := by
  cases rest with
  | nil =>
    rw [List.append_nil, runs, List.splitOnP_eq_singleton isWord.solid]
    simp [runs, isWord.ne_nil]
  | cons c rest =>
    rw [runs_separator (cut c rfl), runs, List.splitOnP_append_cons_of_forall_mem isWord.solid c (cut c rfl)]
    simp [runs, isWord.ne_nil]

theorem texts_tokensAt (offset : Nat) (cs : List Char) : (tokensAt offset cs).map Token.text = runs cs := by
  induction cs using runs_induction generalizing offset with
  | nil => rw [tokensAt_nil]; rfl
  | separator c rest separates ih => rw [tokensAt_separator separates, runs_separator separates, ih]
  | run word rest isWord cut ih => rw [tokensAt_word isWord cut, runs_word isWord cut, List.map_cons, ih]

theorem tokensAt_append {front back : List Char}
    (parted : (∀ c ∈ front.getLast?, isSeparator c = true) ∨ ∀ c ∈ back.head?, isSeparator c = true) (offset : Nat) :
    tokensAt offset (front ++ back) = tokensAt offset front ++ tokensAt (offset + byteSize front) back := by
  induction front using runs_induction generalizing offset with
  | nil =>
    rw [tokensAt_nil]
    rfl
  | separator c rest separates ih =>
    have later : (∀ d ∈ rest.getLast?, isSeparator d = true) ∨ ∀ d ∈ back.head?, isSeparator d = true := by
      refine parted.imp_left fun ends d last => ends d ?_
      rw [List.getLast?_cons, Option.mem_def.mp last]
      rfl
    rw [List.cons_append, tokensAt_separator separates, tokensAt_separator separates, ih later, byteSize_cons,
      Nat.add_assoc]
  | run word rest isWord cut ih =>
    cases rest with
    | nil =>
      -- A word ends with no separator, so one has to follow.
      have cut_back : ∀ c ∈ back.head?, isSeparator c = true := by
        refine parted.resolve_left fun ends => ?_
        have last := List.getLast?_eq_some_getLast isWord.ne_nil
        rw [List.append_nil] at ends
        have separates := ends _ last
        rw [isWord.solid _ (List.mem_of_getLast? last)] at separates
        cases separates
      rw [List.append_nil, tokensAt_word isWord cut_back, ← List.append_nil word.toList, tokensAt_word isWord cut,
        tokensAt_nil, List.append_nil]
      rfl
    | cons c rest =>
      have later : (∀ d ∈ (c :: rest).getLast?, isSeparator d = true) ∨ ∀ d ∈ back.head?, isSeparator d = true := by
        refine parted.imp_left fun ends d last => ends d ?_
        rw [List.getLast?_append, Option.mem_def.mp last]
        rfl
      have cut_rest : ∀ d ∈ (c :: rest ++ back).head?, isSeparator d = true := cut
      rw [List.append_assoc, tokensAt_word isWord cut_rest, tokensAt_word isWord cut, ih later, byteSize_append,
        Nat.add_assoc]
      rfl

/-- A token of a text below the limit stands at its span, as a run of the text. -/
theorem exists_place {offset : Nat} {cs : List Char} (fits : offset + byteSize cs ≤ Span.limit) {token : Token}
    (member : token ∈ tokensAt offset cs) :
    ∃ before after, cs = before ++ (token.text.toList ++ after) ∧ IsRun before token.text after ∧
      token.span.start = offset + byteSize before ∧ token.span.length = byteSize token.text.toList := by
  induction cs using runs_induction generalizing offset with
  | nil => rw [tokensAt_nil] at member; cases member
  | separator c rest separates ih =>
    rw [byteSize_cons] at fits
    rw [tokensAt_separator separates] at member
    obtain ⟨before, after, rfl, run, start, length⟩ := ih (by omega) member
    have opened : ∀ d ∈ [c].getLast?, isSeparator d = true := fun d last => by
      rw [← Option.mem_some.mp last]; exact separates
    have closed : ∀ d ∈ ([] : List Char).head?, isSeparator d = true := fun d first => by cases first
    have whole := run.within opened closed
    rw [List.append_nil] at whole
    exact ⟨c :: before, after, rfl, whole, by rw [start, byteSize_cons, Nat.add_assoc], length⟩
  | run word rest isWord cut ih =>
    rw [byteSize_append] at fits
    rw [tokensAt_word isWord cut] at member
    rcases List.mem_cons.mp member with rfl | later
    · refine ⟨[], rest, rfl, ⟨isWord, fun c last => (by cases last), cut⟩, ?_, ?_⟩
      · exact Nat.min_eq_left (by omega)
      · exact Nat.min_eq_left (by omega)
    · obtain ⟨before, after, rfl, run, start, length⟩ := ih (by omega) later
      refine ⟨word.toList ++ before, after, by rw [List.append_assoc], ⟨run.isWord, fun c last => ?_, run.closed⟩,
        by rw [start, byteSize_append, Nat.add_assoc], length⟩
      -- The next run does not begin where this one ends, for a separator stands there.
      cases before with
      | nil =>
        obtain ⟨d, ds, text⟩ := List.exists_cons_of_ne_nil run.isWord.ne_nil
        have separates := cut d (by rw [List.nil_append, text]; rfl)
        rw [run.isWord.solid d (by rw [text]; exact List.mem_cons_self)] at separates
        cases separates
      | cons d before =>
        rw [List.getLast?_append, List.getLast?_cons, Option.some_or] at last
        exact run.opened c (by rw [List.getLast?_cons]; exact last)

theorem inside_of_mem_tokensAt {offset : Nat} {cs : List Char} (fits : offset + byteSize cs ≤ Span.limit) {token : Token}
    (member : token ∈ tokensAt offset cs) :
    offset ≤ token.span.start ∧ 0 < token.span.length ∧ token.span.stop ≤ offset + byteSize cs := by
  obtain ⟨before, after, rfl, run, start, length⟩ := exists_place fits member
  obtain ⟨c, rest, text⟩ := List.exists_cons_of_ne_nil run.isWord.ne_nil
  have positive : 0 < byteSize token.text.toList := by
    rw [text]
    exact Nat.add_pos_left c.utf8Size_pos _
  rw [Span.stop, start, length, byteSize_append, byteSize_append]
  omega

theorem apart_tokensAt {offset : Nat} {cs : List Char} (fits : offset + byteSize cs ≤ Span.limit) :
    (tokensAt offset cs).Pairwise fun a b => a.span.stop < b.span.start := by
  induction cs using runs_induction generalizing offset with
  | nil => rw [tokensAt_nil]; exact List.Pairwise.nil
  | separator c rest separates ih =>
    rw [byteSize_cons] at fits
    rw [tokensAt_separator separates]
    exact ih (by omega)
  | run word rest isWord cut ih =>
    rw [byteSize_append] at fits
    rw [tokensAt_word isWord cut]
    refine List.pairwise_cons.mpr ⟨fun token later => ?_, ih (by omega)⟩
    have stop : (Span.clamp offset (byteSize word.toList)).stop ≤ offset + byteSize word.toList :=
      Nat.add_le_add (Nat.min_le_left _ _) (Nat.min_le_left _ _)
    cases rest with
    | nil => rw [tokensAt_nil] at later; cases later
    | cons c rest =>
      rw [byteSize_cons] at fits
      rw [tokensAt_separator (cut c rfl)] at later
      have inside := inside_of_mem_tokensAt (by omega) later
      have separator := c.utf8Size_pos
      exact Nat.lt_of_le_of_lt stop (by omega)

/-! ## Lines of a source -/

theorem isRead_append_newline (line : List Char) : IsRead (line ++ ['\n']) ↔ IsRead line := by
  have first : (line ++ ['\n']).find? (!isBlank ·) = line.find? (!isBlank ·) := by
    rw [List.find?_append]
    exact Option.or_none
  refine and_congr (by rw [first]) ⟨?_, ?_⟩
  · rintro ⟨c, member, solid⟩
    rcases List.mem_append.mp member with inside | newline
    · exact ⟨c, inside, solid⟩
    · rw [List.mem_singleton.mp newline] at solid
      cases solid
  · rintro ⟨c, member, solid⟩
    exact ⟨c, List.mem_append_left _ member, solid⟩

/-- What a source is read as from a place on that a line starts at, with the number and the first byte of the line. -/
def readFrom (number offset : Nat) (cs : List Char) : List SourceLine := fromLines number offset (cutAfter '\n' cs)

theorem readFrom_last {line : List Char} (unbroken : '\n' ∉ line) (number offset : Nat) :
    readFrom number offset line = reading number offset line := by
  cases line with
  | nil => exact (if_neg fun ⟨_, c, member, _⟩ => by cases member).symm
  | cons c line =>
    rw [readFrom, cutAfter_of_not_mem unbroken (List.cons_ne_nil _ _), fromLines_cons]
    exact List.append_nil _

theorem readFrom_line {line : List Char} (unbroken : '\n' ∉ line) (number offset : Nat) (rest : List Char) :
    readFrom number offset (line ++ '\n' :: rest) =
      reading number offset line ++ readFrom (number + 1) (offset + (byteSize line + 1)) rest := by
  have tokens : tokensAt offset (line ++ ['\n']) = tokensAt offset line := by
    have separates : ∀ c ∈ ['\n'].head?, isSeparator c = true := fun c first => by
      rw [← Option.mem_some.mp first]
      rfl
    rw [tokensAt_append (.inr separates), tokensAt_separator rfl, tokensAt_nil, List.append_nil]
  have same : reading number offset (line ++ ['\n']) = reading number offset line := by
    rw [reading, tokens, reading]
    exact if_congr (isRead_append_newline line) rfl rfl
  rw [readFrom, cutAfter_append unbroken, fromLines_cons, same, byteSize_append]
  rfl

/-- A source can be taken up from its front, line by line. -/
@[elab_as_elim]
theorem lines_induction {motive : List Char → Prop} (cs : List Char)
    (last : ∀ line, '\n' ∉ line → motive line)
    (line : ∀ line rest, '\n' ∉ line → motive rest → motive (line ++ '\n' :: rest)) : motive cs := by
  by_cases broken : '\n' ∈ cs
  · obtain ⟨first, rest, split, unbroken⟩ := List.eq_append_cons_of_mem broken
    have shorter : rest.length < cs.length := by
      rw [split, List.length_append, List.length_cons]
      omega
    rw [split]
    exact line first rest unbroken (lines_induction rest last line)
  · exact last cs broken
termination_by cs.length

/-- The lines of a text that are read, with their numbers and their runs. -/
def linesRead (number : Nat) (cs : List Char) : List (Nat × List String) :=
  (((cs.splitOn '\n').zipIdx number).filter (IsRead ·.1)).map fun line => (line.2, runs line.1)

theorem linesRead_readFrom (number offset : Nat) (cs : List Char) :
    (readFrom number offset cs).map (fun line => (line.number, line.words)) = linesRead number cs := by
  have one (number offset : Nat) (line : List Char) :
      (reading number offset line).map (fun line => (line.number, line.words)) =
        ([(line, number)].filter (IsRead ·.1)).map fun line => (line.2, runs line.1) := by
    rw [reading]
    split
    · rename_i read
      simp [read, words, texts_tokensAt]
    · rename_i unread
      simp [unread]
  induction cs using lines_induction generalizing number offset with
  | last line unbroken =>
    rw [readFrom_last unbroken, linesRead, List.splitOn_eq_singleton unbroken]
    exact one number offset line
  | line line rest unbroken ih =>
    rw [readFrom_line unbroken, List.map_append, ih, one, linesRead, linesRead,
      List.splitOn_append_cons_self_of_not_mem unbroken, List.zipIdx_cons, ← List.map_append, ← List.filter_append]
    rfl

/-- The entry stands for the line between the two parts of a source. -/
structure IsLineOf (before : List Char) (line : List Char) (after : List Char) (entry : SourceLine) : Prop where
  opened : ∀ c ∈ before.getLast?, c = '\n'
  closed : ∀ c ∈ after.head?, c = '\n'
  unbroken : '\n' ∉ line
  entry_eq : entry = ⟨before.count '\n' + 1, tokensAt (byteSize before) line⟩

theorem exists_line_of_mem {before cs : List Char} (opened : ∀ c ∈ before.getLast?, c = '\n')
    {entry : SourceLine} (member : entry ∈ readFrom (before.count '\n' + 1) (byteSize before) cs) :
    ∃ left line right, before ++ cs = left ++ (line ++ right) ∧ IsLineOf left line right entry := by
  induction cs using lines_induction generalizing before with
  | last line unbroken =>
    rw [readFrom_last unbroken] at member
    exact ⟨before, line, [], by rw [List.append_nil], opened, fun c first => (by cases first), unbroken,
      (mem_reading.mp member).2⟩
  | line line rest unbroken ih =>
    rw [readFrom_line unbroken] at member
    rcases List.mem_append.mp member with this_line | later
    · exact ⟨before, line, '\n' :: rest, rfl, opened, fun c first => (Option.mem_some.mp first).symm, unbroken,
        (mem_reading.mp this_line).2⟩
    · have passed : (before ++ (line ++ ['\n'])).count '\n' = before.count '\n' + 1 := by
        rw [List.count_append, List.count_append, List.count_eq_zero_of_not_mem unbroken]
        rfl
      have size : byteSize (before ++ (line ++ ['\n'])) = byteSize before + (byteSize line + 1) := by
        rw [byteSize_append, byteSize_append]
        rfl
      have ends : ∀ c ∈ (before ++ (line ++ ['\n'])).getLast?, c = '\n' := fun c last => by
        rw [← List.append_assoc, List.getLast?_concat] at last
        exact (Option.mem_some.mp last).symm
      rw [← passed, ← size] at later
      obtain ⟨left, found, right, split, isLine⟩ := ih ends later
      exact ⟨left, found, right, by rw [← split]; simp, isLine⟩

theorem exists_line_of_mem_tokenize {source : String} {entry : SourceLine} (member : entry ∈ tokenize source) :
    ∃ left line right, source.toList = left ++ (line ++ right) ∧ IsLineOf left line right entry :=
  exists_line_of_mem (fun c (last : c ∈ ([] : List Char).getLast?) => by cases last) member

theorem mem_tokensAt_of_mem_reading {number offset : Nat} {line : List Char} {token : Token}
    (member : token ∈ (reading number offset line).flatMap tokens) : token ∈ tokensAt offset line := by
  obtain ⟨entry, shown, inside⟩ := List.mem_flatMap.mp member
  obtain ⟨-, rfl⟩ := mem_reading.mp shown
  exact inside

theorem offset_le_of_mem_readFrom {number offset : Nat} {cs : List Char} (fits : offset + byteSize cs ≤ Span.limit)
    {token : Token} (member : token ∈ (readFrom number offset cs).flatMap tokens) : offset ≤ token.span.start := by
  induction cs using lines_induction generalizing number offset with
  | last line unbroken =>
    rw [readFrom_last unbroken] at member
    exact (inside_of_mem_tokensAt fits (mem_tokensAt_of_mem_reading member)).1
  | line line rest unbroken ih =>
    have newline : ('\n' : Char).utf8Size = 1 := rfl
    rw [byteSize_append, byteSize_cons] at fits
    rw [readFrom_line unbroken, List.flatMap_append] at member
    rcases List.mem_append.mp member with this_line | later
    · exact (inside_of_mem_tokensAt (by omega) (mem_tokensAt_of_mem_reading this_line)).1
    · have := ih (by omega) later
      omega

/-- Between the spans of a source there is at least a separator, also from one line to the next. -/
theorem apart_readFrom {number offset : Nat} {cs : List Char} (fits : offset + byteSize cs ≤ Span.limit) :
    ((readFrom number offset cs).flatMap tokens).Pairwise fun a b => a.span.stop < b.span.start := by
  have one {number offset : Nat} {line : List Char} (fits : offset + byteSize line ≤ Span.limit) :
      ((reading number offset line).flatMap tokens).Pairwise fun a b => a.span.stop < b.span.start := by
    rw [reading]
    split
    · simpa using apart_tokensAt fits
    · exact List.Pairwise.nil
  induction cs using lines_induction generalizing number offset with
  | last line unbroken =>
    rw [readFrom_last unbroken]
    exact one fits
  | line line rest unbroken ih =>
    have newline : ('\n' : Char).utf8Size = 1 := rfl
    rw [byteSize_append, byteSize_cons] at fits
    rw [readFrom_line unbroken, List.flatMap_append]
    refine List.pairwise_append.mpr ⟨one (by omega), ih (by omega), fun a here b later => ?_⟩
    have inside := inside_of_mem_tokensAt (by omega) (mem_tokensAt_of_mem_reading here)
    have beyond := offset_le_of_mem_readFrom (by omega) later
    omega

end SourceLine

/-! ## Places in the source -/

/-- The token stands in the source where its span says, as a run, on the line with the number. -/
def Token.StandsIn (source : String) (number : Nat) (token : Token) : Prop :=
  ∃ before after : String, source = before ++ token.text ++ after ∧
    IsRun before.toList token.text after.toList ∧ number = before.toList.count '\n' + 1 ∧
    token.span.start = before.utf8ByteSize ∧ token.span.length = token.text.utf8ByteSize

theorem Token.StandsIn.selects {source : String} {number : Nat} {token : Token} (stands : token.StandsIn source number) :
    source.toByteArray.extract token.span.start token.span.stop = token.text.toByteArray := by
  obtain ⟨before, after, rfl, -, -, start, length⟩ := stands
  have front : (before ++ token.text).toByteArray.extract before.utf8ByteSize
      (before.utf8ByteSize + token.text.utf8ByteSize) = token.text.toByteArray := by
    rw [String.toByteArray_append]
    exact ByteArray.extract_append_eq_right rfl rfl
  rw [Span.stop, start, length, String.toByteArray_append, ByteArray.extract_append, front]
  simp

theorem Token.StandsIn.inside {source : String} {number : Nat} {token : Token} (stands : token.StandsIn source number) :
    0 < token.span.length ∧ token.span.stop ≤ source.utf8ByteSize := by
  obtain ⟨before, after, rfl, run, -, start, length⟩ := stands
  obtain ⟨c, rest, text⟩ := List.exists_cons_of_ne_nil run.isWord.ne_nil
  have positive : 0 < token.text.utf8ByteSize := by
    rw [← byteSize_toList, text]
    exact Nat.add_pos_left c.utf8Size_pos _
  rw [Span.stop, start, length, String.utf8ByteSize_append, String.utf8ByteSize_append]
  omega

namespace SourceLine

theorem eq_nil_of_head? {cs : List Char} (mark : Char) (first : ∀ c ∈ cs.head?, c = mark) (unmarked : mark ∉ cs) :
    cs = [] := by
  cases cs with
  | nil => rfl
  | cons c cs => exact absurd (first c rfl).symm (List.ne_of_not_mem_cons unmarked)

/-- A run behind as many newlines as the line of an entry has before it is a run of that line. -/
theorem IsLineOf.exists_run {left line right : List Char} {entry : SourceLine} (isLine : IsLineOf left line right entry)
    {before after : List Char} {word : String} (whole : left ++ (line ++ right) = before ++ (word.toList ++ after))
    (run : IsRun before word after) (same : left.count '\n' = before.count '\n') :
    ∃ front back, before = left ++ front ∧ line = front ++ (word.toList ++ back) ∧ IsRun front word back := by
  have solid : '\n' ∉ word.toList := fun inside => by cases run.isWord.solid '\n' inside
  -- The run does not begin before the line, for what is there ends with a newline.
  obtain ⟨front, rfl, split⟩ : ∃ front, before = left ++ front ∧ line ++ right = front ++ (word.toList ++ after) := by
    rcases List.append_eq_append_iff.mp whole with found | ⟨rest, rfl, behind⟩
    · exact found
    · cases last : rest.getLast? with
      | none =>
        obtain rfl := List.getLast?_eq_none_iff.mp last
        exact ⟨[], by simp, behind.symm⟩
      | some c =>
        obtain rfl := isLine.opened c (by rw [List.getLast?_append, last]; rfl)
        have counted := List.count_pos_iff.mpr (List.mem_of_getLast? last)
        rw [List.count_append] at same
        omega
  have unbroken : '\n' ∉ front := by
    rw [List.count_append] at same
    exact List.count_eq_zero.mp (by omega)
  have opened : ∀ c ∈ front.getLast?, isSeparator c = true := fun c last =>
    run.opened c (by rw [List.getLast?_append, Option.mem_def.mp last]; rfl)
  -- Nor does it end behind the line, for what is there begins with a newline.
  rcases List.append_eq_append_iff.mp split with ⟨rest, rfl, behind⟩ | ⟨rest, rfl, inside⟩
  · have nothing : rest ++ word.toList = [] := by
      refine eq_nil_of_head? '\n' (fun c first => isLine.closed c ?_) ?_
      · rw [behind, ← List.append_assoc, List.head?_append, Option.mem_def.mp first]
        rfl
      · exact List.not_mem_append (fun inside => unbroken (List.mem_append_right _ inside)) solid
    exact absurd (List.append_eq_nil_iff.mp nothing).2 run.isWord.ne_nil
  · rcases List.append_eq_append_iff.mp inside with ⟨back, rfl, rfl⟩ | ⟨back, parts, rfl⟩
    · exact ⟨front, back, rfl, rfl, run.isWord, opened, fun c first =>
        run.closed c (by rw [List.head?_append, Option.mem_def.mp first]; rfl)⟩
    · have nothing : back = [] := by
        refine eq_nil_of_head? '\n' (fun c first => isLine.closed c ?_) ?_
        · rw [List.head?_append, Option.mem_def.mp first]
          rfl
        · exact fun inside => solid (by rw [parts]; exact List.mem_append_right _ inside)
      rw [nothing, List.append_nil] at parts
      exact ⟨front, [], rfl, by rw [List.append_nil, parts], run.isWord, opened, fun c first => by cases first⟩

theorem IsLineOf.mem_tokens_iff {left line right : List Char} {entry : SourceLine} (isLine : IsLineOf left line right entry)
    {source : String} (text : source.toList = left ++ (line ++ right)) (fits : source.utf8ByteSize ≤ Span.limit)
    {token : Token} : token ∈ entry.tokens ↔ token.StandsIn source entry.number := by
  have size := byteSize_toList source
  rw [text, byteSize_append, byteSize_append] at size
  rw [isLine.entry_eq]
  constructor
  · intro member
    obtain ⟨before, after, split, run, start, length⟩ := exists_place (by omega) member
    have unbroken : '\n' ∉ before := fun inside => isLine.unbroken (by rw [split]; exact List.mem_append_left _ inside)
    refine ⟨String.ofList (left ++ before), String.ofList (after ++ right), ?_, ?_, ?_, ?_, ?_⟩
    · rw [← String.toList_inj]
      simp [text, split]
    · rw [String.toList_ofList, String.toList_ofList]
      exact run.within (fun c last => isLine.opened c last ▸ rfl) (fun c first => isLine.closed c first ▸ rfl)
    · rw [String.toList_ofList, List.count_append, List.count_eq_zero_of_not_mem unbroken]
    · rw [← byteSize_toList, String.toList_ofList, byteSize_append, start]
    · rw [← byteSize_toList, length]
  · rintro ⟨before, after, whole, run, number, start, length⟩
    have split : left ++ (line ++ right) = before.toList ++ (token.text.toList ++ after.toList) := by
      rw [← text, whole]
      simp
    obtain ⟨front, back, same, rfl, inner⟩ := isLine.exists_run split run (Nat.add_right_cancel number)
    have place : token = ⟨token.text, Span.clamp (byteSize left + byteSize front) (byteSize token.text.toList)⟩ := by
      rw [← byteSize_append, ← same, byteSize_toList, byteSize_toList, ← start, ← length, Span.clamp_eq]
    rw [place]
    show _ ∈ tokensAt (byteSize left) (front ++ (token.text.toList ++ back))
    rw [tokensAt_append (.inl inner.opened), tokensAt_word inner.isWord inner.closed]
    exact List.mem_append_right _ List.mem_cons_self

theorem exists_ends {line : SourceLine} (nonempty : line.tokens ≠ [])
    (apart : line.tokens.Pairwise fun a b => a.span.stop < b.span.start)
    (fits : ∀ token ∈ line.tokens, token.span.stop ≤ Span.limit) :
    ∃ first last, line.tokens.head? = some first ∧ line.tokens.getLast? = some last ∧
      line.span.start = first.span.start ∧ line.span.stop = last.span.stop := by
  obtain ⟨first, rest, tokens⟩ := List.exists_cons_of_ne_nil nonempty
  obtain ⟨last, ends⟩ : ∃ last, line.tokens.getLast? = some last :=
    Option.isSome_iff_exists.mp (List.getLast?_isSome.mpr nonempty)
  have begins : line.tokens.head? = some first := by rw [tokens]; rfl
  have bound := fits last (List.mem_of_getLast? ends)
  have ordered : first.span.start ≤ last.span.start ∧ first.span.stop ≤ last.span.stop := by
    have member := List.mem_of_getLast? ends
    rw [tokens] at member apart
    rcases List.mem_cons.mp member with rfl | later
    · exact ⟨Nat.le_refl _, Nat.le_refl _⟩
    · have gap := (List.pairwise_cons.mp apart).1 last later
      simp only [Span.stop] at gap ⊢
      omega
  have joined : line.span = first.span.join last.span := by rw [span, begins, ends]; rfl
  refine ⟨first, last, begins, ends, ?_, ?_⟩
  · rw [joined, Span.join]
    exact Nat.min_eq_left ordered.1
  · rw [joined]
    simp only [Span.join, Span.stop] at *
    omega

end SourceLine

/-- What the entries of a source have to be. Together this leaves no choice. -/
structure IsReading (source : String) (entries : List SourceLine) : Prop where
  /-- Each line that is read has one entry, in order, with its number and its runs. -/
  listed : entries.map (fun line => (line.number, line.words)) = SourceLine.linesRead 1 source.toList
  /-- The tokens of an entry are all the runs that stand on the line with its number. -/
  stands : ∀ line ∈ entries, ∀ token, token ∈ line.tokens ↔ token.StandsIn source line.number
  /-- Each span selects the bytes of its own token. -/
  selects : ∀ line ∈ entries, ∀ token ∈ line.tokens,
    source.toByteArray.extract token.span.start token.span.stop = token.text.toByteArray
  nonempty : ∀ line ∈ entries, ∀ token ∈ line.tokens, 0 < token.span.length
  /-- Over all the lines, a span begins after the one before it, with a gap between them. -/
  apart : (entries.flatMap SourceLine.tokens).Pairwise fun a b => a.span.stop < b.span.start
  /-- A line is spanned from where its first token starts to where its last one stops. -/
  spanned : ∀ line ∈ entries, ∃ first last, line.tokens.head? = some first ∧ line.tokens.getLast? = some last ∧
    line.span.start = first.span.start ∧ line.span.stop = last.span.stop

theorem isReading_tokenize {source : String} (bound : source.utf8ByteSize ≤ Span.limit) :
    IsReading source (tokenize source) := by
  have fits : 0 + byteSize source.toList ≤ Span.limit := by rwa [Nat.zero_add, byteSize_toList]
  have stands : ∀ line ∈ tokenize source, ∀ token, token ∈ line.tokens ↔ token.StandsIn source line.number := by
    intro line member token
    obtain ⟨left, text, right, split, isLine⟩ := SourceLine.exists_line_of_mem_tokenize member
    exact isLine.mem_tokens_iff split bound
  have apart : ((tokenize source).flatMap SourceLine.tokens).Pairwise fun a b => a.span.stop < b.span.start :=
    SourceLine.apart_readFrom fits
  refine ⟨SourceLine.linesRead_readFrom 1 0 source.toList, stands, fun line member token inside =>
    ((stands line member token).mp inside).selects, fun line member token inside =>
    ((stands line member token).mp inside).inside.1, apart, fun line member => ?_⟩
  have nonempty : line.tokens ≠ [] := fun none_left =>
    (isLine_of_mem_tokenize member).ne_nil (congrArg (List.map Token.text) none_left)
  exact SourceLine.exists_ends nonempty ((List.pairwise_flatMap.mp apart).1 line member) fun token inside =>
    ((stands line member token).mp inside).inside.2.trans bound

/-- Tokens in the order of their spans are determined by which tokens there are. -/
theorem eq_of_mem_iff {tokens others : List Token} (apart : tokens.Pairwise fun a b => a.span.stop < b.span.start)
    (others_apart : others.Pairwise fun a b => a.span.stop < b.span.start)
    (same : ∀ token, token ∈ tokens ↔ token ∈ others) : tokens = others := by
  have nodup {tokens : List Token} (apart : tokens.Pairwise fun a b => a.span.stop < b.span.start) : tokens.Nodup := by
    refine List.nodup_iff_pairwise_ne.mpr (apart.imp fun {a b} gap equal => ?_)
    rw [equal, Span.stop] at gap
    omega
  refine List.Perm.eq_of_pairwise (fun a b _ _ before after => ?_) apart others_apart
    ((List.perm_ext_iff_of_nodup (nodup apart) (nodup others_apart)).mpr same)
  rw [Span.stop] at before after
  omega

theorem IsReading.eq {source : String} {entries others : List SourceLine} (reading : IsReading source entries)
    (other : IsReading source others) : entries = others := by
  have numbers : entries.map SourceLine.number = others.map SourceLine.number := by
    have listed := congrArg (List.map Prod.fst) (reading.listed.trans other.listed.symm)
    rwa [List.map_map, List.map_map] at listed
  have length : entries.length = others.length := by simpa using congrArg List.length numbers
  refine List.ext_getElem length fun i inside inside_others => ?_
  have number : entries[i].number = others[i].number := by
    have at_i := congrArg (·[i]?) numbers
    simpa [inside, inside_others] using at_i
  -- Lines of one number have the same runs standing on them.
  have tokens : entries[i].tokens = others[i].tokens := by
    refine eq_of_mem_iff ((List.pairwise_flatMap.mp reading.apart).1 _ (List.getElem_mem inside))
      ((List.pairwise_flatMap.mp other.apart).1 _ (List.getElem_mem inside_others)) fun token => ?_
    rw [reading.stands _ (List.getElem_mem inside), other.stands _ (List.getElem_mem inside_others), number]
  generalize entries[i] = line at number tokens ⊢
  generalize others[i] = line' at number tokens ⊢
  cases line
  cases line'
  cases number
  cases tokens
  rfl

/-- A source of less than 2³² bytes gives just the entries that it has to: one for each line that is
    read, with all the runs of the line as its tokens, each of them where it stands. -/
theorem tokenize_exact (source : String) (short : source.utf8ByteSize < 4294967296) (entries : List SourceLine) :
    IsReading source entries ↔ entries = tokenize source := by
  have reading := isReading_tokenize (Nat.le_of_lt_succ short)
  constructor
  · exact fun other => other.eq reading
  · rintro rfl
    exact reading

/-- Blanks of three bytes, a comment after a blank, a line of separators and a last line that no
    newline ends leave every number and place as it is. -/
theorem tokenize_exact_lines : "é,\u3000B\r\n\u3000@ C\n, \n\tJMP é".utf8ByteSize < 4294967296 ∧
    IsReading "é,\u3000B\r\n\u3000@ C\n, \n\tJMP é"
      [⟨1, [⟨"é", Span.clamp 0 2⟩, ⟨"B", Span.clamp 6 1⟩]⟩, ⟨4, [⟨"JMP", Span.clamp 20 3⟩, ⟨"é", Span.clamp 24 2⟩]⟩] :=
  ⟨by decide, (tokenize_exact _ (by decide) _).mpr (by decide +kernel)⟩

end Accumulator
