import Accumulator.Terminal

/-!
Styles: color never changes what is shown of a text. A reset closes whatever sequence is still
open, so behind it a text is shown as from its start, and a style that is opened again there
shows nothing of its own. What is shown of a text is the text with every stretch from an escape
character through the next `m` taken out, or through the end of the text where there is none.
-/
namespace Accumulator
namespace Escape

/-! ## What is shown -/

/-- What is left to show of a text: an escape character hides all that follows it through the
    next `m`, other escape characters included, and all the rest where there is no `m`. -/
inductive Shows : List Char → List Char → Prop
  | nil : Shows [] []
  | char {c : Char} {cs shown : List Char} (other : c ≠ mark) (rest : Shows cs shown) : Shows (c :: cs) (c :: shown)
  | closed {body cs shown : List Char} (inside : 'm' ∉ body) (rest : Shows cs shown) :
    Shows (mark :: body ++ 'm' :: cs) shown
  | unclosed {body : List Char} (inside : 'm' ∉ body) : Shows (mark :: body) []

theorem Shown.feed_inside (before : List Char) (c : Char) : feed ⟨true, before⟩ c = ⟨c != 'm', before⟩ := rfl

theorem Shown.feed_mark (before : List Char) : feed ⟨false, before⟩ mark = ⟨true, before⟩ := rfl

theorem Shown.feed_char {c : Char} (other : c ≠ mark) (before : List Char) :
    feed ⟨false, before⟩ c = ⟨false, c :: before⟩ := by
  simp [feed, other]

/-- What is shown from a state on comes after what has been shown. -/
theorem chars_foldl_feed (inside : Bool) (before cs : List Char) :
    (cs.foldl Shown.feed ⟨inside, before⟩).chars = (cs.foldl Shown.feed ⟨inside, []⟩).chars ++ before := by
  induction cs generalizing inside before with
  | nil => rfl
  | cons c cs ih =>
    rw [List.foldl_cons, List.foldl_cons]
    cases inside with
    | true =>
      rw [Shown.feed_inside, Shown.feed_inside]
      exact ih _ before
    | false =>
      by_cases escaped : c = mark
      · subst escaped
        rw [Shown.feed_mark, Shown.feed_mark]
        exact ih true before
      · rw [Shown.feed_char escaped, Shown.feed_char escaped, ih false (c :: before), ih false [c], List.append_assoc]
        rfl

theorem foldl_feed_inside {body : List Char} (inside : 'm' ∉ body) (before : List Char) :
    body.foldl Shown.feed ⟨true, before⟩ = ⟨true, before⟩ := by
  induction body with
  | nil => rfl
  | cons c body ih =>
    rw [List.mem_cons, not_or] at inside
    rw [List.foldl_cons, Shown.feed_inside, bne_iff_ne.mpr (Ne.symm inside.1)]
    exact ih inside.2

theorem foldl_feed_unclosed {body : List Char} (inside : 'm' ∉ body) (before : List Char) :
    (mark :: body).foldl Shown.feed ⟨false, before⟩ = ⟨true, before⟩ := by
  rw [List.foldl_cons, Shown.feed_mark, foldl_feed_inside inside]

/-- A sequence that is closed hides itself and nothing behind it. -/
theorem foldl_feed_closed {body : List Char} (inside : 'm' ∉ body) (before : List Char) :
    (mark :: body ++ ['m']).foldl Shown.feed ⟨false, before⟩ = ⟨false, before⟩ := by
  rw [List.foldl_append, foldl_feed_unclosed inside]
  rfl

theorem visible_char {c : Char} (other : c ≠ mark) (cs : List Char) : visible (c :: cs) = c :: visible cs := by
  unfold visible
  rw [List.foldl_cons, Shown.feed_char other, chars_foldl_feed, List.reverse_append]
  rfl

theorem visible_closed {body : List Char} (inside : 'm' ∉ body) (cs : List Char) :
    visible (mark :: body ++ 'm' :: cs) = visible cs := by
  unfold visible
  rw [List.append_cons, List.foldl_append, foldl_feed_closed inside]

theorem visible_unclosed {body : List Char} (inside : 'm' ∉ body) : visible (mark :: body) = [] := by
  unfold visible
  rw [foldl_feed_unclosed inside]
  rfl

theorem Shows.eq_visible {cs shown : List Char} (shows : Shows cs shown) : shown = visible cs := by
  induction shows with
  | nil => rfl
  | char other rest ih => rw [visible_char other, ih]
  | closed inside rest ih => rw [visible_closed inside, ih]
  | unclosed inside => exact (visible_unclosed inside).symm

theorem exists_shows (cs : List Char) : ∃ shown, Shows cs shown := by
  induction size : cs.length using Nat.strongRecOn generalizing cs with
  | ind n ih =>
    cases cs with
    | nil => exact ⟨[], .nil⟩
    | cons c rest =>
      by_cases escaped : c = mark
      · subst escaped
        by_cases ends : 'm' ∈ rest
        · obtain ⟨body, later, rfl, inside⟩ := List.eq_append_cons_of_mem ends
          obtain ⟨shown, shows⟩ := ih later.length (by simp at size; omega) later rfl
          exact ⟨shown, .closed inside shows⟩
        · exact ⟨[], .unclosed ends⟩
      · obtain ⟨shown, shows⟩ := ih rest.length (by simp at size; omega) rest rfl
        exact ⟨c :: shown, .char escaped shows⟩

theorem shows_iff {cs shown : List Char} : Shows cs shown ↔ shown = visible cs := by
  refine ⟨Shows.eq_visible, ?_⟩
  rintro rfl
  obtain ⟨shown, shows⟩ := exists_shows cs
  rwa [← shows.eq_visible]

/-- A text without an escape character is shown as it is, whatever follows it. -/
theorem visible_append {cs : List Char} (plain : mark ∉ cs) (rest : List Char) :
    visible (cs ++ rest) = cs ++ visible rest := by
  induction cs with
  | nil => rfl
  | cons c cs ih =>
    rw [List.mem_cons, not_or] at plain
    rw [List.cons_append, visible_char (Ne.symm plain.1), ih plain.2]
    rfl

theorem visible_eq_self_iff {cs : List Char} : visible cs = cs ↔ mark ∉ cs := by
  refine ⟨fun same => same ▸ mark_not_mem_visible cs, fun plain => ?_⟩
  have shown := visible_append plain []
  rwa [List.append_nil, show visible [] = [] from rfl, List.append_nil] at shown

/-! ## Styles that are opened again -/

/-- The text with another one after each reset. -/
inductive Reopened (again : List Char) : List Char → List Char → Prop
  | nil : Reopened again [] []
  | reset {cs out : List Char} (rest : Reopened again cs out) :
    Reopened again (reset.toList ++ cs) (reset.toList ++ again ++ out)
  | char {c : Char} {cs out : List Char} (other : ¬ reset.toList <+: c :: cs) (rest : Reopened again cs out) :
    Reopened again (c :: cs) (c :: out)

theorem toList_reset : reset.toList = [mark, '[', '0', 'm'] := by decide

theorem reopen_cons (again : List Char) (c : Char) (cs : List Char) :
    reopen again (c :: cs) = reopenAt again c (reopen again cs) := rfl

theorem reopen_of_ne {c : Char} (other : c ≠ mark) (again cs : List Char) :
    reopen again (c :: cs) = c :: reopen again cs := by
  rw [reopen_cons, reopenAt, if_neg fun h => other h.1]

theorem exists_reopen_mark (again cs : List Char) : ∃ out, reopen again (mark :: cs) = mark :: out := by
  rw [reopen_cons, reopenAt]
  split
  · exact ⟨_, rfl⟩
  · exact ⟨_, rfl⟩

/-- Text is put only behind a reset, so a stretch without escape characters begins the text as before. -/
theorem isPrefix_reopen_iff {word : List Char} (plain : mark ∉ word) (again cs : List Char) :
    word <+: reopen again cs ↔ word <+: cs := by
  induction word generalizing cs with
  | nil => simp
  | cons w word ih =>
    rw [List.mem_cons, not_or] at plain
    cases cs with
    | nil => rfl
    | cons c cs =>
      by_cases escaped : c = mark
      · subst escaped
        obtain ⟨out, reopened⟩ := exists_reopen_mark again cs
        rw [reopened, List.cons_prefix_cons, List.cons_prefix_cons]
        exact ⟨fun begins => absurd begins.1.symm plain.1, fun begins => absurd begins.1.symm plain.1⟩
      · rw [reopen_of_ne escaped, List.cons_prefix_cons, List.cons_prefix_cons, ih plain.2]

theorem begins_reset_iff (c : Char) (cs : List Char) :
    reset.toList <+: c :: cs ↔ c = mark ∧ cs.take 3 = ['[', '0', 'm'] := by
  rw [toList_reset, List.cons_prefix_cons, List.prefix_iff_eq_take]
  exact and_congr eq_comm eq_comm

theorem reopen_reset (again cs : List Char) :
    reopen again (reset.toList ++ cs) = reset.toList ++ again ++ reopen again cs := by
  have plain : reopen again ('[' :: '0' :: 'm' :: cs) = '[' :: '0' :: 'm' :: reopen again cs := by
    rw [reopen_of_ne (by decide), reopen_of_ne (by decide), reopen_of_ne (by decide)]
  rw [toList_reset]
  show reopen again (mark :: '[' :: '0' :: 'm' :: cs) = _
  rw [reopen_cons, plain, reopenAt, if_pos ⟨rfl, rfl⟩]
  simp

theorem reopen_char {c : Char} {cs : List Char} (other : ¬ reset.toList <+: c :: cs) (again : List Char) :
    reopen again (c :: cs) = c :: reopen again cs := by
  rw [reopen_cons, reopenAt, if_neg]
  rintro ⟨escaped, begins⟩
  have word : ['[', '0', 'm'] <+: reopen again cs := by rw [List.prefix_iff_eq_take]; exact begins.symm
  rw [isPrefix_reopen_iff (by decide), List.prefix_iff_eq_take] at word
  exact other ((begins_reset_iff c cs).mpr ⟨escaped, word.symm⟩)

theorem Reopened.eq_reopen {again cs out : List Char} (reopened : Reopened again cs out) : out = reopen again cs := by
  induction reopened with
  | nil => rfl
  | reset rest ih => rw [reopen_reset, ih]
  | char other rest ih => rw [reopen_char other, ih]

theorem exists_reopened (again cs : List Char) : ∃ out, Reopened again cs out := by
  induction size : cs.length using Nat.strongRecOn generalizing cs with
  | ind n ih =>
    by_cases begins : reset.toList <+: cs
    · obtain ⟨rest, rfl⟩ := begins
      obtain ⟨out, reopened⟩ := ih rest.length (by simp [toList_reset] at size; omega) rest rfl
      exact ⟨_, .reset reopened⟩
    · cases cs with
      | nil => exact ⟨[], .nil⟩
      | cons c rest =>
        obtain ⟨out, reopened⟩ := ih rest.length (by simp at size; omega) rest rfl
        exact ⟨c :: out, .char begins reopened⟩

theorem reopened_iff {again cs out : List Char} : Reopened again cs out ↔ out = reopen again cs := by
  refine ⟨Reopened.eq_reopen, ?_⟩
  rintro rfl
  obtain ⟨out, reopened⟩ := exists_reopened again cs
  rwa [← reopened.eq_reopen]

/-! ## Styles show nothing -/

/-- A reset ends all escape sequences, the one it stands in as well as its own. -/
theorem foldl_feed_reset (s : Shown) : reset.toList.foldl Shown.feed s = ⟨false, s.chars⟩ := by
  obtain ⟨inside, chars⟩ := s
  rw [toList_reset]
  cases inside <;> rfl

theorem toList_opening (codes : String) : (opening codes).toList = mark :: ('[' :: codes.toList) ++ ['m'] := by
  simp [opening, mark]

/-- The sequences of a style around a text hide themselves alone. -/
theorem visible_wrap {codes text : String} (styled : 'm' ∉ codes.toList) (plain : mark ∉ text.toList)
    (rest : List Char) : visible ((wrap codes text).toList ++ rest) = text.toList ++ visible rest := by
  have split : (wrap codes text).toList ++ rest =
      mark :: ('[' :: codes.toList) ++ 'm' :: (text.toList ++ (mark :: ['[', '0'] ++ 'm' :: rest)) := by
    simp [wrap, toList_opening, toList_reset]
  rw [split, visible_closed (by simp [styled]), visible_append plain, visible_closed (by decide)]

/-- The style that is opened again behind a reset changes nothing from any state on. -/
theorem Reopened.foldl_feed {again cs out : List Char} (reopened : Reopened again cs out)
    (silent : ∀ before, again.foldl Shown.feed ⟨false, before⟩ = ⟨false, before⟩) (s : Shown) :
    out.foldl Shown.feed s = cs.foldl Shown.feed s := by
  induction reopened generalizing s with
  | nil => rfl
  | reset rest ih => rw [List.foldl_append, List.foldl_append, foldl_feed_reset, silent, ih, List.foldl_append, foldl_feed_reset]
  | char other rest ih => exact ih _

theorem visible_styled {codes : String} (plain : 'm' ∉ codes.toList) {cs out : List Char}
    (reopened : Reopened (opening codes).toList cs out) :
    visible ((opening codes).toList ++ out ++ reset.toList) = visible cs := by
  have silent (before : List Char) : (opening codes).toList.foldl Shown.feed ⟨false, before⟩ = ⟨false, before⟩ := by
    rw [toList_opening]
    exact foldl_feed_closed (by simp [plain]) before
  unfold visible
  rw [List.foldl_append, List.foldl_append, silent, reopened.foldl_feed silent, foldl_feed_reset]

end Escape

/-- A text in the style of a category, if the category has one: the style is opened before the
    text and again after each reset in it, and a reset ends the text. -/
def Category.Styles (category : Category) (text out : String) : Prop :=
  match category.codes? with
  | none => out = text
  | some codes =>
    ∃ inner, Escape.Reopened (Escape.opening codes).toList text.toList inner ∧
      out.toList = (Escape.opening codes).toList ++ inner ++ Escape.reset.toList

theorem Category.not_mem_codes {category : Category} {codes : String} (styled : category.codes? = some codes) :
    'm' ∉ codes.toList := by
  cases category <;> cases styled <;> decide

theorem Category.styles_iff {category : Category} {text out : String} :
    category.Styles text out ↔ out = category.paint text := by
  unfold Styles paint
  cases category.codes? with
  | none => rfl
  | some codes =>
    unfold Escape.paint Escape.wrap
    simp only [Escape.reopened_iff, exists_eq_left, ← String.toList_inj, String.toList_append, String.toList_ofList]

theorem Category.strip_of_styles {category : Category} {text out : String} (styles : category.Styles text out) :
    Escape.strip out = Escape.strip text := by
  unfold Styles at styles
  split at styles
  · rw [styles]
  case h_2 codes styled =>
    obtain ⟨inner, reopened, painted⟩ := styles
    unfold Escape.strip
    rw [painted, Escape.visible_styled (not_mem_codes styled) reopened]

theorem Escape.strip_eq_self_iff {text : String} : strip text = text ↔ mark ∉ text.toList := by
  rw [← visible_eq_self_iff, strip, ← String.toList_inj, String.toList_ofList]

theorem Escape.mark_not_mem_strip (text : String) : mark ∉ (strip text).toList := by
  rw [strip, String.toList_ofList]
  exact mark_not_mem_visible text.toList

theorem Escape.strip_strip (text : String) : strip (strip text) = strip text :=
  strip_eq_self_iff.mpr (mark_not_mem_strip text)

/-- Whatever is written for a text, in any mode and any color, shows what the text shows. -/
theorem Terminal.strip_of_written? {t : Terminal} {destination : Destination} {text written : String}
    (wrote : t.written? destination text = some written) : Escape.strip written = Escape.strip text := by
  unfold written? at wrote
  cases destination with
  | program => rw [Option.some.inj wrote]
  | tool condition category =>
    dsimp only at wrote
    split at wrote
    · cases wrote
    · rw [← Option.some.inj wrote, Escape.strip_strip]
    · rw [← Option.some.inj wrote]
      split
      · exact Category.strip_of_styles (Category.styles_iff.mpr rfl)
      · rfl

/-- Color never changes what is shown: a text in the style of a category shows what the text
    shows. That is the text with its escape sequences taken out. It has no escape character; it is
    the text itself just if that has none, and so all of it is shown in its turn. -/
theorem Escape.strip_of_style (text : String) :
    (∀ (category : Category) (out : String), category.Styles text out ↔ out = category.paint text) ∧
      (∀ category : Category, strip (category.paint text) = strip text) ∧
      (∀ shown : String, Shows text.toList shown.toList ↔ shown = strip text) ∧
      mark ∉ (strip text).toList ∧ (strip text = text ↔ mark ∉ text.toList) ∧ strip (strip text) = strip text := by
  refine ⟨fun category out => Category.styles_iff, fun category => ?_, fun shown => ?_, mark_not_mem_strip text,
    strip_eq_self_iff, strip_strip text⟩
  · exact Category.strip_of_styles (Category.styles_iff.mpr rfl)
  · rw [shows_iff, strip, ← String.toList_inj, String.toList_ofList]

end Accumulator
