import Accumulator.Proofs.Declarations

/-!
Resolution: what becomes of the labels of a memory. It is refused for a malformed
declaration, or else for an instruction whose label is declared nowhere, and the first such
cell is reported. The table of an accepted memory lists each label where it is declared
first, with the index of its last declaration, and all other declarations as duplicates.
-/
namespace Accumulator

/-! ## Declarations in order -/

namespace Store

def declares? : Cell × Nat → Option (String × Nat)
  | (.label name, index) => some (name, index)
  | _ => none

/-- All declarations of the memory, in order. -/
def declarations (s : Store) : List (String × Nat) := s.entries.filterMap declares?

theorem declares?_eq_some_iff {cell : Cell} {index : Nat} {d : String × Nat} :
    declares? (cell, index) = some d ↔ cell = .label d.1 ∧ index = d.2 := by
  obtain ⟨name, place⟩ := d
  cases cell with
  | label other => simp [declares?]
  | instruction _ | number _ | raw _ => simp [declares?]

theorem mem_declarations {s : Store} {d : String × Nat} : d ∈ s.declarations ↔ s.get? d.2 = some (.label d.1) := by
  rw [← mem_entries]
  unfold declarations
  rw [List.mem_filterMap]
  constructor
  · rintro ⟨⟨cell, index⟩, member, declares⟩
    obtain ⟨rfl, rfl⟩ := declares?_eq_some_iff.mp declares
    exact member
  · intro member
    exact ⟨_, member, declares?_eq_some_iff.mpr ⟨rfl, rfl⟩⟩

theorem pairwise_declarations (s : Store) : s.declarations.Pairwise fun first second => first.2 < second.2 := by
  refine s.pairwise_entries.filterMap declares? ?_
  rintro ⟨_, earlier⟩ ⟨_, later⟩ before d declares d' declares'
  obtain ⟨-, rfl⟩ := declares?_eq_some_iff.mp declares
  obtain ⟨-, rfl⟩ := declares?_eq_some_iff.mp declares'
  exact before

end Store

/-- The label is declared before, at a smaller index. -/
def Repeats (declarations : List (String × Nat)) (d : String × Nat) : Prop :=
  ∃ earlier ∈ declarations, earlier.1 = d.1 ∧ earlier.2 < d.2

instance (declarations : List (String × Nat)) : DecidablePred (Repeats declarations) :=
  fun d => inferInstanceAs (Decidable (∃ earlier ∈ declarations, earlier.1 = d.1 ∧ earlier.2 < d.2))

/-- The labels in the order of their first declarations. -/
def firsts (declarations : List (String × Nat)) : List String :=
  (declarations.filter (¬ Repeats declarations ·)).map Prod.fst

/-- The labels of all other declarations, in order. -/
def repetitions (declarations : List (String × Nat)) : List String :=
  (declarations.filter (Repeats declarations ·)).map Prod.fst

section
variable {declarations : List (String × Nat)} {name : String} {index : Nat} (behind : ∀ d ∈ declarations, d.2 < index)
include behind

theorem repeats_last_iff :
    Repeats (declarations ++ [(name, index)]) (name, index) ↔ name ∈ declarations.map Prod.fst := by
  rw [List.mem_map]
  constructor
  · rintro ⟨earlier, member, same, before⟩
    rcases List.mem_append.mp member with inside | last
    · exact ⟨earlier, inside, same⟩
    · rw [List.mem_singleton.mp last] at before
      exact absurd before (Nat.lt_irrefl _)
  · rintro ⟨earlier, member, same⟩
    exact ⟨earlier, List.mem_append_left _ member, same, behind earlier member⟩

theorem repeats_append_iff {d : String × Nat} (member : d ∈ declarations) :
    Repeats (declarations ++ [(name, index)]) d ↔ Repeats declarations d := by
  constructor
  · rintro ⟨earlier, inside, same, before⟩
    rcases List.mem_append.mp inside with old | last
    · exact ⟨earlier, old, same, before⟩
    · rw [List.mem_singleton.mp last] at before
      exact absurd before (Nat.lt_asymm (behind d member))
  · rintro ⟨earlier, inside, same, before⟩
    exact ⟨earlier, List.mem_append_left _ inside, same, before⟩

theorem firsts_append :
    firsts (declarations ++ [(name, index)]) =
      if name ∈ declarations.map Prod.fst then firsts declarations else firsts declarations ++ [name] := by
  have others : declarations.filter (¬ Repeats (declarations ++ [(name, index)]) ·) =
      declarations.filter (¬ Repeats declarations ·) :=
    List.filter_congr fun d member => decide_eq_decide.mpr (not_congr (repeats_append_iff behind member))
  unfold firsts
  rw [List.filter_append, others, List.filter_cons]
  simp only [repeats_last_iff behind]
  split <;> simp_all

theorem repetitions_append :
    repetitions (declarations ++ [(name, index)]) =
      if name ∈ declarations.map Prod.fst then repetitions declarations ++ [name] else repetitions declarations := by
  have others : declarations.filter (Repeats (declarations ++ [(name, index)]) ·) =
      declarations.filter (Repeats declarations ·) :=
    List.filter_congr fun d member => decide_eq_decide.mpr (repeats_append_iff behind member)
  unfold repetitions
  rw [List.filter_append, others, List.filter_cons]
  simp only [repeats_last_iff behind]
  split <;> simp_all

end

namespace LabelTable

/-! ## What a table lists -/

theorem map_fst_place (name : String) (index : Nat) (entries : List (String × Nat)) :
    (place name index entries).map Prod.fst =
      if name ∈ entries.map Prod.fst then entries.map Prod.fst else entries.map Prod.fst ++ [name] := by
  induction entries with
  | nil => rfl
  | cons entry rest ih =>
    unfold place
    by_cases here : entry.1 = name
    · rw [if_pos here, if_pos (by simp [here])]
      simp [here]
    · rw [if_neg here, List.map_cons, ih]
      by_cases there : name ∈ rest.map Prod.fst
      · rw [if_pos there, if_pos (by simp [there])]
        rfl
      · rw [if_neg there, if_neg (by simpa [Ne.symm here] using there)]
        rfl

theorem isSome_get?_iff {table : LabelTable} {name : String} :
    (table.get? name).isSome ↔ name ∈ table.entries.map Prod.fst := by
  unfold get?
  rw [List.lookup_isSome_iff, List.mem_map]
  exact exists_congr fun entry => and_congr_right fun _ => beq_iff_eq.trans eq_comm

theorem mem_entries_iff {table : LabelTable} (once : (table.entries.map Prod.fst).Nodup) {name : String} {index : Nat} :
    (name, index) ∈ table.entries ↔ table.get? name = some index := by
  unfold get?
  generalize table.entries = entries at once
  induction entries with
  | nil => simp
  | cons entry rest ih =>
    obtain ⟨first, place⟩ := entry
    obtain ⟨fresh, others⟩ := List.nodup_cons.mp once
    rw [lookup_entry, List.mem_cons, ih others, Prod.mk.injEq]
    by_cases same : name = first
    · subst same
      have absent : rest.lookup name ≠ some index := fun found =>
        fresh (List.mem_map.mpr ⟨_, (ih others).mpr found, rfl⟩)
      simp [absent, eq_comm]
    · simp [same]

/-- The table has each label of the declarations once, in the order of their first
    declarations, and all further declarations as duplicates. -/
structure Lists (declarations : List (String × Nat)) (table : LabelTable) : Prop where
  names : table.entries.map Prod.fst = firsts declarations
  duplicates : table.duplicates = repetitions declarations
  once : (table.entries.map Prod.fst).Nodup
  declared : ∀ name, name ∈ table.entries.map Prod.fst ↔ name ∈ declarations.map Prod.fst

theorem lists_empty : Lists [] empty := ⟨rfl, rfl, List.nodup_nil, fun _ => Iff.rfl⟩

theorem Lists.declare {declarations : List (String × Nat)} {table : LabelTable} (lists : Lists declarations table)
    {name : String} {index : Nat} (behind : ∀ d ∈ declarations, d.2 < index) :
    Lists (declarations ++ [(name, index)]) (table.declare name index) := by
  have placed : (table.declare name index).entries.map Prod.fst = _ := map_fst_place name index table.entries
  simp only [lists.declared] at placed
  refine ⟨?names, ?duplicates, ?once, ?declared⟩
  case names => rw [placed, firsts_append behind, lists.names]
  case duplicates =>
    show (if (table.get? name).isSome then table.duplicates ++ [name] else table.duplicates) = _
    simp only [isSome_get?_iff, lists.declared, lists.duplicates]
    exact (repetitions_append behind).symm
  case once =>
    rw [placed]
    split
    · exact lists.once
    · rename_i fresh
      refine List.nodup_append.mpr ⟨lists.once, by simp, ?_⟩
      rintro other listed _ last rfl
      rw [List.mem_singleton.mp last, lists.declared] at listed
      exact fresh listed
  case declared =>
    intro other
    rw [placed, List.map_append, List.mem_append]
    split
    · rename_i old
      refine (lists.declared other).trans ⟨.inl, fun either => either.elim id fun last => ?_⟩
      rwa [List.mem_singleton.mp last]
    · rw [List.mem_append, lists.declared]
      exact Iff.rfl

def declareAll (table : LabelTable) (declarations : List (String × Nat)) : LabelTable :=
  declarations.foldl (fun table d => table.declare d.1 d.2) table

theorem Lists.declareAll {before later : List (String × Nat)} {table : LabelTable}
    (order : (before ++ later).Pairwise fun first second => first.2 < second.2) (lists : Lists before table) :
    Lists (before ++ later) (table.declareAll later) := by
  induction later generalizing before table with
  | nil =>
    rw [List.append_nil]
    exact lists
  | cons d later ih =>
    have behind : ∀ b ∈ before, b.2 < d.2 := fun b member =>
      (List.pairwise_append.mp order).2.2 b member d List.mem_cons_self
    have rest : Lists ((before ++ [d]) ++ later) _ := ih (by rwa [List.append_assoc]) (lists.declare behind)
    rwa [List.append_assoc] at rest

theorem lists_declarations (store : Store) : Lists store.declarations (empty.declareAll store.declarations) :=
  Lists.declareAll store.pairwise_declarations lists_empty

/-! ## What is reported -/

/-- The failure that the first pass reports at a cell, whatever the table is. -/
def malformed? : Cell × Nat → Option LabelError
  | (.label name, index) => if name = "" then some (.emptyName index) else none
  | (.raw words, index) => (words.find? (·.toList.getLast? = some ':')).map (.notAlone index)
  | _ => none

theorem addCell_eq (table : LabelTable) (entry : Cell × Nat) :
    table.addCell entry.1 entry.2 = match malformed? entry with
      | some e => .error e
      | none => .ok (table.declareAll (Store.declares? entry).toList) := by
  obtain ⟨cell, index⟩ := entry
  cases cell with
  | label name =>
    unfold addCell malformed?
    by_cases bare : name = ""
    · simp [bare]
    · simp only [bare]
      rfl
  | raw words =>
    simp only [addCell, malformed?]
    cases words.find? (·.toList.getLast? = some ':') <;> rfl
  | instruction _ | number _ => rfl

/-- The first pass reports the first malformed declaration, or makes a table of all declarations. -/
theorem addCells_eq (entries : List (Cell × Nat)) (table : LabelTable) :
    entries.foldlM (fun table entry => table.addCell entry.1 entry.2) table =
      match entries.findSome? malformed? with
      | some e => .error e
      | none => .ok (table.declareAll (entries.filterMap Store.declares?)) := by
  induction entries generalizing table with
  | nil => rfl
  | cons entry rest ih =>
    rw [List.foldlM_cons, addCell_eq, List.findSome?_cons]
    cases malformed? entry with
    | some e => rfl
    | none =>
      show rest.foldlM _ (table.declareAll _) = _
      rw [ih, List.filterMap_cons]
      cases Store.declares? entry <;> rfl

theorem ofStore_eq (store : Store) :
    ofStore store = match store.entries.findSome? malformed? with
      | some e => .error e
      | none =>
        match store.entries.findSome? (empty.declareAll store.declarations).undefined? with
        | some e => .error e
        | none => .ok (empty.declareAll store.declarations) := by
  unfold ofStore
  rw [addCells_eq]
  cases store.entries.findSome? malformed? <;> rfl

/-- A malformed declaration in the memory, as it is reported. -/
inductive Malformed (store : Store) : LabelError → Prop
  | emptyName {index : Nat} (found : store.get? index = some (.label "")) : Malformed store (.emptyName index)
  /-- Of the words that end with a colon the first is reported. -/
  | notAlone {index : Nat} {before after : List String} {token : String}
      (found : store.get? index = some (.raw (before ++ token :: after)))
      (ends : token.toList.getLast? = some ':') (first : ∀ word ∈ before, word.toList.getLast? ≠ some ':') :
      Malformed store (.notAlone index token)

/-- An instruction in the memory whose label is declared nowhere, as it is reported. -/
inductive Undeclared (store : Store) : LabelError → Prop
  | undefined {index : Nat} {i : Instruction} {name : String} (found : store.get? index = some (.instruction i))
      (names : i.label? = some name) (absent : ∀ a, store.get? a ≠ some (.label name)) :
      Undeclared store (.undefined index name)

/-- The error is one of the given ones, and no other has a smaller index. -/
def FirstOf (errors : LabelError → Prop) (e : LabelError) : Prop :=
  errors e ∧ ∀ other, errors other → e.index ≤ other.index

/-- What is reported of the memory: a malformed declaration before any undeclared label, and the
    first of its kind. -/
inductive Reported (store : Store) (e : LabelError) : Prop
  | malformed (first : FirstOf (Malformed store) e)
  | undeclared (wellFormed : ∀ other, ¬ Malformed store other) (first : FirstOf (Undeclared store) e)

theorem exists_notAlone {store : Store} {index : Nat} {words : List String} {word : String}
    (found : store.get? index = some (.raw words)) (member : word ∈ words) (ends : word.toList.getLast? = some ':') :
    ∃ token, Malformed store (.notAlone index token) := by
  have some_ends : (words.find? (·.toList.getLast? = some ':')).isSome :=
    List.find?_isSome.mpr ⟨word, member, decide_eq_true ends⟩
  obtain ⟨token, search⟩ := Option.isSome_iff_exists.mp some_ends
  obtain ⟨ends, before, after, rfl, first⟩ := List.find?_eq_some_iff_append.mp search
  exact ⟨token, .notAlone found (of_decide_eq_true ends) fun w inside => by simpa using first w inside⟩

theorem malformed?_eq_some_iff {store : Store} {e : LabelError} :
    (∃ entry ∈ store.entries, malformed? entry = some e) ↔ Malformed store e := by
  constructor
  · rintro ⟨⟨cell, index⟩, member, reported⟩
    have found := Store.mem_entries.mp member
    cases cell with
    | label name =>
      simp only [malformed?] at reported
      split at reported
      · rename_i bare
        cases reported
        exact .emptyName (bare ▸ found)
      · cases reported
    | raw words =>
      obtain ⟨token, search, rfl⟩ := Option.map_eq_some_iff.mp reported
      obtain ⟨ends, before, after, rfl, first⟩ := List.find?_eq_some_iff_append.mp search
      exact .notAlone found (of_decide_eq_true ends) fun word member => by simpa using first word member
    | instruction _ | number _ => cases reported
  · intro malformed
    cases malformed with
    | emptyName found => exact ⟨_, Store.mem_entries.mpr found, rfl⟩
    | @notAlone index before after token found ends first =>
      refine ⟨_, Store.mem_entries.mpr found, Option.map_eq_some_iff.mpr ⟨token, ?_, rfl⟩⟩
      exact List.find?_eq_some_iff_append.mpr
        ⟨decide_eq_true ends, before, after, rfl, fun word member => by simpa using first word member⟩

theorem isSome_get?_declareAll_iff {store : Store} {name : String} :
    ((empty.declareAll store.declarations).get? name).isSome ↔ ∃ a, store.get? a = some (.label name) := by
  rw [isSome_get?_iff, (lists_declarations store).declared, List.mem_map]
  constructor
  · rintro ⟨d, member, rfl⟩
    exact ⟨d.2, Store.mem_declarations.mp member⟩
  · rintro ⟨a, found⟩
    exact ⟨(name, a), Store.mem_declarations.mpr found, rfl⟩

theorem undefined?_eq_some_iff {store : Store} {e : LabelError} :
    (∃ entry ∈ store.entries, (empty.declareAll store.declarations).undefined? entry = some e) ↔
      Undeclared store e := by
  constructor
  · rintro ⟨⟨cell, index⟩, member, reported⟩
    have found := Store.mem_entries.mp member
    cases cell with
    | instruction i =>
      simp only [undefined?] at reported
      split at reported
      · rename_i name names
        split at reported
        · cases reported
        · rename_i absent
          cases reported
          exact .undefined found names fun a declared => absent (isSome_get?_declareAll_iff.mpr ⟨a, declared⟩)
      · cases reported
    | label _ | number _ | raw _ => cases reported
  · intro undeclared
    cases undeclared with
    | @undefined index i name found names absent =>
      refine ⟨_, Store.mem_entries.mpr found, ?_⟩
      have missing : ¬ ((empty.declareAll store.declarations).get? name).isSome :=
        fun listed => (isSome_get?_declareAll_iff.mp listed).elim absent
      simp only [undefined?, names]
      exact if_neg missing

/-! ## The first of the errors -/

section
variable {store : Store} {report? : Cell × Nat → Option LabelError} {errors : LabelError → Prop}
  (own : ∀ entry e, report? entry = some e → e.index = entry.2)
  (all : ∀ e, (∃ entry ∈ store.entries, report? entry = some e) ↔ errors e)
include all

theorem findSome?_eq_none_iff : store.entries.findSome? report? = none ↔ ∀ e, ¬ errors e := by
  rw [List.findSome?_eq_none_iff]
  constructor
  · rintro silent e error
    obtain ⟨entry, member, reported⟩ := (all e).mpr error
    rw [silent entry member] at reported
    cases reported
  · intro none entry member
    cases reported : report? entry with
    | none => rfl
    | some e => exact absurd ((all e).mp ⟨entry, member, reported⟩) (none e)

include own

theorem firstOf_of_findSome? {e : LabelError} (found : store.entries.findSome? report? = some e) :
    FirstOf errors e := by
  obtain ⟨before, entry, after, split, reported, silent⟩ := List.findSome?_eq_some_iff.mp found
  have order := store.pairwise_entries
  refine ⟨(all e).mp ⟨entry, split ▸ by simp, reported⟩, fun other error => ?_⟩
  obtain ⟨place, member, also⟩ := (all other).mpr error
  rw [split] at member order
  rw [own _ _ reported, own _ _ also]
  rcases List.mem_append.mp member with earlier | rest
  · rw [silent place earlier] at also
    cases also
  · rcases List.mem_cons.mp rest with rfl | later
    · exact Nat.le_refl _
    · exact Nat.le_of_lt ((List.pairwise_cons.mp (List.pairwise_append.mp order).2.1).1 place later)

theorem findSome?_eq_some_iff {e : LabelError} : store.entries.findSome? report? = some e ↔ FirstOf errors e := by
  refine ⟨firstOf_of_findSome? own all, ?_⟩
  rintro ⟨error, least⟩
  cases found : store.entries.findSome? report? with
  | none => exact absurd error ((findSome?_eq_none_iff all).mp found e)
  | some other =>
    obtain ⟨also, first⟩ := firstOf_of_findSome? own all found
    obtain ⟨⟨cell, place⟩, member, reported⟩ := (all e).mpr error
    obtain ⟨⟨cell', place'⟩, member', reported'⟩ := (all other).mpr also
    have same := Nat.le_antisymm (least other also) (first e error)
    rw [own _ _ reported, own _ _ reported'] at same
    obtain rfl : place = place' := same
    -- At one index there is one cell, and one report of it.
    obtain rfl : cell = cell' := Option.some.inj ((Store.mem_entries.mp member).symm.trans (Store.mem_entries.mp member'))
    exact reported'.symm.trans reported

end

/-! ## Exactness -/

theorem index_of_malformed? (entry : Cell × Nat) (e : LabelError) (reported : malformed? entry = some e) :
    e.index = entry.2 := by
  obtain ⟨cell, index⟩ := entry
  cases cell with
  | label name =>
    simp only [malformed?] at reported
    split at reported
    · cases reported
      rfl
    · cases reported
  | raw words =>
    obtain ⟨token, -, rfl⟩ := Option.map_eq_some_iff.mp reported
    rfl
  | instruction _ | number _ => cases reported

theorem index_of_undefined? (table : LabelTable) (entry : Cell × Nat) (e : LabelError)
    (reported : table.undefined? entry = some e) : e.index = entry.2 := by
  obtain ⟨cell, index⟩ := entry
  cases cell with
  | instruction i =>
    simp only [undefined?] at reported
    split at reported
    · split at reported
      · cases reported
      · cases reported
        rfl
    · cases reported
  | label _ | number _ | raw _ => cases reported

section
variable {store : Store} {e : LabelError}

theorem first_malformed_iff : store.entries.findSome? malformed? = some e ↔ FirstOf (Malformed store) e :=
  findSome?_eq_some_iff index_of_malformed? fun _ => malformed?_eq_some_iff

theorem first_undeclared_iff :
    store.entries.findSome? (empty.declareAll store.declarations).undefined? = some e ↔ FirstOf (Undeclared store) e :=
  findSome?_eq_some_iff (index_of_undefined? _) fun _ => undefined?_eq_some_iff

theorem no_malformed_iff : store.entries.findSome? malformed? = none ↔ ∀ e, ¬ Malformed store e :=
  findSome?_eq_none_iff fun _ => malformed?_eq_some_iff

theorem no_undeclared_iff :
    store.entries.findSome? (empty.declareAll store.declarations).undefined? = none ↔ ∀ e, ¬ Undeclared store e :=
  findSome?_eq_none_iff fun _ => undefined?_eq_some_iff

/-- A memory is refused with what is to be reported of it. -/
theorem ofStore_eq_error_iff : ofStore store = .error e ↔ Reported store e := by
  rw [ofStore_eq]
  constructor
  · intro refused
    cases first : store.entries.findSome? malformed? with
    | some other =>
      rw [first] at refused
      cases refused
      exact .malformed (first_malformed_iff.mp first)
    | none =>
      rw [first] at refused
      cases second : store.entries.findSome? (empty.declareAll store.declarations).undefined? with
      | some other =>
        rw [second] at refused
        cases refused
        exact .undeclared (no_malformed_iff.mp first) (first_undeclared_iff.mp second)
      | none =>
        rw [second] at refused
        cases refused
  · rintro (first | ⟨wellFormed, first⟩)
    · rw [first_malformed_iff.mpr first]
    · rw [no_malformed_iff.mpr wellFormed, first_undeclared_iff.mpr first]

/-- The table of a memory in which nothing is to be reported has all its declarations. -/
theorem ofStore_eq_ok_iff_declareAll {table : LabelTable} :
    ofStore store = .ok table ↔
      (∀ e, ¬ Malformed store e) ∧ (∀ e, ¬ Undeclared store e) ∧ empty.declareAll store.declarations = table := by
  rw [ofStore_eq, ← no_malformed_iff, ← no_undeclared_iff]
  cases store.entries.findSome? malformed? with
  | some other => simp
  | none => cases store.entries.findSome? (empty.declareAll store.declarations).undefined? <;> simp

end

theorem exists_error_iff (store : Store) :
    (∃ e, ofStore store = .error e) ↔
      (∃ a, store.get? a = some (.label "")) ∨
      (∃ a words, store.get? a = some (.raw words) ∧ ∃ word ∈ words, word.toList.getLast? = some ':') ∨
      ∃ a i name, store.get? a = some (.instruction i) ∧ i.label? = some name ∧
        ∀ b, store.get? b ≠ some (.label name) := by
  have refused : (∃ e, ofStore store = .error e) ↔ (∃ e, Malformed store e) ∨ ∃ e, Undeclared store e := by
    cases result : ofStore store with
    | error e =>
      refine ⟨fun _ => ?_, fun _ => ⟨e, rfl⟩⟩
      rcases ofStore_eq_error_iff.mp result with first | ⟨-, first⟩
      · exact .inl ⟨e, first.1⟩
      · exact .inr ⟨e, first.1⟩
    | ok table =>
      obtain ⟨wellFormed, defined, -⟩ := ofStore_eq_ok_iff_declareAll.mp result
      simp [wellFormed, defined]
  rw [refused]
  constructor
  · rintro (⟨_, @⟨a, found⟩ | @⟨a, before, after, token, found, ends, -⟩⟩ | ⟨_, @⟨a, i, name, found, names, absent⟩⟩)
    · exact .inl ⟨a, found⟩
    · exact .inr (.inl ⟨a, _, found, token, by simp, ends⟩)
    · exact .inr (.inr ⟨a, i, name, found, names, absent⟩)
  · rintro (⟨a, found⟩ | ⟨a, words, found, word, member, ends⟩ | ⟨a, i, name, found, names, absent⟩)
    · exact .inl ⟨_, .emptyName found⟩
    · obtain ⟨token, malformed⟩ := exists_notAlone found member ends
      exact .inl ⟨_, malformed⟩
    · exact .inr ⟨_, .undefined found names absent⟩

/-- What the table of a memory says about its declarations. -/
structure Resolves (store : Store) (table : LabelTable) : Prop where
  /-- A label stands for its last declaration. -/
  last : ∀ name index, table.get? name = some index ↔
    store.get? index = some (.label name) ∧ ∀ other, store.get? other = some (.label name) → other ≤ index
  target : ∀ name address, table.target? name = some address ↔ ∃ index, table.get? name = some index ∧ address = index + 1
  /-- Each label is listed once, with its last declaration, in the order of the first ones. -/
  entries : ∀ name index, (name, index) ∈ table.entries ↔ table.get? name = some index
  once : (table.entries.map Prod.fst).Nodup
  names : table.entries.map Prod.fst = firsts store.declarations
  /-- All declarations that are not the first of their label are duplicates. -/
  duplicates : table.duplicates = repetitions store.declarations
  count : table.size + table.duplicates.length = store.declarations.length

theorem length_firsts_add_repetitions (declarations : List (String × Nat)) :
    (firsts declarations).length + (repetitions declarations).length = declarations.length := by
  have split := List.length_eq_countP_add_countP (l := declarations) (Repeats declarations ·)
  simp only [List.countP_eq_length_filter, decide_eq_true_eq] at split
  unfold firsts repetitions
  rw [List.length_map, List.length_map, Nat.add_comm]
  exact split.symm

theorem resolves_of_ofStore {store : Store} {table : LabelTable} (accepted : ofStore store = .ok table) :
    Resolves store table := by
  obtain ⟨-, -, made⟩ := ofStore_eq_ok_iff_declareAll.mp accepted
  have lists := made ▸ lists_declarations store
  refine ⟨?last, ?target, fun _ _ => mem_entries_iff lists.once, lists.once, lists.names, lists.duplicates, ?count⟩
  case last =>
    intro name index
    rw [get?_ofStore accepted, Store.lastDeclaration?_eq_some_iff]
    refine and_congr_right fun _ => ⟨fun last other declared => ?_, fun last other after declared => ?_⟩
    · exact Nat.le_of_not_lt fun after => last other after declared
    · exact Nat.not_le_of_lt after (last other declared)
  case target =>
    intro name address
    unfold target?
    rw [Option.map_eq_some_iff]
    exact exists_congr fun index => and_congr_right fun _ => eq_comm
  case count =>
    have names := congrArg List.length lists.names
    rw [List.length_map] at names
    rw [lists.duplicates, size, names]
    exact length_firsts_add_repetitions store.declarations

/-- Labels are resolved exactly: which memories are refused, what is then reported, and what
    the table of any other memory is. -/
theorem ofStore_exact (store : Store) :
    ((∃ e, ofStore store = .error e) ↔
        (∃ a, store.get? a = some (.label "")) ∨
        (∃ a words, store.get? a = some (.raw words) ∧ ∃ word ∈ words, word.toList.getLast? = some ':') ∨
        ∃ a i name, store.get? a = some (.instruction i) ∧ i.label? = some name ∧
          ∀ b, store.get? b ≠ some (.label name)) ∧
      (∀ e, ofStore store = .error e ↔ Reported store e) ∧
      ∀ table, ofStore store = .ok table → Resolves store table :=
  ⟨exists_error_iff store, fun _ => ofStore_eq_error_iff, fun _ => resolves_of_ofStore⟩

/-- A label keeps its place when it is declared again, and takes the last index. -/
example : ofStore (.ofList [.label "B", .label "A", .label "B", .label "B"]) = .ok ⟨[("B", 3), ("A", 1)], ["B", "B"]⟩ := by
  rfl

end LabelTable
end Accumulator
