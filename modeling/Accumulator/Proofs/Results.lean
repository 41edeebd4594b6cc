import Mathlib.Data.List.Forall2

/-!
Results: readings that may be refused. What is made of a result is refused just as the result is.
A list is read element by element: either all of them are read, or the first that cannot be read
is the one that is reported.
-/
namespace Accumulator

section
variable {ε α β : Type}

/-! ## Single results -/

theorem map_eq_ok_iff {e : Except ε α} {f : α → β} {b : β} : e.map f = .ok b ↔ ∃ a, e = .ok a ∧ f a = b := by
  cases e with
  | error failure => exact ⟨nofun, nofun⟩
  | ok a =>
    constructor
    · intro made
      exact ⟨a, rfl, Except.ok.inj made⟩
    · rintro ⟨same, read, rfl⟩
      cases read
      rfl

theorem map_eq_error_iff {e : Except ε α} {f : α → β} {failure : ε} :
    e.map f = .error failure ↔ e = .error failure := by
  cases e with
  | error other => exact ⟨fun same => congrArg _ (Except.error.inj same), fun same => congrArg _ (Except.error.inj same)⟩
  | ok a => exact ⟨nofun, nofun⟩

/-! ## Lists of results -/

theorem exists_forall₂_iff {R : α → β → Prop} {as : List α} : (∃ bs, List.Forall₂ R as bs) ↔ ∀ a ∈ as, ∃ b, R a b := by
  induction as with
  | nil => simp [List.forall₂_nil_left_iff]
  | cons a as ih => simp [List.forall₂_cons_left_iff, ← ih]

variable {f : α → Except ε β}

theorem mapM_of_error {a : α} {e : ε} (failed : f a = .error e) (as : List α) : (a :: as).mapM f = .error e := by
  rw [List.mapM_cons, failed]
  rfl

theorem mapM_of_ok {a : α} {b : β} (made : f a = .ok b) (as : List α) :
    (a :: as).mapM f = (as.mapM f).map (b :: ·) := by
  rw [List.mapM_cons, made]
  cases as.mapM f <;> rfl

theorem mapM_eq_ok_iff {as : List α} {bs : List β} :
    as.mapM f = .ok bs ↔ List.Forall₂ (fun a b => f a = .ok b) as bs := by
  induction as generalizing bs with
  | nil => simp [List.forall₂_nil_left_iff, pure, Except.pure, eq_comm]
  | cons a as ih =>
    rw [List.forall₂_cons_left_iff]
    cases made : f a with
    | error e =>
      rw [mapM_of_error made]
      exact ⟨nofun, nofun⟩
    | ok b =>
      rw [mapM_of_ok made, map_eq_ok_iff]
      simp [ih, eq_comm]

/-- The error is that of the first element that is refused. -/
theorem mapM_eq_error_iff {as : List α} {e : ε} :
    as.mapM f = .error e ↔
      ∃ before a after, as = before ++ a :: after ∧ (∀ earlier ∈ before, ∃ b, f earlier = .ok b) ∧ f a = .error e := by
  constructor
  · intro refused
    induction as with
    | nil => cases refused
    | cons first rest ih =>
      cases made : f first with
      | error other =>
        rw [mapM_of_error made] at refused
        cases refused
        exact ⟨[], first, rest, rfl, nofun, made⟩
      | ok b =>
        rw [mapM_of_ok made, map_eq_error_iff] at refused
        obtain ⟨before, a, after, rfl, decoded, failed⟩ := ih refused
        exact ⟨first :: before, a, after, rfl, List.forall_mem_cons.mpr ⟨⟨b, made⟩, decoded⟩, failed⟩
  · rintro ⟨before, a, after, rfl, decoded, failed⟩
    induction before with
    | nil => exact mapM_of_error failed after
    | cons first before ih =>
      obtain ⟨⟨b, made⟩, decoded⟩ := List.forall_mem_cons.mp decoded
      rw [List.cons_append, mapM_of_ok made, map_eq_error_iff]
      exact ih decoded

end
end Accumulator
