import Accumulator.Span
import Mathlib.Algebra.Group.Nat.Defs

/-!
Joins: the join of spans is a semilattice operation. It stops at the largest length that a span
has, and is then no span around both. A join that has been cut off stays cut off in every later
join, because that starts no later. So the order of joins makes no difference, and wherever
there is a span around two others their join is the least.
-/
namespace Accumulator.Span

/-- The span holds all of the other, its start and its end included. -/
def Covers (s t : Span) : Prop := s.start ≤ t.start ∧ t.stop ≤ s.stop

instance (s t : Span) : Decidable (s.Covers t) := inferInstanceAs (Decidable (_ ∧ _))

/-- The number of bytes from the first start to the last end of two spans. -/
def hull (a b : Span) : Nat := max a.stop b.stop - min a.start b.start

variable {a b c : Span}

theorem start_le_stop (s : Span) : s.start ≤ s.stop := Nat.le_add_right _ _

theorem stop_le (s : Span) : s.stop ≤ s.start + limit := Nat.add_le_add_left s.length_le s.start

theorem eq_of_ends (start : a.start = b.start) (stop : a.stop = b.stop) : a = b := by
  obtain ⟨as, al, _, _⟩ := a
  obtain ⟨bs, bl, _, _⟩ := b
  simp only [Span.stop, mk.injEq] at start stop ⊢
  omega

/-! ## The ends of a join -/

theorem start_join (a b : Span) : (a.join b).start = min a.start b.start := rfl

/-- The join ends where the later span ends, unless the length is cut off before. -/
theorem stop_join (a b : Span) : (a.join b).stop = min (max a.stop b.stop) (min a.start b.start + limit) := by
  have first := a.start_le_stop
  have second := b.start_le_stop
  show min a.start b.start + min (max a.stop b.stop - min a.start b.start) limit = _
  omega

theorem join_comm (a b : Span) : a.join b = b.join a := by
  apply eq_of_ends
  · rw [start_join, start_join, Nat.min_comm]
  · rw [stop_join, stop_join, Nat.max_comm, Nat.min_comm a.start]

theorem join_self (a : Span) : a.join a = a := by
  have fits := a.stop_le
  apply eq_of_ends
  · rw [start_join, Nat.min_self]
  · rw [stop_join, Nat.max_self, Nat.min_self, Nat.min_eq_left fits]

/-- A join that has been cut off is cut off again in the next one, which starts no later. -/
theorem stop_join_join (a b c : Span) : ((a.join b).join c).stop =
    min (max (max a.stop b.stop) c.stop) (min (min a.start b.start) c.start + limit) := by
  have no_later : min (min a.start b.start) c.start + limit ≤ min a.start b.start + limit :=
    Nat.add_le_add_right (Nat.min_le_left _ _) limit
  rw [stop_join, stop_join, start_join, Nat.min_max_distrib_right, Nat.min_assoc, Nat.min_eq_right no_later,
    ← Nat.min_max_distrib_right]

theorem join_assoc (a b c : Span) : (a.join b).join c = a.join (b.join c) := by
  rw [join_comm a (b.join c)]
  have starts : min (min a.start b.start) c.start = min (min b.start c.start) a.start := by omega
  have stops : max (max a.stop b.stop) c.stop = max (max b.stop c.stop) a.stop := by omega
  apply eq_of_ends
  · exact starts
  · rw [stop_join_join, stop_join_join, starts, stops]

/-! ## Spans around both -/

theorem join_covers_iff : (a.join b).Covers a ∧ (a.join b).Covers b ↔ a.hull b ≤ limit := by
  have first := a.start_le_stop
  simp only [Covers, hull, start_join, stop_join]
  omega

/-- Every span around both covers their join, also where that is cut off. -/
theorem Covers.join (ca : c.Covers a) (cb : c.Covers b) : c.Covers (a.join b) := by
  simp only [Covers, start_join, stop_join] at ca cb ⊢
  omega

theorem hull_le_of_covers (ca : c.Covers a) (cb : c.Covers b) : a.hull b ≤ limit := by
  have fits := c.stop_le
  simp only [Covers, hull] at ca cb ⊢
  omega

/-- Joining spans is commutative, associative and idempotent, also where lengths are cut off. The
    join of two spans is the least span around both whenever their hull is short enough for a
    span. Otherwise there is none, and the join has the largest length of a span. -/
theorem join_semilattice (a b c : Span) :
    a.join b = b.join a ∧ (a.join b).join c = a.join (b.join c) ∧ a.join a = a ∧
      (a.hull b < 2 ^ 32 →
        (a.join b).Covers a ∧ (a.join b).Covers b ∧ ∀ s : Span, s.Covers a → s.Covers b → s.Covers (a.join b)) ∧
      (2 ^ 32 ≤ a.hull b → (a.join b).length = limit ∧ ∀ s : Span, ¬ (s.Covers a ∧ s.Covers b)) := by
  refine ⟨join_comm a b, join_assoc a b c, join_self a, ?least, ?none⟩
  case least =>
    intro short
    obtain ⟨first, second⟩ := join_covers_iff.mpr (Nat.le_of_lt_succ short)
    exact ⟨first, second, fun s => Covers.join⟩
  case none =>
    intro long
    refine ⟨Nat.min_eq_right (Nat.le_of_succ_le long), ?_⟩
    rintro s ⟨first, second⟩
    exact absurd (hull_le_of_covers first second) (Nat.not_le_of_lt long)

/-- Two spans that are far apart, and two of the largest length whose join is cut off. -/
theorem join_semilattice_cut_off :
    let a := clamp 0 1
    let b := clamp 70000 5
    let long := clamp 1 limit
    (a.hull b < 2 ^ 32 ∧ a.join b = clamp 0 70005 ∧ (a.join b).Covers a ∧ (a.join b).Covers b) ∧
      (2 ^ 32 ≤ a.hull long ∧ a.join long = clamp 0 limit ∧ ∀ s : Span, ¬ (s.Covers a ∧ s.Covers long)) := by
  intro a b long
  obtain ⟨-, -, -, least, -⟩ := join_semilattice a b long
  obtain ⟨-, -, -, -, none⟩ := join_semilattice a long b
  obtain ⟨first, second, -⟩ := least (by decide)
  exact ⟨⟨by decide, by decide, first, second⟩, by decide, by decide, (none (by decide)).2⟩

end Accumulator.Span
