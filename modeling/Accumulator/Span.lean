/-!
Spans: stretches of a source text, as a start and a length in bytes that both fit in
32 bits. The join of two spans is the least span around both, except that its
length stops at the largest one there is.
-/
namespace Accumulator

/-- The largest start and the largest length of a span, 2³² - 1. -/
def Span.limit : Nat := 4294967295

/-- A stretch of a source text, in bytes of its UTF-8 form. -/
structure Span where
  start : Nat
  length : Nat
  start_le : start ≤ Span.limit
  length_le : length ≤ Span.limit
deriving DecidableEq

namespace Span

/-- The span with the given start and length, each cut down to what a span can hold. -/
def clamp (start length : Nat) : Span where
  start := min start limit
  length := min length limit
  start_le := Nat.min_le_right _ _
  length_le := Nat.min_le_right _ _

theorem clamp_eq (s : Span) : clamp s.start s.length = s := by
  obtain ⟨start, length, start_le, length_le⟩ := s
  simp only [clamp, Nat.min_eq_left start_le, Nat.min_eq_left length_le]

/-- The empty span at the start of the text. -/
def empty : Span := clamp 0 0

instance : Inhabited Span := ⟨empty⟩

/-- The first byte after the span. -/
def stop (s : Span) : Nat := s.start + s.length

/-- The span around both spans. Its length stops at the largest length of a span. -/
def join (a b : Span) : Span where
  start := min a.start b.start
  length := min (max a.stop b.stop - min a.start b.start) limit
  start_le := Nat.le_trans (Nat.min_le_left _ _) a.start_le
  length_le := Nat.min_le_right _ _

end Span
end Accumulator
