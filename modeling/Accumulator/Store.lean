import Accumulator.Cell

/-!
The memory of the machine: the cells of the program at the addresses from 0 on. It
never shrinks, and grows only by numbers that are zero.
-/
namespace Accumulator

/-- Why no number can be read from, or stored at, an address. -/
inductive AddressError where
  | outOfRange (address : Int) (size : Nat)
  /-- The cell there is written as given, and is no number. -/
  | notANumber (address : Nat) (found : String)
deriving DecidableEq

def AddressError.message : AddressError → String
  | outOfRange address size => s!"address {address} is outside of memory (0 to {size - 1})"
  | notANumber address found => s!"address {address} holds `{found}`, not a number"

structure Store where
  cells : Array Cell
deriving DecidableEq

namespace Store

def ofList (cells : List Cell) : Store := ⟨cells.toArray⟩

def size (s : Store) : Nat := s.cells.size

/-- The cell at an address. -/
def get? (s : Store) (address : Nat) : Option Cell := s.cells[address]?

/-- The cells with their addresses, in order. -/
def entries (s : Store) : List (Cell × Nat) := s.cells.toList.zipIdx

/-- A computed address that lies in the memory. -/
def address (s : Store) (a : Int) : Except AddressError Nat :=
  if 0 ≤ a ∧ a.toNat < s.size then .ok a.toNat else .error (.outOfRange a s.size)

/-- The number at a computed address. -/
def number (s : Store) (a : Int) : Except AddressError Word := do
  let address ← s.address a
  match s.get? address with
  | none => .error (.outOfRange a s.size)
  | some cell =>
    match cell.number? with
    | some value => .ok value
    | none => .error (.notANumber address cell.text)

/-- Stores a number at a computed address, whatever the cell held before. -/
def put (s : Store) (a : Int) (value : Word) : Except AddressError Store := do
  let address ← s.address a
  .ok ⟨s.cells.setIfInBounds address (.number value)⟩

/-- Adds zeros until the address lies in the memory. A negative address adds none. -/
def growTo (s : Store) (a : Int) : Store :=
  if 0 ≤ a then ⟨s.cells ++ Array.replicate (a.toNat + 1 - s.size) (.number 0)⟩ else s

/-! ## Reading what was stored -/

theorem size_ofList (cells : List Cell) : (ofList cells).size = cells.length := by simp [ofList, size]

theorem get?_ofList (cells : List Cell) (a : Nat) : (ofList cells).get? a = cells[a]? := by simp [ofList, get?]

/-- The addresses are the numbers from 0 below the size. -/
theorem address_eq_ok_iff {s : Store} {a : Int} {n : Nat} : s.address a = .ok n ↔ a = n ∧ n < s.size := by
  unfold address
  split
  · rw [Except.ok.injEq]; omega
  · constructor
    · intro h; cases h
    · rintro ⟨rfl, inside⟩; omega

/-- Outside of the memory there is no address. -/
theorem address_of_outside {s : Store} {a : Int} (outside : ¬ (0 ≤ a ∧ a < s.size)) :
    s.address a = .error (.outOfRange a s.size) := by
  unfold address
  rw [if_neg (by omega)]

theorem get?_eq_none_iff {s : Store} {a : Nat} : s.get? a = none ↔ s.size ≤ a := Array.getElem?_eq_none_iff

theorem lt_size_of_get? {s : Store} {a : Nat} {cell : Cell} (found : s.get? a = some cell) : a < s.size :=
  (Array.getElem?_eq_some_iff.mp found).1

/-- Every address has a cell. -/
theorem exists_get? {s : Store} {a : Nat} (inside : a < s.size) : ∃ cell, s.get? a = some cell :=
  Option.ne_none_iff_exists'.mp fun h => absurd (get?_eq_none_iff.mp h) (by omega)

theorem number_of_outside {s : Store} {a : Int} (outside : ¬ (0 ≤ a ∧ a < s.size)) :
    s.number a = .error (.outOfRange a s.size) := by
  unfold number
  rw [address_of_outside outside]
  rfl

/-- What is read at an address depends on its cell alone. -/
theorem number_of_get? {s : Store} {a : Nat} {cell : Cell} (found : s.get? a = some cell) :
    s.number a = match cell.number? with
      | some value => .ok value
      | none => .error (.notANumber a cell.text) := by
  unfold number
  rw [address_eq_ok_iff.mpr ⟨rfl, lt_size_of_get? found⟩]
  show (match s.get? a with | none => _ | some cell => _) = _
  rw [found]

/-- Storing fails outside of the memory, and only there. -/
theorem put_of_outside {s : Store} {a : Int} {w : Word} (outside : ¬ (0 ≤ a ∧ a < s.size)) :
    s.put a w = .error (.outOfRange a s.size) := by
  unfold put
  rw [address_of_outside outside]
  rfl

/-- Storing succeeds exactly at the addresses, and then changes one cell. -/
theorem put_eq_ok_iff {s t : Store} {a : Int} {w : Word} :
    s.put a w = .ok t ↔ ∃ n : Nat, a = n ∧ n < s.size ∧ t = ⟨s.cells.setIfInBounds n (.number w)⟩ := by
  unfold put
  constructor
  · intro h
    cases found : s.address a with
    | error e => rw [found] at h; cases h
    | ok n =>
      rw [found] at h
      obtain ⟨same, inside⟩ := address_eq_ok_iff.mp found
      exact ⟨n, same, inside, (Except.ok.inj h).symm⟩
  · rintro ⟨n, same, inside, rfl⟩
    rw [address_eq_ok_iff.mpr ⟨same, inside⟩]
    rfl

theorem size_put {s t : Store} {a : Int} {w : Word} (h : s.put a w = .ok t) : t.size = s.size := by
  obtain ⟨n, _, _, rfl⟩ := put_eq_ok_iff.mp h
  simp [size]

theorem get?_put {s t : Store} {a : Int} {w : Word} (h : s.put a w = .ok t) (b : Nat) :
    t.get? b = if a = b then some (.number w) else s.get? b := by
  obtain ⟨n, rfl, inside, rfl⟩ := put_eq_ok_iff.mp h
  simp only [get?, Array.getElem?_setIfInBounds, Int.natCast_inj]
  split
  · simp [show n < s.cells.size from inside]
  · rfl

/-- Growth reaches one cell beyond the address and never takes a cell away. -/
theorem size_growTo (s : Store) (a : Int) : (s.growTo a).size = max s.size (a + 1).toNat := by
  unfold growTo
  split
  · simp only [size, Array.size_append, Array.size_replicate]; omega
  · omega

/-- Growth keeps all cells and adds zeros. -/
theorem get?_growTo (s : Store) (a : Int) (b : Nat) :
    (s.growTo a).get? b =
      if b < s.size then s.get? b else if b < (s.growTo a).size then some (.number 0) else none := by
  have total := size_growTo s a
  by_cases inside : b < s.size
  · rw [if_pos inside]
    unfold growTo
    split
    · exact Array.getElem?_append_left inside
    · rfl
  · rw [if_neg inside, total]
    unfold growTo
    split
    · have outside : s.cells.size ≤ b := Nat.le_of_not_lt inside
      simp only [get?, Array.getElem?_append_right outside, Array.getElem?_replicate]
      have bound : b - s.cells.size < a.toNat + 1 - s.size ↔ b < max s.size (a + 1).toNat := by
        unfold size; omega
      by_cases added : b < max s.size (a + 1).toNat
      · rw [if_pos added, if_pos (bound.mpr added)]
      · rw [if_neg added, if_neg (fun h => added (bound.mp h))]
    · rw [if_neg (by omega)]
      exact Array.getElem?_eq_none (Nat.le_of_not_lt inside)

/-- Growth to an address of the memory adds nothing. -/
theorem growTo_of_lt {s : Store} {a : Int} (inside : a < s.size) : s.growTo a = s := by
  unfold growTo
  split
  · rw [show a.toNat + 1 - s.size = 0 by omega]
    simp
  · rfl

/-- A memory that has grown holds a zero where it has grown to. -/
theorem get?_growTo_self {s : Store} {a : Nat} (outside : s.size ≤ a) : (s.growTo a).get? a = some (.number 0) := by
  rw [get?_growTo, if_neg (by omega), if_pos (by rw [size_growTo]; omega)]

/-- Where nothing can be read after growth, nothing has grown. -/
theorem growTo_of_number_eq_error {s : Store} {a : Int} {e : AddressError}
    (failed : (s.growTo a).number a = .error e) : s.growTo a = s := by
  by_cases inside : a < s.size
  · exact growTo_of_lt inside
  · obtain ⟨n, rfl⟩ := Int.eq_ofNat_of_zero_le (show 0 ≤ a by omega)
    have zero := get?_growTo_self (s := s) (a := n) (by omega)
    rw [number_of_get? zero] at failed
    cases failed

/-- Where nothing can be stored after growth, nothing has grown. -/
theorem growTo_of_put_eq_error {s : Store} {a : Int} {w : Word} {e : AddressError}
    (failed : (s.growTo a).put a w = .error e) : s.growTo a = s := by
  by_cases inside : a < s.size
  · exact growTo_of_lt inside
  · have grown := size_growTo s a
    rw [put_eq_ok_iff.mpr ⟨a.toNat, by omega, by omega, rfl⟩] at failed
    cases failed

end Store
end Accumulator
