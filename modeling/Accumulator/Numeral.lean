/-!
Numerals: a run of digits of a radix, of any length, stands for one number. A
signed numeral may begin with one sign.
-/
namespace Accumulator.Numeral

/-- The value of a digit in a radix up to 36, in either case of its letter. -/
def digit? (radix : Nat) (c : Char) : Option Nat :=
  let value :=
    if '0' ≤ c ∧ c ≤ '9' then some (c.toNat - '0'.toNat)
    else if 'a' ≤ c ∧ c ≤ 'z' then some (c.toNat - 'a'.toNat + 10)
    else if 'A' ≤ c ∧ c ≤ 'Z' then some (c.toNat - 'A'.toNat + 10)
    else none
  value.filter (· < radix)

/-- The number that digits stand for after the ones already read. -/
def digits? (radix : Nat) (read : Nat) : List Char → Option Nat
  | [] => some read
  | c :: cs => do digits? radix (read * radix + (← digit? radix c)) cs

/-- The number that one or more digits stand for. -/
def natural? (radix : Nat) (cs : List Char) : Option Nat :=
  if cs = [] then none else digits? radix 0 cs

/-- The number that digits stand for after an optional plus sign. -/
def unsigned? (radix : Nat) : List Char → Option Nat
  | '+' :: cs => natural? radix cs
  | cs => natural? radix cs

/-- The number that digits stand for after an optional sign. -/
def signed? (radix : Nat) : List Char → Option Int
  | '-' :: cs => (natural? radix cs).map fun n => -(n : Int)
  | cs => (unsigned? radix cs).map Int.ofNat

end Accumulator.Numeral
