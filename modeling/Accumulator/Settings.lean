import Accumulator.Numeral
import Accumulator.Text

/-!
Settings from environment variables. They are read once: later changes of the
variables change nothing.
-/
namespace Accumulator

/-- Environment variables, by name. -/
structure Variables where
  values : List (String × String)
deriving DecidableEq

namespace Variables

def get? (v : Variables) (name : String) : Option String := v.values.lookup name

def unset (v : Variables) (name : String) : Variables := ⟨v.values.filter (·.1 ≠ name)⟩

def set (v : Variables) (name value : String) : Variables := ⟨(name, value) :: (v.unset name).values⟩

end Variables

structure Settings where
  /-- Words are shown as bits. -/
  binary : Bool := false
  /-- The step limit of runs that are given none. -/
  limit : Option Nat := none
deriving DecidableEq

namespace Settings

/-- The number of a numeral that fits in 64 bits. -/
def count? (text : List Char) : Option Nat := (Numeral.unsigned? 10 text).filter (· < 18446744073709551616)

/-- The step limit that a variable gives. Zero, like any other text, gives none. -/
def limit? (text : String) : Option Nat := (count? (Text.trim text.toList)).filter (0 < ·)

/-- The settings that the variables give. -/
def ofVariables (v : Variables) : Settings where
  binary := v.get? "CIASM_BINARY" = some "1"
  limit := (v.get? "CIASM_LIMIT").bind limit?

/-- Settings that have been read, or have not been asked for yet. -/
abbrev Memo := Option Settings

/-- What is said when settings are to be read that have been read before. -/
def alreadyRead : String := "tried to initialize environment state multiple times"

/-- Reads the settings, which must not have been read. -/
def init (memo : Memo) (v : Variables) : Except String Memo :=
  match memo with
  | none => .ok (some (ofVariables v))
  | some _ => .error alreadyRead

/-- The settings, read from the variables if that has not been done. -/
def current (memo : Memo) (v : Variables) : Settings := memo.getD (ofVariables v)

end Settings
end Accumulator
