import Cflat.Fault

/-!
# Operand widths

An instruction encodes the width of its operands as a suffix of the mnemonic.
Only one, two and four bytes have one.
-/

namespace Cflat.Asm

/-- A width without a suffix.  The mnemonic is empty when the width was looked
at outside an instruction; for a register it is the register's name. -/
structure WidthError where
  width : Int64
  mnemonic : String := ""
  deriving DecidableEq, Repr

namespace WidthError

/-- The text of a width error; the mnemonic follows if there is one. -/
def message (e : WidthError) : String :=
  if e.mnemonic = "" then s!"unsupported operand width: {e.width} bytes"
  else s!"unsupported operand width: {e.width} bytes (in {e.mnemonic})"

end WidthError

/-- The letter after a mnemonic that gives the width of its operands. -/
def suffix? (width : Int64) : Option String :=
  if width = 1 then some "b"
  else if width = 2 then some "w"
  else if width = 4 then some "l"
  else none

/-- The suffix of `width` for the given mnemonic. -/
def suffixIn (mnemonic : String) (width : Int64) : Except WidthError String :=
  match suffix? width with
  | some s => .ok s
  | none => .error ⟨width, mnemonic⟩

/-- The suffix of an extending move: source width, then destination width. -/
def dualSuffixIn (mnemonic : String) (source dest : Int64) : Except WidthError String := do
  let s ← suffixIn mnemonic source
  let d ← suffixIn mnemonic dest
  return s ++ d

/-- The least multiple of `alignment` that is not below `n`, in 64-bit words. -/
def roundUp (n alignment : Int64) : Except Fault Int64 :=
  if alignment = 0 then .error .divisionByZero
  else .ok ((n + alignment - 1) / alignment * alignment)

end Cflat.Asm
