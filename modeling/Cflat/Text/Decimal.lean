/-!
# Signed decimals

Reading of 64-bit integers as they stand in type spellings and in JSON
documents: an optional sign, at least one digit, nothing else, and a value in
range.
-/

namespace Cflat.Text

/-- Whether a character is a decimal digit. -/
def isDecimalDigit (c : Char) : Bool :=
  '0' ≤ c && c ≤ '9'

/-- The number that a list of decimal digits denotes. -/
def digitsValue (ds : List Char) : Nat :=
  ds.foldl (fun n d => 10 * n + (d.toNat - '0'.toNat)) 0

/-- The number that a text of digits denotes; it must have one digit at least. -/
def readDigits? (ds : List Char) : Option Nat :=
  if !ds.isEmpty && ds.all isDecimalDigit then some (digitsValue ds) else none

/-- An integer in the range of 64-bit words, or nothing. -/
def int64OfInt? (n : Int) : Option Int64 :=
  if Int64.minValue.toInt ≤ n ∧ n ≤ Int64.maxValue.toInt then some (Int64.ofInt n) else none

/-- The integer that a sign and digits denote, if it is in range. -/
def readInt64? : List Char → Option Int64
  | '-' :: ds => (readDigits? ds).bind fun n => int64OfInt? (-(n : Int))
  | '+' :: ds => (readDigits? ds).bind fun n => int64OfInt? n
  | ds => (readDigits? ds).bind fun n => int64OfInt? n

end Cflat.Text
