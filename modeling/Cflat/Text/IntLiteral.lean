import Cflat.Text.Decimal

/-!
# Integer literals

Reading of 64-bit integers as programmers write them: an optional sign, then
digits in base ten, or in base two, eight or sixteen after `0b`, `0o` or `0x`.  A
leading zero alone also means base eight.  Single underscores may stand between
digits, and between a leading zero or base mark and the first digit.
-/

namespace Cflat.Text

/-- The value of a digit of some base up to sixteen. -/
def digit? (base : Nat) (c : Char) : Option Nat :=
  let n :=
    if '0' ≤ c && c ≤ '9' then c.toNat - '0'.toNat
    else if 'a' ≤ c && c ≤ 'f' then c.toNat - 'a'.toNat + 10
    else if 'A' ≤ c && c ≤ 'F' then c.toNat - 'A'.toNat + 10
    else base
  if n < base then some n else none

/-- Read digits on from the value `n`.  An underscore has to follow a digit, and a
digit has to follow it; `afterDigit` says what stands before. -/
def readSeparated? (base : Nat) (afterDigit : Bool) (n : Nat) : List Char → Option Nat
  | [] => if afterDigit then some n else none
  | c :: cs =>
    if c = '_' then
      if afterDigit then readSeparated? base false n cs else none
    else (digit? base c).bind fun d => readSeparated? base true (base * n + d) cs

/-- The base that a letter after a leading zero stands for. -/
def markedBase? (c : Char) : Option Nat :=
  if c = 'b' || c = 'B' then some 2
  else if c = 'o' || c = 'O' then some 8
  else if c = 'x' || c = 'X' then some 16
  else none

/-- The value of a literal without its sign. -/
def readMagnitude? : List Char → Option Nat
  | '0' :: c :: d :: cs =>
    match markedBase? c with
    | some base => readSeparated? base true 0 (d :: cs)
    | none => readSeparated? 8 true 0 (c :: d :: cs)
  | '0' :: cs => readSeparated? 8 true 0 cs
  | cs => readSeparated? 10 false 0 cs

/-- The integer that a literal with an optional sign denotes, if it is in range. -/
def readIntLiteral? : List Char → Option Int64
  | '-' :: cs => (readMagnitude? cs).bind fun n => int64OfInt? (-(n : Int))
  | '+' :: cs => (readMagnitude? cs).bind fun n => int64OfInt? n
  | cs => (readMagnitude? cs).bind fun n => int64OfInt? n

end Cflat.Text
