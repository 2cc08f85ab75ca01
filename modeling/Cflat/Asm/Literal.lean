/-!
# String literals

The assembler reads a string literal between double quotes.  Printable ASCII
stands for itself, a quote and a backslash take a backslash, five control
characters have a letter, and every other byte is written as a backslash and
three octal digits.  Three digits always, so that a digit after the escape is
never read as a part of it.
-/

namespace Cflat.Asm

/-- The octal digit of the low three bits of `n`. -/
def octalDigit (n : Nat) : Char :=
  Char.ofNat ('0'.toNat + n % 8)

/-- What stands for a byte in a literal: itself if it can be printed, an escape
otherwise. -/
def escapeByte (b : UInt8) : List Char :=
  let n := b.toNat
  if n = 0x22 then ['\\', '"']
  else if n = 0x5c then ['\\', '\\']
  else if 0x20 ≤ n ∧ n ≤ 0x7e then [Char.ofNat n]
  else if n = 0x08 then ['\\', 'b']
  else if n = 0x09 then ['\\', 't']
  else if n = 0x0a then ['\\', 'n']
  else if n = 0x0c then ['\\', 'f']
  else if n = 0x0d then ['\\', 'r']
  else ['\\', octalDigit (n / 64), octalDigit (n / 8), octalDigit n]

/-- The literal that denotes the given bytes, quotes included. -/
def literalChars (bytes : List UInt8) : List Char :=
  '"' :: bytes.flatMap escapeByte ++ ['"']

/-- The literal of some bytes as a text. -/
def literal (bytes : List UInt8) : String :=
  String.ofList (literalChars bytes)

/-- The literal that denotes the UTF-8 bytes of a text. -/
def textLiteral (s : String) : String :=
  literal s.toUTF8.toList

end Cflat.Asm
