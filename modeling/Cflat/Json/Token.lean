/-!
# JSON tokens

The lexer reads one character at a time.  `Mode` is what it has seen of the
current token, `Mode.step` is one character, and `tokens` runs over a whole text.
A text that breaks a rule ends in the token `invalid`, so a reader that has its
value before that point never looks at the broken part.
-/

namespace Cflat.Json

/-- A token of a JSON text. -/
inductive Token
  | beginArray
  | endArray
  | beginObject
  | endObject
  | colon
  | comma
  | null
  | bool (b : Bool)
  | number (literal : List Char)
  | string (text : String)
  | invalid
  deriving DecidableEq, Repr

/-- One item of a string: a character, or a UTF-16 unit given by its number. -/
inductive Unit16
  | char (c : Char)
  | escaped (n : Nat)
  deriving DecidableEq, Repr

/-- Whether a UTF-16 unit is the first of a pair. -/
def isHighSurrogate (n : Nat) : Bool := 0xd800 ≤ n && n < 0xdc00

/-- Whether a UTF-16 unit is the second of a pair. -/
def isLowSurrogate (n : Nat) : Bool := 0xdc00 ≤ n && n < 0xe000

/-- The character of a unit that stands alone.  A surrogate without its partner
becomes the replacement character. -/
def loneUnit (n : Nat) : Char :=
  if isHighSurrogate n || isLowSurrogate n then Char.ofNat 0xfffd else Char.ofNat n

/-- Two escaped surrogates that form a pair are one character.  `high` is a high
surrogate that still waits for its partner. -/
def decodeUnits (high : Option Nat) : List Unit16 → List Char
  | [] => (high.map loneUnit).toList
  | .char c :: rest => (high.map loneUnit).toList ++ c :: decodeUnits none rest
  | .escaped n :: rest =>
    match high with
    | some h =>
      if isLowSurrogate n then
        Char.ofNat (0x10000 + (h - 0xd800) * 0x400 + (n - 0xdc00)) :: decodeUnits none rest
      else if isHighSurrogate n then loneUnit h :: decodeUnits (some n) rest
      else loneUnit h :: loneUnit n :: decodeUnits none rest
    | none =>
      if isHighSurrogate n then decodeUnits (some n) rest
      else loneUnit n :: decodeUnits none rest

/-- How far a number literal has come. -/
inductive NumberPart
  | minus
  | zero
  | digits
  | point
  | fraction
  | exponent
  | exponentSign
  | exponentDigits
  deriving DecidableEq, Repr

namespace NumberPart

/-- Whether a literal may end here. -/
def complete : NumberPart → Bool
  | zero | digits | fraction | exponentDigits => true
  | _ => false

/-- Whether a character is a decimal digit. -/
def isDigit (c : Char) : Bool := '0' ≤ c && c ≤ '9'

/-- The part after one more character, if that character continues the literal. -/
def next? (c : Char) : NumberPart → Option NumberPart
  | minus => if c = '0' then some zero else if isDigit c then some digits else none
  | zero =>
    if c = '.' then some point else if c = 'e' ∨ c = 'E' then some exponent else none
  | digits =>
    if isDigit c then some digits
    else if c = '.' then some point
    else if c = 'e' ∨ c = 'E' then some exponent
    else none
  | point => if isDigit c then some fraction else none
  | fraction =>
    if isDigit c then some fraction else if c = 'e' ∨ c = 'E' then some exponent else none
  | exponent =>
    if c = '+' ∨ c = '-' then some exponentSign
    else if isDigit c then some exponentDigits
    else none
  | exponentSign => if isDigit c then some exponentDigits else none
  | exponentDigits => if isDigit c then some exponentDigits else none

end NumberPart

/-- What the lexer has seen of the current token.  Lists are reversed. -/
inductive Mode
  | between
  | text (units : List Unit16)
  | escape (units : List Unit16)
  | code (units : List Unit16) (digits : Nat) (value : Nat)
  | number (part : NumberPart) (chars : List Char)
  | keyword (next : Char) (rest : List Char) (token : Token)
  | stuck
  deriving DecidableEq, Repr

/-- The value of a hexadecimal digit. -/
def hexValue? (c : Char) : Option Nat :=
  if '0' ≤ c && c ≤ '9' then some (c.toNat - '0'.toNat)
  else if 'a' ≤ c && c ≤ 'f' then some (c.toNat - 'a'.toNat + 10)
  else if 'A' ≤ c && c ≤ 'F' then some (c.toNat - 'A'.toNat + 10)
  else none

/-- The character that a one-letter escape stands for. -/
def simpleEscape? : Char → Option Char
  | '"' => some '"'
  | '\\' => some '\\'
  | '/' => some '/'
  | 'b' => some '\x08'
  | 'f' => some '\x0c'
  | 'n' => some '\n'
  | 'r' => some '\r'
  | 't' => some '\t'
  | _ => none

namespace Mode

/-- The first character of a token, or white space. -/
def start (c : Char) : List Token × Mode :=
  match c with
  | ' ' | '\t' | '\n' | '\r' => ([], between)
  | '[' => ([.beginArray], between)
  | ']' => ([.endArray], between)
  | '\x7b' => ([.beginObject], between)
  | '\x7d' => ([.endObject], between)
  | ':' => ([.colon], between)
  | ',' => ([.comma], between)
  | '"' => ([], text [])
  | 'n' => ([], keyword 'u' ['l', 'l'] .null)
  | 't' => ([], keyword 'r' ['u', 'e'] (.bool true))
  | 'f' => ([], keyword 'a' ['l', 's', 'e'] (.bool false))
  | '-' => ([], number .minus ['-'])
  | '0' => ([], number .zero ['0'])
  | c => if NumberPart.isDigit c then ([], number .digits [c]) else ([.invalid], stuck)

/-- One character: the tokens it completes and the mode after it. -/
def step (c : Char) : Mode → List Token × Mode
  | between => start c
  | text units =>
    if c = '"' then ([.string (String.ofList (decodeUnits none units.reverse))], between)
    else if c = '\\' then ([], escape units)
    else if c.toNat < 0x20 then ([.invalid], stuck)
    else ([], text (.char c :: units))
  | escape units =>
    if c = 'u' then ([], code units 0 0)
    else match simpleEscape? c with
      | some d => ([], text (.char d :: units))
      | none => ([.invalid], stuck)
  | code units digits value =>
    match hexValue? c with
    | none => ([.invalid], stuck)
    | some d =>
      let value := 16 * value + d
      if digits = 3 then ([], text (.escaped value :: units))
      else ([], code units (digits + 1) value)
  | number part chars =>
    match part.next? c with
    | some part => ([], number part (c :: chars))
    | none =>
      if part.complete then
        let (ts, mode) := start c
        (.number chars.reverse :: ts, mode)
      else ([.invalid], stuck)
  | keyword next rest token =>
    if c = next then
      match rest with
      | [] => ([token], between)
      | d :: rest => ([], keyword d rest token)
    else ([.invalid], stuck)
  | stuck => ([], stuck)

/-- The tokens that the end of the text completes. -/
def finish : Mode → List Token
  | between | stuck => []
  | number part chars => if part.complete then [.number chars.reverse] else [.invalid]
  | _ => [.invalid]

end Mode

/-- The tokens of the rest of a text, from the given mode on. -/
def tokensFrom : Mode → List Char → List Token
  | mode, [] => mode.finish
  | mode, c :: cs =>
    let (ts, mode) := mode.step c
    ts ++ tokensFrom mode cs

/-- The tokens of a text. -/
def tokens (text : String) : List Token :=
  tokensFrom .between text.toList

end Cflat.Json
