import Cflat.Text.Blank
import Cflat.Text.Decimal
import Cflat.Ty.Basic

/-!
# Type spellings

A type is spelled as a base name, then stars, then array lengths in brackets
with the outermost first: `unsigned char*[4][2]` is an array of four arrays of
two pointers.  `Ty.spelling` writes this form and `Table.parse` reads it, with
white space allowed around every token.

Reading goes from the end of the text: brackets first, then stars, and what is
left names the base type.  `parse` therefore works on the reversed text.
-/

namespace Cflat

namespace Ty

/-- The name of a base type, empty for a derived one. -/
def baseName : Ty → String
  | void => "void"
  | integer true rank _ => rank.spelling
  | integer false rank _ => "unsigned " ++ rank.spelling
  | _ => ""

/-- The spelling of `t` followed by the dimensions `dims`, which belong to the
arrays around it. -/
def spellingWith : Ty → String → String
  | array element length, dims => element.spellingWith (dims ++ s!"[{length}]")
  | pointer target _, dims => target.spellingWith "" ++ "*" ++ dims
  | t, dims => t.baseName ++ dims

/-- The spelling of a type. -/
def spelling (t : Ty) : String :=
  t.spellingWith ""

end Ty

/-- Why a text spells no type.  `spec` is the whole text. -/
inductive SpellingError
  | empty
  | malformedArray (spec : String)
  | badLength (spec : String)
  | unknownBase (text : String)
  | arrayOfVoid (spec : String)
  | tooLarge (spec : String)
  deriving DecidableEq, Repr

namespace SpellingError

/-- The text of a spelling error. -/
def message : SpellingError → String
  | empty => "empty type"
  | malformedArray spec => s!"malformed array type '{spec}'"
  | badLength spec => s!"invalid array length in '{spec}'"
  | unknownBase text => s!"unknown type '{text}'"
  | arrayOfVoid spec => s!"array of void in '{spec}'"
  | tooLarge spec => s!"array too large in '{spec}'"

end SpellingError

namespace Table

/-- The base types with their names. -/
def named (t : Table) : List (String × Ty) :=
  let integers := [true, false].flatMap fun signed =>
    [Rank.char, .short, .int, .long].map (t.integer signed)
  (.void :: integers).map fun ty => (ty.baseName, ty)

/-- The base type with the given name. -/
def lookup? (t : Table) (name : String) : Option Ty :=
  t.named.lookup name

/-- Strip the array lengths at the end of a reversed text.  Gives the lengths
from the innermost dimension outwards, and the reversed rest. -/
def stripLengths (spec : String) (rev : List Char) :
    Except SpellingError (List Int64 × List Char) :=
  match rev with
  | ']' :: inside =>
    match _h : inside.dropWhile (· != '[') with
    | [] => .error (.malformedArray spec)
    | _ :: before =>
      match Text.readInt64? (Text.trimChars (inside.takeWhile (· != '[')).reverse) with
      | none => .error (.badLength spec)
      | some n =>
        if n < 0 then .error (.badLength spec)
        else do
          let (dims, rest) ← stripLengths spec (before.dropWhile Text.isBlank)
          return (n :: dims, rest)
  | _ => .ok ([], rev)
termination_by rev.length
decreasing_by
  have h₁ := (List.dropWhile_sublist Text.isBlank (l := before)).length_le
  have h₂ := (List.dropWhile_sublist (· != '[') (l := inside)).length_le
  simp only [_h, List.length_cons] at h₂ ⊢
  omega

/-- Strip the stars at the end of a reversed text, and count them. -/
def stripStars : List Char → Nat × List Char
  | '*' :: rest =>
    let (n, base) := stripStars (rest.dropWhile Text.isBlank)
    (n + 1, base)
  | rev => (0, rev)
termination_by rev => rev.length
decreasing_by
  have h := (List.dropWhile_sublist Text.isBlank (l := rest)).length_le
  simp only [List.length_cons]
  omega

/-- Wrap a type in pointers. -/
def addStars (t : Table) (base : Ty) : Nat → Ty
  | 0 => base
  | n + 1 => t.addStars (t.pointerTo base) n

/-- Wrap an element type in arrays, innermost length first.  A length that
takes the size beyond a 64-bit word is refused; elements of no size are never
too large. -/
def addLengths (spec : String) : Ty → List Int64 → Except SpellingError Ty
  | t, [] => .ok t
  | t, n :: dims =>
    if 0 < t.size ∧ Int64.maxValue / t.size < n then .error (.tooLarge spec)
    else addLengths spec (.array t n) dims

/-- The type that a text spells. -/
def parse (t : Table) (spec : String) : Except SpellingError Ty := do
  let text := Text.trimChars spec.toList
  if text.isEmpty then
    throw .empty
  let (dims, rev) ← stripLengths spec text.reverse
  let (stars, rev) := stripStars rev
  let name := rev.reverse
  match t.lookup? (String.intercalate " " ((Text.wordsChars name).map String.ofList)) with
  | none => throw (.unknownBase (String.ofList name))
  | some base =>
    let ty := t.addStars base stars
    if ty.isVoid && !dims.isEmpty then
      throw (.arrayOfVoid spec)
    addLengths spec ty dims

end Table

end Cflat
