import Cflat.Json.Basic
import Cflat.Text.Padding
import Cflat.Text.Quoted

/-!
# Printing JSON values

One member or item a line, two blanks for each level, and nothing after the last
bracket.  A string is written so that it can stand inside a web page: angle
brackets and ampersands are escaped, and so are the two line separators.
-/

namespace Cflat.Json

/-- What stands for a character in a string. -/
def escapedChar (c : Char) : List Char :=
  match c.toNat with
  | 0x22 => ['\\', '"']
  | 0x5c => ['\\', '\\']
  | 0x08 => ['\\', 'b']
  | 0x09 => ['\\', 't']
  | 0x0a => ['\\', 'n']
  | 0x0c => ['\\', 'f']
  | 0x0d => ['\\', 'r']
  | n =>
    if n < 0x20 || c = '<' || c = '>' || c = '&' || n = 0x2028 || n = 0x2029 then
      ['\\', 'u'] ++ Text.hexDigits 4 n
    else [c]

/-- A text as a JSON string. -/
def quotedText (s : String) : String :=
  "\"" ++ String.ofList (s.toList.flatMap escapedChar) ++ "\""

/-- The blanks before a line of the given level. -/
def margin (level : Nat) : String := Text.spaces (2 * level)

/-- Lines between brackets. -/
def bracketed (opening closing : String) (level : Nat) (lines : List String) : String :=
  if lines.isEmpty then opening ++ closing
  else
    opening ++ "\n" ++
      String.intercalate ",\n" (lines.map fun line => margin (level + 1) ++ line) ++
      "\n" ++ margin level ++ closing

mutual

/-- The text of a value whose first line is already indented. -/
def renderAt (level : Nat) : Json → String
  | .null => "null"
  | .bool b => if b then "true" else "false"
  | .number literal => String.ofList literal
  | .string text => quotedText text
  | .array items => bracketed "[" "]" level (renderItems (level + 1) items)
  | .object members => bracketed "\x7b" "\x7d" level (renderMembers (level + 1) members)

/-- The texts of the items of an array. -/
def renderItems (level : Nat) : List Json → List String
  | [] => []
  | v :: rest => renderAt level v :: renderItems level rest

/-- The texts of the members of an object. -/
def renderMembers (level : Nat) : List (String × Json) → List String
  | [] => []
  | (key, v) :: rest =>
    (quotedText key ++ ": " ++ renderAt level v) :: renderMembers level rest

end

/-- The text of a value. -/
def render (v : Json) : String := renderAt 0 v

end Cflat.Json
