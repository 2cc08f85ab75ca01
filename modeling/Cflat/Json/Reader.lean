import Cflat.Json.Basic
import Cflat.Json.Token

/-!
# Reading JSON values

A reader with a stack: one frame for each array or object that is still open,
innermost first.  It takes the tokens one by one and stops as soon as the
outermost value is complete.  `readFirst` ignores what follows the value,
`readWhole` wants nothing to follow.
-/

namespace Cflat.Json

/-- An array or object that is still open.  Lists are reversed.  The key of an
object is the one whose value comes next, and has no meaning before the first. -/
inductive Frame
  | array (items : List Json)
  | object (members : List (String × Json)) (key : String)

/-- What the reader wants next. -/
inductive Want
  | value
  | valueOrEnd
  | key
  | keyOrEnd
  | colon
  | commaOrEnd
  deriving DecidableEq

/-- What the reader has after a token. -/
inductive Progress
  | done (v : Json)
  | more (want : Want) (stack : List Frame)

/-- A complete value goes into the innermost open frame. -/
def deliver (v : Json) : List Frame → Progress
  | [] => .done v
  | .array items :: stack => .more .commaOrEnd (.array (v :: items) :: stack)
  | .object members key :: stack => .more .commaOrEnd (.object ((key, v) :: members) key :: stack)

/-- Open one more frame, unless that nests too deeply. -/
def openFrame (f : Frame) (want : Want) (stack : List Frame) : Option Progress :=
  if stack.length < maxDepth then some (.more want (f :: stack)) else none

/-- The token begins a value. -/
def acceptValue (stack : List Frame) : Token → Option Progress
  | .null => some (deliver .null stack)
  | .bool b => some (deliver (.bool b) stack)
  | .number literal => some (deliver (.number literal) stack)
  | .string text => some (deliver (.string text) stack)
  | .beginArray => openFrame (.array []) .valueOrEnd stack
  | .beginObject => openFrame (.object [] "") .keyOrEnd stack
  | _ => none

/-- The token ends the innermost frame. -/
def acceptEnd : List Frame → Token → Option Progress
  | .array items :: stack, .endArray => some (deliver (.array items.reverse) stack)
  | .object members _ :: stack, .endObject => some (deliver (.object members.reverse) stack)
  | _, _ => none

/-- The token is the key of the next member. -/
def acceptKey : List Frame → Token → Option Progress
  | .object members _ :: stack, .string key => some (.more .colon (.object members key :: stack))
  | _, _ => none

/-- The token divides two items or members. -/
def acceptComma : List Frame → Token → Option Progress
  | .array items :: stack, .comma => some (.more .value (.array items :: stack))
  | .object members key :: stack, .comma => some (.more .key (.object members key :: stack))
  | _, _ => none

/-- Take a token, if it is one that is wanted. -/
def accept (want : Want) (stack : List Frame) (t : Token) : Option Progress :=
  match want with
  | .value => acceptValue stack t
  | .valueOrEnd => acceptEnd stack t <|> acceptValue stack t
  | .key => acceptKey stack t
  | .keyOrEnd => acceptEnd stack t <|> acceptKey stack t
  | .colon => if t = .colon then some (.more .value stack) else none
  | .commaOrEnd => acceptEnd stack t <|> acceptComma stack t

/-- Read until the outermost value is complete; gives the value and the tokens
after it. -/
def readFrom : Want → List Frame → List Token → Option (Json × List Token)
  | _, _, [] => none
  | want, stack, t :: ts =>
    match accept want stack t with
    | none => none
    | some (.done v) => some (v, ts)
    | some (.more want stack) => readFrom want stack ts

/-- The first value of a text, whatever follows it. -/
def readFirst (text : String) : Option Json :=
  (readFrom .value [] (tokens text)).map (·.1)

/-- The only value of a text. -/
def readWhole (text : String) : Option Json :=
  match readFrom .value [] (tokens text) with
  | some (v, []) => some v
  | _ => none

end Cflat.Json
