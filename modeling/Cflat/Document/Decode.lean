import Cflat.Document.Basic
import Cflat.Json.Fields
import Cflat.Json.Reader

/-!
# Decoding unit documents

A unit document is the first JSON value of a file.  Every key must be a known
field and every value must have the form of its field; `isDocument` checks this
for the whole value, also for parts that a later write replaces.  A document that
passes is built by the `ofWrites` functions.
-/

namespace Cflat.Document

/-- Whether a value has the form of an initial value. -/
def isInit : Json → Bool :=
  Json.isRecord fun key v =>
    if Json.names "int" key then Json.isIntField v
    else if Json.names "string" key then Json.isStringField v
    else if Json.names "symbol" key then Json.isStringField v
    else if Json.names "offset" key then Json.isIntField v
    else false

/-- Whether a value has the form of a local variable. -/
def isLocalVar : Json → Bool :=
  Json.isRecord fun key v =>
    if Json.names "name" key then Json.isStringField v
    else if Json.names "type" key then Json.isStringField v
    else if Json.names "storage" key then Json.isStringField v
    else if Json.names "init" key then isInit v
    else false

mutual

/-- Whether a value has the form of a block. -/
def isBlock : Json → Bool
  | .null => true
  | .object members => areBlockMembers members
  | _ => false

/-- Whether the members of an object are those of a block. -/
def areBlockMembers : List (String × Json) → Bool
  | [] => true
  | (key, v) :: rest =>
    (if Json.names "vars" key then Json.isListOf isLocalVar v
      else if Json.names "scopes" key then isBlockList v
      else false) && areBlockMembers rest

/-- Whether a value has the form of a list of blocks. -/
def isBlockList : Json → Bool
  | .null => true
  | .array items => areBlocks items
  | _ => false

/-- Whether all values have the form of a block. -/
def areBlocks : List Json → Bool
  | [] => true
  | b :: rest => isBlock b && areBlocks rest

end

/-- Whether a value has the form of an entity. -/
def isItem : Json → Bool :=
  Json.isRecord fun key v =>
    if Json.names "kind" key then Json.isStringField v
    else if Json.names "name" key then Json.isStringField v
    else if Json.names "type" key then Json.isStringField v
    else if Json.names "static" key then Json.isBoolField v
    else if Json.names "init" key then isInit v
    else if Json.names "scope" key then isBlock v
    else false

/-- Whether a value has the form of a unit document. -/
def isDocument : Json → Bool :=
  Json.isRecord fun key v =>
    if Json.names "file" key then Json.isStringField v
    else if Json.names "entities" key then Json.isListOf isItem v
    else false

/-- The initial value that some records write. -/
def Init.ofWrites (ws : List Json) : Init where
  int := Json.optional Json.lastInt (Json.fieldWrites "int" ws)
  string := Json.optional Json.lastString (Json.fieldWrites "string" ws)
  symbol := Json.lastString (Json.fieldWrites "symbol" ws)
  offset := Json.lastInt (Json.fieldWrites "offset" ws)

/-- The local variable that some records write. -/
def LocalVar.ofWrites (ws : List Json) : LocalVar where
  name := Json.lastString (Json.fieldWrites "name" ws)
  type := Json.lastString (Json.fieldWrites "type" ws)
  storage := Json.lastString (Json.fieldWrites "storage" ws)
  init := Json.optional Init.ofWrites (Json.fieldWrites "init" ws)

/-- Blocks nested in a value are no deeper than its arrays and objects, so
`Json.maxDepth` is depth enough for every value that was read. -/
def Block.ofWrites : Nat → List Json → Block
  | 0, _ => {}
  | depth + 1, ws =>
    { vars := (Json.listItems (Json.fieldWrites "vars" ws)).map LocalVar.ofWrites
      blocks := (Json.listItems (Json.fieldWrites "scopes" ws)).map (Block.ofWrites depth) }

/-- The entity that some records write. -/
def Item.ofWrites (ws : List Json) : Item where
  kind := Json.lastString (Json.fieldWrites "kind" ws)
  name := Json.lastString (Json.fieldWrites "name" ws)
  type := Json.lastString (Json.fieldWrites "type" ws)
  isStatic := Json.lastBool (Json.fieldWrites "static" ws)
  init := Json.optional Init.ofWrites (Json.fieldWrites "init" ws)
  body := Json.optional (Block.ofWrites Json.maxDepth) (Json.fieldWrites "scope" ws)

/-- The unit document in a value of the right form. -/
def ofJson? (v : Json) : Option Document :=
  if isDocument v then
    some
      { file := Json.lastString (Json.fieldWrites "file" [v])
        items := (Json.listItems (Json.fieldWrites "entities" [v])).map Item.ofWrites }
  else none

/-- The document at the start of a text. -/
def decode? (text : String) : Option Document :=
  (Json.readFirst text).bind ofJson?

end Cflat.Document
