import Cflat.Document.Decode
import Cflat.Program.Basic
import Cflat.Scope.Change

/-!
# Loading

Loading checks a document in three passes.  The first declares the top-level
entities in document order.  The second opens the body of every defined function,
again in document order, and declares its local variables.  The third looks up the
names that initial values take the address of; by then every declaration is in
place, so a name may be used before it is declared.

The first broken rule on this way is the error.
-/

namespace Cflat

/-- The rule that a document breaks. -/
inductive LoadError
  | unnamed
  | badType (name : String) (e : SpellingError)
  | badInit (name : String)
  | voidType (name : String)
  | constantWithoutValue (name : String)
  | unknownKind (kind name : String)
  | unknownStorage (storage name : String)
  | initNotAllowed (kind : Scope.Kind) (name : String)
  | bodyNotAllowed (kind : Scope.Kind) (name : String)
  | scope (e : Scope.ScopeError)
  | inFunction (name : String) (e : LoadError)
  | unresolved (owner : String) (e : Scope.ScopeError)
  | addressOfAutomatic (owner symbol : String)
  | addressOfConstant (owner symbol : String)
  deriving DecidableEq, Repr

namespace LoadError

/-- The text of the error. -/
def message : LoadError → String
  | unnamed => "entity without a name"
  | badType name e => name ++ ": " ++ e.message
  | badInit name => name ++ ": initializer must have exactly one of int, string, symbol"
  | voidType name => s!"'{name}' declared with type void"
  | constantWithoutValue name => s!"constant '{name}' has no value"
  | unknownKind kind name => s!"unknown entity kind '{kind}' for '{name}'"
  | unknownStorage storage name => s!"unknown storage '{storage}' for '{name}'"
  | initNotAllowed kind name => s!"{kind.text} '{name}' cannot have an initializer"
  | bodyNotAllowed kind name => s!"{kind.text} '{name}' cannot have a body"
  | scope e => e.message
  | inFunction name e => "in function " ++ name ++ ": " ++ e.message
  | unresolved owner e => "initializer of " ++ owner ++ ": " ++ e.message
  | addressOfAutomatic owner symbol =>
    s!"initializer of {owner} takes the address of automatic variable {symbol}"
  | addressOfConstant owner symbol =>
    s!"initializer of {owner} takes the address of constant {symbol}"

end LoadError

namespace Document

/-- The constant of a well-formed initial value. -/
def Init.constant? (i : Init) : Option Scope.Constant :=
  match i.int, i.string, i.symbol with
  | some n, none, "" => some (.int n)
  | none, some s, "" => some (.string s)
  | none, none, symbol => if symbol = "" then none else some (.address symbol i.offset)
  | _, _, _ => none

end Document

namespace Load

open Scope (Entity Initializer Kind Storage Block Place)

/-- The type of a thing with a name. -/
def parseType (types : Table) (name spec : String) : Except LoadError Ty :=
  (types.parse spec).mapError (.badType name)

/-- The initial value of a thing with a name. -/
def initializer (name : String) :
    Option Document.Init → Except LoadError (Option (Initializer Site))
  | none => .ok none
  | some i =>
    match i.constant? with
    | some c => .ok (some ⟨c, none⟩)
    | none => .error (.badInit name)

/-- The kind that a document's word names. -/
def kind? : String → Option Kind
  | "var" => some .definedVariable
  | "extern" => some .externVariable
  | "func" => some .definedFunction
  | "extern-func" => some .externFunction
  | "const" => some .constant
  | _ => none

/-- The entity of a top-level item.  Only variables and functions can be
private, and only functions may have type void. -/
def entity (types : Table) (item : Document.Item) : Except LoadError (Entity Site) := do
  if item.name = "" then
    throw .unnamed
  let type ← parseType types item.name item.type
  let init ← initializer item.name item.init
  if type.isVoid && item.kind != "func" && item.kind != "extern-func" then
    throw (.voidType item.name)
  match kind? item.kind with
  | none => throw (.unknownKind item.kind item.name)
  | some kind =>
    if kind = .constant && init.isNone then
      throw (.constantWithoutValue item.name)
    if init.isSome && kind != .definedVariable && kind != .constant then
      throw (.initNotAllowed kind item.name)
    return {
      id := ⟨[], item.name⟩
      kind
      name := item.name
      type := some type
      markedPrivate := item.isStatic && (kind = .definedVariable || kind = .definedFunction)
      init }

/-- Loading builds up a tree, or stops at the first broken rule. -/
abbrev Loading := StateT (Scope.Tree Site) (Except LoadError)

/-- A change of the tree as a step of loading. -/
def change {α : Type} (x : Scope.Change Site α) : Loading α := fun t =>
  match t.apply x with
  | (.ok a, t) => .ok (a, t)
  | (.error e, _) => .error (.scope e)

/-- The first pass: one top-level item, which gives the entity that it declares. -/
def declareItem (types : Table) (item : Document.Item) : Loading (Entity Site) := do
  let e ← entity types item
  change (.declare [] e)
  if item.body.isSome && e.kind != .definedFunction then
    throw (.bodyNotAllowed e.kind e.name)
  return e

/-- The storage duration that a document's word names. -/
def storage? : String → Option Storage
  | "" => some .automatic
  | "auto" => some .automatic
  | "static" => some .static
  | _ => none

/-- The entity of a local variable of the block at a place. -/
def localVar (types : Table) (place : Place) (v : Document.LocalVar) :
    Except LoadError (Entity Site) := do
  let type ← parseType types v.name v.type
  if type.isVoid then
    throw (.voidType v.name)
  let init ← initializer v.name v.init
  match storage? v.storage with
  | none => throw (.unknownStorage v.storage v.name)
  | some storage =>
    return {
      id := ⟨place, v.name⟩
      kind := .definedVariable
      name := v.name
      type := some type
      storage
      init }

/-- The second pass: one variable of the block at a place. -/
def declareVar (types : Table) (place : Place) (v : Document.LocalVar) : Loading Unit := do
  change (.declare place (← localVar types place v))

mutual

/-- The second pass: the variables of the block at a place, and the blocks in it. -/
def block (types : Table) (place : Place) : Document.Block → Loading Unit
  | ⟨vars, blocks⟩ => do
    vars.forM (declareVar types place)
    blockList types place blocks

/-- Blocks in the block at a place, opened one after the other. -/
def blockList (types : Table) (outer : Place) : List Document.Block → Loading Unit
  | [] => return
  | b :: rest => do
    let place ← change (.openBlock outer)
    block types place b
    blockList types outer rest

end

/-- The second pass: the body of one defined function. -/
def openBody (types : Table) (item : Document.Item) (f : Entity Site) : Loading Unit := do
  let place ← change (.openBody f)
  fun t => (block types place (item.body.getD {}) t).mapError (.inFunction f.name)

/-- The third pass: look up the name that an initial value takes the address of.
Automatic variables and constants have none. -/
def resolveInit (t : Scope.Tree Site) (place : Place) (owner : String) (init : Initializer Site) :
    Except LoadError (Initializer Site) :=
  match init.value with
  | .address symbol _ => do
    let target ← (t.resolve place symbol).mapError (.unresolved owner)
    if target.kind = .definedVariable && target.storage = .automatic then
      throw (.addressOfAutomatic owner symbol)
    if target.kind = .constant then
      throw (.addressOfConstant owner symbol)
    return { init with target := some target.reference }
  | _ => .ok init

/-- Initial values of automatic variables are left alone. -/
def resolveEntity (t : Scope.Tree Site) (place : Place) (e : Entity Site) :
    Except LoadError (Entity Site) :=
  match e.init with
  | some init =>
    if e.storage = .automatic then .ok e
    else do
      let init ← resolveInit t place e.name init
      return { e with init := some init }
  | none => .ok e

mutual

/-- The third pass over a block and the blocks in it.  Names stay as they are, and with them
the index. -/
def resolveBlock (t : Scope.Tree Site) (place : Place) :
    Block Site → Except LoadError (Block Site)
  | ⟨decls, blocks⟩ => do
    let vars ← decls.entities.mapM (resolveEntity t place)
    let blocks ← resolveBlocks t place 0 blocks
    return ⟨.of vars, blocks⟩

/-- The third pass over the blocks at a place, the first of them at position `i`. -/
def resolveBlocks (t : Scope.Tree Site) (place : Place) (i : Nat) :
    List (Block Site) → Except LoadError (List (Block Site))
  | [] => .ok []
  | b :: rest => do
    let b ← resolveBlock t (place ++ [i]) b
    let rest ← resolveBlocks t place (i + 1) rest
    return b :: rest

end

/-- What the initial values of some entities point at. -/
def targets (es : List (Entity Site)) : List Site :=
  es.filterMap fun e => e.init.bind fun init => init.target.map (·.id)

/-- The third pass over a whole tree: top-level entities first, then the bodies
in order.  What an initial value points at counts as referred to. -/
def resolveTree (t : Scope.Tree Site) : Except LoadError (Scope.Tree Site) := do
  let entities ← t.entities.mapM (resolveEntity t [])
  let blocks ← resolveBlocks t [] 0 (t.bodies.map (·.block))
  let bodies := (t.bodies.zip blocks).map fun (body, block) => { body with block }
  return {
    decls := .of entities
    bodies
    referred := targets (entities ++ Scope.Body.statics bodies) }

/-- The first two passes: declare the items and open the bodies of the defined functions. -/
def declareAll (types : Table) (items : List Document.Item) : Loading Unit := do
  let entities ← items.mapM (declareItem types)
  let functions := (items.zip entities).filter (·.2.kind = .definedFunction)
  functions.forM fun (item, f) => openBody types item f

end Load

namespace Document

/-- Check a document against a type table. -/
def load (types : Table) (doc : Document) : Except LoadError (Program Site) := do
  let (_, t) ← (Load.declareAll types doc.items).run {}
  let scope ← Load.resolveTree t
  return { file := doc.file, scope, types }

end Document

end Cflat
