import Cflat.Scope.Tree

/-!
# Changes of a scope tree

Declaring an entity and opening a scope change the tree in place.  A change may be
refused, and what it did to the tree before stays done; each of them looks at everything
that can be wrong first and changes the tree then.

A frozen tree takes no change at all.
-/

namespace Cflat.Scope

/-- Why a change is refused, or a name not found. -/
inductive ScopeError
  | frozen
  | notGlobal (storage : Storage) (name : String)
  | duplicate (name : String)
  | notLocal (name : String)
  | duplicateLocal (name : String)
  | notFunction (name : String)
  | unresolved (name : String)
  | noSuchScope
  deriving DecidableEq, Repr

namespace ScopeError

/-- The text of the error. -/
def message : ScopeError → String
  | frozen => "scope tree already classified"
  | notGlobal storage name => s!"{storage.text} variable '{name}' at top level"
  | duplicate name => s!"duplicated declaration: {name}"
  | notLocal name => s!"'{name}' cannot be declared in a local scope"
  | duplicateLocal name => s!"duplicated variable in scope: {name}"
  | notFunction name => s!"'{name}' is not a function definition"
  | unresolved name => s!"unresolved reference: {name}"
  | noSuchScope => "no such scope"

end ScopeError

variable {ι : Type}

namespace Tree

/-- The entity that a name denotes at a place. -/
def resolve (t : Tree ι) (place : Place) (name : String) : Except ScopeError (Entity ι) :=
  match t.lookup? place name with
  | some e => .ok e
  | none => .error (.unresolved name)

/-- Add an entity at the end of the top level.  Nothing that was kept about the tree holds
any longer. -/
def addTop (t : Tree ι) (e : Entity ι) : Tree ι :=
  { t with decls := t.decls.add e, classified := none }

/-- Add an empty body at the end. -/
def addBody (t : Tree ι) (function : ι) : Tree ι :=
  { t with bodies := t.bodies ++ [{ function }], classified := none }

/-- Change the block at a place, if there is one. -/
def modifyBlock (t : Tree ι) (f : Block ι → Block ι) : Place → Tree ι
  | [] => t
  | b :: path => { t with
      bodies := t.bodies.modify b fun body => { body with block := body.block.modifyAt f path }
      classified := none }

end Tree

/-- A change of a tree, which may be refused. -/
abbrev Change (ι : Type) := ExceptT ScopeError (StateM (Tree ι))

/-- The answer of a change, and the tree after it. -/
def Tree.apply {α : Type} (t : Tree ι) (x : Change ι α) : Except ScopeError α × Tree ι :=
  x.run.run t

namespace Change

/-- Refuse if the tree is frozen. -/
def unlessFrozen : Change ι Unit := do
  if (← get).frozen then
    throw .frozen

/-- The block at a place. -/
def block (place : Place) : Change ι (Block ι) := do
  match (← get).block? place with
  | none => throw .noSuchScope
  | some b => return b

/-- Declare an entity at top level, where variables are global. -/
def declareTop (e : Entity ι) : Change ι Unit := do
  unlessFrozen
  if e.kind = .definedVariable ∧ e.storage ≠ .global then
    throw (.notGlobal e.storage e.name)
  if ((← get).find? e.name).isSome then
    throw (.duplicate e.name)
  modify (·.addTop e)

/-- Declare a local variable, automatic or static, in the block at a place. -/
def declareLocal (place : Place) (e : Entity ι) : Change ι Unit := do
  unlessFrozen
  let b ← block place
  if e.kind ≠ .definedVariable ∨ e.storage = .global then
    throw (.notLocal e.name)
  if (b.find? e.name).isSome then
    throw (.duplicateLocal e.name)
  modify (·.modifyBlock (·.addVar e) place)

/-- Declare an entity in the scope at a place. -/
def declare (place : Place) (e : Entity ι) : Change ι Unit :=
  if place = [] then declareTop e else declareLocal place e

/-- Open the body of a function; gives its place. -/
def openBody (f : Entity ι) : Change ι Place := do
  unlessFrozen
  if f.kind ≠ .definedFunction then
    throw (.notFunction f.name)
  let place := [(← get).bodies.length]
  modify (·.addBody f.id)
  return place

/-- Open a block in the block at a place; gives its place. -/
def openBlock (outer : Place) : Change ι Place := do
  unlessFrozen
  let b ← block outer
  modify (·.modifyBlock (·.addBlock) outer)
  return outer ++ [b.blocks.length]

end Change

end Cflat.Scope
