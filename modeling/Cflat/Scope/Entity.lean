import Cflat.Ty.Spelling

/-!
# Entities

An entity is a named thing of a program: a variable, a function or a constant.
Entities are told apart by an identifier of a type `ι` that the caller chooses,
because two entities may agree in everything else.

What a tree does to an entity (giving it an ordinal, opening its body, marking it
as referred to) is recorded in the tree, so an entity never changes.
-/

namespace Cflat.Scope

/-- What an entity is. -/
inductive Kind
  | definedVariable
  | externVariable
  | definedFunction
  | externFunction
  | constant
  | other (code : Int64)
  deriving DecidableEq, Repr

namespace Kind

/-- How a kind is called in messages. -/
def text : Kind → String
  | definedVariable => "variable"
  | externVariable => "extern variable"
  | definedFunction => "function"
  | externFunction => "extern function"
  | constant => "constant"
  | other code => s!"Kind({code})"

/-- The kind with a number. -/
def ofCode (code : Int64) : Kind :=
  if code = 0 then definedVariable
  else if code = 1 then externVariable
  else if code = 2 then definedFunction
  else if code = 3 then externFunction
  else if code = 4 then constant
  else other code

end Kind

/-- The storage duration of a variable. -/
inductive Storage
  | global
  | static
  | automatic
  | other (code : Int64)
  deriving DecidableEq, Repr

namespace Storage

/-- How a storage duration is called in messages. -/
def text : Storage → String
  | global => "global"
  | static => "static"
  | automatic => "auto"
  | other code => s!"Storage({code})"

/-- The storage duration with a number. -/
def ofCode (code : Int64) : Storage :=
  if code = 0 then global
  else if code = 1 then static
  else if code = 2 then automatic
  else other code

end Storage

/-- The constant a variable starts with. -/
inductive Constant
  | int (n : Int64)
  | string (s : String)
  /-- The address of a named thing, moved by an offset. -/
  | address (symbol : String) (offset : Int64)
  | other (code : Int64)
  deriving DecidableEq, Repr

namespace Constant

/-- The number of a form of constants. -/
def code : Constant → Int64
  | int _ => 0
  | string _ => 1
  | address _ _ => 2
  | other code => code

/-- The empty constant of the form with the given code. -/
def ofCode (code : Int64) : Constant :=
  if code = 0 then int 0
  else if code = 1 then string ""
  else if code = 2 then address "" 0
  else other code

end Constant

/-- The entity that a name was found to denote. -/
structure Reference (ι : Type) where
  id : ι
  name : String
  deriving DecidableEq, Repr

/-- What a variable starts with.  The target is known once the name of an address was looked
up. -/
structure Initializer (ι : Type) where
  value : Constant
  target : Option (Reference ι) := none
  deriving DecidableEq, Repr

/-- A named thing of a program. -/
structure Entity (ι : Type) where
  id : ι
  kind : Kind
  name : String
  type : Option Ty
  storage : Storage := .global
  markedPrivate : Bool := false
  init : Option (Initializer ι) := none
  deriving DecidableEq, Repr

namespace Entity

variable {ι : Type}

/-- Whether the entity is a variable, defined here or elsewhere. -/
def isVariable (e : Entity ι) : Bool :=
  e.kind = .definedVariable || e.kind = .externVariable

/-- Whether the entity is a function, defined here or elsewhere. -/
def isFunction (e : Entity ι) : Bool :=
  e.kind = .definedFunction || e.kind = .externFunction

/-- Whether the entity is defined here. -/
def isDefined (e : Entity ι) : Bool :=
  e.kind = .definedVariable || e.kind = .definedFunction

/-- Whether the entity is a static local variable. -/
def isStaticLocal (e : Entity ι) : Bool :=
  e.kind = .definedVariable && e.storage = .static

/-- Whether the symbol stays within its object file.  A static local always
does. -/
def isPrivate (e : Entity ι) : Bool :=
  e.markedPrivate || e.isStaticLocal

/-- What stands for the entity elsewhere. -/
def reference (e : Entity ι) : Reference ι :=
  ⟨e.id, e.name⟩

/-- The entity in messages and tables. -/
def text (e : Entity ι) : String :=
  match e.type with
  | none => e.kind.text ++ " " ++ e.name
  | some t => e.kind.text ++ " " ++ e.name ++ " " ++ t.spelling

end Entity

end Cflat.Scope
