import Cflat.Text.Quoted

/-!
# Flags and flag sets

A flag has a long name, perhaps a shorthand, and a current value: a text, a
switch or a list.  A flag set is a table of flags in order of definition, a table
from shorthands to long names, and the groups of switches that the help page lists
apart.

A definition that fails because its shorthand is taken leaves the flag in the
table under its long name.  `define` therefore gives the set after the attempt in
every case.
-/

namespace Cflat.CommandLine

/-- What a flag holds. -/
inductive Value
  | text (s : String)
  | switch (on : Bool)
  | list (items : List String)
  deriving DecidableEq, Repr

/-- The only way a value can be refused: a switch that is given a word. -/
structure ValueError where
  word : String
  deriving DecidableEq, Repr

namespace ValueError

/-- The text of a refused value. -/
def message (e : ValueError) : String :=
  "invalid boolean value '" ++ e.word ++ "': strconv.ParseBool: parsing " ++
    Text.quoted e.word ++ ": invalid syntax"

end ValueError

/-- The words for on and off. -/
def readSwitch? (s : String) : Option Bool :=
  if s ∈ ["1", "t", "T", "TRUE", "true", "True"] then some true
  else if s ∈ ["0", "f", "F", "FALSE", "false", "False"] then some false
  else none

namespace Value

/-- A switch without a word is turned on; a list grows at its end. -/
def set (v : Value) (word : String) : Except ValueError Value :=
  match v with
  | text _ => .ok (text word)
  | list items => .ok (list (items ++ [word]))
  | switch _ =>
    if word = "" then .ok (switch true)
    else match readSwitch? word with
      | some on => .ok (switch on)
      | none => .error ⟨word⟩

/-- Whether a flag that holds the value can stand without a word. -/
def isSwitch : Value → Bool
  | switch _ => true
  | _ => false

/-- The text of a value. -/
def render : Value → String
  | text s => s
  | switch on => if on then "true" else "false"
  | list items => String.intercalate ", " items

/-- The text of a value as a default in the help page. -/
def renderDefault : Value → String
  | list items => "[" ++ String.intercalate " " items ++ "]"
  | v => v.render

end Value

/-- A flag with its names, its value and what the help page says about it. -/
structure Flag where
  name : String
  shorthand : String := ""
  usage : String := ""
  value : Value
  defaultText : String
  /-- What the flag takes, for the help page. -/
  expected : String := ""
  deriving DecidableEq, Repr

namespace Flag

/-- A flag that starts at its default. -/
def make (name shorthand usage : String) (default : Value) (expected : String) : Flag :=
  { name, shorthand, usage, value := default, defaultText := default.renderDefault, expected }

end Flag

/-- One switch of a group.  It has an on flag, an off flag, both or neither, and
each has a first state. -/
structure GroupEntry where
  name : String
  /-- What stands before the name in a flag, such as the `W` of `-Wname`. -/
  lead : String
  usage : String
  enabled : Option Bool
  disabled : Option Bool
  deriving DecidableEq, Repr

namespace GroupEntry

/-- The long name of the flag that turns the switch on. -/
def onName (e : GroupEntry) : String := e.lead ++ e.name

/-- The long name of the flag that turns the switch off. -/
def offName (e : GroupEntry) : String := e.lead ++ "no-" ++ e.name

/-- The flags that the entry defines. -/
def flags (e : GroupEntry) : List Flag :=
  (e.enabled.map fun on => Flag.make e.onName "" e.usage (.switch on) "").toList ++
    (e.disabled.map fun on =>
      Flag.make e.offName "" ("Disable '" ++ e.name ++ "'") (.switch on) "").toList

end GroupEntry

/-- Switches that the help page lists together. -/
structure Group where
  name : String
  /-- What the switches of the group are called. -/
  type : String
  header : String
  entries : List GroupEntry
  deriving DecidableEq, Repr

/-- Why a flag cannot be defined. -/
inductive DefinitionError
  | emptyName
  | redefined (name : String)
  | shorthandRedefined (shorthand : String)
  deriving DecidableEq, Repr

namespace DefinitionError

/-- The text of a refused definition. -/
def message : DefinitionError → String
  | emptyName => "flag name cannot be empty"
  | redefined name => "flag redefined: " ++ name
  | shorthandRedefined shorthand => "shorthand flag redefined: " ++ shorthand

end DefinitionError

/-- The flags of a program with their present values. -/
structure FlagSet where
  flags : List Flag := []
  /-- Shorthands with the long name of their flag. -/
  shorthands : List (String × String) := []
  groups : List Group := []
  /-- The positional arguments of the last parse. -/
  args : List String := []
  deriving DecidableEq, Repr

namespace FlagSet

/-- The flag with the given long name. -/
def find? (fs : FlagSet) (name : String) : Option Flag :=
  fs.flags.find? (·.name = name)

/-- The flag with the given shorthand. -/
def ofShorthand? (fs : FlagSet) (shorthand : String) : Option Flag :=
  (fs.shorthands.lookup shorthand).bind fs.find?

/-- Give the flag of a long name a value. -/
def setValue (fs : FlagSet) (name : String) (v : Value) : FlagSet :=
  { fs with flags := fs.flags.map fun f => if f.name = name then { f with value := v } else f }

/-- Define a flag.  The long name is entered before the shorthand is looked at. -/
def define (fs : FlagSet) (f : Flag) : FlagSet × Except DefinitionError Unit :=
  if f.name = "" then (fs, .error .emptyName)
  else if (fs.find? f.name).isSome then (fs, .error (.redefined f.name))
  else
    let entered := { fs with flags := fs.flags ++ [f] }
    if f.shorthand = "" then (entered, .ok ())
    else if (fs.shorthands.lookup f.shorthand).isSome then
      (entered, .error (.shorthandRedefined f.shorthand))
    else ({ entered with shorthands := fs.shorthands ++ [(f.shorthand, f.name)] }, .ok ())

/-- Define flags in order, up to the first that fails. -/
def defineAll (fs : FlagSet) : List Flag → FlagSet × Except DefinitionError Unit
  | [] => (fs, .ok ())
  | f :: rest =>
    match fs.define f with
    | (fs, .ok ()) => fs.defineAll rest
    | (fs, .error e) => (fs, .error e)

/-- Define the flags of a group and list the group.  A group whose flags cannot
all be defined is not listed. -/
def addGroup (fs : FlagSet) (g : Group) : FlagSet × Except DefinitionError Unit :=
  match fs.defineAll (g.entries.flatMap (·.flags)) with
  | (fs, .ok ()) => ({ fs with groups := fs.groups ++ [g] }, .ok ())
  | (fs, .error e) => (fs, .error e)

/-- The state of a switch; off if there is none of that name. -/
def isOn (fs : FlagSet) (name : String) : Bool :=
  match (fs.find? name).map Flag.value with
  | some (.switch on) => on
  | _ => false

/-- The text that a flag holds; empty if there is no such flag. -/
def text (fs : FlagSet) (name : String) : String :=
  match (fs.find? name).map Flag.value with
  | some (.text s) => s
  | _ => ""

/-- The list that a flag holds; empty if there is no such flag. -/
def items (fs : FlagSet) (name : String) : List String :=
  match (fs.find? name).map Flag.value with
  | some (.list xs) => xs
  | _ => []

end FlagSet

end Cflat.CommandLine
