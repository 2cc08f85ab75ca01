import Cflat.CommandLine.Flag
import Cflat.Text.Blank
import Cflat.Text.Padding

/-!
# Usage and help pages

An entry of a page has three columns: the flag, its usage and an annotation.  The
usage is wrapped to what the other two leave of the page.  Widths are taken in
bytes, columns are filled up in characters.  The width of a page is a 64-bit word,
and what is taken from it wraps around.
-/

namespace Cflat.CommandLine

/-- Put words on lines, each line as full as `width` bytes allow.  `line` is the
line that is being filled. -/
def fillLines (width : Nat) (line : String) : List String → List String
  | [] => [line]
  | w :: ws =>
    if line.utf8ByteSize + 1 + w.utf8ByteSize ≤ width then
      fillLines width (line ++ " " ++ w) ws
    else line :: fillLines width w ws

/-- A width that is not positive puts each word on a line of its own. -/
def wrap (text : String) (width : Int64) : List String :=
  match Text.words text with
  | [] => []
  | w :: ws => if width ≤ 0 then w :: ws else fillLines width.toNatClampNeg w ws

namespace Flag

/-- The flag with its shorthand and what it takes. -/
def signature (f : Flag) : String :=
  let arg := if f.value.isSwitch || f.expected = "" then "" else " <" ++ f.expected ++ ">"
  (if f.shorthand = "" then "" else "-" ++ f.shorthand ++ arg ++ ", ") ++ "--" ++ f.name ++ arg

/-- The default between bars; switches and empty defaults show none. -/
def annotation (f : Flag) : String :=
  if f.value.isSwitch || f.defaultText = "" || f.defaultText = "[]" then ""
  else "|" ++ f.defaultText ++ "|"

end Flag

namespace FlagSet

/-- Whether a long name belongs to a switch of a group. -/
def isGroupFlag (fs : FlagSet) (name : String) : Bool :=
  fs.groups.any fun g => g.entries.any fun e => name = e.onName || name = e.offName

/-- The flags outside the groups, by name. -/
def optionFlags (fs : FlagSet) : List Flag :=
  (fs.flags.filter fun f => !fs.isGroupFlag f.name).mergeSort fun a b => a.name ≤ b.name

end FlagSet

/-- Four blanks for each level. -/
def indent (level : Nat) : String :=
  Text.spaces (4 * level)

/-- The widths of a page: the whole, the flag column and the widest usage. -/
structure Layout where
  width : Int64
  leftWidth : Nat
  usageWidth : Nat
  deriving DecidableEq, Repr

namespace Layout

/-- Make room for one more flag with its usage text. -/
def grow (l : Layout) (left usage : String) : Layout :=
  { l with
    leftWidth := max l.leftWidth left.utf8ByteSize
    usageWidth := max l.usageWidth usage.utf8ByteSize }

/-- Make room for the switches of a group. -/
def growGroup (l : Layout) (g : Group) : Layout :=
  g.entries.foldl
    (fun l e => (l.grow e.name e.usage).grow ("-" ++ e.lead ++ "no-<" ++ g.type ++ ">") "") l

/-- The layout of a page that shows a flag set. -/
def ofFlags (fs : FlagSet) (width : Int64) : Layout :=
  let options := fs.optionFlags.foldl (fun l f => l.grow f.signature f.usage) ⟨width, 0, 0⟩
  fs.groups.foldl growGroup options

/-- The room for a usage text beside the given annotation. -/
def room (l : Layout) (right : String) : Int64 :=
  max (l.width - 8 - .ofNat l.leftWidth - 3 - .ofNat right.utf8ByteSize) 10

/-- An entry of a page: the first line has all three columns, the others go on with
the usage. -/
def entry (l : Layout) (left usage right : String) : String :=
  let room := l.room right
  let lines := wrap usage room
  let first := lines.headD ""
  let middle :=
    if right = "" then first
    else Text.padRight (min l.usageWidth room.toNatClampNeg) first ++ "  " ++ right
  indent 2 ++ Text.padRight l.leftWidth left ++ " " ++ middle ++ "\n" ++
    String.join (lines.tail.map fun line =>
      indent 2 ++ Text.spaces (l.leftWidth + 1) ++ line ++ "\n")

end Layout

/-- A program as its pages present it. -/
structure App where
  name : String
  synopsis : String := ""
  description : String := ""
  authors : List String := []
  repository : String := ""
  flags : FlagSet := {}
  deriving Repr

namespace App

/-- The part of a page with the flags outside the groups. -/
def optionsBlock (a : App) (l : Layout) : String :=
  let options := a.flags.optionFlags
  if options.isEmpty then ""
  else
    "\n" ++ indent 1 ++ "Options\n" ++
      String.join (options.map fun f => l.entry f.signature f.usage f.annotation)

/-- The short usage page. -/
def usage (a : App) (width : Int64) : String :=
  "Usage: " ++ a.name ++ " " ++ a.synopsis ++ "\n" ++
    a.optionsBlock (Layout.ofFlags a.flags width) ++
    "\nRun '" ++ a.name ++ " --help' for all available options and flags.\n"

/-- A switch is shown as on if its on flag is set and its off flag is not. -/
def entryState (fs : FlagSet) (e : GroupEntry) : String :=
  if e.enabled.isSome && fs.isOn e.onName && !(e.disabled.isSome && fs.isOn e.offName) then "|x|"
  else "|-|"

/-- The part of a page with the switches of a group. -/
def groupBlock (fs : FlagSet) (l : Layout) (g : Group) : String :=
  match g.entries with
  | [] => ""
  | e :: _ =>
    let type := if g.type = "" then "flag" else g.type
    let entries := g.entries.mergeSort fun a b => a.name ≤ b.name
    "\n" ++ indent 1 ++ g.name ++ "\n" ++
      l.entry ("-" ++ e.lead ++ "<" ++ type ++ ">") ("Enable a specific " ++ type) "" ++
      l.entry ("-" ++ e.lead ++ "no-<" ++ type ++ ">") ("Disable a specific " ++ type) "" ++
      (if g.header = "" then "" else indent 1 ++ g.header ++ "\n") ++
      String.join (entries.map fun e => l.entry e.name e.usage (entryState fs e))

/-- The full help page. -/
def help (a : App) (year : Nat) (width : Int64) : String :=
  let l := Layout.ofFlags a.flags width
  let copyright :=
    if a.authors.isEmpty then ""
    else indent 1 ++ s!"Copyright (c) {year}: " ++ String.intercalate ", " a.authors ++
      " and contributors\n"
  let repository :=
    if a.repository = "" then ""
    else indent 1 ++ "For more details refer to " ++ a.repository ++ "\n"
  let synopsis :=
    if a.synopsis = "" then ""
    else "\n" ++ indent 1 ++ "Synopsis\n" ++ indent 2 ++ a.name ++ " " ++ a.synopsis ++ "\n"
  let description :=
    if a.description = "" then ""
    else "\n" ++ indent 1 ++ "Description\n" ++
      String.join ((wrap a.description (width - 8)).map fun line => indent 2 ++ line ++ "\n")
  let groups := a.flags.groups.mergeSort fun g h => g.name ≤ h.name
  "\n" ++ copyright ++ repository ++ synopsis ++ description ++ a.optionsBlock l ++
    String.join (groups.map (groupBlock a.flags l))

end App

end Cflat.CommandLine
