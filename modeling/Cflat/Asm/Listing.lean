import Cflat.Asm.Directive
import Cflat.Asm.Operand
import Cflat.Fault

/-!
# Listings

A listing is a list of elements, one line each.  `Listing.render` gives its whole
text.  There is a text unless a comment is indented further than a text can be long.
-/

namespace Cflat.Asm

/-- One line of a listing. -/
inductive Element
  /-- Indents below one print like zero. -/
  | comment (text : String) (indent : Int)
  | label (name : String)
  | directive (d : Directive)
  | instruction (mnemonic suffix : String) (operands : List Operand)
  deriving DecidableEq, Repr

namespace Element

/-- How many bytes can be addressed. -/
def addressableBytes : Int := (1 <<< 48 : Nat)

/-- The indentation of a comment, two blanks for each level.  It is a fault to ask for
more of them than can be counted, or than can be addressed. -/
def indentation (indent : Int) : Except Fault String :=
  if Int64.maxValue.toInt < 2 * indent then .error .lengthOverflow
  else if addressableBytes < 2 * indent then .error .lengthOutOfRange
  else .ok (String.join (List.replicate indent.toNat "  "))

/-- The text of an element, without the end of its line. -/
def render : Element → Except Fault String
  | comment text indent => do
    let blanks ← indentation indent
    return "\t" ++ blanks ++ "# " ++ text
  | label name => .ok (name ++ ":")
  | directive d => .ok d.render
  | instruction mnemonic suffix operands =>
    let args := String.intercalate ", " (operands.map Operand.render)
    .ok ("\t" ++ mnemonic ++ suffix ++ (if operands.isEmpty then "" else "\t" ++ args))

/-- The element's line, with its end. -/
def line (e : Element) : Except Fault String := do
  let text ← e.render
  return text ++ "\n"

end Element

/-- A listing, its first line first. -/
abbrev Listing := List Element

namespace Listing

/-- The text of a listing, or the fault of the first element that has one. -/
def render (l : Listing) : Except Fault String := do
  let lines ← l.mapM Element.line
  return String.join lines

end Listing

end Cflat.Asm
