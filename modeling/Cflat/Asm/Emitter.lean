import Cflat.Asm.Listing

/-!
# The emitter

An emitter grows a listing at its end.  It knows the natural width of the code and the
current comment indent.

A change to an emitter may fail, and what it did to the emitter before it failed stays
done.  The instructions therefore find their suffix first and are appended then.
-/

namespace Cflat.Asm

/-- A listing in the making. -/
structure Emitter where
  /-- The width in bytes of the operations that are not given one. -/
  natural : Int64
  listing : Listing := []
  commentIndent : Int := 0
  deriving DecidableEq, Repr

/-- A change to an emitter, which may fail halfway. -/
abbrev Emit := ExceptT WidthError (StateM Emitter)

namespace Emit

/-- Append elements that are there already. -/
def append (elements : Listing) : Emit Unit :=
  modify fun a => { a with listing := a.listing ++ elements }

/-- Append a comment at the indent in force. -/
def comment (text : String) : Emit Unit := do
  append [.comment text (← get).commentIndent]

/-- Indent the comments that follow by one level more. -/
def indent : Emit Unit :=
  modify fun a => { a with commentIndent := a.commentIndent + 1 }

/-- Indent the comments that follow by one level less; there is none below zero. -/
def unindent : Emit Unit :=
  modify fun a => if 0 < a.commentIndent then
    { a with commentIndent := a.commentIndent - 1 } else a

/-- Append an instruction whose suffix is settled. -/
def plain (mnemonic suffix : String) (operands : List Operand) : Emit Unit :=
  append [.instruction mnemonic suffix operands]

/-- Append an instruction at a width of its own.  `lead` comes before the letter of the
width. -/
def sized (width : Int64) (mnemonic : String) (operands : List Operand) (lead : String := "") :
    Emit Unit := do
  let s ← MonadExcept.ofExcept (suffixIn mnemonic width)
  plain mnemonic (lead ++ s) operands

/-- Append an instruction at the natural width. -/
def natural (mnemonic : String) (operands : List Operand) : Emit Unit := do
  sized (← get).natural mnemonic operands

/-- Append an extending move from one width to another. -/
def extending (source dest : Int64) (mnemonic : String) (operands : List Operand) :
    Emit Unit := do
  let s ← MonadExcept.ofExcept (dualSuffixIn mnemonic source dest)
  plain mnemonic s operands

end Emit

end Cflat.Asm
