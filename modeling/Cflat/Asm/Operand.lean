import Cflat.Asm.Width

/-!
# Operands

The five addressing modes of an i386 instruction in AT&T spelling, and the
names of the general purpose registers at each access width.
-/

namespace Cflat.Asm

/-- A register by the name it has at its width. -/
structure Register where
  name : String
  deriving DecidableEq, Repr

/-- What an instruction works on. -/
inductive Operand
  | register (r : Register)
  | immediate (value : Int64)
  /-- The address of a symbol, moved by an offset. -/
  | direct (symbol : String) (offset : Int64)
  /-- The memory at a register's address, moved by an offset. -/
  | indirect (base : Register) (offset : Int64)
  /-- The address that a register holds, as the target of a call. -/
  | absolute (r : Register)
  deriving DecidableEq, Repr

/-- A general purpose register, whatever the access width. -/
inductive RegisterClass
  | ax | bx | cx | dx | si | di | sp | bp
  deriving DecidableEq, Repr

namespace RegisterClass

/-- The name of the 16-bit register. -/
def baseName : RegisterClass → String
  | ax => "ax"
  | bx => "bx"
  | cx => "cx"
  | dx => "dx"
  | si => "si"
  | di => "di"
  | sp => "sp"
  | bp => "bp"

/-- The name of the low byte, which only the first four registers have. -/
def byteName? : RegisterClass → Option String
  | ax => some "al"
  | bx => some "bl"
  | cx => some "cl"
  | dx => some "dl"
  | _ => none

/-- The register that a number stands for. -/
def ofCode? (code : Int64) : Option RegisterClass :=
  if code = 0 then some ax
  else if code = 1 then some bx
  else if code = 2 then some cx
  else if code = 3 then some dx
  else if code = 4 then some si
  else if code = 5 then some di
  else if code = 6 then some sp
  else if code = 7 then some bp
  else none

/-- The register at an access width. -/
def atWidth (c : RegisterClass) (width : Int64) : Except WidthError Register :=
  if width = 1 then
    match c.byteName? with
    | some name => .ok ⟨name⟩
    | none => .error ⟨1, "%" ++ c.baseName⟩
  else if width = 2 then .ok ⟨c.baseName⟩
  else if width = 4 then .ok ⟨"e" ++ c.baseName⟩
  else .error ⟨width, "%" ++ c.baseName⟩

end RegisterClass

/-- Why there is no register for a class code and a width. -/
inductive RegisterError
  | unknownClass (code : Int64)
  | width (e : WidthError)
  deriving DecidableEq, Repr

namespace RegisterError

/-- The text of a register error. -/
def message : RegisterError → String
  | unknownClass code => s!"invalid register class: {code}"
  | width e => e.message

end RegisterError

namespace Register

/-- The register with the given class code at the given width.  The class is
looked at before the width. -/
def ofCode (code width : Int64) : Except RegisterError Register :=
  match RegisterClass.ofCode? code with
  | none => .error (.unknownClass code)
  | some c => (c.atWidth width).mapError .width

/-- A register as it is written in an instruction. -/
def render (r : Register) : String :=
  "%" ++ r.name

end Register

namespace Operand

/-- A positive offset takes a plus sign, a negative one brings its own sign, and
a zero offset is left out. -/
def render : Operand → String
  | register r => r.render
  | immediate n => s!"${n}"
  | direct symbol offset =>
    if offset = 0 then symbol
    else if 0 < offset then s!"{symbol}+{offset}"
    else s!"{symbol}{offset}"
  | indirect base offset =>
    if offset = 0 then "(" ++ base.render ++ ")"
    else toString offset ++ "(" ++ base.render ++ ")"
  | absolute r => "*" ++ r.render

/-- The address of a symbol. -/
def ofSymbol (symbol : String) : Operand :=
  direct symbol 0

end Operand

end Cflat.Asm
