import Cflat.Asm.Emitter

/-!
# Operations of an emitter

Everything that can be asked of an emitter, one constructor for each operation.  Jumps,
conditions and directives come in families that differ in their spelling only.

Operations differ in the widths that they have to encode.  Some are given one, the
extending moves two; `mov`, `lea`, `add`, `sub`, `imul`, `push` and `pop` work at the
natural width; jumps, flag readers and the moves of fixed widths need none.  `perform`
says for each operation which of these it is.
-/

namespace Cflat.Asm

/-- The transfers of control to a symbol. -/
inductive Jump
  | jmp | jz | jnz | je | jne | jl | jg | call
  deriving DecidableEq, Repr

namespace Jump

/-- How a jump is written. -/
def mnemonic : Jump → String
  | jmp => "jmp"
  | jz => "jz"
  | jnz => "jnz"
  | je => "je"
  | jne => "jne"
  | jl => "jl"
  | jg => "jg"
  | call => "call"

/-- Every jump. -/
def all : List Jump :=
  [.jmp, .jz, .jnz, .je, .jne, .jl, .jg, .call]

end Jump

/-- The conditions that can be stored into a byte register. -/
inductive Condition
  | e | ne | a | ae | b | be | g | ge | l | le
  deriving DecidableEq, Repr

namespace Condition

/-- How storing a condition is written. -/
def mnemonic : Condition → String
  | e => "sete"
  | ne => "setne"
  | a => "seta"
  | ae => "setae"
  | b => "setb"
  | be => "setbe"
  | g => "setg"
  | ge => "setge"
  | l => "setl"
  | le => "setle"

/-- Every condition. -/
def all : List Condition :=
  [.e, .ne, .a, .ae, .b, .be, .g, .ge, .l, .le]

end Condition

/-- An operation of an emitter with its arguments.  Where there is an operation with and
one without a `T`, the one with it is given its width. -/
inductive Operation
  -- control transfer
  | jump (j : Jump) (target : String)
  | callAbsolute (r : Register)
  | ret
  -- data movement
  | mov (source dest : Operand)
  | movT (width : Int64) (source dest : Operand)
  | movsx (sourceWidth destWidth : Int64) (source dest : Operand)
  | movzx (sourceWidth destWidth : Int64) (source dest : Operand)
  | movsbl (source dest : Operand)
  | movswl (source dest : Operand)
  | movzb (width : Int64) (source dest : Operand)
  | movzbl (source dest : Operand)
  | movzwl (source dest : Operand)
  | lea (source dest : Operand)
  | leaT (width : Int64) (source dest : Operand)
  -- arithmetic and bits
  | neg (width : Int64) (r : Register)
  | inc (width : Int64) (x : Operand)
  | dec (width : Int64) (x : Operand)
  | add (diff base : Operand)
  | addT (width : Int64) (diff base : Operand)
  | sub (diff base : Operand)
  | subT (width : Int64) (diff base : Operand)
  | imul (m : Operand) (base : Register)
  | imulT (width : Int64) (m : Operand) (base : Register)
  /-- Sign-extend the accumulator ahead of a division. -/
  | cltd
  | div (width : Int64) (base : Register)
  | idiv (width : Int64) (base : Register)
  | not (width : Int64) (r : Register)
  | and (width : Int64) (bits : Operand) (base : Register)
  | or (width : Int64) (bits : Operand) (base : Register)
  | xor (width : Int64) (bits : Operand) (base : Register)
  | sar (width : Int64) (bits base : Register)
  | sal (width : Int64) (bits base : Register)
  | shr (width : Int64) (bits base : Register)
  -- comparison
  | cmp (width : Int64) (x : Operand) (y : Register)
  | test (width : Int64) (x y : Register)
  | set (c : Condition) (r : Register)
  -- stack
  | push (r : Register)
  | pop (r : Register)
  -- lines without an instruction
  | append (elements : Listing)
  | comment (text : String)
  | indentComment
  | unindentComment
  | label (name : String)
  | directive (d : Directive)
  deriving DecidableEq, Repr

namespace Operation

open Operand (register absolute ofSymbol)

/-- What an operation does to an emitter. -/
def perform : Operation → Emit Unit
  | jump j target => Emit.plain j.mnemonic "" [ofSymbol target]
  | callAbsolute r => Emit.plain "call" "" [absolute r]
  | ret => Emit.plain "ret" "" []
  | mov source dest => Emit.natural "mov" [source, dest]
  | movT width source dest => Emit.sized width "mov" [source, dest]
  | movsx sourceWidth destWidth source dest =>
    Emit.extending sourceWidth destWidth "movs" [source, dest]
  | movzx sourceWidth destWidth source dest =>
    Emit.extending sourceWidth destWidth "movz" [source, dest]
  | movsbl source dest => Emit.plain "movs" "bl" [source, dest]
  | movswl source dest => Emit.plain "movs" "wl" [source, dest]
  | movzb width source dest => Emit.sized width "movz" [source, dest] "b"
  | movzbl source dest => Emit.plain "movz" "bl" [source, dest]
  | movzwl source dest => Emit.plain "movz" "wl" [source, dest]
  | lea source dest => Emit.natural "lea" [source, dest]
  | leaT width source dest => Emit.sized width "lea" [source, dest]
  | neg width r => Emit.sized width "neg" [register r]
  | inc width x => Emit.sized width "inc" [x]
  | dec width x => Emit.sized width "dec" [x]
  | add diff base => Emit.natural "add" [diff, base]
  | addT width diff base => Emit.sized width "add" [diff, base]
  | sub diff base => Emit.natural "sub" [diff, base]
  | subT width diff base => Emit.sized width "sub" [diff, base]
  | imul m base => Emit.natural "imul" [m, register base]
  | imulT width m base => Emit.sized width "imul" [m, register base]
  | cltd => Emit.plain "cltd" "" []
  | div width base => Emit.sized width "div" [register base]
  | idiv width base => Emit.sized width "idiv" [register base]
  | not width r => Emit.sized width "not" [register r]
  | and width bits base => Emit.sized width "and" [bits, register base]
  | or width bits base => Emit.sized width "or" [bits, register base]
  | xor width bits base => Emit.sized width "xor" [bits, register base]
  | sar width bits base => Emit.sized width "sar" [register bits, register base]
  | sal width bits base => Emit.sized width "sal" [register bits, register base]
  | shr width bits base => Emit.sized width "shr" [register bits, register base]
  | cmp width x y => Emit.sized width "cmp" [x, register y]
  | test width x y => Emit.sized width "test" [register x, register y]
  | set c r => Emit.plain c.mnemonic "" [register r]
  | push r => Emit.natural "push" [register r]
  | pop r => Emit.natural "pop" [register r]
  | append elements => Emit.append elements
  | comment text => Emit.comment text
  | indentComment => Emit.indent
  | unindentComment => Emit.unindent
  | label name => Emit.append [.label name]
  | directive d => Emit.append [.directive d]

end Operation

namespace Emitter

/-- The answer to an operation, and the emitter after it. -/
def respond (a : Emitter) (op : Operation) : Except WidthError Unit × Emitter :=
  op.perform.run.run a

end Emitter

end Cflat.Asm
