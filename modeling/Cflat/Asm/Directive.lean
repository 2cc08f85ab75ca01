import Cflat.Asm.Literal

/-!
# Directives

The assembler directives of a data listing, and their spelling.  `verbatim` is a
directive line given as text.
-/

namespace Cflat.Asm

/-- A line that tells the assembler how to place data. -/
inductive Directive
  | file (name : String)
  | text
  | data
  | inSection (name : String)
  /-- A section in a group, as needed for code shared between objects. -/
  | inGroup (name flags type group linkage : String)
  | globalSymbol (symbol : String)
  | localSymbol (symbol : String)
  | hidden (symbol : String)
  | common (symbol : String) (bytes alignment : Int64)
  | align (n : Int64)
  | symbolType (symbol type : String)
  | size (symbol : String) (bytes : Int64)
  /-- A size given as an assembler expression. -/
  | sizeExpr (symbol expr : String)
  | byte (n : Int64)
  | value (n : Int64)
  | long (n : Int64)
  | quad (n : Int64)
  | longSymbol (expr : String)
  | quadSymbol (expr : String)
  | string (content : String)
  | verbatim (line : String)
  deriving DecidableEq, Repr

namespace Directive

/-- The line of a directive, with the tab that the ones for sections and symbols
start with. -/
def render : Directive → String
  | file name => ".file\t" ++ textLiteral name
  | text => "\t.text"
  | data => "\t.data"
  | inSection name => "\t.section\t" ++ name
  | inGroup name flags type group linkage =>
    "\t.section\t" ++ name ++ "," ++ flags ++ "," ++ type ++ "," ++ group ++ "," ++ linkage
  | globalSymbol symbol => ".globl " ++ symbol
  | localSymbol symbol => ".local " ++ symbol
  | hidden symbol => "\t.hidden\t" ++ symbol
  | common symbol bytes alignment => s!"\t.comm\t{symbol},{bytes},{alignment}"
  | align n => s!"\t.align\t{n}"
  | symbolType symbol type => "\t.type\t" ++ symbol ++ "," ++ type
  | size symbol bytes => s!"\t.size\t{symbol},{bytes}"
  | sizeExpr symbol expr => "\t.size\t" ++ symbol ++ "," ++ expr
  | byte n => s!".byte\t{n}"
  | value n => s!".value\t{n}"
  | long n => s!".long\t{n}"
  | quad n => s!".quad\t{n}"
  | longSymbol expr => ".long\t" ++ expr
  | quadSymbol expr => ".quad\t" ++ expr
  | string content => "\t.string\t" ++ textLiteral content
  | verbatim line => line

end Directive

end Cflat.Asm
