import Cflat.Asm.Operation
import Cflat.Diagnostic
import Cflat.Program.Basic

/-!
# The data listing

The listing of a program, in this order: the source file, the data section with
the initialized variables, the string literals they point at, the common symbols,
the helper for position-independent code, and the stack note.

A generator asks an emitter for one line after another.  It keeps the string literals
that it met and the warnings that it gave, and it works on the scope tree itself, which
it classifies.  Where it stops with an error, all of that stays as it is.

Warnings are all listed here, and options only select which of them are shown.
-/

namespace Cflat

/-- An initial value that its variable cannot hold. -/
inductive InitReason
  | integerForNonScalar
  | stringForNonPointer
  | addressTooWide
  deriving DecidableEq, Repr

namespace InitReason

/-- The text of the reason. -/
def message : InitReason → String
  | integerForNonScalar => "integer initializer for a non-scalar"
  | stringForNonPointer => "string literal needs a pointer"
  | addressTooWide => "address does not fit"

end InitReason

/-- Why there is no listing. -/
inductive GenerateError
  | init (symbol : String) (type : Ty) (reason : InitReason)
  | width (file : String) (e : Asm.WidthError)
  | fault (f : Fault)
  deriving DecidableEq, Repr

namespace GenerateError

/-- The text of the error. -/
def message : GenerateError → String
  | init symbol type reason =>
    s!"cannot initialize '{symbol}' of type {type.spelling}: {reason.message}"
  | width file e => file ++ ": " ++ e.message
  | fault f => f.message

/-- Whether the error lies with the compiler and not with its input. -/
def isInternal : GenerateError → Bool
  | width .. => true
  | _ => false

end GenerateError

namespace Program

open Asm (Directive)

/-- The string literals met so far, each once, in order of first use. -/
abbrev Literals := List String

/-- The label of the literal at a position. -/
def Literals.label (i : Nat) : String :=
  s!".LC{i}"

/-- Two to the `bits`, in 64-bit words: zero once the bit is shifted out. -/
def powerOfTwo (bits : UInt64) : Int64 :=
  if bits < 64 then 1 <<< bits.toInt64 else 0

/-- Whether a number can be stored in the given number of bytes, signed or
unsigned. -/
def fits (n size : Int64) : Bool :=
  if 8 ≤ size then true
  else
    let bits := (8 * size).toUInt64
    let least := -powerOfTwo (bits - 1)
    let greatest := powerOfTwo bits - 1
    least ≤ n && n ≤ greatest

/-- The directive for a number of the given size. -/
def numberDirective? (size n : Int64) : Option Directive :=
  if size = 1 then some (.byte n)
  else if size = 2 then some (.value n)
  else if size = 4 then some (.long n)
  else if size = 8 then some (.quad n)
  else none

/-- The directive for an address of the given size. -/
def addressDirective? (size : Int64) (expr : String) : Option Directive :=
  if size = 4 then some (.longSymbol expr)
  else if size = 8 then some (.quadSymbol expr)
  else none

/-- The helper that loads the address of its caller into the base register. -/
def picThunk : String := "__x86.get_pc_thunk.bx"

end Program

/-! ## Generators -/

/-- A generation in progress. -/
structure Generator (ι : Type) where
  options : Options
  file : String
  pointerSize : Int64
  scope : Scope.Tree ι
  asm : Asm.Emitter
  literals : Program.Literals := []
  /-- The label of each literal. -/
  labels : List (String × String) := []
  warnings : List Diagnostic := []

/-- A step of a generation, which may fail halfway. -/
abbrev Generate (ι : Type) := ExceptT GenerateError (StateM (Generator ι))

namespace Generate

open Scope (Entity Initializer)

variable {ι : Type}

/-- Ask the emitter for a line.  A width that it cannot encode is an error of the file. -/
def emit (op : Asm.Operation) : Generate ι Unit := do
  let g ← get
  let (answer, asm) := g.asm.respond op
  set { g with asm }
  match answer with
  | .ok () => return
  | .error e => throw (.width g.file e)

/-- Ask for a directive, which exists for some widths only. -/
def store (d? : Option Asm.Directive) (width : Int64) : Generate ι Unit := do
  match d? with
  | some d => emit (.directive d)
  | none => throw (.width (← get).file ⟨width, ""⟩)

/-- A comment, if the listing is to have any. -/
def comment (text : String) : Generate ι Unit := do
  if (← get).options.feature .verboseAsm then
    emit (.comment text)

/-- Give a warning. -/
def warn (d : Diagnostic) : Generate ι Unit :=
  modify fun g => { g with warnings := g.warnings ++ [d] }

/-- The classes of the variables, which the tree keeps. -/
def classes : Generate ι (Scope.Classes ι) :=
  modifyGet fun g =>
    let (c, scope) := g.scope.classify
    (c, { g with scope })

/-- The type of a variable that has to have one. -/
def typeOf (v : Entity ι) : Generate ι Ty :=
  match v.type with
  | some type => return type
  | none => throw (.fault .missingType)

/-- The label of a literal, which is added at the end if it is new. -/
def literalLabel (s : String) : Generate ι String := do
  let g ← get
  match g.labels.lookup s with
  | some label => return label
  | none =>
    let label := Program.Literals.label g.literals.length
    set { g with labels := g.labels ++ [(s, label)], literals := g.literals ++ [s] }
    return label

/-- A register at the natural width. -/
def register (c : Asm.RegisterClass) : Generate ι Asm.Register := do
  let g ← get
  match c.atWidth g.asm.natural with
  | .ok r => return r
  | .error e => throw (.width g.file e)

/-- Store an address. -/
def address (expr : String) : Generate ι Unit := do
  let size := (← get).pointerSize
  store (Program.addressDirective? size expr) size

/-! ## Parts of the listing -/

/-- The string literals with their labels. -/
def literalSection : Generate ι Unit := do
  let g ← get
  if g.literals.isEmpty then
    return
  emit (.directive (.inSection ".rodata"))
  comment "string literals"
  g.literals.forM fun s => do
    emit (.label ((g.labels.lookup s).getD ""))
    emit (.directive (.string s))

/-- The helper for position-independent code. -/
def thunk : Generate ι Unit := do
  let name := Program.picThunk
  emit (.directive (.inGroup (".text." ++ name) "\"axG\"" "@progbits" name "comdat"))
  emit (.directive (.globalSymbol name))
  emit (.directive (.hidden name))
  emit (.directive (.symbolType name "@function"))
  emit (.label name)
  let sp ← register .sp
  let bx ← register .bx
  emit (.mov (.indirect sp 0) (.register bx))
  emit .ret

variable [DecidableEq ι]

/-- The symbol of an entity as the tree has it now. -/
def symbolOf (v : Entity ι) : Generate ι String := do
  return (← get).scope.symbol v

/-- Store the initial value of a variable. -/
def initialValue (v : Entity ι) (type : Ty) (init : Initializer ι) : Generate ι Unit := do
  let symbol ← symbolOf v
  match init.value with
  | .int n =>
    if !type.isScalar then
      throw (.init symbol type .integerForNonScalar)
    if !Program.fits n type.size then
      let spelling := type.spelling
      warn ⟨.extra, s!"value {n} does not fit in '{symbol}' of type {spelling} and is truncated"⟩
    store (Program.numberDirective? type.size n) type.size
  | .string s =>
    if !type.isPointer then
      throw (.init symbol type .stringForNonPointer)
    address (← literalLabel s)
  | .address _ offset =>
    let g ← get
    if !(type.isPointer || (type.isInteger && type.size = g.pointerSize)) then
      throw (.init symbol type .addressTooWide)
    address (Asm.Operand.direct (g.scope.label init) offset).render
  | .other code => throw (.fault (.unknownInitializer code))

/-- One variable of the data section. -/
def initialized (v : Entity ι) : Generate ι Unit := do
  let symbol ← symbolOf v
  let spelling := (v.type.map (·.spelling)).getD "<nil>"
  comment s!"{spelling} {v.name} ({v.storage.text})"
  if !v.isPrivate then
    emit (.directive (.globalSymbol symbol))
  let type ← typeOf v
  emit (.directive (.align type.alignment))
  emit (.directive (.symbolType symbol "@object"))
  emit (.directive (.size symbol type.size))
  emit (.label symbol)
  match v.init with
  | some init => initialValue v type init
  | none => throw (.fault .missingType)

/-- The data section.  The comments on its variables are indented. -/
def dataSection : Generate ι Unit := do
  let vars := (← classes).initialized
  if vars.isEmpty then
    return
  emit (.directive .data)
  comment "initialized data"
  emit .indentComment
  try
    vars.forM initialized
  finally
    emit .unindentComment

/-- One variable that is left to the linker. -/
def common (v : Entity ι) : Generate ι Unit := do
  let symbol ← symbolOf v
  if v.isPrivate then
    emit (.directive (.localSymbol symbol))
  let type ← typeOf v
  emit (.directive (.common symbol type.size type.alignment))

/-- The variables that are left to the linker. -/
def commonSymbols : Generate ι Unit := do
  let vars := (← classes).common
  if vars.isEmpty then
    return
  comment "common symbols"
  vars.forM common

/-- The warnings that do not depend on initial values. -/
def warnings : Generate ι Unit := do
  (← classes).common.forM fun v => do
    let symbol ← symbolOf v
    warn ⟨.common, s!"'{symbol}' is left to the linker as a common symbol"⟩
  (← classes).externals.forM fun v => do
    if !(← get).scope.isReferred v.id then
      warn ⟨.externUnused, s!"extern variable '{v.name}' is not referenced by any initializer"⟩

/-- All of the listing. -/
def listing : Generate ι Unit := do
  warnings
  let g ← get
  emit (.directive (.file g.file))
  dataSection
  literalSection
  commonSymbols
  if g.options.feature .pic then
    thunk
  if g.options.feature .gnuStack then
    emit (.directive (.inSection ".note.GNU-stack,\"\",@progbits"))

end Generate

/-! ## Generation -/

/-- What generation leaves behind. -/
structure Generation (ι : Type) where
  warnings : List Diagnostic
  result : Except GenerateError Asm.Listing
  /-- The tree, which was classified on the way. -/
  scope : Scope.Tree ι

namespace Program

variable {ι : Type}

/-- The generator that a program starts with. -/
def generator (p : Program ι) (o : Options) : Generator ι where
  options := o
  file := p.file
  pointerSize := p.types.pointerSize
  scope := p.scope
  asm := { natural := o.wordSize }

/-- Generate the listing of a program. -/
def generate [DecidableEq ι] (p : Program ι) (o : Options) : Generation ι :=
  match Generate.listing.run.run (p.generator o) with
  | (.ok (), g) => { warnings := g.warnings, result := .ok g.asm.listing, scope := g.scope }
  | (.error e, g) => { warnings := g.warnings, result := .error e, scope := g.scope }

end Program

end Cflat
