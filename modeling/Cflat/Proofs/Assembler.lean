import Cflat.Proofs.Rendering
import Cflat.Proofs.Tokens
import Mathlib.Algebra.Group.Int.Defs

/-!
# Reading a listing

What an assembler makes of a listing.  Each line is read from its text as a
statement, and the statements are carried out one after the other on an image: the
section that is being filled, how far each section is filled and how it is aligned,
and the symbols with what is known of them.

* Statements: `readLine?` reads the text of one line, and `Element.statement?` is the
  statement of the line of an element.
* Images: `Image.step` carries out one statement and fails where an assembler
  does, in particular when a symbol is defined twice.
* `assemble` reads a whole listing.

Instructions are not encoded: they take no room in the sections.
-/

namespace Cflat.Asm

/-! ## Statements -/

/-- What a line tells the assembler. -/
inductive Statement
  | nothing
  | code
  | enter (name : String)
  | globalSymbol (symbol : String)
  | localSymbol (symbol : String)
  | hidden (symbol : String)
  | symbolType (symbol type : String)
  | size (symbol : String) (bytes : Int64)
  | align (n : Int64)
  | label (symbol : String)
  | common (symbol : String) (bytes alignment : Int64)
  | number (width : Nat) (n : Int64)
  | address (width : Nat) (symbol : String) (offset : Int64)
  /-- The bytes of a string, without the zero byte that ends it. -/
  | string (bytes : List UInt8)
  deriving DecidableEq, Repr

/-- What separates words on a line. -/
def isSpace (c : Char) : Bool :=
  c = ' ' || c = '\t'

/-- A symbol, which does not start with a digit. -/
def readSymbol? (cs : List Char) : Option String :=
  if cs ≠ [] ∧ cs.all isSymbolChar ∧ cs.head?.all (!·.isDigit) then some (String.ofList cs)
  else none

/-- A value of the given width: a number or an address. -/
def readValue? (width : Nat) (cs : List Char) : Option Statement :=
  match Text.readInt64? cs with
  | some n => some (.number width n)
  | none => (readAddress? cs).map fun x => .address width x.1 x.2

/-- The literal of a string. -/
def readString? (cs : List Char) : Option Statement :=
  (readLiteral? cs).map .string

/-- A symbol alone. -/
def readName? (f : String → Statement) (cs : List Char) : Option Statement :=
  (readSymbol? cs).map f

/-- A symbol and its type. -/
def readType? (cs : List Char) : Option Statement :=
  match cs.splitOn ',' with
  | [s, type] => (readSymbol? s).map (.symbolType · (String.ofList type))
  | _ => none

/-- A symbol and its size. -/
def readSize? (cs : List Char) : Option Statement :=
  match cs.splitOn ',' with
  | [s, n] => do return .size (← readSymbol? s) (← Text.readInt64? n)
  | _ => none

/-- A symbol, the room for it and the alignment. -/
def readCommon? (cs : List Char) : Option Statement :=
  match cs.splitOn ',' with
  | [s, n, a] => do
    return .common (← readSymbol? s) (← Text.readInt64? n) (← Text.readInt64? a)
  | _ => none

/-- A section is named first; its flags do not matter here. -/
def readSection? (cs : List Char) : Option Statement :=
  some (.enter (String.ofList (cs.takeWhile (· ≠ ','))))

/-- The known directives, with the readers of their arguments. -/
def directives : List (String × (List Char → Option Statement)) :=
  [(".file", fun cs => (readLiteral? cs).map fun _ => .nothing),
    (".text", fun cs => if cs.isEmpty then some (.enter ".text") else none),
    (".data", fun cs => if cs.isEmpty then some (.enter ".data") else none),
    (".section", readSection?), (".globl", readName? .globalSymbol),
    (".local", readName? .localSymbol), (".hidden", readName? .hidden), (".type", readType?),
    (".size", readSize?), (".comm", readCommon?),
    (".align", fun cs => (Text.readInt64? cs).map .align), (".byte", readValue? 1),
    (".value", readValue? 2), (".long", readValue? 4), (".quad", readValue? 8),
    (".string", readString?)]

/-- The statement of a directive with its arguments. -/
def readDirective? (name : String) (args : List Char) : Option Statement :=
  (directives.lookup name).bind (· args)

/-- The statement of a line.  A word with a colon is a label, a word that starts
with a dot is a directive, and any other word is an instruction. -/
def readLine? (text : String) : Option Statement :=
  let cs := text.toList.dropWhile isSpace
  let word := cs.takeWhile isSymbolChar
  match cs.dropWhile isSymbolChar with
  | [':'] => (readSymbol? word).map .label
  | rest =>
    match cs.head? with
    | none => some .nothing
    | some '#' => some .nothing
    | some '.' => readDirective? (String.ofList word) (rest.dropWhile isSpace)
    | some _ => if word.isEmpty then none else some .code

/-- The statement of an element, which has to have a text. -/
def Element.statement? (e : Element) : Option Statement :=
  e.render.toOption.bind readLine?

/-! ## Images -/

/-- One byte of a section. -/
inductive Cell
  | byte (b : UInt8)
  /-- The byte at position `i` of an address. -/
  | address (symbol : String) (offset : Int64) (i : Nat)
  deriving DecidableEq, Repr

/-- The low bytes of a number in two's complement, the lowest first. -/
def lowBytes : Nat → Int → List UInt8
  | 0, _ => []
  | width + 1, n => UInt8.ofNat (n % 256).toNat :: lowBytes width (n / 256)

/-- The number with these bytes, the lowest first. -/
def littleEndian : List UInt8 → Nat
  | [] => 0
  | b :: bs => b.toNat + 256 * littleEndian bs

@[simp] theorem length_lowBytes (width : Nat) (n : Int) : (lowBytes width n).length = width := by
  induction width generalizing n with
  | zero => rfl
  | succ width ih => rw [lowBytes, List.length_cons, ih]

theorem littleEndian_lowBytes (width : Nat) (n : Int) :
    (littleEndian (lowBytes width n) : Int) = n % 2 ^ (8 * width) := by
  induction width generalizing n with
  | zero => simp [lowBytes, littleEndian]
  | succ width ih =>
    have hbyte : ((UInt8.ofNat (n % 256).toNat).toNat : Int) = n % 256 := by
      rw [UInt8.toNat_ofNat']
      omega
    have hpow : (2 : Int) ^ (8 * (width + 1)) = 256 * 2 ^ (8 * width) := by
      rw [Nat.mul_succ, Int.pow_add, Int.mul_comm]
      rfl
    have hdiv : n / (256 * 2 ^ (8 * width)) = n / 256 / 2 ^ (8 * width) :=
      (Int.ediv_ediv_of_nonneg (by decide)).symm
    rw [lowBytes, littleEndian, Int.natCast_add, Int.natCast_mul, hbyte, ih, hpow, Int.emod_def n,
      Int.emod_def (n / 256), Int.emod_def n, hdiv]
    grind

/-- The bytes of an address. -/
def addressCells (width : Nat) (symbol : String) (offset : Int64) : List Cell :=
  (List.range width).map (.address symbol offset)

@[simp] theorem length_addressCells (width : Nat) (symbol : String) (offset : Int64) :
    (addressCells width symbol offset).length = width := by
  simp [addressCells]

/-- Where the data of a symbol are. -/
inductive Definition
  /-- A place in a section, and the data that follow it up to the next label. -/
  | placed (place : String) (offset : Nat) (content : List Cell)
  /-- Room that the linker finds. -/
  | common (bytes alignment : Nat)
  deriving DecidableEq, Repr

/-- What an assembler knows of a symbol. -/
structure Symbol where
  name : String
  isGlobal : Bool := false
  isLocal : Bool := false
  isHidden : Bool := false
  type : String := ""
  size : Option Nat := none
  definition : Option Definition := none
  deriving DecidableEq, Repr

/-- Further data of a symbol with a place. -/
def Symbol.append (s : Symbol) (cells : List Cell) : Symbol :=
  match s.definition with
  | some (.placed place offset content) =>
    { s with definition := some (.placed place offset (content ++ cells)) }
  | _ => s

/-- What an assembler has made of the lines so far. -/
structure Image where
  current : String := ".text"
  /-- The symbol that new data belong to. -/
  opened : Option String := none
  filled : String → Nat := fun _ => 0
  alignment : String → Nat := fun _ => 1
  symbols : List Symbol := []

namespace Image

/-- Change what is known of a symbol, which may be new. -/
def modify (m : Image) (name : String) (f : Symbol → Symbol) : Image :=
  { m with
    symbols :=
      if m.symbols.any (·.name = name) then
        m.symbols.map fun s => if s.name = name then f s else s
      else m.symbols ++ [f { name }] }

/-- Whether a symbol has a definition. -/
def isDefined (m : Image) (name : String) : Bool :=
  m.symbols.any fun s => s.name = name && s.definition.isSome

/-- Define a symbol, which is possible once. -/
def define? (m : Image) (name : String) (d : Definition) : Option Image :=
  if m.isDefined name then none
  else some (m.modify name fun s => { s with definition := some d })

/-- Take some room at the end of the current section. -/
def advance (m : Image) (k : Nat) : Image :=
  { m with filled := fun x => if x = m.current then m.filled x + k else m.filled x }

/-- Data at the end of the current section, for the symbol that is open. -/
def push (m : Image) (cells : List Cell) : Image :=
  match m.opened with
  | none => m.advance cells.length
  | some name => (m.advance cells.length).modify name (·.append cells)

/-- Alignments are powers of two. -/
def alignment? (n : Int64) : Option Nat :=
  let k := n.toInt.toNat
  if k = 1 <<< k.log2 then some k else none

/-- Fill the current section up to a multiple of `n`, and align the section itself. -/
def pad (m : Image) (n : Nat) : Image :=
  { m with
    opened := none
    filled := fun x =>
      if x = m.current then (m.filled x + n - 1) / n * n else m.filled x
    alignment := fun x =>
      if x = m.current then (m.alignment x).lcm n else m.alignment x }

/-- Go on at the end of a section. -/
def enter (m : Image) (name : String) : Image :=
  { m with current := name, opened := none }

/-- The image after one statement, unless the statement is refused. -/
def step (m : Image) : Statement → Option Image
  | .nothing => some m
  | .code => some m
  | .enter name => some (m.enter name)
  | .globalSymbol s => some (m.modify s fun x => { x with isGlobal := true })
  | .localSymbol s => some (m.modify s fun x => { x with isLocal := true })
  | .hidden s => some (m.modify s fun x => { x with isHidden := true })
  | .symbolType s type => some (m.modify s fun x => { x with type })
  | .size s n =>
    if n < 0 then none
    else some (m.modify s fun x => { x with size := some n.toInt.toNat })
  | .align n => (alignment? n).map m.pad
  | .label s => do
    let m ← m.define? s (.placed m.current (m.filled m.current) [])
    return { m with opened := some s }
  | .common s n a => do
    let a ← alignment? a
    if n < 0 then none else m.define? s (.common n.toInt.toNat a)
  | .number width n => some (m.push ((lowBytes width n.toInt).map .byte))
  | .address width s offset => some (m.push (addressCells width s offset))
  | .string bytes => some (m.push ((bytes ++ [0]).map .byte))

/-- Carry out the lines of a listing. -/
def run : Image → Listing → Option Image
  | m, [] => some m
  | m, e :: l => do
    let s ← e.statement?
    let m ← m.step s
    run m l

end Image

/-- The image of a listing. -/
def assemble (l : Listing) : Option Image :=
  Image.run {} l

/-! ## Lines -/

theorem eq_of_isSpace {c : Char} (h : isSpace c) : c = ' ' ∨ c = '\t' := by
  simpa [isSpace] using h

theorem IsSymbol.notMem {s : String} (hs : IsSymbol s) {c : Char} (hc : isSymbolChar c = false) :
    c ∉ s.toList := by
  intro h
  simp [hs.chars c h] at hc

theorem IsSymbol.readSymbol? {s : String} (hs : IsSymbol s) : readSymbol? s.toList = some s := by
  have hall : s.toList.all isSymbolChar = true := List.all_eq_true.mpr hs.chars
  have hhead : s.toList.head?.all (!·.isDigit) = true := by
    rw [Option.all_eq_true]
    intro c hc
    simp [hs.head c hc]
  have hne : s.toList ≠ [] := by simpa using hs.nonempty
  rw [Asm.readSymbol?, if_pos ⟨hne, hall, hhead⟩, String.ofList_toList]

theorem IsSymbol.comma_notMem {s : String} (hs : IsSymbol s) : ',' ∉ s.toList :=
  hs.notMem (by decide)

/-- A symbol can stand first among the arguments of a directive. -/
theorem IsSymbol.head_append_not_space {s : String} (hs : IsSymbol s) (rest : List Char) :
    ∀ c ∈ (s.toList ++ rest).head?, isSpace c = false := by
  intro c hc
  cases hlist : s.toList with
  | nil => exact absurd (String.toList_eq_nil_iff.mp hlist) hs.nonempty
  | cons d cs =>
    rw [hlist] at hc
    obtain rfl : d = c := by simpa using hc
    have hd := hs.chars d (by simp [hlist])
    by_contra hspace
    rcases eq_of_isSpace (Bool.not_eq_false _ ▸ hspace) with rfl | rfl <;>
      exact absurd hd (by decide)

theorem IsSymbol.head_not_space {s : String} (hs : IsSymbol s) :
    ∀ c ∈ s.toList.head?, isSpace c = false := by
  simpa using hs.head_append_not_space []

theorem comma_notMem_toString (n : Int64) : ',' ∉ (toString n).toList :=
  Text.notMem_toString (by decide) (by decide) n

theorem toString_head_not_space (n : Int64) :
    ∀ c ∈ (toString n).toList.head?, isSpace c = false := by
  obtain ⟨c, ds, hlist, hc⟩ := Text.exists_toList_toString n
  intro d hd
  obtain rfl : c = d := by simpa [hlist] using hd
  by_contra hspace
  rcases eq_of_isSpace (Bool.not_eq_false _ ▸ hspace) with rfl | rfl <;>
    exact absurd hc (by decide)

/-- The directive of a line that starts with `head`: blanks, a word with a dot, and
blanks again. -/
def directiveOf? (head : String) : Option String :=
  let cs := head.toList.dropWhile isSpace
  let sep := cs.dropWhile isSymbolChar
  if cs.head? = some '.' ∧ sep ≠ [] ∧ sep.all isSpace then
    some (String.ofList (cs.takeWhile isSymbolChar))
  else none

/-- A line with a directive is left to the reader of its arguments. -/
theorem readLine?_directive (head name : String) (read : List Char → Option Statement)
    (hhead : directiveOf? head = some name) (hname : directives.lookup name = some read)
    {args : String} (hargs : ∀ c ∈ args.toList.head?, isSpace c = false) :
    readLine? (head ++ args) = read args.toList := by
  simp only [directiveOf?, Option.ite_none_right_eq_some, Option.some.injEq] at hhead
  obtain ⟨⟨hdot, hsep, hspace⟩, rfl⟩ := hhead
  rw [List.all_eq_true] at hspace
  obtain ⟨w, hw⟩ := List.head?_eq_some_iff.mp hdot
  obtain ⟨c, seps, hcons⟩ := List.exists_cons_of_ne_nil hsep
  have hc : c ≠ ':' := by
    rintro rfl
    exact absurd (hspace ':' (by simp [hcons])) (by decide)
  have hblank : (head ++ args).toList.dropWhile isSpace =
      head.toList.dropWhile isSpace ++ args.toList := by
    rw [String.toList_append, List.dropWhile_append, if_neg (by simp [hw])]
  have hdrop : (head.toList.dropWhile isSpace ++ args.toList).dropWhile isSymbolChar =
      c :: (seps ++ args.toList) := by
    rw [List.dropWhile_append, if_neg (by simp [hcons]), hcons, List.cons_append]
  have htake : (head.toList.dropWhile isSpace ++ args.toList).takeWhile isSymbolChar =
      (head.toList.dropWhile isSpace).takeWhile isSymbolChar := by
    have hlen := congrArg List.length
      (List.takeWhile_append_dropWhile (p := isSymbolChar) (l := head.toList.dropWhile isSpace))
    rw [hcons, List.length_append, List.length_cons] at hlen
    rw [List.takeWhile_append, if_neg (by omega)]
  have hskip : (c :: (seps ++ args.toList)).dropWhile isSpace = args.toList := by
    rw [← List.cons_append, ← hcons, List.dropWhile_append_of_pos hspace]
    cases hlist : args.toList with
    | nil => rfl
    | cons a rest => simp [hargs a (by simp [hlist])]
  rw [readLine?, hblank, htake, hdrop]
  rw [hw] at hname
  simp [hskip, hc, hw, readDirective?, hname]

/-- The directives that take a symbol alone differ in what they say of it. -/
theorem readLine?_name (head name : String) {f : String → Statement}
    (hhead : directiveOf? head = some name) (hname : directives.lookup name = some (readName? f))
    {s : String} (hs : IsSymbol s) : readLine? (head ++ s) = some (f s) := by
  rw [readLine?_directive head name (readName? f) hhead hname hs.head_not_space, readName?,
    hs.readSymbol?, Option.map_some]

theorem readLine?_globalSymbol {s : String} (hs : IsSymbol s) :
    readLine? (Directive.globalSymbol s).render = some (.globalSymbol s) :=
  readLine?_name ".globl " ".globl" (by decide) (by simp [directives, List.lookup_cons]) hs

theorem readLine?_localSymbol {s : String} (hs : IsSymbol s) :
    readLine? (Directive.localSymbol s).render = some (.localSymbol s) :=
  readLine?_name ".local " ".local" (by decide) (by simp [directives, List.lookup_cons]) hs

theorem readLine?_hidden {s : String} (hs : IsSymbol s) :
    readLine? (Directive.hidden s).render = some (.hidden s) :=
  readLine?_name "\t.hidden\t" ".hidden" (by decide) (by simp [directives, List.lookup_cons]) hs

/-- A directive on a symbol, with more arguments after a comma. -/
theorem readLine?_arguments (head name : String) (read : List Char → Option Statement)
    (hhead : directiveOf? head = some name) (hname : directives.lookup name = some read)
    {s : String} (hs : IsSymbol s) (more : String) :
    readLine? (head ++ s ++ "," ++ more) = read (s.toList ++ ',' :: more.toList) := by
  have hargs : (s ++ ("," ++ more)).toList = s.toList ++ ',' :: more.toList := by simp
  rw [String.append_assoc, String.append_assoc, readLine?_directive head name read hhead hname
    (hargs ▸ hs.head_append_not_space _), hargs]

theorem readLine?_symbolType {s : String} (hs : IsSymbol s) {type : String}
    (htype : ',' ∉ type.toList) :
    readLine? (Directive.symbolType s type).render = some (.symbolType s type) := by
  refine (readLine?_arguments "\t.type\t" ".type" readType? (by decide)
    (by simp [directives, List.lookup_cons]) hs type).trans ?_
  rw [readType?, List.splitOn_append_cons_self, List.splitOn_eq_singleton hs.comma_notMem,
    List.splitOn_eq_singleton htype]
  simp [hs.readSymbol?]

theorem readLine?_size {s : String} (hs : IsSymbol s) (n : Int64) :
    readLine? (Directive.size s n).render = some (.size s n) := by
  refine (readLine?_arguments "\t.size\t" ".size" readSize? (by decide)
    (by simp [directives, List.lookup_cons]) hs (toString n)).trans ?_
  rw [readSize?, List.splitOn_append_cons_self, List.splitOn_eq_singleton hs.comma_notMem,
    List.splitOn_eq_singleton (comma_notMem_toString n)]
  simp [hs.readSymbol?, Text.readInt64?_toString]

theorem readLine?_common {s : String} (hs : IsSymbol s) (n a : Int64) :
    readLine? (Directive.common s n a).render = some (.common s n a) := by
  have hmore : (toString n ++ ("," ++ toString a)).toList =
      (toString n).toList ++ ',' :: (toString a).toList := by simp
  change readLine? ("\t.comm\t" ++ s ++ "," ++ toString n ++ "," ++ toString a) = _
  rw [String.append_assoc, String.append_assoc, readLine?_arguments "\t.comm\t" ".comm"
    readCommon? (by decide) (by simp [directives, List.lookup_cons]) hs, hmore, readCommon?,
    List.splitOn_append_cons_self, List.splitOn_append_cons_self,
    List.splitOn_eq_singleton hs.comma_notMem, List.splitOn_eq_singleton (comma_notMem_toString n),
    List.splitOn_eq_singleton (comma_notMem_toString a)]
  simp [hs.readSymbol?, Text.readInt64?_toString]

theorem readLine?_align (n : Int64) : readLine? (Directive.align n).render = some (.align n) := by
  refine (readLine?_directive "\t.align\t" ".align" (fun cs => (Text.readInt64? cs).map .align)
    (by decide) (by simp [directives, List.lookup_cons]) (toString_head_not_space n)).trans ?_
  simp only [Text.readInt64?_toString, Option.map_some]

theorem readLine?_number (head name : String) {width : Nat} (hhead : directiveOf? head = some name)
    (hname : directives.lookup name = some (readValue? width)) (n : Int64) :
    readLine? (head ++ toString n) = some (.number width n) := by
  rw [readLine?_directive head name (readValue? width) hhead hname (toString_head_not_space n),
    readValue?, Text.readInt64?_toString]

/-- A symbol is not a number. -/
theorem IsSymbol.readInt64?_append {s : String} (hs : IsSymbol s) (rest : List Char) :
    Text.readInt64? (s.toList ++ rest) = none := by
  cases hlist : s.toList with
  | nil => exact absurd (String.toList_eq_nil_iff.mp hlist) hs.nonempty
  | cons c cs =>
    have hdigit : c.isDigit = false := hs.head c (by simp [hlist])
    have hchar : isSymbolChar c = true := hs.chars c (by simp [hlist])
    have hread : Text.readDigits? (c :: (cs ++ rest)) = none := by
      simp [Text.readDigits?, Text.isDecimalDigit_eq_isDigit, hdigit]
    rw [List.cons_append, Text.readInt64?, hread, Option.bind_none]
    · rintro ds ⟨rfl, -⟩
      exact absurd hchar (by decide)
    · rintro ds ⟨rfl, -⟩
      exact absurd hchar (by decide)

theorem exists_render_direct (s : String) (offset : Int64) :
    ∃ rest, (Operand.direct s offset).render.toList = s.toList ++ rest := by
  unfold Operand.render
  dsimp only
  split
  · exact ⟨[], by simp⟩
  · split
    · exact ⟨_, String.toList_append.trans (by rw [String.toList_append, List.append_assoc]; rfl)⟩
    · exact ⟨_, String.toList_append⟩

theorem readLine?_address (head name : String) {width : Nat} (hhead : directiveOf? head = some name)
    (hname : directives.lookup name = some (readValue? width)) {s : String} (hs : IsSymbol s)
    (offset : Int64) :
    readLine? (head ++ (Operand.direct s offset).render) = some (.address width s offset) := by
  obtain ⟨rest, hrest⟩ := exists_render_direct s offset
  have haddress := readAddress?_render hs offset
  rw [readLine?_directive head name (readValue? width) hhead hname
    (hrest ▸ hs.head_append_not_space rest), readValue?]
  rw [hrest] at haddress ⊢
  rw [hs.readInt64?_append, haddress]
  rfl

theorem toList_textLiteral (s : String) :
    (textLiteral s).toList = literalChars s.toUTF8.toList :=
  String.toList_ofList

theorem textLiteral_head_not_space (s : String) :
    ∀ c ∈ (textLiteral s).toList.head?, isSpace c = false := by
  rw [toList_textLiteral, literalChars, List.cons_append, List.head?_cons]
  rintro c ⟨rfl⟩
  decide

theorem readLine?_string (s : String) :
    readLine? (Directive.string s).render = some (.string s.toUTF8.toList) := by
  refine (readLine?_directive "\t.string\t" ".string" readString? (by decide)
    (by simp [directives, List.lookup_cons]) (textLiteral_head_not_space s)).trans ?_
  rw [toList_textLiteral, readString?, readLiteral?_literalChars, Option.map_some]

theorem readLine?_file (s : String) : readLine? (Directive.file s).render = some .nothing := by
  refine (readLine?_directive ".file\t" ".file"
    (fun cs => (readLiteral? cs).map fun _ => .nothing) (by decide)
    (by simp [directives]) (textLiteral_head_not_space s)).trans ?_
  simp only [toList_textLiteral, readLiteral?_literalChars, Option.map_some]

theorem statement?_label {s : String} (hs : IsSymbol s) :
    (Element.label s).statement? = some (.label s) := by
  have hblank : (s ++ ":").toList.dropWhile isSpace = s.toList ++ [':'] := by
    have hhead := hs.head_append_not_space [':']
    rw [String.toList_append]
    change (s.toList ++ [':']).dropWhile isSpace = _
    cases hlist : s.toList ++ [':'] with
    | nil => rfl
    | cons c cs => simp [hhead c (by simp [hlist])]
  obtain ⟨htake, hdrop⟩ := @span_symbol s hs [':'] (by simp; decide)
  change readLine? (s ++ ":") = _
  rw [readLine?, hblank, htake, hdrop]
  simp [hs.readSymbol?]

theorem statement?_comment {text : String} {indent : Int}
    (hfits : (Element.comment text indent).Fits) :
    (Element.comment text indent).statement? = some .nothing := by
  have hindent : ∀ c ∈ (List.replicate indent.toNat "  ").flatMap String.toList, isSpace c := by
    intro c hc
    obtain ⟨s, hs, hcs⟩ := List.mem_flatMap.mp hc
    rw [List.eq_of_mem_replicate hs] at hcs
    have hc' : c = ' ' := by simpa using hcs
    rw [hc']
    decide
  have hblank : (Element.comment text indent).text.toList.dropWhile isSpace =
      '#' :: ' ' :: text.toList := by
    change ("\t" ++ String.join (List.replicate indent.toNat "  ") ++ "# " ++
      text).toList.dropWhile isSpace = _
    rw [String.toList_append, String.toList_append, String.toList_append, String.toList_join,
      List.append_assoc, List.append_assoc]
    change ('\t' :: ((List.replicate indent.toNat "  ").flatMap String.toList ++
      '#' :: ' ' :: text.toList)).dropWhile isSpace = _
    rw [List.dropWhile_cons_of_pos (by decide), List.dropWhile_append_of_pos hindent,
      List.dropWhile_cons_of_neg (by decide)]
  rw [Element.statement?, Element.render_of_fits hfits]
  change readLine? (Element.comment text indent).text = _
  rw [readLine?, hblank]
  simp [isSymbolChar]

end Cflat.Asm
