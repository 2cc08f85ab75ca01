import Cflat.Proofs.Symbols
import Cflat.Proofs.Targets
import Cflat.Proofs.Tokens

/-!
# Lines of a listing

A listing has one line for each element as long as no element holds a line end.
Source names and string literals are escaped, so they never do; symbols, and the
remarks that name a variable, are spelled as they are.

* Spellings: the texts that an element spells as they are, and the line of a
  listing for each element.
* The lines of a program: only its symbols matter, whatever the options are.
* Documents: there is one line for each element exactly when no line end is in the
  name of a variable or of something whose address is taken.
-/

namespace Cflat

/-! ## Texts without a line end -/

/-- A text that stays within one line. -/
def IsLine (s : String) : Prop :=
  '\n' ∉ s.toList

instance (s : String) : Decidable (IsLine s) :=
  inferInstanceAs (Decidable ('\n' ∉ s.toList))

@[simp] theorem isLine_append {s t : String} : IsLine (s ++ t) ↔ IsLine s ∧ IsLine t := by
  simp [IsLine, not_or]

@[simp] theorem isLine_toString_text {s : String} : IsLine (toString s) ↔ IsLine s :=
  .rfl

@[simp] theorem isLine_repr (n : Nat) : IsLine n.repr := by
  simpa [IsLine, Nat.repr] using Text.notMem_toDigits (by decide) n

@[simp] theorem isLine_toString_int64 (n : Int64) : IsLine (toString n) :=
  Text.notMem_toString (by decide) (by decide) n

/-! ## Spellings -/

namespace Asm

theorem newline_notMem_escapeByte (b : UInt8) : '\n' ∉ escapeByte b :=
  forall_byte b (by decide +kernel)

/-- A literal is one line whatever the text is. -/
@[simp] theorem isLine_textLiteral (s : String) : IsLine (textLiteral s) := by
  simp only [IsLine, textLiteral, literal, literalChars, String.toList_ofList, List.mem_cons,
    List.mem_append, List.mem_flatMap, not_or, not_exists, not_and]
  exact ⟨⟨by decide, fun b _ => newline_notMem_escapeByte b⟩, by decide⟩

/-- The texts that an operand spells as they are. -/
def Operand.pieces : Operand → List String
  | register r | indirect r _ | absolute r => [r.name]
  | immediate _ => []
  | direct symbol _ => [symbol]

/-- The texts that a directive spells as they are. -/
def Directive.pieces : Directive → List String
  | inSection name => [name]
  | inGroup name flags type group linkage => [name, flags, type, group, linkage]
  | globalSymbol symbol | localSymbol symbol | hidden symbol | common symbol _ _
  | size symbol _ => [symbol]
  | symbolType symbol expr | sizeExpr symbol expr => [symbol, expr]
  | longSymbol expr | quadSymbol expr => [expr]
  | verbatim line => [line]
  | file _ | text | data | align _ | byte _ | value _ | long _ | quad _ | string _ => []

/-- The texts that an element spells as they are. -/
def Element.pieces : Element → List String
  | comment text _ => [text]
  | label name => [name]
  | directive d => d.pieces
  | instruction mnemonic suffix operands =>
    mnemonic :: suffix :: operands.flatMap Operand.pieces

theorem Operand.isLine_render_iff (x : Operand) : IsLine x.render ↔ ∀ s ∈ x.pieces, IsLine s := by
  cases x with
  | register r | absolute r => simp +decide [render, Register.render, pieces]
  | immediate n => simp +decide [render, pieces]
  | direct symbol offset =>
    rw [render]
    split
    · simp [pieces]
    · split <;> simp +decide [pieces]
  | indirect base offset =>
    rw [render]
    split <;> simp +decide [Register.render, pieces]

theorem Directive.isLine_render_iff (d : Directive) :
    IsLine d.render ↔ ∀ s ∈ d.pieces, IsLine s := by
  cases d <;> delta Directive.render Directive.pieces <;> simp +decide [and_assoc]

theorem isLine_intercalate {separator : String} (h : IsLine separator) :
    ∀ parts : List String,
      IsLine (String.intercalate separator parts) ↔ ∀ s ∈ parts, IsLine s
  | [] => by simp +decide
  | [s] => by simp
  | s :: s' :: parts => by
    rw [String.intercalate_cons_cons, isLine_append, isLine_append,
      isLine_intercalate h (s' :: parts), List.forall_mem_cons, List.forall_mem_cons,
      List.forall_mem_cons, and_iff_left h]

theorem Element.isLine_text_iff (e : Element) :
    IsLine e.text ↔ ∀ s ∈ e.pieces, IsLine s := by
  cases e with
  | comment text indent =>
    have hindent : IsLine (String.join (List.replicate indent.toNat "  ")) := by
      simp +contextual [IsLine, String.toList_join]
    simp +decide [Element.text, pieces, hindent]
  | label name => simp +decide [Element.text, pieces]
  | directive d => exact d.isLine_render_iff
  | instruction mnemonic suffix operands =>
    have hoperands : IsLine (String.intercalate ", " (operands.map Operand.render)) ↔
        ∀ s ∈ operands.flatMap Operand.pieces, IsLine s := by
      rw [isLine_intercalate (by decide), List.forall_mem_map, List.forall_mem_flatMap]
      simp only [Operand.isLine_render_iff]
    rw [Element.text, pieces, List.forall_mem_cons, List.forall_mem_cons, ← hoperands]
    cases operands with
    | nil => simp +decide
    | cons x xs => simp +decide [and_assoc]

/-- The texts that a listing spells as they are. -/
def Listing.pieces (l : Listing) : List String :=
  l.flatMap Element.pieces

@[simp] theorem Listing.pieces_nil : Listing.pieces [] = [] :=
  rfl

@[simp] theorem Listing.pieces_cons (e : Element) (l : Listing) :
    Listing.pieces (e :: l) = e.pieces ++ l.pieces :=
  List.flatMap_cons

@[simp] theorem Listing.pieces_append (l l' : Listing) :
    Listing.pieces (l ++ l') = l.pieces ++ l'.pieces :=
  List.flatMap_append

theorem Listing.forall_isLine_iff {l : Listing} :
    (∀ e ∈ l, IsLine e.text) ↔ ∀ s ∈ l.pieces, IsLine s := by
  simp only [Element.isLine_text_iff, pieces, List.forall_mem_flatMap]

theorem Listing.toList_text_cons (e : Element) (l : Listing) :
    (Listing.text (e :: l)).toList = e.text.toList ++ '\n' :: l.text.toList := by
  simp [text, String.toList_join]

theorem Listing.count_newline_text_cons (e : Element) (l : Listing) :
    (Listing.text (e :: l)).toList.count '\n' =
      e.text.toList.count '\n' + l.text.toList.count '\n' + 1 := by
  rw [toList_text_cons, List.count_append, List.count_cons_self]
  omega

/-- Every element ends one line. -/
theorem Listing.length_le_count_newline_text (l : Listing) :
    l.length ≤ l.text.toList.count '\n' := by
  induction l with
  | nil => exact Nat.zero_le _
  | cons e l ih =>
    rw [count_newline_text_cons, List.length_cons]
    omega

theorem Listing.count_newline_text_eq_length_iff {l : Listing} :
    l.text.toList.count '\n' = l.length ↔ ∀ s ∈ l.pieces, IsLine s := by
  rw [← forall_isLine_iff]
  induction l with
  | nil => simp [text]
  | cons e l ih =>
    have hle := length_le_count_newline_text l
    have hline : e.text.toList.count '\n' = 0 ↔ IsLine e.text := List.count_eq_zero
    rw [count_newline_text_cons, List.length_cons, List.forall_mem_cons, ← ih, ← hline]
    omega

/-- A text has one more line than it has line ends. -/
theorem length_splitOn (c : Char) (l : List Char) : (l.splitOn c).length = l.count c + 1 := by
  rw [List.splitOn_eq_splitOnP]
  induction l with
  | nil => rfl
  | cons d l ih =>
    rw [List.splitOnP_cons_eq_if_modifyHead, List.count_cons]
    split <;> simp [ih]

/-- Cutting the text at its line ends gives the elements back exactly when each
stays within its line. -/
theorem Listing.splitOn_text_iff {l : Listing} :
    l.text.toList.splitOn '\n' = l.map (·.text.toList) ++ [[]] ↔
      ∀ s ∈ l.pieces, IsLine s := by
  constructor
  · intro h
    have hlength := congrArg List.length h
    rw [length_splitOn, List.length_append, List.length_map, List.length_singleton] at hlength
    exact count_newline_text_eq_length_iff.mp (by omega)
  · intro h
    rw [← forall_isLine_iff] at h
    induction l with
    | nil => rfl
    | cons e l ih =>
      rw [List.forall_mem_cons] at h
      have hline : List.splitOn '\n' (['\n'].intercalate [e.text.toList]) = [e.text.toList] :=
        List.splitOn_intercalate '\n' (by simpa [IsLine] using h.1) (by simp)
      rw [List.intercalate_singleton, List.splitOn_eq_splitOnP] at hline
      rw [toList_text_cons, List.map_cons, List.cons_append, ← ih h.2, List.splitOn_eq_splitOnP,
        List.splitOnP_append_cons _ _ (by simp), hline, List.splitOn_eq_splitOnP]
      rfl

end Asm

/-! ## The lines of a program -/

namespace Ty

@[simp] theorem isLine_baseName (t : Ty) : IsLine t.baseName := by
  cases t with
  | integer signed rank size =>
    cases signed <;> cases rank <;> simp +decide [baseName, Rank.spelling]
  | _ => simp +decide [baseName]

theorem isLine_spellingWith (t : Ty) {dims : String} (h : IsLine dims) :
    IsLine (t.spellingWith dims) := by
  induction t generalizing dims with
  | array element length ih =>
    rw [spellingWith]
    exact ih (by simp +decide [h])
  | pointer target size ih =>
    rw [spellingWith]
    simp +decide [h, ih]
  | _ => simp [spellingWith, h]

@[simp] theorem isLine_spelling (t : Ty) : IsLine t.spelling :=
  t.isLine_spellingWith (by decide)

end Ty

namespace Scope

@[simp] theorem Storage.isLine_text (s : Storage) : IsLine s.text := by
  cases s <;> simp +decide [text]

namespace Tree

variable {ι : Type} [DecidableEq ι]

/-- A number in a symbol adds no line end. -/
theorem isLine_referenceSymbol_iff (t : Tree ι) (r : Reference ι) :
    IsLine (t.referenceSymbol r) ↔ IsLine r.name := by
  unfold referenceSymbol
  split
  · rfl
  · simp +decide

theorem isLine_symbol_iff (t : Tree ι) (e : Entity ι) : IsLine (t.symbol e) ↔ IsLine e.name :=
  t.isLine_referenceSymbol_iff e.reference

end Tree

end Scope

namespace Program

open Asm (Listing Element Directive)
open Scope (Entity Initializer)

theorem isLine_label (i : Nat) : IsLine (Literals.label i) := by
  simp +decide [Literals.label]

variable {ι : Type} [DecidableEq ι]

/-- A variable whose symbol, and the symbol it may start with the address of, stay
within a line. -/
def StaysInLine (p : Program ι) (v : Entity ι) : Prop :=
  IsLine v.name ∧ ∀ init, v.init = some init → ∀ name offset, init.value = .address name offset →
    IsLine (p.scope.label init)

theorem forall_isLine_remark_iff {o : Options} {text : String} {indent : Int} :
    (∀ s ∈ (remark o text indent).pieces, IsLine s) ↔ o.feature .verboseAsm → IsLine text := by
  unfold remark
  split <;> simp [Element.pieces, *]

theorem forall_isLine_value?_iff {p : Program ι} {lits : Literals} {type : Ty}
    {init : Initializer ι} {d : Directive} (h : p.value? lits type init = some d) :
    (∀ s ∈ d.pieces, IsLine s) ↔ ∀ name offset, init.value = .address name offset →
      IsLine (p.scope.label init) := by
  rcases value?_cases h with ⟨n, hvalue, -, hd⟩ | ⟨s, hvalue, -, hd⟩ | ⟨name, offset, hvalue, -, hd⟩
  · have hmem := numberDirective?_eq_some_iff.mp hd
    simp only [List.mem_cons, Prod.mk.injEq, List.not_mem_nil, or_false] at hmem
    rcases hmem with ⟨-, rfl⟩ | ⟨-, rfl⟩ | ⟨-, rfl⟩ | ⟨-, rfl⟩ <;> simp [Directive.pieces, hvalue]
  · have hmem := addressDirective?_eq_some_iff.mp hd
    simp only [List.mem_cons, Prod.mk.injEq, List.not_mem_nil, or_false] at hmem
    rcases hmem with ⟨-, rfl⟩ | ⟨-, rfl⟩ <;> simp [Directive.pieces, hvalue, isLine_label]
  · have hmem := addressDirective?_eq_some_iff.mp hd
    simp only [List.mem_cons, Prod.mk.injEq, List.not_mem_nil, or_false] at hmem
    rcases hmem with ⟨-, rfl⟩ | ⟨-, rfl⟩ <;>
      simp [Directive.pieces, hvalue, Asm.Operand.isLine_render_iff, Asm.Operand.pieces]

theorem forall_isLine_variableLines_iff {p : Program ι} (o : Options) (lits : Literals)
    {v : Entity ι} (hv : p.Storable v) :
    (∀ s ∈ (p.variableLines o lits v).pieces, IsLine s) ↔ p.StaysInLine v := by
  obtain ⟨type, init, htype, hinit, hvalue⟩ := hv
  rw [p.isSome_value? [] lits] at hvalue
  obtain ⟨d, hd⟩ := Option.isSome_iff_exists.mp hvalue
  have hstored : (∀ s ∈ Listing.pieces ((some d).map Element.directive).toList, IsLine s) ↔
      ∀ name offset, init.value = .address name offset → IsLine (p.scope.label init) := by
    simpa [Element.pieces] using forall_isLine_value?_iff hd
  simp only [variableLines, htype, hinit, hd, Listing.pieces_append, List.forall_mem_append,
    forall_isLine_remark_iff, hstored, StaysInLine]
  cases v.isPrivate <;>
    simp +decide +contextual [Element.pieces, Directive.pieces, Scope.Tree.isLine_symbol_iff]

theorem forall_isLine_commonLines_iff (p : Program ι) {v : Entity ι} (hv : v.type.isSome)
    (hinit : v.init = none) :
    (∀ s ∈ (p.commonLines v).pieces, IsLine s) ↔ p.StaysInLine v := by
  obtain ⟨type, htype⟩ := Option.isSome_iff_exists.mp hv
  simp only [commonLines, htype, StaysInLine, hinit]
  cases v.isPrivate <;> simp [Element.pieces, Directive.pieces, Scope.Tree.isLine_symbol_iff]

theorem forall_isLine_literalElements (i : Nat) (lits : Literals) :
    ∀ s ∈ (literalElements i lits).pieces, IsLine s := by
  induction lits generalizing i with
  | nil => simp [literalElements]
  | cons s lits ih =>
    simp only [literalElements, Listing.pieces_cons, List.forall_mem_append]
    exact ⟨by simp [Element.pieces, isLine_label], by simp [Element.pieces, Directive.pieces], ih _⟩

theorem forall_isLine_literalSection (o : Options) (lits : Literals) :
    ∀ s ∈ (literalSection o lits).pieces, IsLine s := by
  have hremark : ∀ s ∈ (remark o "string literals" 0).pieces, IsLine s :=
    forall_isLine_remark_iff.mpr fun _ => by decide
  unfold literalSection
  split
  · simp
  · simp only [List.cons_append, Listing.pieces_cons, Listing.pieces_append,
      List.forall_mem_append]
    exact ⟨by decide, hremark,
      forall_isLine_literalElements 0 lits⟩

/-- The lines of several variables stay lines as those of each do. -/
theorem forall_isLine_flatMap_iff {p : Program ι} {lines : Entity ι → Listing}
    {vars : List (Entity ι)}
    (h : ∀ v ∈ vars, (∀ s ∈ (lines v).pieces, IsLine s) ↔ p.StaysInLine v) :
    (∀ s ∈ Listing.pieces (vars.flatMap lines), IsLine s) ↔ ∀ v ∈ vars, p.StaysInLine v := by
  rw [Listing.pieces, List.flatMap_assoc, List.forall_mem_flatMap]
  exact forall₂_congr h

theorem forall_isLine_dataLines_iff {p : Program ι} (o : Options)
    (h : ∀ v ∈ p.scope.classes.initialized, p.Storable v) :
    (∀ s ∈ (p.dataLines o).pieces, IsLine s) ↔
      ∀ v ∈ p.scope.classes.initialized, p.StaysInLine v := by
  have hvars := forall_isLine_flatMap_iff fun v hv =>
    forall_isLine_variableLines_iff o p.literals (h v hv)
  have hremark : ∀ s ∈ (remark o "initialized data" 0).pieces, IsLine s :=
    forall_isLine_remark_iff.mpr fun _ => by decide
  rw [← hvars, dataLines]
  split
  · next hempty => simp [List.isEmpty_iff.mp hempty]
  · simp only [List.cons_append, Listing.pieces_cons, Listing.pieces_append,
      List.forall_mem_append, and_iff_right hremark]
    exact and_iff_right (by simp [Element.pieces, Directive.pieces])

/-- Only the symbols of the variables and those they start with the address of can
split a line. -/
theorem forall_isLine_lines_iff {p : Program ι} {o : Options} {l : Listing}
    (h : p.listing o = .ok l) :
    (∀ s ∈ l.pieces, IsLine s) ↔ ∀ v ∈ p.scope.classes.all, p.StaysInLine v := by
  obtain ⟨hvars, hcommon, hwidth, rfl⟩ := listing_eq_ok_iff.mp h
  have hcommons := forall_isLine_flatMap_iff fun v hv =>
    p.forall_isLine_commonLines_iff (hcommon v hv) (by
      exact (Scope.Tree.mem_common_iff.mp hv).2)
  have hremark : ∀ s ∈ Listing.pieces
      (if p.scope.classes.common.isEmpty then [] else remark o "common symbols" 0), IsLine s := by
    split
    · simp
    · exact forall_isLine_remark_iff.mpr fun _ => by decide
  have hthunk : ∀ s ∈ Listing.pieces (if o.feature .pic then thunkLines o.wordSize else []),
      IsLine s := by
    split
    · next hpic => rcases hwidth hpic with hw | hw <;> rw [hw] <;> decide
    · simp
  have hnote : ∀ s ∈ Listing.pieces (if o.feature .gnuStack then [stackNote] else []),
      IsLine s := by
    split <;> decide
  have hfile : ∀ s ∈ (Element.directive (.file p.file)).pieces, IsLine s := by
    simp [Element.pieces, Directive.pieces]
  simp only [lines, Listing.pieces_append, Listing.pieces_cons, List.cons_append,
    List.forall_mem_append, forall_isLine_dataLines_iff o hvars, hcommons,
    and_iff_right hfile, and_iff_right hremark, and_iff_left hthunk, and_iff_left hnote,
    and_iff_left (forall_isLine_literalSection o p.literals)]
  rw [← List.forall_mem_append]
  exact forall_congr' fun v => by rw [p.scope.perm_classes.mem_iff]

end Program

/-! ## Documents -/

namespace Document

/-- The names of a document that its listing spells out: the symbols of the
variables, and the names whose addresses they start with. -/
def spelledNames (doc : Document) : List String :=
  doc.definedVariables.flatMap fun x => x.1 :: (x.2.map (·.symbol)).toList

/-- A symbol is as good as the name it is made from, which is the name that the
document writes. -/
theorem WellFormed.staysInLine_iff {types : Table} {doc : Document} (h : doc.WellFormed types)
    {v : Scope.Entity Site} (hv : v ∈ (doc.frozenTree types).classes.all) :
    (doc.frozenProgram types).StaysInLine v ↔ IsLine ((doc.frozenTree types).symbol v) ∧
      ∀ name offset, v.init.map (·.value) = some (.address name offset) → IsLine name := by
  obtain ⟨d, scopes, horigin⟩ := h.exists_origin hv
  have hlabel {init : Scope.Initializer Site} (hinit : v.init = some init) {name : String}
      {offset : Int64} (hvalue : init.value = .address name offset) :
      IsLine ((doc.frozenTree types).label init) ↔ IsLine name := by
    obtain ⟨e, he, htarget, -⟩ := horigin.exists_target hinit hvalue
    rw [Scope.Tree.label, htarget]
    dsimp only
    rw [Scope.Tree.isLine_referenceSymbol_iff, ← Scope.Tree.name_of_lookup? he]
    rfl
  rw [Program.StaysInLine, Scope.Tree.isLine_symbol_iff]
  refine and_congr_right fun _ => ?_
  cases hinit : v.init with
  | none => simp
  | some init =>
    simp only [Option.some.injEq, forall_eq', Option.map_some]
    exact forall₃_congr fun name offset hvalue => hlabel hinit hvalue

theorem WellFormed.forall_staysInLine_iff {types : Table} {doc : Document}
    (h : doc.WellFormed types) :
    (∀ v ∈ (doc.frozenTree types).classes.all, (doc.frozenProgram types).StaysInLine v) ↔
      ∀ s ∈ doc.spelledNames, IsLine s := by
  have hwalk := congrArg (fun l : List (String × Option Scope.Constant) => ∀ x ∈ l,
    IsLine x.1 ∧ ∀ name offset, x.2 = some (.address name offset) → IsLine name) h.map_all
  simp only [List.forall_mem_map] at hwalk
  have hentities : (∀ v ∈ (doc.frozenTree types).classes.all,
      (doc.frozenProgram types).StaysInLine v) ↔ _ :=
    forall₂_congr fun _ hv => h.staysInLine_iff hv
  rw [hentities, hwalk, spelledNames, List.forall_mem_flatMap]
  refine forall₂_congr fun x hx => ?_
  rw [List.forall_mem_cons]
  refine and_congr_right fun _ => ?_
  cases hinit : x.2 with
  | none => simp
  | some init =>
    have haddress := @Init.WellFormed.constant?_eq_address_iff init
      (h.init_of_mem_definedVariables hx init hinit)
    simp only [Option.bind_some, haddress, Option.map_some, Option.toList_some, List.mem_singleton,
      forall_eq]
    refine ⟨fun hline => ?_, fun hline name offset haddr => haddr.2.1 ▸ hline⟩
    by_cases hempty : init.symbol = ""
    · rw [hempty]
      decide
    · exact hline init.symbol init.offset ⟨hempty, rfl, rfl⟩

/-- A generated listing has a text, and so has each of its elements.  The text has one line
for each element, and gives the elements back line by line, exactly when no name that it
spells out holds a line end. -/
theorem lines_eq_elements_iff {types : Table} {doc : Document} {p : Program Site} {o : Options}
    {l : Asm.Listing} (h : doc.load types = .ok p) (hl : (p.generate o).result = .ok l) :
    ∃ text lines, l.render = .ok text ∧ l.mapM Asm.Element.render = .ok lines ∧
      (text.toList.count '\n' = l.length ↔ ∀ s ∈ doc.spelledNames, '\n' ∉ s.toList) ∧
      (text.toList.splitOn '\n' = lines.map String.toList ++ [[]] ↔
        ∀ s ∈ doc.spelledNames, '\n' ∉ s.toList) := by
  obtain ⟨hdoc, rfl⟩ := (load_accepts types doc p).mp h
  have hnames : (∀ s ∈ l.pieces, IsLine s) ↔ ∀ s ∈ doc.spelledNames, '\n' ∉ s.toList :=
    (Program.forall_isLine_lines_iff (listing_of_generate hl)).trans hdoc.forall_staysInLine_iff
  have helements : l.mapM Asm.Element.render = .ok (l.map Asm.Element.text) :=
    (Asm.Element.render_accepts.mapM l _).mpr ⟨Program.fits_of_generate hl, rfl⟩
  refine ⟨l.text, l.map Asm.Element.text, Program.render_of_generate hl, helements,
    Asm.Listing.count_newline_text_eq_length_iff.trans hnames, ?_⟩
  rw [List.map_map]
  exact Asm.Listing.splitOn_text_iff.trans hnames

/-- A file name and a string with line ends. -/
def foldedTexts : Document where
  file := "a\nb"
  items := [
    { kind := "var", name := "s", type := "char*", init := some { string := some "one\ntwo\n" } },
    { kind := "extern", name := "n", type := "int" },
    { kind := "var", name := "p", type := "int*", init := some { symbol := "n", offset := 4 } }]

theorem lines_eq_elements_iff_foldedTexts : ∃ p l,
    foldedTexts.load { pointerSize := 4 } = .ok p ∧
      (p.generate (({} : Options).setFeature .verboseAsm true)).result = .ok l ∧
      ∃ text lines, l.render = .ok text ∧ l.mapM Asm.Element.render = .ok lines ∧
        text.toList.splitOn '\n' = lines.map String.toList ++ [[]] := by
  obtain ⟨hp, l, hl⟩ := @exists_listing { pointerSize := 4 } foldedTexts
    (({} : Options).setFeature .verboseAsm true) (by decide +kernel) (by decide +kernel)
  obtain ⟨text, lines, htext, hlines, -, hsplit⟩ := lines_eq_elements_iff hp hl
  exact ⟨_, l, hp, hl, text, lines, htext, hlines, hsplit.mpr (by decide +kernel)⟩

/-- A variable with a line end in its name. -/
def foldedName : Document where
  items := [{ kind := "var", name := "a\nb", type := "int" }]

theorem count_newline_foldedName : ∃ p l,
    foldedName.load { pointerSize := 4 } = .ok p ∧ (p.generate {}).result = .ok l ∧
      l.length = 3 ∧ ∃ text, l.render = .ok text ∧ text.toList.count '\n' = 4 := by
  obtain ⟨hp, -⟩ := @exists_listing { pointerSize := 4 } foldedName {} (by decide +kernel)
    (by decide +kernel)
  exact ⟨_, [.directive (.file ""), .directive (.common "a\nb" 4 4), Program.stackNote], hp,
    by decide +kernel, rfl, _, rfl, by decide +kernel⟩

end Document

end Cflat
