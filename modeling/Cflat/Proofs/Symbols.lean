import Cflat.Proofs.Classification
import Cflat.Proofs.Emission

/-!
# The symbols a listing defines

Four naming schemes meet in one listing: global variables keep the names of the
document, static locals are numbered, literals are counted, and the helper for
position-independent code has a fixed name.

* The symbols of a listing, in order, from the program.
* The schemes: two symbols of the last three kinds are never the same.
* The whole listing, in the terms of the document: only the name of a global
  variable can be defined twice.
-/

namespace Cflat

/-! ## The symbols of a listing -/

namespace Asm

/-- The symbol that an element defines. -/
def Element.defined? : Element → Option String
  | label name => some name
  | directive (.common symbol _ _) => some symbol
  | _ => none

/-- The symbols that a listing defines, in order. -/
def Listing.definedSymbols (l : Listing) : List String :=
  l.filterMap Element.defined?

@[simp] theorem Listing.definedSymbols_nil : Listing.definedSymbols [] = [] :=
  rfl

@[simp] theorem Listing.definedSymbols_cons (e : Element) (l : Listing) :
    Listing.definedSymbols (e :: l) = e.defined?.toList ++ l.definedSymbols := by
  cases h : e.defined? <;> simp [Listing.definedSymbols, h]

@[simp] theorem Listing.definedSymbols_append (l l' : Listing) :
    Listing.definedSymbols (l ++ l') = l.definedSymbols ++ l'.definedSymbols :=
  List.filterMap_append

end Asm

namespace Program

open Asm (Listing Element Directive)
open Scope (Entity)

variable {ι : Type} [DecidableEq ι]

@[simp] theorem definedSymbols_remark (o : Options) (text : String) (indent : Int) :
    (remark o text indent).definedSymbols = [] := by
  unfold remark
  split <;> rfl

/-- Stored values define nothing. -/
theorem defined?_of_value? {p : Program ι} {lits : Literals} {type : Ty}
    {init : Scope.Initializer ι} {d : Directive} (h : p.value? lits type init = some d) :
    (Element.directive d).defined? = none := by
  have hdata := isData_of_value? h
  cases d with
  | common _ _ _ => simp [Directive.isData] at hdata
  | _ => rfl

theorem definedSymbols_variableLines (p : Program ι) (o : Options) (lits : Literals)
    {v : Entity ι} (hv : p.Storable v) :
    (p.variableLines o lits v).definedSymbols = [p.scope.symbol v] := by
  obtain ⟨type, init, htype, hinit, hvalue⟩ := hv
  rw [p.isSome_value? [] lits] at hvalue
  obtain ⟨d, hd⟩ := Option.isSome_iff_exists.mp hvalue
  have hnone := defined?_of_value? hd
  simp only [variableLines, htype, hinit, hd, Listing.definedSymbols_append, definedSymbols_remark]
  cases v.isPrivate <;> simp [Element.defined?, ↓hnone]

theorem definedSymbols_commonLines (p : Program ι) {v : Entity ι} (hv : v.type.isSome) :
    (p.commonLines v).definedSymbols = [p.scope.symbol v] := by
  obtain ⟨type, htype⟩ := Option.isSome_iff_exists.mp hv
  simp only [commonLines, htype]
  cases v.isPrivate <;> simp [Element.defined?]

theorem definedSymbols_literalElements (i : Nat) (lits : Literals) :
    (literalElements i lits).definedSymbols = (List.range' i lits.length).map Literals.label := by
  induction lits generalizing i with
  | nil => rfl
  | cons s lits ih =>
    simp [literalElements, Element.defined?, ih, List.range'_succ]

theorem definedSymbols_literalSection (o : Options) (lits : Literals) :
    (literalSection o lits).definedSymbols = (List.range lits.length).map Literals.label := by
  unfold literalSection
  cases lits with
  | nil => rfl
  | cons s lits =>
    simp [Element.defined?, definedSymbols_literalElements, List.range_eq_range']

/-- The lines of several variables define the symbols of the variables. -/
theorem definedSymbols_flatMap {p : Program ι} {lines : Entity ι → Listing}
    {vars : List (Entity ι)} (h : ∀ v ∈ vars, (lines v).definedSymbols = [p.scope.symbol v]) :
    Listing.definedSymbols (vars.flatMap lines) = vars.map p.scope.symbol := by
  induction vars with
  | nil => rfl
  | cons v vars ih =>
    rw [List.forall_mem_cons] at h
    rw [List.flatMap_cons, Listing.definedSymbols_append, h.1, ih h.2]
    rfl

/-- The symbols of the helper for position-independent code. -/
def thunkSymbols (o : Options) : List String :=
  if o.feature .pic then [picThunk] else []

/-- The symbols of a listing, in order. -/
theorem definedSymbols_of_listing {p : Program ι} {o : Options} {l : Listing}
    (h : p.listing o = .ok l) :
    l.definedSymbols = p.scope.classes.initialized.map p.scope.symbol ++
      (List.range p.literals.length).map Literals.label ++
      p.scope.classes.common.map p.scope.symbol ++ thunkSymbols o := by
  obtain ⟨hvars, hcommon, -, rfl⟩ := listing_eq_ok_iff.mp h
  have hdata : (p.dataLines o).definedSymbols =
      p.scope.classes.initialized.map p.scope.symbol := by
    unfold dataLines
    dsimp only
    split
    · next hempty => rw [List.isEmpty_iff.mp hempty]; rfl
    · simpa [Element.defined?] using
        definedSymbols_flatMap fun v hv => p.definedSymbols_variableLines o p.literals (hvars v hv)
  have hthunk : Listing.definedSymbols
      (if o.feature .pic then thunkLines o.wordSize else []) = thunkSymbols o := by
    unfold thunkSymbols
    split <;> rfl
  have hnote : Listing.definedSymbols
      (if o.feature .gnuStack then [stackNote] else []) = [] := by
    split <;> rfl
  have hremark : Listing.definedSymbols
      (if p.scope.classes.common.isEmpty then [] else remark o "common symbols" 0) = [] := by
    split <;> simp
  have hcommons := definedSymbols_flatMap fun v hv => p.definedSymbols_commonLines (hcommon v hv)
  simp only [lines, Listing.definedSymbols_append, Listing.definedSymbols_cons, hdata,
    definedSymbols_literalSection, hremark, hcommons, hthunk, hnote]
  simp [Element.defined?]

/-! ## The schemes -/

theorem Literals.toList_label (i : Nat) :
    (Literals.label i).toList = '.' :: 'L' :: 'C' :: Nat.toDigits 10 i := by
  simp [Literals.label, toString, Nat.repr]

theorem Literals.label_inj {i j : Nat} (h : Literals.label i = Literals.label j) : i = j := by
  have hlists := congrArg String.toList h
  rw [Literals.toList_label, Literals.toList_label] at hlists
  simp only [List.cons.injEq, true_and] at hlists
  rw [← Nat.ofDigitChars_ten_toDigits (n := i), hlists, Nat.ofDigitChars_ten_toDigits]

/-- What follows the last dot of a numbered name is a number. -/
theorem numbered_ne {name s : String} {k : Nat} (front tail : List Char) (c : Char)
    (hs : s.toList = front ++ '.' :: tail) (hdot : '.' ∉ tail) (hc : c ∈ tail)
    (hdigit : c.isDigit = false) : s!"{name}.{k}" ≠ s := by
  intro h
  have hlists := congrArg String.toList h
  rw [toList_numbered, hs] at hlists
  obtain ⟨-, htail⟩ := append_cons_inj_of_notMem_right
    (Text.notMem_toDigits (by decide) k) hdot hlists
  rw [← htail] at hc
  have hc' := Nat.isDigit_of_mem_toDigits (by decide) (by decide) hc
  simp [hdigit] at hc'

theorem numbered_ne_label (name : String) (k i : Nat) : s!"{name}.{k}" ≠ Literals.label i := by
  refine numbered_ne [] _ 'L' (Literals.toList_label i) ?_ (by simp) (by decide)
  simpa using Text.notMem_toDigits (by decide) i

theorem numbered_ne_picThunk (name : String) (k : Nat) : s!"{name}.{k}" ≠ picThunk := by
  exact numbered_ne "__x86.get_pc_thunk".toList ['b', 'x'] 'b' (by decide) (by decide) (by simp)
    (by decide)

theorem label_ne_picThunk (i : Nat) : Literals.label i ≠ picThunk := by
  intro h
  have hlists := congrArg String.toList h
  rw [Literals.toList_label] at hlists
  simp [picThunk] at hlists

end Program

/-! ## The whole listing -/

/-- A variable has an initial value or it is a common symbol. -/
theorem Scope.Tree.perm_classes {ι : Type} (t : Scope.Tree ι) :
    (t.classes.initialized ++ t.classes.common).Perm t.classes.all := by
  rw [t.initialized_classes, t.common_classes]
  simpa using List.filter_append_perm (·.init.isSome) t.classes.all

namespace Document

open Program (Literals thunkSymbols)

/-- The texts that variables of a document start with, each once, in order. -/
def texts (doc : Document) : List String :=
  (doc.definedVariables.filterMap fun x => x.2.bind (·.string)).eraseDups

/-- The program of a document at the time of generation. -/
abbrev frozenProgram (types : Table) (doc : Document) : Program Site :=
  { doc.program types with scope := doc.frozenTree types }

theorem listing_of_generate {types : Table} {doc : Document} {o : Options} {l : Asm.Listing}
    (h : ((doc.program types).generate o).result = .ok l) :
    (doc.frozenProgram types).listing o = .ok l :=
  (Program.result_generate ..).symm.trans h

/-- The text of a string constant. -/
def textOf? : Scope.Constant → Option String
  | .string s => some s
  | _ => none

theorem Init.WellFormed.constant?_bind_textOf? {x : Init} (h : x.WellFormed) :
    x.constant?.bind textOf? = x.string := by
  unfold Init.WellFormed at h
  unfold Init.constant?
  rcases x with ⟨int, string, symbol, offset⟩
  cases int <;> cases string <;> by_cases hs : symbol = "" <;> simp_all [textOf?]

theorem WellFormed.literals_frozenProgram {types : Table} {doc : Document}
    (h : doc.WellFormed types) : (doc.frozenProgram types).literals = doc.texts := by
  have hinitialized : Program.texts (doc.frozenTree types).classes.initialized =
      (doc.frozenTree types).classes.all.filterMap
        fun v => (v.init.map (·.value)).bind textOf? := by
    rw [Program.texts, Scope.Tree.initialized_classes, List.filterMap_filter]
    congr 1
    funext v
    cases hinit : v.init with
    | none => simp
    | some init =>
      simp only [Program.literalOf?, hinit, Option.isSome_some, if_true, Option.bind_some,
        Option.map_some]
      rfl
  have hall := congrArg (List.filterMap fun x => x.2.bind textOf?) h.map_all
  rw [List.filterMap_map, List.filterMap_map] at hall
  rw [Program.literals, texts, hinitialized]
  congr 1
  refine hall.trans (List.filterMap_congr fun x hx => ?_)
  cases hx2 : x.2 with
  | none => simp [hx2]
  | some y =>
    have hy := h.init_of_mem_definedVariables hx y hx2
    simpa [hx2] using hy.constant?_bind_textOf?

/-- The symbols of a generated listing, up to order. -/
theorem WellFormed.perm_definedSymbols {types : Table} {doc : Document} (h : doc.WellFormed types)
    {o : Options} {l : Asm.Listing} (hl : (doc.frozenProgram types).listing o = .ok l) :
    l.definedSymbols.Perm (doc.definedVariables.map Prod.fst ++
      (List.range doc.texts.length).map Literals.label ++ thunkSymbols o) := by
  rw [Program.definedSymbols_of_listing hl, h.literals_frozenProgram]
  have hall := congrArg (List.map Prod.fst) h.map_all
  simp only [List.map_map, Function.comp_def] at hall
  have hsymbols := (doc.frozenTree types).perm_classes.map (doc.frozenTree types).symbol
  rw [List.map_append, hall] at hsymbols
  refine .append_right _ (.trans ?_ (hsymbols.append_right _))
  rw [List.append_assoc, List.append_assoc]
  exact List.perm_append_comm.append_left _

theorem WellFormed.nodup_numbered {types : Table} {doc : Document} (h : doc.WellFormed types) :
    ((numbered doc.staticVars).map Prod.fst).Nodup := by
  have hstatics := congrArg (List.map Prod.fst) h.map_statics
  simp only [List.map_map, Function.comp_def] at hstatics
  rw [← hstatics]
  exact Scope.Tree.nodup_symbol_statics (Scope.Tree.frozen_freeze _) h.nodup_statics

/-- The symbols that are not names of the document are distinct. -/
theorem WellFormed.nodup_generated {types : Table} {doc : Document} (h : doc.WellFormed types)
    (o : Options) :
    ((numbered doc.staticVars).map Prod.fst ++
      ((List.range doc.texts.length).map Literals.label ++ thunkSymbols o)).Nodup := by
  have hlabels : ((List.range doc.texts.length).map Literals.label).Nodup :=
    List.nodup_range.map fun _ _ => Literals.label_inj
  have hthunk : (thunkSymbols o).Nodup := by
    unfold thunkSymbols
    split <;> simp
  have hmem_thunk : ∀ s ∈ thunkSymbols o, s = Program.picThunk := by
    unfold thunkSymbols
    split <;> simp
  rw [List.nodup_append, List.nodup_append]
  refine ⟨h.nodup_numbered, ⟨hlabels, hthunk, ?_⟩, ?_⟩
  · rintro _ hs s hs' rfl
    obtain ⟨i, -, hi⟩ := List.mem_map.mp hs
    exact Program.label_ne_picThunk i (hi.trans (hmem_thunk _ hs'))
  · rintro _ hs s hs' rfl
    obtain ⟨x, hx, rfl⟩ := List.mem_map.mp hs
    obtain ⟨k, hk, rfl⟩ := List.mem_mapIdx.mp hx
    rcases List.mem_append.mp hs' with hs' | hs'
    · obtain ⟨i, -, hi⟩ := List.mem_map.mp hs'
      exact Program.numbered_ne_label _ _ i hi.symm
    · exact Program.numbered_ne_picThunk _ _ (hmem_thunk _ hs')

/-- A generated listing defines no symbol twice when no global variable has a name of
the other three schemes. -/
theorem WellFormed.nodup_definedSymbols {types : Table} {doc : Document}
    (h : doc.WellFormed types) {o : Options} {l : Asm.Listing}
    (hl : (doc.frozenProgram types).listing o = .ok l)
    (hnames : ∀ i ∈ doc.items, i.kind = "var" →
      i.name ∉ (numbered doc.staticVars).map Prod.fst ∧
      i.name ∉ (List.range doc.texts.length).map Literals.label ∧
      (o.feature .pic → i.name ≠ Program.picThunk)) :
    l.definedSymbols.Nodup := by
  have hglobals : ((doc.items.filter (·.kind = "var")).map (·.name)).Nodup :=
    h.distinct.sublist (List.filter_sublist.map _)
  rw [(h.perm_definedSymbols hl).nodup_iff, definedVariables, List.map_append, List.map_map,
    List.append_assoc, List.append_assoc, List.nodup_append]
  refine ⟨hglobals, h.nodup_generated o, ?_⟩
  rintro _ hs s hs' rfl
  obtain ⟨i, hi, rfl⟩ := List.mem_map.mp hs
  obtain ⟨hi, hkind⟩ := List.mem_filter.mp hi
  obtain ⟨hstatic, hlabel, hthunk⟩ := hnames i hi (by simpa using hkind)
  rcases List.mem_append.mp hs' with hs' | hs'
  · exact hstatic hs'
  · rcases List.mem_append.mp hs' with hs' | hs'
    · exact hlabel hs'
    · unfold thunkSymbols at hs'
      split at hs'
      · next hpic => exact hthunk hpic (by simpa using hs')
      · simp at hs'

/-- A listing defines a symbol twice exactly when a global variable has the name
of a numbered static local, of a literal, or of the helper. -/
theorem definedSymbols_nodup_iff {types : Table} {doc : Document} {p : Program Site}
    {o : Options} {l : Asm.Listing} (h : doc.load types = .ok p)
    (hl : (p.generate o).result = .ok l) :
    l.definedSymbols.Nodup ↔ ∀ i ∈ doc.items, i.kind = "var" →
      i.name ∉ (numbered doc.staticVars).map Prod.fst ∧
      i.name ∉ (List.range doc.texts.length).map Literals.label ∧
      (o.feature .pic → i.name ≠ Program.picThunk) := by
  obtain ⟨hdoc, rfl⟩ := (load_accepts types doc p).mp h
  have hl := listing_of_generate hl
  refine ⟨fun hnodup i hi hkind => ?_, hdoc.nodup_definedSymbols hl⟩
  rw [(hdoc.perm_definedSymbols hl).nodup_iff, definedVariables, List.map_append, List.map_map,
    List.append_assoc, List.append_assoc, List.nodup_append] at hnodup
  have hne := hnodup.2.2
  have hi' : i.name ∈ (doc.items.filter (·.kind = "var")).map (·.name) :=
    List.mem_map_of_mem (List.mem_filter.mpr ⟨hi, by simpa using hkind⟩)
  refine ⟨fun hs => hne _ hi' _ (by simp [hs]) rfl, fun hs => ?_, fun hpic hs => ?_⟩
  · exact hne _ hi' _ (List.mem_append_right _ (List.mem_append_left _ hs)) rfl
  · exact hne _ hi' _ (by simp [thunkSymbols, hpic, hs]) rfl

/-- A document that can be loaded and generated has a listing. -/
theorem exists_listing {types : Table} {doc : Document} {o : Options}
    (hload : (doc.load types).isOk) (hgen : ((doc.program types).generate o).result.isOk) :
    doc.load types = .ok (doc.program types) ∧
      ∃ l, ((doc.program types).generate o).result = .ok l := by
  obtain ⟨p, hp⟩ := exists_eq_ok_of_isOk hload
  obtain ⟨-, rfl⟩ := (load_accepts types doc p).mp hp
  exact ⟨hp, exists_eq_ok_of_isOk hgen⟩

theorem definedSymbols_nodup_iff_sample : ∃ p l,
    sample.load { pointerSize := 4 } = .ok p ∧ (p.generate {}).result = .ok l ∧
      l.definedSymbols.Nodup := by
  obtain ⟨hp, l, hl⟩ := @exists_listing { pointerSize := 4 } sample {} (by decide +kernel)
    (by decide +kernel)
  exact ⟨_, l, hp, hl, (definedSymbols_nodup_iff hp hl).mpr (by decide +kernel)⟩

/-- A global variable with the name of a numbered static local. -/
def clashing : Document where
  items := [
    { kind := "var", name := "n.0", type := "int" },
    { kind := "func", name := "f", type := "int",
      body := some { vars := [{ name := "n", type := "int", storage := "static" }] } }]

theorem definedSymbols_clashing : ∃ p l,
    clashing.load { pointerSize := 4 } = .ok p ∧ (p.generate {}).result = .ok l ∧
      ¬ l.definedSymbols.Nodup := by
  obtain ⟨hp, l, hl⟩ := @exists_listing { pointerSize := 4 } clashing {} (by decide +kernel)
    (by decide +kernel)
  have hdoc := ((load_accepts _ _ _).mp hp).1
  refine ⟨_, l, hp, hl, ?_⟩
  rw [(hdoc.perm_definedSymbols (listing_of_generate hl)).nodup_iff]
  decide +kernel

end Document

end Cflat
