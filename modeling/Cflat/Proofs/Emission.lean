import Cflat.Proofs.Generation
import Cflat.Proofs.Rendering

/-!
# What generation emits

The listing of a program as a plain function of the program and the options.
Generation threads the literals met so far through the variables; here every line
is stated with the literals of the whole program, and the threading is done with.

* Literals: interning a list of texts, and the position of a text that stays.
* Variables: `value?` and `variableLines`, and when a variable is `Storable`.
* The listing: `listing_eq_ok_iff` says when there is one and what is in it, and
  `render_of_generate` that it has a text.
-/

namespace Cflat

namespace Scope.Initializer

/-- The text a string initial value is made of. -/
def literal? {ι : Type} (init : Initializer ι) : Option String :=
  match init.value with
  | .string s => some s
  | _ => none

end Scope.Initializer

/-- Whether a directive puts bytes into its section. -/
def Asm.Directive.isData : Directive → Bool
  | byte _ | value _ | long _ | quad _ | longSymbol _ | quadSymbol _ | string _ => true
  | _ => false

namespace Program

open Asm (Listing Element Directive)
open Scope (Entity Initializer)

/-! ## Literals -/

namespace Literals

/-- The literals after some texts are used in turn. -/
def internAll (l : Literals) (texts : List String) : Literals :=
  texts.foldl (fun l s => (l.intern s).1) l

theorem intern_eq (l : Literals) (s : String) :
    l.intern s = if s ∈ l then (l, l.idxOf s) else (l ++ [s], l.length) := by
  rw [intern]
  split
  · next i hi =>
    obtain ⟨hlt, hidx⟩ := List.findIdx?_eq_some_iff_findIdx_eq.mp hi
    have hmem : s ∈ l := List.isSome_idxOf?.mp (by rw [hi]; rfl)
    rw [if_pos hmem, ← hidx]
    rfl
  · next hnone => rw [if_neg (List.idxOf?_eq_none_iff.mp hnone)]

/-- A new text is found where it was put. -/
theorem intern_snd (l : Literals) (s : String) : (l.intern s).2 = (l.intern s).1.idxOf s := by
  rw [intern_eq]
  split
  · rfl
  · next hs => simp [List.idxOf_append, hs]

theorem mem_intern (l : Literals) (s : String) : s ∈ (l.intern s).1 := by
  rw [intern_eq]
  split <;> simp_all

theorem isPrefix_intern (l : Literals) (s : String) : l <+: (l.intern s).1 := by
  rw [intern_eq]
  split
  · exact List.prefix_rfl
  · exact List.prefix_append l [s]

theorem internAll_cons (l : Literals) (s : String) (texts : List String) :
    l.internAll (s :: texts) = (l.intern s).1.internAll texts :=
  rfl

theorem internAll_append (l : Literals) (texts texts' : List String) :
    l.internAll (texts ++ texts') = (l.internAll texts).internAll texts' :=
  List.foldl_append

theorem isPrefix_internAll (l : Literals) (texts : List String) : l <+: l.internAll texts := by
  induction texts generalizing l with
  | nil => exact List.prefix_rfl
  | cons s texts ih => exact (l.isPrefix_intern s).trans (ih _)

theorem internAll_eq (l : Literals) (texts : List String) :
    l.internAll texts = l ++ (texts.filter (· ∉ l)).eraseDups := by
  induction texts generalizing l with
  | nil => simp [internAll]
  | cons s texts ih =>
    rw [internAll_cons, ih, intern_eq]
    by_cases hs : s ∈ l
    · simp [hs]
    · rw [if_neg hs, List.filter_cons_of_pos (by simpa using hs), List.eraseDups_cons,
        List.filter_filter, List.append_assoc, List.singleton_append]
      congr 3
      apply List.filter_congr
      intro x _
      by_cases hx : x = s <;> simp [hx]

end Literals

/-! ## Variables -/

theorem numberDirective?_eq_some_iff {size n : Int64} {d : Directive} :
    numberDirective? size n = some d ↔
      (size, d) ∈ [(1, Directive.byte n), (2, .value n), (4, .long n), (8, .quad n)] := by
  unfold numberDirective?
  grind

theorem addressDirective?_eq_some_iff {size : Int64} {expr : String} {d : Directive} :
    addressDirective? size expr = some d ↔
      (size, d) ∈ [(4, Directive.longSymbol expr), (8, .quadSymbol expr)] := by
  unfold addressDirective?
  grind

variable {ι : Type} [DecidableEq ι]

/-- The directive that stores an initial value, if one exists.  A string is stored
as the address of its literal among `lits`. -/
def value? (p : Program ι) (lits : Literals) (type : Ty) (init : Initializer ι) :
    Option Directive :=
  match init.value with
  | .int n => if type.isScalar then numberDirective? type.size n else none
  | .string s =>
    if type.isPointer then
      addressDirective? p.types.pointerSize (Literals.label (lits.idxOf s))
    else none
  | .address _ offset =>
    if type.isPointer || (type.isInteger && type.size = p.types.pointerSize) then
      addressDirective? p.types.pointerSize
        (Asm.Operand.direct (p.scope.label init) offset).render
    else none
  | .other _ => none

/-- The ways to store an initial value. -/
theorem value?_cases {p : Program ι} {lits : Literals} {type : Ty} {init : Initializer ι}
    {d : Directive} (h : p.value? lits type init = some d) :
    (∃ n, init.value = .int n ∧ type.isScalar ∧ numberDirective? type.size n = some d) ∨
    (∃ s, init.value = .string s ∧ type.isPointer ∧
      addressDirective? p.types.pointerSize (Literals.label (lits.idxOf s)) = some d) ∨
    (∃ name offset, init.value = .address name offset ∧
      (type.isPointer ∨ type.isInteger ∧ type.size = p.types.pointerSize) ∧
      addressDirective? p.types.pointerSize
        (Asm.Operand.direct (p.scope.label init) offset).render = some d) := by
  unfold value? at h
  cases hvalue : init.value with
  | int n =>
    simp only [hvalue, Option.ite_none_right_eq_some] at h
    exact .inl ⟨n, rfl, h⟩
  | string s =>
    simp only [hvalue, Option.ite_none_right_eq_some] at h
    exact .inr (.inl ⟨s, rfl, h⟩)
  | address name offset =>
    simp only [hvalue, Option.ite_none_right_eq_some, Bool.or_eq_true, Bool.and_eq_true,
      decide_eq_true_eq] at h
    exact .inr (.inr ⟨name, offset, rfl, h⟩)
  | other code => simp [hvalue] at h

theorem isData_of_addressDirective? {size : Int64} {expr : String} {d : Directive}
    (h : addressDirective? size expr = some d) : d.isData = true := by
  rw [addressDirective?_eq_some_iff] at h
  simp only [List.mem_cons, Prod.mk.injEq, List.not_mem_nil, or_false] at h
  rcases h with ⟨-, rfl⟩ | ⟨-, rfl⟩ <;> rfl

theorem isData_of_value? {p : Program ι} {lits : Literals} {type : Ty} {init : Initializer ι}
    {d : Directive} (h : p.value? lits type init = some d) : d.isData = true := by
  rcases value?_cases h with ⟨n, -, -, hd⟩ | ⟨s, -, -, hd⟩ | ⟨name, offset, -, -, hd⟩
  · rw [numberDirective?_eq_some_iff] at hd
    simp only [List.mem_cons, Prod.mk.injEq, List.not_mem_nil, or_false] at hd
    rcases hd with ⟨-, rfl⟩ | ⟨-, rfl⟩ | ⟨-, rfl⟩ | ⟨-, rfl⟩ <;> rfl
  · exact isData_of_addressDirective? hd
  · exact isData_of_addressDirective? hd

/-- Literals that are added later do not change what is stored. -/
theorem value?_eq_of_isPrefix (p : Program ι) {lits lits' : Literals} (h : lits <+: lits')
    (type : Ty) {init : Initializer ι} (hlit : ∀ s ∈ init.literal?, s ∈ lits) :
    p.value? lits' type init = p.value? lits type init := by
  obtain ⟨rest, rfl⟩ := h
  unfold value?
  cases hvalue : init.value with
  | string s =>
    have hs : s ∈ lits := hlit s (by simp [Initializer.literal?, hvalue])
    simp only [List.idxOf_append, hs, if_true]
  | _ => rfl

/-- Whether a value can be stored does not depend on the literals. -/
theorem isSome_value? (p : Program ι) (lits lits' : Literals) (type : Ty) (init : Initializer ι) :
    (p.value? lits type init).isSome = (p.value? lits' type init).isSome := by
  have haddress (expr expr' : String) :
      (addressDirective? p.types.pointerSize expr).isSome =
        (addressDirective? p.types.pointerSize expr').isSome := by
    unfold addressDirective?
    split
    · rfl
    · split <;> rfl
  unfold value?
  split
  · rfl
  · split
    · exact haddress _ _
    · rfl
  · rfl
  · rfl

theorem stored_eq_ok_iff {fit : Bool} {err : GenerateError} {d : Option Directive}
    {file : String} {width : Int64} {lits lits' : Literals} {e : Element} :
    (if fit then (do let e ← stored d file width; return (e, lits)) else .error err) =
        Except.ok (e, lits') ↔
      lits' = lits ∧ ∃ d', (if fit then d else none) = some d' ∧ e = .directive d' := by
  cases fit with
  | false => simp
  | true =>
    simp only [if_true, bind_eq_ok_iff, pure_eq_ok_iff, Prod.mk.injEq]
    cases d with
    | none => simp [stored]
    | some d => grind [stored]

/-- The stored value of a variable, with the literals after it. -/
theorem valueElement_eq_ok_iff {p : Program ι} {symbol : String} {type : Ty}
    {init : Initializer ι} {lits lits' : Literals} {e : Element} :
    p.valueElement symbol type init lits = .ok (e, lits') ↔
      lits' = lits.internAll init.literal?.toList ∧
        ∃ d, p.value? lits' type init = some d ∧ e = .directive d := by
  unfold valueElement value? Initializer.literal?
  cases init.value with
  | int n => exact stored_eq_ok_iff
  | string s =>
    dsimp only
    rw [Literals.intern_snd, stored_eq_ok_iff]
    constructor
    · intro h
      obtain ⟨rfl, hd⟩ := h
      exact ⟨rfl, hd⟩
    · intro h
      obtain ⟨rfl, hd⟩ := h
      exact ⟨rfl, hd⟩
  | address name offset => exact stored_eq_ok_iff
  | other code => simp

/-- A variable whose initial value can be stored. -/
def Storable (p : Program ι) (v : Entity ι) : Prop :=
  ∃ type init, v.type = some type ∧ v.init = some init ∧ (p.value? [] type init).isSome

/-- The text a variable starts with. -/
def literalOf? (v : Entity ι) : Option String :=
  v.init.bind (·.literal?)

/-- The lines of a variable in the data section. -/
def variableLines (p : Program ι) (o : Options) (lits : Literals) (v : Entity ι) : Listing :=
  match v.type, v.init with
  | some type, some init =>
    let symbol := p.scope.symbol v
    remark o s!"{type.spelling} {v.name} ({v.storage.text})" 1 ++
      (if v.isPrivate then [] else [.directive (.globalSymbol symbol)]) ++
      [.directive (.align type.alignment), .directive (.symbolType symbol "@object"),
        .directive (.size symbol type.size), .label symbol] ++
      ((p.value? lits type init).map .directive).toList
  | _, _ => []

theorem variableElements_eq_ok_iff {p : Program ι} {o : Options} {v : Entity ι}
    {lits lits' : Literals} {l : Listing} :
    p.variableElements o v lits = .ok (l, lits') ↔
      p.Storable v ∧ lits' = lits.internAll (literalOf? v).toList ∧
        l = p.variableLines o lits' v := by
  unfold variableElements Storable literalOf? variableLines
  cases v.type with
  | none => simp
  | some type =>
    cases v.init with
    | none => simp
    | some init =>
      simp only [bind_eq_ok_iff, pure_eq_ok_iff, Prod.exists, valueElement_eq_ok_iff,
        Prod.mk.injEq, Option.some.injEq, exists_and_left, exists_eq_left']
      rw [p.isSome_value? [] (lits.internAll init.literal?.toList)]
      constructor
      · intro h
        obtain ⟨_, _, ⟨rfl, d, hd, rfl⟩, rfl, rfl⟩ := h
        simp [hd]
      · intro h
        obtain ⟨hsome, rfl, rfl⟩ := h
        obtain ⟨d, hd⟩ := Option.isSome_iff_exists.mp hsome
        exact ⟨_, _, ⟨rfl, d, hd, rfl⟩, by simp [hd]⟩

theorem variableLines_eq_of_isPrefix (p : Program ι) (o : Options) {lits lits' : Literals}
    (h : lits <+: lits') {v : Entity ι} (hlit : ∀ s ∈ literalOf? v, s ∈ lits) :
    p.variableLines o lits' v = p.variableLines o lits v := by
  unfold variableLines
  cases v.type with
  | none => rfl
  | some type =>
    cases hinit : v.init with
    | none => rfl
    | some init =>
      dsimp only
      rw [p.value?_eq_of_isPrefix h type fun s hs => hlit s (by simpa [literalOf?, hinit] using hs)]

/-- The texts of a list of variables, in order of use. -/
def texts (vars : List (Entity ι)) : List String :=
  vars.filterMap literalOf?

theorem variableListElements_eq_ok_iff {p : Program ι} {o : Options} {vars : List (Entity ι)}
    {lits lits' : Literals} {l : Listing} :
    p.variableListElements o vars lits = .ok (l, lits') ↔
      (∀ v ∈ vars, p.Storable v) ∧ lits' = lits.internAll (texts vars) ∧
        l = vars.flatMap (p.variableLines o lits') := by
  induction vars generalizing lits lits' l with
  | nil =>
    simp only [variableListElements, texts, Literals.internAll]
    grind
  | cons v vars ih =>
    have htexts : texts (v :: vars) = (literalOf? v).toList ++ texts vars := by
      cases hv : literalOf? v <;> simp [texts, hv]
    have hfirst : p.variableLines o (lits.internAll (texts (v :: vars))) v =
        p.variableLines o (lits.internAll (literalOf? v).toList) v := by
      rw [htexts, Literals.internAll_append]
      refine p.variableLines_eq_of_isPrefix o (Literals.isPrefix_internAll _ _) fun s hs => ?_
      rw [Option.mem_def.mp hs]
      exact Literals.mem_intern lits s
    simp only [variableListElements, bind_eq_ok_iff, pure_eq_ok_iff, Prod.exists, Prod.mk.injEq,
      variableElements_eq_ok_iff, ih, List.forall_mem_cons, List.flatMap_cons]
    rw [htexts, Literals.internAll_append] at *
    constructor
    · intro h
      obtain ⟨_, _, ⟨hv, rfl, rfl⟩, _, _, ⟨hvars, rfl, rfl⟩, rfl, rfl⟩ := h
      exact ⟨⟨hv, hvars⟩, rfl, by rw [hfirst]⟩
    · intro h
      obtain ⟨⟨hv, hvars⟩, rfl, rfl⟩ := h
      exact ⟨_, _, ⟨hv, rfl, rfl⟩, _, _, ⟨hvars, rfl, rfl⟩, by rw [hfirst], rfl⟩

/-! ## The listing -/

/-- The literals of a program, in order of first use. -/
def literals (p : Program ι) : Literals :=
  (texts p.scope.classes.initialized).eraseDups

omit [DecidableEq ι] in
theorem internAll_texts_initialized (p : Program ι) :
    Literals.internAll [] (texts p.scope.classes.initialized) = p.literals := by
  rw [Literals.internAll_eq, List.filter_eq_self.mpr (by simp)]
  rfl

omit [DecidableEq ι] in
theorem mem_literals {p : Program ι} {v : Entity ι} (hv : v ∈ p.scope.classes.initialized)
    {init : Initializer ι} (hinit : v.init = some init) {s : String}
    (hs : init.value = .string s) : s ∈ p.literals := by
  rw [literals, List.mem_eraseDups, texts, List.mem_filterMap]
  exact ⟨v, hv, by simp [literalOf?, hinit, Initializer.literal?, hs]⟩

/-- The data section of a program. -/
def dataLines (p : Program ι) (o : Options) : Listing :=
  let vars := p.scope.classes.initialized
  if vars.isEmpty then []
  else .directive .data :: remark o "initialized data" 0 ++
    vars.flatMap (p.variableLines o p.literals)

theorem dataSection_eq_ok_iff {p : Program ι} {o : Options} {l : Listing} {lits : Literals} :
    p.dataSection o = .ok (l, lits) ↔
      (∀ v ∈ p.scope.classes.initialized, p.Storable v) ∧ lits = p.literals ∧
        l = p.dataLines o := by
  simp only [dataSection, dataLines, bind_eq_ok_iff, Prod.exists, variableListElements_eq_ok_iff,
    internAll_texts_initialized]
  cases hvars : p.scope.classes.initialized with
  | nil =>
    have hnone : p.literals = [] := by rw [literals, hvars]; rfl
    simp [hnone, pure_eq_ok_iff, and_comm]
  | cons v vars =>
    simp only [List.isEmpty_cons, Bool.false_eq_true, if_false, pure_eq_ok_iff, Prod.mk.injEq]
    grind

/-- The lines of a common symbol. -/
def commonLines (p : Program ι) (v : Entity ι) : Listing :=
  match v.type with
  | some type =>
    let symbol := p.scope.symbol v
    (if v.isPrivate then [.directive (.localSymbol symbol)] else []) ++
      [.directive (.common symbol type.size type.alignment)]
  | none => []

theorem commonElements_accepts (p : Program ι) :
    Accepts p.commonElements (fun v => v.type.isSome) p.commonLines := by
  intro v l
  unfold commonElements commonLines
  cases htype : v.type with
  | none => simp [htype]
  | some type =>
    simp only [htype, Except.ok.injEq, Option.isSome_some, true_and]
    exact eq_comm

theorem commonSymbols_eq_ok_iff {p : Program ι} {o : Options} {l : Listing} :
    p.commonSymbols o = .ok l ↔
      (∀ v ∈ p.scope.classes.common, v.type.isSome) ∧
        l = (if p.scope.classes.common.isEmpty then [] else remark o "common symbols" 0) ++
          p.scope.classes.common.flatMap p.commonLines := by
  simp only [commonSymbols, bind_eq_ok_iff, pure_eq_ok_iff, p.commonElements_accepts.mapM _ _,
    List.flatMap_def]
  grind

/-- The helper, for two-byte and four-byte code. -/
def thunkLines (natural : Int64) : Listing :=
  let sp := if natural = 2 then "sp" else "esp"
  let bx := if natural = 2 then "bx" else "ebx"
  [.directive (.inGroup (".text." ++ picThunk) "\"axG\"" "@progbits" picThunk "comdat"),
    .directive (.globalSymbol picThunk), .directive (.hidden picThunk),
    .directive (.symbolType picThunk "@function"), .label picThunk,
    .instruction "mov" (if natural = 2 then "w" else "l") [.indirect ⟨sp⟩ 0, .register ⟨bx⟩],
    .instruction "ret" "" []]

/-- No width but two and four has a name for the stack pointer. -/
theorem thunkElements_eq (file : String) (natural : Int64) :
    thunkElements file natural =
      if natural = 2 ∨ natural = 4 then .ok (thunkLines natural)
      else .error (.width file ⟨natural, "%sp"⟩) := by
  split
  · next h => rcases h with rfl | rfl <;> rfl
  · next h =>
    obtain ⟨h2, h4⟩ := not_or.mp h
    have hsp : Asm.RegisterClass.sp.atWidth natural = .error ⟨natural, "%sp"⟩ := by
      unfold Asm.RegisterClass.atWidth
      simp only [h2, h4, if_false]
      split
      · next h1 => rw [h1]; rfl
      · rfl
    rw [thunkElements, thunkCode, hsp]
    rfl

theorem thunkElements_accepts (file : String) :
    Accepts (thunkElements file) (fun natural => natural = 2 ∨ natural = 4) thunkLines := by
  intro natural l
  rw [thunkElements_eq]
  split
  · next h => simp [h, eq_comm]
  · next h => simp [h]

omit [DecidableEq ι] in
theorem helper_eq_ok_iff {p : Program ι} {o : Options} {l : Listing} :
    p.helper o = .ok l ↔
      (o.feature .pic → o.wordSize = 2 ∨ o.wordSize = 4) ∧
        l = if o.feature .pic then thunkLines o.wordSize else [] := by
  rw [helper]
  cases o.feature .pic with
  | true => simpa using thunkElements_accepts p.file o.wordSize l
  | false => simp [eq_comm]

/-- The lines of a program whose tree is frozen. -/
def lines (p : Program ι) (o : Options) : Listing :=
  .directive (.file p.file) :: p.dataLines o ++ literalSection o p.literals ++
    ((if p.scope.classes.common.isEmpty then [] else remark o "common symbols" 0) ++
      p.scope.classes.common.flatMap p.commonLines) ++
    (if o.feature .pic then thunkLines o.wordSize else []) ++
    (if o.feature .gnuStack then [stackNote] else [])

/-- There is a listing exactly when each variable can be stored and the code has
two-byte or four-byte words wherever it needs them. -/
theorem listing_eq_ok_iff {p : Program ι} {o : Options} {l : Listing} :
    p.listing o = .ok l ↔
      (∀ v ∈ p.scope.classes.initialized, p.Storable v) ∧
      (∀ v ∈ p.scope.classes.common, v.type.isSome) ∧
      (o.feature .pic → o.wordSize = 2 ∨ o.wordSize = 4) ∧ l = p.lines o := by
  have hending {l : Listing} : p.ending o = .ok l ↔
      (∀ v ∈ p.scope.classes.common, v.type.isSome) ∧
        (o.feature .pic → o.wordSize = 2 ∨ o.wordSize = 4) ∧
        l = ((if p.scope.classes.common.isEmpty then [] else remark o "common symbols" 0) ++
          p.scope.classes.common.flatMap p.commonLines) ++
          (if o.feature .pic then thunkLines o.wordSize else []) ++ note o := by
    simp only [ending, bind_eq_ok_iff, commonSymbols_eq_ok_iff, helper_eq_ok_iff, pure_eq_ok_iff]
    constructor
    · intro h
      obtain ⟨_, ⟨hcommon, rfl⟩, _, ⟨hwidth, rfl⟩, rfl⟩ := h
      exact ⟨hcommon, hwidth, rfl⟩
    · intro h
      obtain ⟨hcommon, hwidth, rfl⟩ := h
      exact ⟨_, ⟨hcommon, rfl⟩, _, ⟨hwidth, rfl⟩, rfl⟩
  have hlines : .directive (.file p.file) :: (p.dataLines o ++ literalSection o p.literals ++
      (((if p.scope.classes.common.isEmpty then [] else remark o "common symbols" 0) ++
          p.scope.classes.common.flatMap p.commonLines) ++
          (if o.feature .pic then thunkLines o.wordSize else []) ++ note o)) = p.lines o := by
    simp only [lines, note, List.cons_append, List.append_assoc]
  simp only [listing, sections, bind_eq_ok_iff, Prod.exists, dataSection_eq_ok_iff, hending,
    pure_eq_ok_iff, Prod.mk.injEq]
  constructor
  · intro h
    obtain ⟨_, _, ⟨_, _, ⟨hvars, rfl, rfl⟩, _, ⟨hcommon, hwidth, rfl⟩, rfl, rfl⟩, rfl⟩ := h
    exact ⟨hvars, hcommon, hwidth, hlines⟩
  · intro h
    obtain ⟨hvars, hcommon, hwidth, rfl⟩ := h
    exact ⟨_, _, ⟨_, _, ⟨hvars, rfl, rfl⟩, _, ⟨hcommon, hwidth, rfl⟩, rfl, rfl⟩, hlines.symm⟩

/-! ## The text -/

theorem fits_remark (o : Options) (text : String) {indent : Int}
    (hindent : 2 * indent ≤ Element.addressableBytes) :
    ∀ e ∈ remark o text indent, e.Fits := by
  intro e he
  unfold remark at he
  split at he
  · rw [List.mem_singleton.mp he]
    exact hindent
  · cases he

theorem fits_variableLines (p : Program ι) (o : Options) (lits : Literals) (v : Entity ι) :
    ∀ e ∈ p.variableLines o lits v, e.Fits := by
  unfold variableLines
  split
  · next type init _ _ =>
    have hremark := fits_remark o s!"{type.spelling} {v.name} ({v.storage.text})"
      (by decide : 2 * 1 ≤ Element.addressableBytes)
    simp only [List.forall_mem_append]
    refine ⟨⟨⟨hremark, ?_⟩, by simp [Element.Fits]⟩, ?_⟩
    · cases v.isPrivate <;> simp [Element.Fits]
    · cases p.value? lits type init <;> simp [Element.Fits]
  · simp

theorem fits_dataLines (p : Program ι) (o : Options) : ∀ e ∈ p.dataLines o, e.Fits := by
  unfold dataLines
  dsimp only
  split
  · simp
  · simp only [List.forall_mem_append, List.forall_mem_cons, List.forall_mem_flatMap]
    exact ⟨⟨trivial, fits_remark o _ (by decide)⟩, fun v _ => p.fits_variableLines o _ v⟩

theorem fits_literalElements (i : Nat) (lits : Literals) :
    ∀ e ∈ literalElements i lits, e.Fits := by
  induction lits generalizing i with
  | nil => simp [literalElements]
  | cons s lits ih =>
    simp only [literalElements, List.forall_mem_cons]
    exact ⟨trivial, trivial, ih (i + 1)⟩

theorem fits_literalSection (o : Options) (lits : Literals) :
    ∀ e ∈ literalSection o lits, e.Fits := by
  unfold literalSection
  split
  · simp
  · simp only [List.forall_mem_append, List.forall_mem_cons]
    exact ⟨⟨trivial, fits_remark o _ (by decide)⟩, fits_literalElements 0 lits⟩

theorem fits_commonLines (p : Program ι) (v : Entity ι) : ∀ e ∈ p.commonLines v, e.Fits := by
  unfold commonLines
  split
  · cases v.isPrivate <;> simp [Element.Fits]
  · simp

/-- The comments of a program are indented once at most. -/
theorem fits_lines (p : Program ι) (o : Options) : ∀ e ∈ p.lines o, e.Fits := by
  have hremark : ∀ e ∈ if p.scope.classes.common.isEmpty then []
      else remark o "common symbols" 0, e.Fits := by
    split
    · simp
    · exact fits_remark o _ (by decide)
  have hthunk : ∀ e ∈ if o.feature .pic then thunkLines o.wordSize else [], e.Fits := by
    split <;> simp [thunkLines, Element.Fits]
  have hnote : ∀ e ∈ if o.feature .gnuStack then [stackNote] else [], e.Fits := by
    split <;> simp [stackNote, Element.Fits]
  simp only [lines, List.forall_mem_append, List.forall_mem_cons, List.forall_mem_flatMap]
  exact ⟨⟨⟨⟨⟨trivial, p.fits_dataLines o⟩, fits_literalSection o _⟩,
    hremark, fun v _ => p.fits_commonLines v⟩, hthunk⟩, hnote⟩

theorem fits_of_generate {p : Program ι} {o : Options} {l : Listing}
    (h : (p.generate o).result = .ok l) : ∀ e ∈ l, e.Fits := by
  rw [result_generate] at h
  obtain ⟨-, -, -, rfl⟩ := listing_eq_ok_iff.mp h
  exact p.frozen.fits_lines o

/-- A generated listing has a text. -/
theorem render_of_generate {p : Program ι} {o : Options} {l : Listing}
    (h : (p.generate o).result = .ok l) : l.render = .ok l.text :=
  Listing.render_of_fits (fits_of_generate h)

end Program

end Cflat
