import Cflat.Proofs.Assembler
import Cflat.Proofs.Symbols

/-!
# Objects in an image

What the lines of a generated listing do to the image of an assembler.  A symbol
that is fresh comes in at the end of the symbols, and the lines about it change
nothing but that last entry, so each group of lines adds one complete symbol.

* Images: runs of listings, and changes to a fresh or to the last symbol.
* Values: the directive of an initial value is read as the cells it stands for.
* Groups: the lines of a variable, of a literal, of a common symbol and of the
  helper each add one symbol.
-/

namespace Cflat

namespace Asm.Image

/-! ## Images -/

theorem run_append (m : Image) (l l' : Listing) :
    m.run (l ++ l') = (m.run l).bind fun m => m.run l' := by
  induction l generalizing m with
  | nil => rfl
  | cons e l ih =>
    rw [List.cons_append, run, run]
    simp only [Option.bind_eq_bind, Option.bind_assoc]
    simp only [ih]

theorem run_cons_of_step {m m' : Image} {e : Element} {s : Statement} {l : Listing}
    (hread : e.statement? = some s) (hstep : m.step s = some m') :
    m.run (e :: l) = m'.run l := by
  simp [run, hread, hstep]

theorem run_directive {m m' : Image} {d : Directive} {s : Statement} {l : Listing}
    (hread : readLine? d.render = some s) (hstep : m.step s = some m') :
    m.run (.directive d :: l) = m'.run l :=
  @run_cons_of_step m m' (.directive d) s l hread hstep

/-- Instructions leave the image as it is. -/
theorem run_code {l : Listing} (h : ∀ e ∈ l, e.statement? = some .code) (m : Image) :
    m.run l = some m := by
  induction l with
  | nil => rfl
  | cons e l ih =>
    rw [List.forall_mem_cons] at h
    rw [run_cons_of_step h.1 rfl, ih h.2]

/-- The image with one more symbol. -/
def add (m : Image) (x : Symbol) : Image :=
  { m with symbols := m.symbols ++ [x] }

/-- A symbol that the image does not know yet. -/
def Fresh (m : Image) (name : String) : Prop :=
  name ∉ m.symbols.map (·.name)

theorem modify_of_fresh {m : Image} {name : String} (h : m.Fresh name) (f : Symbol → Symbol) :
    m.modify name f = m.add (f { name }) := by
  have hany : m.symbols.any (·.name = name) = false := by
    rw [List.any_eq_false]
    intro s hs heq
    exact h (List.mem_map.mpr ⟨s, hs, by simpa using heq⟩)
  simp [modify, add, hany]

/-- A change to the last symbol. -/
theorem modify_add {m : Image} {x : Symbol} (h : m.Fresh x.name) (f : Symbol → Symbol) :
    (m.add x).modify x.name f = m.add (f x) := by
  have hkeep : m.symbols.map (fun s => if s.name = x.name then f s else s) = m.symbols := by
    refine (List.map_congr_left fun s hs => ?_).trans (List.map_id _)
    have hne : s.name ≠ x.name := fun heq => h (List.mem_map.mpr ⟨s, hs, heq⟩)
    simp [hne]
  simp [modify, add, hkeep]

theorem isDefined_of_fresh {m : Image} {name : String} (h : m.Fresh name) :
    m.isDefined name = false := by
  rw [isDefined, List.any_eq_false]
  intro s hs heq
  exact h (List.mem_map.mpr ⟨s, hs, by simp_all⟩)

theorem isDefined_add {m : Image} {x : Symbol} (h : m.Fresh x.name) (hx : x.definition = none) :
    (m.add x).isDefined x.name = false := by
  have hfresh := isDefined_of_fresh h
  rw [isDefined] at hfresh
  simp [isDefined, add, hfresh, hx]

theorem alignment?_of_mem {n : Int64} (h : n ∈ ([1, 2, 4, 8] : List Int64)) :
    alignment? n = some n.toInt.toNat := by
  simp only [List.mem_cons, List.not_mem_nil, or_false] at h
  rcases h with rfl | rfl | rfl | rfl <;> decide

/-- Data go to the symbol that was defined last. -/
theorem push_add {m : Image} {x : Symbol} (h : m.Fresh x.name) (hopened : m.opened = some x.name)
    (cells : List Cell) :
    (m.add x).push cells = (m.advance cells.length).add (x.append cells) := by
  have hopened' : (m.add x).opened = some x.name := hopened
  rw [push, hopened']
  exact @modify_add (m.advance cells.length) x h _

/-- The image after an object with the attributes of `x` at the end of the current
section. -/
def place (m : Image) (x : Symbol) (cells : List Cell) : Image :=
  { m.advance cells.length with opened := some x.name }.add
    { x with definition := some (.placed m.current (m.filled m.current) cells) }

/-- A label.  All that is known of the symbol before is `x`. -/
theorem step_label {m m₀ : Image} {x : Symbol} (hknown : ∀ f, m₀.modify x.name f = m.add (f x))
    (hundefined : m₀.isDefined x.name = false) (hcurrent : m₀.current = m.current)
    (hfilled : m₀.filled = m.filled) :
    m₀.step (.label x.name) =
      some ({ m with opened := some x.name }.add
        { x with definition := some (.placed m.current (m.filled m.current) []) }) := by
  rw [step, define?, hundefined]
  simp only [Bool.false_eq_true, if_false, hknown, hcurrent, hfilled, Option.bind_eq_bind,
    Option.bind_some]
  rfl

/-- A label and its data. -/
theorem run_label {m m₀ : Image} {x : Symbol} (hs : IsSymbol x.name) (h : m.Fresh x.name)
    (hknown : ∀ f, m₀.modify x.name f = m.add (f x)) (hundefined : m₀.isDefined x.name = false)
    (hcurrent : m₀.current = m.current) (hfilled : m₀.filled = m.filled)
    {value : Listing} {cells : List Cell}
    (hvalue : ∀ m : Image, m.run value = some (m.push cells)) :
    m₀.run (.label x.name :: value) = some (m.place x cells) := by
  rw [run_cons_of_step (statement?_label hs) (step_label hknown hundefined hcurrent hfilled),
    hvalue]
  exact congrArg some (@push_add { m with opened := some x.name }
    { x with definition := some (.placed m.current (m.filled m.current) []) } h rfl cells)

/-- The last lines of an object: its type, its size, its label and its data. -/
theorem run_object {m m₀ : Image} {x : Symbol} (hs : IsSymbol x.name) (h : m.Fresh x.name)
    (hknown : ∀ f, m₀.modify x.name f = m.add (f x)) (hx : x.definition = none)
    {type : String} (htype : ',' ∉ type.toList) {size : Int64} (hsize : 0 ≤ size.toInt)
    {value : Listing} {cells : List Cell}
    (hvalue : ∀ m : Image, m.run value = some (m.push cells)) :
    m₀.run (.directive (.symbolType x.name type) :: .directive (.size x.name size) ::
      .label x.name :: value) =
      some (m.place { x with type, size := some size.toInt.toNat } cells) := by
  have hnonneg : ¬ size < 0 := by
    rw [Int64.lt_iff_toInt_lt, Int64.toInt_zero]
    omega
  have hstep₁ : m₀.step (.symbolType x.name type) = some (m.add { x with type }) := by
    rw [step, hknown]
  have hstep₂ : (m.add { x with type }).step (.size x.name size) =
      some (m.add { x with type, size := some size.toInt.toNat }) := by
    rw [step, if_neg hnonneg]
    exact congrArg some (@modify_add m { x with type } h _)
  rw [run_directive (readLine?_symbolType hs htype) hstep₁,
    run_directive (readLine?_size hs size) hstep₂]
  exact @run_label m _ { x with type, size := some size.toInt.toNat } hs h (modify_add h)
    (isDefined_add h hx) rfl rfl value cells hvalue

end Asm.Image

/-! ## Values -/

namespace Program

open Asm (Listing Element Directive Cell Image Statement IsSymbol readLine? addressCells lowBytes)
open Scope (Entity Initializer)

theorem readLine?_of_numberDirective? {size n : Int64} {d : Directive}
    (h : numberDirective? size n = some d) :
    readLine? d.render = some (.number size.toInt.toNat n) := by
  have hmem := numberDirective?_eq_some_iff.mp h
  simp only [List.mem_cons, Prod.mk.injEq, List.not_mem_nil, or_false] at hmem
  rcases hmem with ⟨rfl, rfl⟩ | ⟨rfl, rfl⟩ | ⟨rfl, rfl⟩ | ⟨rfl, rfl⟩
  · exact Asm.readLine?_number ".byte\t" ".byte" (by decide)
      (by simp [Asm.directives, List.lookup_cons]) n
  · exact Asm.readLine?_number ".value\t" ".value" (by decide)
      (by simp [Asm.directives, List.lookup_cons]) n
  · exact Asm.readLine?_number ".long\t" ".long" (by decide)
      (by simp [Asm.directives, List.lookup_cons]) n
  · exact Asm.readLine?_number ".quad\t" ".quad" (by decide)
      (by simp [Asm.directives, List.lookup_cons]) n

theorem readLine?_of_addressDirective? {size : Int64} {s : String} {offset : Int64}
    {d : Directive} (hs : IsSymbol s)
    (h : addressDirective? size (Asm.Operand.direct s offset).render = some d) :
    readLine? d.render = some (.address size.toInt.toNat s offset) := by
  have hmem := addressDirective?_eq_some_iff.mp h
  simp only [List.mem_cons, Prod.mk.injEq, List.not_mem_nil, or_false] at hmem
  rcases hmem with ⟨rfl, rfl⟩ | ⟨rfl, rfl⟩
  · exact Asm.readLine?_address ".long\t" ".long" (by decide)
      (by simp [Asm.directives, List.lookup_cons]) hs offset
  · exact Asm.readLine?_address ".quad\t" ".quad" (by decide)
      (by simp [Asm.directives, List.lookup_cons]) hs offset

theorem isSymbolChar_of_mem_toDigits {c : Char} {k : Nat} (h : c ∈ Nat.toDigits 10 k) :
    Asm.isSymbolChar c :=
  Asm.isSymbolChar_of_isDigit (Nat.isDigit_of_mem_toDigits (by decide) (by decide) h)

theorem Literals.isSymbol_label (i : Nat) : IsSymbol (Literals.label i) := by
  refine Asm.isSymbol_of_cons (Literals.toList_label i) (by decide) (by decide) ?_
  simp only [List.forall_mem_cons]
  exact ⟨by decide, by decide, fun c hc => isSymbolChar_of_mem_toDigits hc⟩

theorem isSymbol_picThunk : IsSymbol picThunk := by
  have hlist : picThunk.toList = '_' :: picThunk.toList.tail := by decide
  have htail : picThunk.toList.tail.all Asm.isSymbolChar := by decide
  exact Asm.isSymbol_of_cons hlist (by decide) (by decide) (List.all_eq_true.mp htail)

theorem isSymbol_numbered {name : String} (h : Asm.IsIdentifier name) (k : Nat) :
    IsSymbol s!"{name}.{k}" := by
  obtain ⟨c, cs, hlist, hc, hdigit, hcs⟩ := h.exists_cons
  have htext := toList_numbered name k
  rw [hlist, List.cons_append] at htext
  refine Asm.isSymbol_of_cons htext hc hdigit fun d hd => ?_
  rw [List.mem_append, List.mem_cons] at hd
  rcases hd with hd | rfl | hd
  · exact hcs d hd
  · decide
  · exact isSymbolChar_of_mem_toDigits hd

variable {ι : Type} [DecidableEq ι]

/-- The data that an initial value stands for. -/
def storedCells (p : Program ι) (lits : Literals) (type : Ty) (init : Initializer ι) : List Cell :=
  match init.value with
  | .int n => (lowBytes type.size.toInt.toNat n.toInt).map .byte
  | .string s => addressCells p.types.pointerSize.toInt.toNat (Literals.label (lits.idxOf s)) 0
  | .address _ offset => addressCells p.types.pointerSize.toInt.toNat (p.scope.label init) offset
  | .other _ => []

/-- The directive of an initial value stores these data. -/
theorem run_value {p : Program ι} {lits : Literals} {type : Ty} {init : Initializer ι}
    {d : Directive} (hd : p.value? lits type init = some d)
    (hlabel : ∀ name offset, init.value = .address name offset → IsSymbol (p.scope.label init))
    (m : Image) :
    m.run [.directive d] = some (m.push (p.storedCells lits type init)) := by
  rcases value?_cases hd with ⟨n, hvalue, -, hd⟩ | ⟨s, hvalue, -, hd⟩ |
    ⟨name, offset, hvalue, -, hd⟩
  · simp only [storedCells, hvalue]
    exact Image.run_directive (readLine?_of_numberDirective? hd) rfl
  · have hrender : (Asm.Operand.direct (Literals.label (lits.idxOf s)) 0).render =
        Literals.label (lits.idxOf s) := Asm.render_direct_zero _
    rw [← hrender] at hd
    simp only [storedCells, hvalue]
    exact Image.run_directive (readLine?_of_addressDirective? (Literals.isSymbol_label _) hd) rfl
  · simp only [storedCells, hvalue]
    exact Image.run_directive (readLine?_of_addressDirective? (hlabel name offset hvalue) hd) rfl

/-! ## Groups -/

theorem run_remark (m : Image) (o : Options) (text : String) {indent : Int}
    (hindent : 2 * indent ≤ Element.addressableBytes) :
    m.run (remark o text indent) = some m := by
  unfold remark
  split
  · rw [Image.run_cons_of_step (Asm.statement?_comment hindent) rfl]
    rfl
  · rfl

/-- What the lines of a variable say of its symbol. -/
def objectSymbol (p : Program ι) (v : Entity ι) (type : Ty) : Asm.Symbol where
  name := p.scope.symbol v
  isGlobal := !v.isPrivate
  type := "@object"
  size := some type.size.toInt.toNat

theorem run_variableLines {p : Program ι} {o : Options} {lits : Literals} {v : Entity ι}
    {type : Ty} {init : Initializer ι} (htype : v.type = some type) (hinit : v.init = some init)
    (hvalue : (p.value? lits type init).isSome) (hs : IsSymbol (p.scope.symbol v))
    (hlabel : ∀ name offset, init.value = .address name offset → IsSymbol (p.scope.label init))
    (halign : type.alignment ∈ ([1, 2, 4, 8] : List Int64)) (hsize : 0 ≤ type.size.toInt)
    {m : Image} (hfresh : m.Fresh (p.scope.symbol v)) :
    m.run (p.variableLines o lits v) =
      some ((m.pad type.alignment.toInt.toNat).place (p.objectSymbol v type)
        (p.storedCells lits type init)) := by
  obtain ⟨d, hd⟩ := Option.isSome_iff_exists.mp hvalue
  have hpad (m : Image) : m.step (.align type.alignment) =
      some (m.pad type.alignment.toInt.toNat) := by
    rw [Image.step, Image.alignment?_of_mem halign, Option.map_some]
  have hlines : p.variableLines o lits v =
      remark o s!"{type.spelling} {v.name} ({v.storage.text})" 1 ++
        ((if v.isPrivate then [] else [.directive (.globalSymbol (p.scope.symbol v))]) ++
          .directive (.align type.alignment) ::
            .directive (.symbolType (p.scope.symbol v) "@object") ::
            .directive (.size (p.scope.symbol v) type.size) :: .label (p.scope.symbol v) ::
            [.directive d]) := by
    simp [variableLines, htype, hinit, hd]
  rw [hlines, Image.run_append, run_remark _ _ _ (by decide), Option.bind_some, objectSymbol]
  cases v.isPrivate with
  | true =>
    have hobject := @Image.run_object (m.pad type.alignment.toInt.toNat)
      (m.pad type.alignment.toInt.toNat) { name := p.scope.symbol v } hs hfresh
      (Image.modify_of_fresh hfresh) rfl "@object" (by decide) type.size hsize [.directive d] _
      (run_value hd hlabel)
    rw [if_pos rfl, List.nil_append, Image.run_directive (Asm.readLine?_align _) (hpad m)]
    exact hobject
  | false =>
    have hobject := @Image.run_object (m.pad type.alignment.toInt.toNat)
      ((m.pad type.alignment.toInt.toNat).add { name := p.scope.symbol v, isGlobal := true })
      { name := p.scope.symbol v, isGlobal := true } hs hfresh
      (Image.modify_add hfresh) rfl "@object" (by decide) type.size hsize [.directive d] _
      (run_value hd hlabel)
    have hglobal : m.step (.globalSymbol (p.scope.symbol v)) =
        some (m.add { name := p.scope.symbol v, isGlobal := true }) :=
      congrArg some (Image.modify_of_fresh hfresh _)
    rw [if_neg (by decide), List.singleton_append,
      Image.run_directive (Asm.readLine?_globalSymbol hs) hglobal,
      Image.run_directive (Asm.readLine?_align _) (hpad _)]
    exact hobject

/-- The bytes of a literal, with the zero byte that ends it. -/
def literalCells (s : String) : List Cell :=
  (s.toUTF8.toList ++ [0]).map .byte

theorem run_literal (s : String) {name : String} (hs : IsSymbol name) {m : Image}
    (hfresh : m.Fresh name) :
    m.run [.label name, .directive (.string s)] = some (m.place { name } (literalCells s)) :=
  @Image.run_label m m { name } hs hfresh (Image.modify_of_fresh hfresh)
    (Image.isDefined_of_fresh hfresh) rfl rfl _ _
    fun _ => Image.run_directive (Asm.readLine?_string s) rfl

/-- What the lines of a common symbol say of it. -/
def commonSymbol (p : Program ι) (v : Entity ι) (type : Ty) : Asm.Symbol where
  name := p.scope.symbol v
  isLocal := v.isPrivate
  definition := some (.common type.size.toInt.toNat type.alignment.toInt.toNat)

theorem run_commonLines {p : Program ι} {v : Entity ι} {type : Ty} (htype : v.type = some type)
    (hs : IsSymbol (p.scope.symbol v))
    (halign : type.alignment ∈ ([1, 2, 4, 8] : List Int64)) (hsize : 0 ≤ type.size.toInt)
    {m : Image} (hfresh : m.Fresh (p.scope.symbol v)) :
    m.run (p.commonLines v) = some (m.add (p.commonSymbol v type)) := by
  have hnonneg : ¬ type.size < 0 := by
    rw [Int64.lt_iff_toInt_lt, Int64.toInt_zero]
    omega
  have hcommon (m : Image) : m.step (.common (p.scope.symbol v) type.size type.alignment) =
      m.define? (p.scope.symbol v)
        (.common type.size.toInt.toNat type.alignment.toInt.toNat) := by
    rw [Image.step, Image.alignment?_of_mem halign]
    simp [hnonneg]
  simp only [commonLines, htype, commonSymbol]
  cases v.isPrivate with
  | true =>
    have hlocal : m.step (.localSymbol (p.scope.symbol v)) =
        some (m.add { name := p.scope.symbol v, isLocal := true }) :=
      congrArg some (Image.modify_of_fresh hfresh _)
    have hdefine := hcommon (m.add { name := p.scope.symbol v, isLocal := true })
    rw [Image.define?, @Image.isDefined_add m { name := p.scope.symbol v, isLocal := true } hfresh
      rfl, if_neg (by decide),
      @Image.modify_add m { name := p.scope.symbol v, isLocal := true } hfresh] at hdefine
    rw [if_pos rfl, List.singleton_append,
      Image.run_directive (Asm.readLine?_localSymbol hs) hlocal,
      Image.run_directive (Asm.readLine?_common hs _ _) hdefine]
    rfl
  | false =>
    have hdefine := hcommon m
    rw [Image.define?, Image.isDefined_of_fresh hfresh, if_neg (by decide),
      Image.modify_of_fresh hfresh] at hdefine
    rw [if_neg (by decide), List.nil_append,
      Image.run_directive (Asm.readLine?_common hs _ _) hdefine]
    rfl

/-- What is known of the helper for position-independent code. -/
def thunkSymbol (offset : Nat) : Asm.Symbol where
  name := picThunk
  isGlobal := true
  isHidden := true
  type := "@function"
  definition := some (.placed (".text." ++ picThunk) offset [])

theorem run_thunkLines {w : Int64} (hw : w = 2 ∨ w = 4) {m : Image} (hfresh : m.Fresh picThunk) :
    m.run (thunkLines w) =
      some ({ m.enter (".text." ++ picThunk) with opened := some picThunk }.add
        (thunkSymbol (m.filled (".text." ++ picThunk)))) := by
  have hgroup : readLine? (Directive.inGroup (".text." ++ picThunk) "\"axG\"" "@progbits" picThunk
      "comdat").render = some (.enter (".text." ++ picThunk)) := by decide
  generalize hm : m.enter (".text." ++ picThunk) = m₁
  have hfresh₁ : m₁.Fresh picThunk := hm ▸ hfresh
  have hglobal : m₁.step (.globalSymbol picThunk) =
      some (m₁.add { name := picThunk, isGlobal := true }) :=
    congrArg some (Image.modify_of_fresh hfresh₁ _)
  have hhidden : (m₁.add { name := picThunk, isGlobal := true }).step (.hidden picThunk) =
      some (m₁.add { name := picThunk, isGlobal := true, isHidden := true }) :=
    congrArg some (@Image.modify_add m₁ { name := picThunk, isGlobal := true } hfresh₁ _)
  have htype : (m₁.add { name := picThunk, isGlobal := true, isHidden := true }).step
      (.symbolType picThunk "@function") =
        some (m₁.add
          { name := picThunk, isGlobal := true, isHidden := true, type := "@function" }) :=
    congrArg some
      (@Image.modify_add m₁ { name := picThunk, isGlobal := true, isHidden := true } hfresh₁ _)
  have hlabel := @Image.step_label m₁ _
    { name := picThunk, isGlobal := true, isHidden := true, type := "@function" }
    (Image.modify_add hfresh₁) (Image.isDefined_add hfresh₁ rfl) rfl rfl
  have hs := isSymbol_picThunk
  have hcode : ∀ e ∈ (thunkLines w).drop 5, e.statement? = some .code := by
    rcases hw with rfl | rfl <;> decide
  have hlines : thunkLines w = .directive (.inGroup (".text." ++ picThunk) "\"axG\"" "@progbits"
      picThunk "comdat") :: .directive (.globalSymbol picThunk) ::
      .directive (.hidden picThunk) :: .directive (.symbolType picThunk "@function") ::
      .label picThunk :: (thunkLines w).drop 5 := rfl
  rw [hlines, Image.run_directive hgroup rfl, hm,
    Image.run_directive (Asm.readLine?_globalSymbol hs) hglobal,
    Image.run_directive (Asm.readLine?_hidden hs) hhidden,
    Image.run_directive (Asm.readLine?_symbolType hs (by decide)) htype,
    Image.run_cons_of_step (Asm.statement?_label hs) hlabel, Image.run_code hcode, ← hm]
  rfl

end Program

end Cflat
