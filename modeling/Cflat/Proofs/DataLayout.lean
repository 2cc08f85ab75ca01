import Cflat.Proofs.Objects
import Cflat.Proofs.Sizes
import Cflat.Proofs.Targets
import Mathlib.Data.List.Perm.Basic

/-!
# The layout of a generated listing

Reading a generated listing as an assembler does gives back the variables of the
program: one object each, with its size, alignment, visibility and initial value.

* Pointwise relations between two lists.
* Sections: the lines of several variables, literals or common symbols add one
  symbol each, in order.
* The listing: `assemble_lines` puts the sections together.
* Documents: the variables of a loaded document fulfil what the sections need, and
  `Realizes` says what an object owes to its variable.
-/

namespace Cflat

open Asm (Image IsSymbol Symbol Definition)
open Scope (Entity Initializer)

/-! ## Pointwise relations -/

theorem map_eq_of_forall₂ {α β γ : Type} {R : α → β → Prop} {f : α → γ} {g : β → γ}
    (hR : ∀ a b, R a b → g b = f a) {l : List α} {l' : List β} (h : List.Forall₂ R l l') :
    l'.map g = l.map f := by
  induction h with
  | nil => rfl
  | cons hab _ ih => rw [List.map_cons, List.map_cons, hR _ _ hab, ih]

theorem exists_mem_of_forall₂ {α β : Type} {R : α → β → Prop} {l : List α} {l' : List β}
    (h : List.Forall₂ R l l') {a : α} (ha : a ∈ l) : ∃ b ∈ l', R a b := by
  induction h with
  | nil => simp at ha
  | @cons a' b l l' hab _ ih =>
    rcases List.mem_cons.mp ha with rfl | ha
    · exact ⟨b, List.mem_cons_self, hab⟩
    · obtain ⟨b', hb', hR⟩ := ih ha
      exact ⟨b', List.mem_cons_of_mem _ hb', hR⟩

/-! ## Sections -/

namespace Asm.Image

/-- `m'` has the symbols of `m` and then `xs`, and no section is aligned less. -/
structure Extends (m m' : Image) (xs : List Symbol) : Prop where
  symbols : m'.symbols = m.symbols ++ xs
  alignment : ∀ place, m.alignment place ∣ m'.alignment place

theorem Extends.refl (m : Image) : m.Extends m [] :=
  ⟨(List.append_nil _).symm, fun _ => Nat.dvd_refl _⟩

theorem Extends.trans {m m' m'' : Image} {xs ys : List Symbol} (h : m.Extends m' xs)
    (h' : m'.Extends m'' ys) : m.Extends m'' (xs ++ ys) where
  symbols := by rw [h'.symbols, h.symbols, List.append_assoc]
  alignment place := Nat.dvd_trans (h.alignment place) (h'.alignment place)

theorem extends_add (m : Image) (x : Symbol) : m.Extends (m.add x) [x] :=
  ⟨rfl, fun _ => Nat.dvd_refl _⟩

theorem extends_enter (m : Image) (name : String) : m.Extends (m.enter name) [] :=
  ⟨(List.append_nil _).symm, fun _ => Nat.dvd_refl _⟩

theorem extends_place (m : Image) (x : Symbol) (cells : List Cell) :
    m.Extends (m.place x cells)
      [{ x with definition := some (.placed m.current (m.filled m.current) cells) }] :=
  ⟨rfl, fun _ => Nat.dvd_refl _⟩

theorem extends_pad (m : Image) (n : Nat) : m.Extends (m.pad n) [] := by
  refine ⟨(List.append_nil _).symm, fun place => ?_⟩
  simp only [pad]
  split
  · exact Nat.dvd_lcm_left _ _
  · exact Nat.dvd_refl _

theorem fresh_of_nodup {m : Image} {name : String} {names : List String}
    (h : (m.symbols.map (·.name) ++ name :: names).Nodup) : m.Fresh name := by
  intro hmem
  rw [List.nodup_append] at h
  exact h.2.2 name hmem name List.mem_cons_self rfl

/-- Padding reaches a multiple of the alignment. -/
theorem dvd_filled_pad (m : Image) (n : Nat) : n ∣ (m.pad n).filled m.current := by
  simp only [pad, if_true]
  exact Nat.dvd_mul_left _ _

theorem dvd_alignment_pad (m : Image) (n : Nat) : n ∣ (m.pad n).alignment m.current := by
  simp [pad, Nat.dvd_lcm_right]

end Asm.Image

namespace Program

variable {ι : Type} [DecidableEq ι]

/-- What an assembler needs to accept the lines of a variable. -/
structure Layable (p : Program ι) (v : Entity ι) : Prop where
  symbol : IsSymbol (p.scope.symbol v)
  alignment : ∀ type ∈ v.type, type.alignment ∈ ([1, 2, 4, 8] : List Int64)
  size : ∀ type ∈ v.type, 0 ≤ type.size.toInt
  label : ∀ init ∈ v.init, ∀ name offset, init.value = .address name offset →
    IsSymbol (p.scope.label init)

/-- `x` is the symbol of the variable `v` in the section `place`, which has the
alignment `a`. -/
def IsObject (p : Program ι) (lits : Literals) (place : String) (a : Nat) (v : Entity ι)
    (x : Symbol) : Prop :=
  ∃ type init offset, v.type = some type ∧ v.init = some init ∧
    type.alignment.toInt.toNat ∣ offset ∧ type.alignment.toInt.toNat ∣ a ∧
    x = { p.objectSymbol v type with
      definition := some (.placed place offset (p.storedCells lits type init)) }

theorem IsObject.mono {p : Program ι} {lits : Literals} {place : String} {a a' : Nat}
    (ha : a ∣ a') {v : Entity ι} {x : Symbol} (h : p.IsObject lits place a v x) :
    p.IsObject lits place a' v x := by
  obtain ⟨type, init, offset, htype, hinit, hoffset, halign, hx⟩ := h
  exact ⟨type, init, offset, htype, hinit, hoffset, Nat.dvd_trans halign ha, hx⟩

theorem map_name_of_isObject {p : Program ι} {lits : Literals} {place : String} {a : Nat}
    {vars : List (Entity ι)} {xs : List Symbol}
    (h : List.Forall₂ (p.IsObject lits place a) vars xs) :
    xs.map (·.name) = vars.map p.scope.symbol := by
  refine map_eq_of_forall₂ (fun v x hx => ?_) h
  obtain ⟨type, init, offset, -, -, -, -, rfl⟩ := hx
  rfl

/-- The lines of the initialized variables. -/
theorem run_variables {p : Program ι} {o : Options} {lits : Literals} {vars : List (Entity ι)}
    (hstorable : ∀ v ∈ vars, p.Storable v) (hvars : ∀ v ∈ vars, p.Layable v) {m : Image}
    (hnodup : (m.symbols.map (·.name) ++ vars.map p.scope.symbol).Nodup) :
    ∃ m' xs, m.run (vars.flatMap (p.variableLines o lits)) = some m' ∧ m.Extends m' xs ∧
      m'.current = m.current ∧
      List.Forall₂ (p.IsObject lits m.current (m'.alignment m.current)) vars xs := by
  induction vars generalizing m with
  | nil => exact ⟨m, [], rfl, .refl m, rfl, .nil⟩
  | cons v vars ih =>
    obtain ⟨hv, hrest⟩ := List.forall_mem_cons.mp hvars
    obtain ⟨⟨type, init, htype, hinit, hvalue⟩, hstorable'⟩ := List.forall_mem_cons.mp hstorable
    rw [p.isSome_value? [] lits] at hvalue
    have hfresh : m.Fresh (p.scope.symbol v) := Image.fresh_of_nodup hnodup
    have hrun := run_variableLines (o := o) htype hinit hvalue hv.symbol (hv.label init hinit)
      (hv.alignment type htype) (hv.size type htype) hfresh
    generalize hm₁ : (m.pad type.alignment.toInt.toNat).place (p.objectSymbol v type)
      (p.storedCells lits type init) = m₁ at hrun
    have hextends := ((m.extends_pad type.alignment.toInt.toNat).trans
      (Image.extends_place _ (p.objectSymbol v type) (p.storedCells lits type init)))
    rw [hm₁] at hextends
    have hcurrent : m₁.current = m.current := by
      rw [← hm₁]
      rfl
    obtain ⟨m', xs, hrun', hextends', hcurrent', hobjects⟩ := @ih hstorable' hrest m₁ (by
      rw [hextends.symbols]
      simpa [objectSymbol] using hnodup)
    rw [hcurrent] at hcurrent' hobjects
    refine ⟨m', _, ?_, hextends.trans hextends', hcurrent', .cons ?_ hobjects⟩
    · rw [List.flatMap_cons, Image.run_append, hrun, Option.bind_some, hrun']
    · refine ⟨type, init, _, htype, hinit, m.dvd_filled_pad _, ?_, rfl⟩
      refine Nat.dvd_trans (m.dvd_alignment_pad _) ?_
      have hpad := hextends'.alignment m.current
      rwa [← hm₁] at hpad

/-- The symbol of a literal among its place in the section. -/
def IsLiteral (place : String) (s : String × Nat) (x : Symbol) : Prop :=
  ∃ offset, x =
    { name := Literals.label s.2
      definition := some (.placed place offset (literalCells s.1)) }

theorem map_name_of_isLiteral {place : String} {lits : Literals} {xs : List Symbol}
    (h : List.Forall₂ (IsLiteral place) lits.zipIdx xs) :
    xs.map (·.name) = (List.range lits.length).map Literals.label := by
  have hlabels : xs.map (·.name) = lits.zipIdx.map (Literals.label ·.2) := by
    refine map_eq_of_forall₂ (fun s x hx => ?_) h
    obtain ⟨offset, rfl⟩ := hx
    rfl
  rw [hlabels, List.range_eq_range', ← List.zipIdx_map_snd 0 lits, List.map_map]
  rfl

/-- The lines of the literals. -/
theorem run_literals (lits : Literals) (i : Nat) {m : Image}
    (hnodup : (m.symbols.map (·.name) ++
      (List.range' i lits.length).map Literals.label).Nodup) :
    ∃ m' xs, m.run (literalElements i lits) = some m' ∧ m.Extends m' xs ∧
      List.Forall₂ (IsLiteral m.current) (lits.zipIdx i) xs := by
  induction lits generalizing i m with
  | nil => exact ⟨m, [], rfl, .refl m, .nil⟩
  | cons s lits ih =>
    rw [List.length_cons, List.range'_succ, List.map_cons] at hnodup
    have hfresh : m.Fresh (Literals.label i) := Image.fresh_of_nodup hnodup
    have hrun := run_literal s (Literals.isSymbol_label i) hfresh
    have hextends := m.extends_place { name := Literals.label i } (literalCells s)
    obtain ⟨m', xs, hrun', hextends', hobjects⟩ :=
      @ih (i + 1) (m.place { name := Literals.label i } (literalCells s)) (by
        rw [hextends.symbols]
        simpa using hnodup)
    refine ⟨m', _, ?_, hextends.trans hextends', .cons ⟨_, rfl⟩ hobjects⟩
    have hlines : literalElements i (s :: lits) =
      [.label (Literals.label i), .directive (.string s)] ++ literalElements (i + 1) lits := rfl
    rw [hlines, Image.run_append, hrun, Option.bind_some, hrun']

/-- The common symbol of a variable. -/
def IsCommon (p : Program ι) (v : Entity ι) (x : Symbol) : Prop :=
  ∃ type, v.type = some type ∧ x = p.commonSymbol v type

theorem map_name_of_isCommon {p : Program ι} {vars : List (Entity ι)} {xs : List Symbol}
    (h : List.Forall₂ p.IsCommon vars xs) : xs.map (·.name) = vars.map p.scope.symbol := by
  refine map_eq_of_forall₂ (fun v x hx => ?_) h
  obtain ⟨type, -, rfl⟩ := hx
  rfl

/-- The lines of the common symbols. -/
theorem run_commons {p : Program ι} {vars : List (Entity ι)}
    (htypes : ∀ v ∈ vars, v.type.isSome) (hvars : ∀ v ∈ vars, p.Layable v) {m : Image}
    (hnodup : (m.symbols.map (·.name) ++ vars.map p.scope.symbol).Nodup) :
    ∃ m' xs, m.run (vars.flatMap p.commonLines) = some m' ∧ m.Extends m' xs ∧
      List.Forall₂ p.IsCommon vars xs := by
  induction vars generalizing m with
  | nil => exact ⟨m, [], rfl, .refl m, .nil⟩
  | cons v vars ih =>
    obtain ⟨hv, hrest⟩ := List.forall_mem_cons.mp hvars
    obtain ⟨htype, htypes'⟩ := List.forall_mem_cons.mp htypes
    obtain ⟨type, htype⟩ := Option.isSome_iff_exists.mp htype
    have hfresh : m.Fresh (p.scope.symbol v) := Image.fresh_of_nodup hnodup
    have hrun := run_commonLines htype hv.symbol (hv.alignment type htype) (hv.size type htype)
      hfresh
    have hextends := m.extends_add (p.commonSymbol v type)
    obtain ⟨m', xs, hrun', hextends', hobjects⟩ :=
      @ih htypes' hrest (m.add (p.commonSymbol v type)) (by
        rw [hextends.symbols]
        simpa [commonSymbol] using hnodup)
    refine ⟨m', _, ?_, hextends.trans hextends', .cons ⟨type, htype, rfl⟩ hobjects⟩
    rw [List.flatMap_cons, Image.run_append, hrun, Option.bind_some, hrun']

/-! ## The listing -/

/-- The lines of a section follow its directive and perhaps a comment. -/
theorem run_section {place : String} {d : Asm.Directive}
    (hread : Asm.readLine? d.render = some (.enter place)) (o : Options) (text : String)
    {m m' : Image} {xs : List Symbol} {l : Asm.Listing} (hrun : (m.enter place).run l = some m')
    (hextends : (m.enter place).Extends m' xs) :
    m.run (.directive d :: remark o text 0 ++ l) = some m' ∧ m.Extends m' xs := by
  refine ⟨?_, (m.extends_enter place).trans hextends⟩
  rw [List.cons_append, Image.run_directive hread rfl, Image.run_append,
    run_remark _ _ _ (by decide), Option.bind_some, hrun]

theorem run_dataLines {p : Program ι} {o : Options}
    (hstorable : ∀ v ∈ p.scope.classes.initialized, p.Storable v)
    (hvars : ∀ v ∈ p.scope.classes.initialized, p.Layable v) {m : Image}
    (hnodup : (m.symbols.map (·.name) ++
      p.scope.classes.initialized.map p.scope.symbol).Nodup) :
    ∃ m' xs, m.run (p.dataLines o) = some m' ∧ m.Extends m' xs ∧
      List.Forall₂ (p.IsObject p.literals ".data" (m'.alignment ".data"))
        p.scope.classes.initialized xs := by
  unfold dataLines
  dsimp only
  split
  · next hempty =>
    rw [List.isEmpty_iff.mp hempty]
    exact ⟨m, [], rfl, .refl m, .nil⟩
  · have hdata : Asm.readLine? Asm.Directive.data.render = some (.enter ".data") := by
      decide +kernel
    obtain ⟨m', xs, hrun, hextends, -, hobjects⟩ :=
      @run_variables _ _ p o p.literals _ hstorable hvars (m.enter ".data") hnodup
    obtain ⟨hrun, hextends⟩ := run_section hdata o "initialized data" hrun hextends
    exact ⟨m', xs, hrun, hextends, hobjects⟩

theorem run_literalSection (o : Options) (lits : Literals) {m : Image}
    (hnodup : (m.symbols.map (·.name) ++
      (List.range lits.length).map Literals.label).Nodup) :
    ∃ m' xs, m.run (literalSection o lits) = some m' ∧ m.Extends m' xs ∧
      List.Forall₂ (IsLiteral ".rodata") lits.zipIdx xs := by
  unfold literalSection
  split
  · next hempty =>
    rw [List.isEmpty_iff.mp hempty]
    exact ⟨m, [], rfl, .refl m, .nil⟩
  · have hsection : Asm.readLine? (Asm.Directive.inSection ".rodata").render =
        some (.enter ".rodata") := by decide +kernel
    rw [List.range_eq_range'] at hnodup
    obtain ⟨m', xs, hrun, hextends, hobjects⟩ :=
      @run_literals lits 0 (m.enter ".rodata") hnodup
    obtain ⟨hrun, hextends⟩ := run_section hsection o "string literals" hrun hextends
    exact ⟨m', xs, hrun, hextends, hobjects⟩

theorem run_thunk {o : Options} (hpic : o.feature .pic → o.wordSize = 2 ∨ o.wordSize = 4)
    {m : Image} (hnodup : (m.symbols.map (·.name) ++ thunkSymbols o).Nodup) :
    ∃ m' xs, m.run (if o.feature .pic then thunkLines o.wordSize else []) = some m' ∧
      m.Extends m' xs ∧ xs.map (·.name) = thunkSymbols o := by
  unfold thunkSymbols at hnodup ⊢
  split
  · next hon =>
    rw [if_pos hon] at hnodup
    exact ⟨_, _, run_thunkLines (hpic hon) (Image.fresh_of_nodup hnodup),
      ⟨rfl, fun _ => Nat.dvd_refl _⟩, rfl⟩
  · exact ⟨m, [], rfl, .refl m, rfl⟩

theorem run_stackNote (o : Options) (m : Image) :
    ∃ m', m.run (if o.feature .gnuStack then [stackNote] else []) = some m' ∧
      m.Extends m' [] := by
  split
  · have hnote : stackNote.statement? = some (.enter ".note.GNU-stack") := by
      decide +kernel
    exact ⟨_, Image.run_cons_of_step hnote rfl, m.extends_enter _⟩
  · exact ⟨m, rfl, .refl m⟩

/-- The image of a whole listing: an object for each variable with a value, the
literals, a common symbol for each other variable, and the helper if there is one. -/
theorem assemble_lines {p : Program ι} {o : Options}
    (hstorable : ∀ v ∈ p.scope.classes.initialized, p.Storable v)
    (htypes : ∀ v ∈ p.scope.classes.common, v.type.isSome)
    (hpic : o.feature .pic → o.wordSize = 2 ∨ o.wordSize = 4)
    (hvars : ∀ v ∈ p.scope.classes.all, p.Layable v)
    (hnodup : (p.scope.classes.initialized.map p.scope.symbol ++
      (List.range p.literals.length).map Literals.label ++
      p.scope.classes.common.map p.scope.symbol ++ thunkSymbols o).Nodup) :
    ∃ image xs ys zs ws, Asm.assemble (p.lines o) = some image ∧
      image.symbols = xs ++ ys ++ zs ++ ws ∧ (image.symbols.map (·.name)).Nodup ∧
      List.Forall₂ (p.IsObject p.literals ".data" (image.alignment ".data"))
        p.scope.classes.initialized xs ∧
      List.Forall₂ (IsLiteral ".rodata") p.literals.zipIdx ys ∧
      List.Forall₂ p.IsCommon p.scope.classes.common zs ∧
      ws.map (·.name) = thunkSymbols o := by
  have hnodup₃ := (List.nodup_append.mp hnodup).1
  have hnodup₂ := (List.nodup_append.mp hnodup₃).1
  have hnodup₁ := (List.nodup_append.mp hnodup₂).1
  obtain ⟨m₁, xs, hrun₁, hextends₁, hobjects⟩ := @run_dataLines _ _ p o hstorable
    (fun v hv => hvars v (Scope.Tree.mem_initialized_iff.mp hv).1) {} hnodup₁
  have hnames₁ : m₁.symbols.map (·.name) = p.scope.classes.initialized.map p.scope.symbol := by
    rw [hextends₁.symbols, List.nil_append, map_name_of_isObject hobjects]
  obtain ⟨m₂, ys, hrun₂, hextends₂, hliterals⟩ := @run_literalSection o p.literals m₁
    (by rwa [hnames₁])
  have hnames₂ : m₂.symbols.map (·.name) = p.scope.classes.initialized.map p.scope.symbol ++
      (List.range p.literals.length).map Literals.label := by
    rw [hextends₂.symbols, List.map_append, hnames₁, map_name_of_isLiteral hliterals]
  obtain ⟨m₃, zs, hrun₃, hextends₃, hcommons⟩ := @run_commons _ _ p _ htypes
    (fun v hv => hvars v (Scope.Tree.mem_common_iff.mp hv).1) m₂ (by rwa [hnames₂])
  have hnames₃ : m₃.symbols.map (·.name) = p.scope.classes.initialized.map p.scope.symbol ++
      (List.range p.literals.length).map Literals.label ++
        p.scope.classes.common.map p.scope.symbol := by
    rw [hextends₃.symbols, List.map_append, hnames₂, map_name_of_isCommon hcommons]
  obtain ⟨m₄, ws, hrun₄, hextends₄, hthunk⟩ := @run_thunk o hpic m₃ (by rwa [hnames₃])
  obtain ⟨image, hrun₅, hextends₅⟩ := run_stackNote o m₄
  have hremark : m₂.run (if p.scope.classes.common.isEmpty then []
      else remark o "common symbols" 0) = some m₂ := by
    split
    · rfl
    · exact run_remark m₂ o _ (by decide)
  refine ⟨image, xs, ys, zs, ws, ?_, ?_, ?_, ?_, hliterals, hcommons, hthunk⟩
  · rw [Asm.assemble, lines, List.cons_append, List.cons_append, List.cons_append,
      List.cons_append, Image.run_directive (Asm.readLine?_file p.file) rfl]
    simp only [Image.run_append, hrun₁, hrun₂, hremark, hrun₃, hrun₄, hrun₅, Option.bind_some]
  · rw [hextends₅.symbols, hextends₄.symbols, hextends₃.symbols, hextends₂.symbols,
      hextends₁.symbols, List.append_nil, List.nil_append]
  · rwa [hextends₅.symbols, List.append_nil, hextends₄.symbols, List.map_append, hnames₃, hthunk]
  · have hlater := ((hextends₂.trans hextends₃).trans hextends₄).trans hextends₅
    exact hobjects.imp fun _ _ hx => hx.mono (hlater.alignment ".data")

end Program

/-! ## Documents -/

/-- Whether only its own listing sees a symbol: a label is hidden until it is made
global, a common symbol is not until it is made local. -/
def Asm.Symbol.isLocalOnly (x : Symbol) : Bool :=
  match x.definition with
  | some (.common _ _) => x.isLocal
  | _ => !x.isGlobal

theorem Asm.IsIdentifier.dot_notMem {s : String} (h : Asm.IsIdentifier s) : '.' ∉ s.toList := by
  obtain ⟨c, cs, hlist, hc, hcs⟩ := h
  intro hdot
  rw [hlist, List.mem_cons] at hdot
  rcases hdot with rfl | hmem
  · exact absurd hc (by decide)
  · exact absurd (hcs '.' hmem) (by decide)

theorem Program.isSymbol_referenceSymbol {ι : Type} [DecidableEq ι] (t : Scope.Tree ι)
    {r : Scope.Reference ι} (h : Asm.IsIdentifier r.name) : IsSymbol (t.referenceSymbol r) := by
  unfold Scope.Tree.referenceSymbol
  split
  · exact h.isSymbol
  · exact isSymbol_numbered h _

namespace Document

open Program (Literals literalCells thunkSymbols IsLiteral mem_literals)
open Asm (addressCells littleEndian)

/-- The data `cells` of an object of `size` bytes stand for the initial value of a
variable at `place`. -/
def Represents (t : Scope.Tree Site) (image : Image) (place : Scope.Place) (size : Nat)
    (init : Initializer Site) (cells : List Asm.Cell) : Prop :=
  match init.value with
  | .int n => ∃ bytes, cells = bytes.map .byte ∧
      (littleEndian bytes : Int) = n.toInt % 2 ^ (8 * size)
  | .string s => ∃ x ∈ image.symbols, (∃ i, x.name = Literals.label i) ∧
      (∃ place offset, x.definition = some (.placed place offset (literalCells s))) ∧
      cells = addressCells size x.name 0
  | .address name offset => ∃ e, t.lookup? place name = some e ∧
      init.target = some e.reference ∧ cells = addressCells size (t.symbol e) offset
  | .other _ => False

/-- The symbol `x` of an image is the object of the variable `v`. -/
structure Realizes (t : Scope.Tree Site) (image : Image) (v : Entity Site) (x : Symbol) :
    Prop where
  name : x.name = t.symbol v
  isLocalOnly : x.isLocalOnly = v.isPrivate
  data : ∃ (type : Ty) (size alignment : Nat), v.type = some type ∧
    type.size.toInt = size ∧ type.alignment.toInt = alignment ∧ 0 < alignment ∧
    match v.init with
    | none => x.definition = some (.common size alignment)
    | some init => x.type = "@object" ∧ x.size = some size ∧
        ∃ place offset cells, x.definition = some (.placed place offset cells) ∧
          alignment ∣ offset ∧ alignment ∣ image.alignment place ∧ cells.length = size ∧
          Represents t image v.id.place size init cells

section

variable {types : Table} {doc : Document} (hsize : types.pointerSize = 4 ∨ types.pointerSize = 8)
include hsize

theorem Origin.exists_hasType {v : Entity Site} {d : Declaration} {scopes : List Block}
    (h : Origin types doc v d scopes) : ∃ type, v.type = some type ∧ types.HasType type := by
  obtain ⟨type, hparse, htype⟩ := h.type
  exact ⟨type, htype, Table.parse_hasType (Table.pointerSize_pos hsize) hparse⟩

/-- The variables of a document with plain names can be laid out. -/
theorem Origin.layable {v : Entity Site} {d : Declaration} {scopes : List Block}
    (h : Origin types doc v d scopes)
    (hnames : ∀ d, doc.Contains d → Asm.IsIdentifier d.name) :
    (doc.frozenProgram types).Layable v := by
  obtain ⟨type, htype, hhas⟩ := h.exists_hasType hsize
  refine ⟨?_, ?_, ?_, ?_⟩
  · apply Program.isSymbol_referenceSymbol
    rw [show v.reference.name = d.name from h.name]
    exact hnames d h.contains
  · intro type' htype'
    cases htype.symm.trans htype'
    exact Table.alignment_of_hasType hsize hhas
  · intro type' htype'
    cases htype.symm.trans htype'
    exact Table.size_nonneg_of_hasType (Table.pointerSize_pos hsize) hhas
  · intro init hinit name offset hvalue
    obtain ⟨e, -, htarget, d', hd', hname⟩ := h.exists_target hinit hvalue
    rw [Scope.Tree.label, htarget]
    apply Program.isSymbol_referenceSymbol
    rw [show e.reference.name = d'.name from hname.symm]
    exact hnames d' hd'

/-- The data of a stored value are as many as the type says, and stand for the value. -/
theorem Origin.represents {v : Entity Site} {d : Declaration} {scopes : List Block}
    (h : Origin types doc v d scopes) {lits : Literals} {image : Image} {type : Ty}
    (htype : v.type = some type) {init : Initializer Site} (hinit : v.init = some init)
    (hstored : ((doc.frozenProgram types).value? lits type init).isSome)
    (hliterals : ∀ s, init.value = .string s →
      ∃ x ∈ image.symbols, IsLiteral ".rodata" (s, lits.idxOf s) x) :
    ((doc.frozenProgram types).storedCells lits type init).length = type.size.toInt.toNat ∧
      Represents (doc.frozenTree types) image v.id.place type.size.toInt.toNat init
        ((doc.frozenProgram types).storedCells lits type init) := by
  obtain ⟨type', htype', hhas⟩ := h.exists_hasType hsize
  cases htype.symm.trans htype'
  obtain ⟨directive, hvalue⟩ := Option.isSome_iff_exists.mp hstored
  rcases Program.value?_cases hvalue with ⟨n, hn, -, -⟩ | ⟨s, hs, hpointer, -⟩ |
    ⟨name, offset, haddress, hword, -⟩
  · simp only [Program.storedCells, Represents, hn]
    exact ⟨by simp, _, rfl, Asm.littleEndian_lowBytes _ _⟩
  · have hpointer := Table.size_of_isPointer hhas hpointer
    obtain ⟨_, hx, offset, rfl⟩ := hliterals s hs
    simp only [Program.storedCells, Represents, hs, hpointer]
    exact ⟨Asm.length_addressCells _ _ _, _, hx, ⟨_, rfl⟩, ⟨_, _, rfl⟩, rfl⟩
  · have hword : type.size = types.pointerSize := by
      rcases hword with hpointer | ⟨-, heq⟩
      · exact Table.size_of_isPointer hhas hpointer
      · exact heq
    obtain ⟨e, he, htarget, -⟩ := h.exists_target hinit haddress
    simp only [Program.storedCells, Represents, haddress, hword]
    refine ⟨Asm.length_addressCells _ _ _, e, he, htarget, ?_⟩
    rw [Scope.Tree.label, htarget]
    rfl

/-- The objects of variables with an initial value. -/
theorem Origin.realizes_object {v : Entity Site} {d : Declaration} {scopes : List Block}
    (h : Origin types doc v d scopes) {lits : Literals} {image : Image} {x : Symbol}
    (hstorable : (doc.frozenProgram types).Storable v)
    (hliterals : ∀ init s, v.init = some init → init.value = .string s →
      ∃ y ∈ image.symbols, IsLiteral ".rodata" (s, lits.idxOf s) y)
    (hx : (doc.frozenProgram types).IsObject lits ".data" (image.alignment ".data") v x) :
    Realizes (doc.frozenTree types) image v x := by
  obtain ⟨type, htype, hhas⟩ := h.exists_hasType hsize
  obtain ⟨type₁, init₁, htype₁, hinit₁, hstored⟩ := hstorable
  obtain ⟨type₂, init₂, offset, htype₂, hinit₂, hoffset, halign, rfl⟩ := hx
  cases htype₁.symm.trans htype
  cases htype₂.symm.trans htype
  cases hinit₁.symm.trans hinit₂
  rw [Program.isSome_value? _ [] lits] at hstored
  obtain ⟨hlength, hcells⟩ :=
    h.represents hsize htype₁ hinit₁ hstored fun s hs => hliterals init₁ s hinit₁ hs
  obtain ⟨hnat, halignNat, hpos⟩ := Table.toNat_of_hasType hsize hhas
  refine ⟨rfl, Bool.not_not _, type, _, _, htype, hnat, halignNat, hpos, ?_⟩
  rw [hinit₁]
  exact ⟨rfl, rfl, ".data", offset, _, rfl, hoffset, halign, hlength, hcells⟩

/-- The common symbols of the other variables. -/
theorem Origin.realizes_common {v : Entity Site} {d : Declaration} {scopes : List Block}
    (h : Origin types doc v d scopes) (hinit : v.init = none) {image : Image} {x : Symbol}
    (hx : (doc.frozenProgram types).IsCommon v x) :
    Realizes (doc.frozenTree types) image v x := by
  obtain ⟨type, htype, hhas⟩ := h.exists_hasType hsize
  obtain ⟨type', htype', rfl⟩ := hx
  cases htype.symm.trans htype'
  obtain ⟨hnat, halignNat, hpos⟩ := Table.toNat_of_hasType hsize hhas
  refine ⟨rfl, rfl, type, _, _, htype, hnat, halignNat, hpos, ?_⟩
  rw [hinit]
  rfl

end

/-- Names without a dot belong to none of the other naming schemes. -/
theorem WellFormed.nodup_definedSymbols_of_isIdentifier {types : Table} {doc : Document}
    (h : doc.WellFormed types) (hnames : ∀ i ∈ doc.items, Asm.IsIdentifier i.name) {o : Options}
    {l : Asm.Listing} (hl : (doc.frozenProgram types).listing o = .ok l) :
    l.definedSymbols.Nodup := by
  refine h.nodup_definedSymbols hl fun i hi _ => ⟨fun hmem => ?_, fun hmem => ?_, fun _ heq => ?_⟩
  · obtain ⟨x, hx, hname⟩ := List.mem_map.mp hmem
    obtain ⟨k, hk, rfl⟩ := List.mem_mapIdx.mp hx
    apply (hnames i hi).dot_notMem
    rw [← hname, toList_numbered]
    simp
  · obtain ⟨k, -, hname⟩ := List.mem_map.mp hmem
    apply (hnames i hi).dot_notMem
    rw [← hname, Program.Literals.toList_label]
    simp
  · apply (hnames i hi).dot_notMem
    rw [heq]
    decide +kernel

/-- An assembler reads the variables of the document back from the listing: there
is one object for each of them, besides the literals and the helper, and it has the
symbol, the visibility, the size, the alignment and the data of its variable. -/
theorem assemble_generate {types : Table} {doc : Document} {p : Program Site} {o : Options}
    {l : Asm.Listing} (h : doc.load types = .ok p)
    (hsize : types.pointerSize = 4 ∨ types.pointerSize = 8)
    (hnames : ∀ d, doc.Contains d → Asm.IsIdentifier d.name)
    (hl : (p.generate o).result = .ok l) :
    let t := p.scope.freeze
    ∃ image objects literals helpers, Asm.assemble l = some image ∧
      (image.symbols.map (·.name)).Nodup ∧
      image.symbols.Perm (objects ++ literals ++ helpers) ∧
      List.Forall₂ (Realizes t image) t.classes.all objects ∧
      List.Forall₂ (IsLiteral ".rodata") doc.texts.zipIdx literals ∧
      helpers.map (·.name) = thunkSymbols o := by
  obtain ⟨hdoc, rfl⟩ := (load_accepts types doc p).mp h
  have hl := listing_of_generate hl
  have hnodup := hdoc.nodup_definedSymbols_of_isIdentifier (fun i hi => hnames (.item i) hi) hl
  rw [Program.definedSymbols_of_listing hl] at hnodup
  obtain ⟨hstorable, htypes, hpic, rfl⟩ := Program.listing_eq_ok_iff.mp hl
  obtain ⟨image, xs, ys, zs, ws, hassemble, hsymbols, hdistinct, hobjects, hliterals, hcommons,
      hhelpers⟩ := Program.assemble_lines hstorable htypes hpic (fun v hv => by
    obtain ⟨d, scopes, horigin⟩ := hdoc.exists_origin hv
    exact horigin.layable hsize hnames) hnodup
  have hinitialized : List.Forall₂ (Realizes (doc.frozenTree types) image)
      (doc.frozenTree types).classes.initialized xs := by
    refine ((List.forall₂_and_left _ _).mpr ⟨fun v hv => hv, hobjects⟩).imp fun v x ⟨hv, hx⟩ => ?_
    obtain ⟨d, scopes, horigin⟩ := hdoc.exists_origin (Scope.Tree.mem_initialized_iff.mp hv).1
    refine horigin.realizes_object hsize (hstorable v hv) (fun init s hinit hs => ?_) hx
    have hmem : (s, (doc.frozenProgram types).literals.idxOf s) ∈
        (doc.frozenProgram types).literals.zipIdx :=
      List.mem_zipIdx_iff_getElem?.mpr (List.getElem?_idxOf (mem_literals hv hinit hs))
    obtain ⟨y, hy, hliteral⟩ := exists_mem_of_forall₂ hliterals hmem
    exact ⟨y, by simp [hsymbols, hy], hliteral⟩
  have hcommon : List.Forall₂ (Realizes (doc.frozenTree types) image)
      (doc.frozenTree types).classes.common zs := by
    refine ((List.forall₂_and_left _ _).mpr ⟨fun v hv => hv, hcommons⟩).imp fun v x ⟨hv, hx⟩ => ?_
    obtain ⟨hall, hinit⟩ := Scope.Tree.mem_common_iff.mp hv
    obtain ⟨d, scopes, horigin⟩ := hdoc.exists_origin hall
    exact horigin.realizes_common hsize hinit hx
  obtain ⟨objects, hrealizes, hperm⟩ := List.perm_comp_forall₂
    (doc.frozenTree types).perm_classes.symm (List.rel_append hinitialized hcommon)
  refine ⟨image, objects, ys, ws, hassemble, hdistinct, ?_, hrealizes, ?_, hhelpers⟩
  · rw [hsymbols]
    refine .append_right _ (.trans ?_ (hperm.symm.append_right _))
    rw [List.append_assoc, List.append_assoc]
    exact List.perm_append_comm.append_left _
  · rw [← hdoc.literals_frozenProgram]
    exact hliterals

/-- A number, a text and the address of a static local that hides a global variable. -/
def shadowing : Document where
  items := [
    { kind := "var", name := "n", type := "short", init := some { int := some (-1) } },
    { kind := "var", name := "text", type := "char*", init := some { string := some "hi" } },
    { kind := "func", name := "f", type := "void",
      body := some {
        vars := [
          { name := "n", type := "short[2]", storage := "static" },
          { name := "p", type := "short*", storage := "static",
            init := some { symbol := "n", offset := 2 } }] } }]

theorem isIdentifier_shadowing : ∀ d, shadowing.Contains d → Asm.IsIdentifier d.name
  | .item i, hi => by
    have hnames : ∀ i ∈ shadowing.items, Asm.IsIdentifier i.name := by decide +kernel
    exact hnames i hi
  | .localVar v, ⟨b, outer, ⟨i, hi, body, hbody, hb⟩, hv⟩ => by
    have hflat : ∀ i ∈ shadowing.items, ∀ body ∈ i.body, body.blocks = [] ∧
        ∀ v ∈ body.vars, Asm.IsIdentifier v.name := by decide +kernel
    obtain ⟨hblocks, hnames⟩ := hflat i hi body hbody
    rcases Block.hasBlock_iff.mp hb with ⟨rfl, -⟩ | ⟨c, hc, -⟩
    · exact hnames v hv
    · simp [hblocks] at hc

theorem assemble_generate_shadowing : ∃ p l, shadowing.load { pointerSize := 4 } = .ok p ∧
    (∀ d, shadowing.Contains d → Asm.IsIdentifier d.name) ∧
    (p.generate {}).result = .ok l ∧ ∃ image, Asm.assemble l = some image ∧
      ∀ v ∈ p.scope.freeze.classes.all, ∃ x ∈ image.symbols,
        Realizes p.scope.freeze image v x := by
  obtain ⟨hp, l, hl⟩ := @exists_listing { pointerSize := 4 } shadowing {} (by decide +kernel)
    (by decide +kernel)
  obtain ⟨image, objects, literals, helpers, himage, -, hperm, hrealizes, -⟩ :=
    assemble_generate hp (.inl rfl) isIdentifier_shadowing hl
  refine ⟨_, l, hp, isIdentifier_shadowing, hl, image, himage, fun v hv => ?_⟩
  obtain ⟨x, hx, hrealizes⟩ := exists_mem_of_forall₂ hrealizes hv
  exact ⟨x, hperm.mem_iff.mpr (by simp [hx]), hrealizes⟩

end Document

end Cflat
