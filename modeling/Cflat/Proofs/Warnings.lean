import Cflat.Proofs.Addresses
import Cflat.Proofs.Outcome
import Cflat.Proofs.Sizes

/-!
# The warnings of a program

Generation warns of common symbols, of extern variables whose address nobody takes, and of
numbers that are cut, and of nothing else.

* Cut numbers.  `IsTruncated` is said with the bits that are kept; the bounds that
  generation compares with are those of the numbers that come back from them.
* The data section.  Its warnings end with the first variable that is refused.
* Addresses.  An entity counts as referred to when the address of a top-level entity or
  of a static local denotes it, so one that is hidden from all of them does not.
* Diagnostics, one part for each kind of warning.
-/

namespace Cflat

open Scope (Entity Initializer Constant Place Denotes)

namespace Program

/-! ## Cut numbers -/

/-- The number does not come back from its low `8 * size` bits, neither when these are
extended by their sign nor when they are extended by zeros. -/
def IsTruncated (n size : Int64) : Prop :=
  let low := n.toBitVec.setWidth (8 * size.toInt.toNat)
  low.signExtend 64 ≠ n.toBitVec ∧ low.setWidth 64 ≠ n.toBitVec

instance (n size : Int64) : Decidable (IsTruncated n size) :=
  inferInstanceAs (Decidable (_ ∧ _))

/-- The numbers that come back from their low bits are those from the least signed to the
greatest unsigned one. -/
theorem extensions_ne_iff {n : Int64} {bits : Nat} (hbits : bits ∈ [8, 16, 32]) :
    ((n.toBitVec.setWidth bits).signExtend 64 ≠ n.toBitVec ∧
      (n.toBitVec.setWidth bits).setWidth 64 ≠ n.toBitVec) ↔
      ¬ (-(1 <<< (bits - 1) : Nat) ≤ n.toInt ∧ n.toInt ≤ (1 <<< bits : Nat) - 1) := by
  simp only [List.mem_cons, List.not_mem_nil, or_false] at hbits
  have hlt := n.toBitVec.isLt
  rw [ne_eq, ne_eq, ← BitVec.toInt_inj, ← BitVec.toNat_inj,
    BitVec.toInt_signExtend_of_le (by omega), BitVec.toInt_setWidth, BitVec.toNat_setWidth,
    BitVec.toNat_setWidth, ← Int64.toInt_toBitVec, BitVec.toInt_eq_toNat_cond, Int.bmod]
  generalize n.toBitVec.toNat = m at *
  rcases hbits with rfl | rfl | rfl
  · split <;> split <;> simp <;> omega
  · split <;> split <;> simp <;> omega
  · split <;> split <;> simp <;> omega

/-- A number is cut exactly when it is out of the bounds for its size. -/
theorem fits_eq_false_iff {n size : Int64} (hsize : size ∈ ([1, 2, 4, 8] : List Int64)) :
    fits n size = false ↔ IsTruncated n size := by
  have hbounds {least greatest : Int64} {bits : Nat} (hbits : bits ∈ [8, 16, 32])
      (hleast : least.toInt = -(1 <<< (bits - 1) : Nat))
      (hgreatest : greatest.toInt = (1 <<< bits : Nat) - 1) :
      (decide (least ≤ n) && decide (n ≤ greatest)) = false ↔
        (n.toBitVec.setWidth bits).signExtend 64 ≠ n.toBitVec ∧
          (n.toBitVec.setWidth bits).setWidth 64 ≠ n.toBitVec := by
    rw [extensions_ne_iff hbits, ← hleast, ← hgreatest, ← Int64.le_iff_toInt_le,
      ← Int64.le_iff_toInt_le, ← Bool.decide_and, decide_eq_false_iff_not]
  simp only [List.mem_cons, List.not_mem_nil, or_false] at hsize
  rcases hsize with rfl | rfl | rfl | rfl
  · exact @hbounds (-128) 255 8 (by decide) (by decide) (by decide)
  · exact @hbounds (-32768) 65535 16 (by decide) (by decide) (by decide)
  · exact @hbounds (-2147483648) 4294967295 32 (by decide) (by decide) (by decide)
  · simp [IsTruncated, fits]

/-! ## The data section -/

instance (types : Table) (type : Ty) (c : Constant) : Decidable (Suits types type c) :=
  match c with
  | .int _ => inferInstanceAs (Decidable (type.isScalar = true))
  | .string _ => inferInstanceAs (Decidable (type.isPointer = true))
  | .address _ _ => inferInstanceAs (Decidable (_ ∨ _ ∧ _))
  | .other _ => inferInstanceAs (Decidable False)

variable {ι : Type} [DecidableEq ι]

instance (p : Program ι) (v : Entity ι) : Decidable (p.Passes v) :=
  decidable_of_iff (∃ type ∈ v.type, ∃ init ∈ v.init, Suits p.types type init.value ∧
      storedWidth p.types type init.value ∈ directiveWidths init.value)
    ⟨fun ⟨type, htype, init, hinit, h⟩ => ⟨type, init, htype, hinit, h⟩,
      fun ⟨type, init, htype, hinit, h⟩ => ⟨type, htype, init, hinit, h⟩⟩

/-- The number that a scalar variable starts with, and its type, if the number is cut. -/
def truncated? (v : Entity ι) : Option (Int64 × Ty) :=
  match v.type, v.init with
  | some type, some ⟨.int n, _⟩ =>
    if type.isScalar ∧ IsTruncated n type.size then some (n, type) else none
  | _, _ => none

/-- The sizes that the scalar types of a program have. -/
def HasPlainSize (v : Entity ι) : Prop :=
  ∀ type, v.type = some type → type.isScalar = true → type.size ∈ ([1, 2, 4, 8] : List Int64)

/-- What is said of a number that is cut. -/
def truncationText (n : Int64) (type : Ty) (symbol : String) : String :=
  let spelling := type.spelling
  s!"value {n} does not fit in '{symbol}' of type {spelling} and is truncated"

theorem truncationWarning?_eq (p : Program ι) {v : Entity ι} (hv : HasPlainSize v) :
    p.truncationWarning? v = (truncated? v).map fun cut =>
      ⟨.extra, truncationText cut.1 cut.2 (p.scope.symbol v)⟩ := by
  unfold truncationWarning? truncated?
  cases htype : v.type with
  | none => rfl
  | some type =>
    cases v.init with
    | none => rfl
    | some init =>
      obtain ⟨value, target⟩ := init
      cases value with
      | int n =>
        dsimp only
        by_cases hscalar : type.isScalar = true
        · have hfits := fits_eq_false_iff (n := n) (hv type htype hscalar)
          cases hn : fits n type.size with
          | true =>
            have hkept : ¬ IsTruncated n type.size := by simp [← hfits, hn]
            simp [hkept]
          | false =>
            have hcut : IsTruncated n type.size := hfits.mp hn
            simp [hscalar, hcut, truncationText]
        · simp [hscalar]
      | _ => rfl

omit [DecidableEq ι] in
/-- Numbers that are cut are stored all the same. -/
theorem passes_of_truncated? (p : Program ι) {v : Entity ι} (hv : HasPlainSize v)
    (h : (truncated? v).isSome) : p.Passes v := by
  unfold truncated? at h
  cases htype : v.type with
  | none => simp [htype] at h
  | some type =>
    cases hinit : v.init with
    | none => simp [htype, hinit] at h
    | some init =>
      obtain ⟨value, target⟩ := init
      cases value with
      | int n =>
        have hscalar : type.isScalar = true := by
          by_contra hnot
          simp [htype, hinit, hnot] at h
        exact ⟨type, _, htype, hinit, hscalar, hv type htype hscalar⟩
      | _ => simp [htype, hinit] at h

/-- The warnings of the data section are those of the variables before the first one that is
refused. -/
theorem truncationWarnings_eq_filterMap (p : Program ι) (o : Options) {vars : List (Entity ι)}
    (hvars : ∀ v ∈ vars, HasPlainSize v) (lits : Literals) :
    p.truncationWarnings o vars lits =
      (vars.takeWhile fun v => p.Passes v).filterMap p.truncationWarning? := by
  induction vars generalizing lits with
  | nil => rfl
  | cons v vars ih =>
    rw [List.forall_mem_cons] at hvars
    rw [truncationWarnings]
    by_cases hpasses : p.Passes v
    · have hok : p.variableElements o v lits =
          .ok (p.variableLines o (lits.internAll (literalOf? v).toList) v,
            lits.internAll (literalOf? v).toList) :=
        variableElements_eq_ok_iff.mpr ⟨storable_iff_passes.mpr hpasses, rfl, rfl⟩
      rw [hok, List.takeWhile_cons_of_pos (by simpa using hpasses)]
      dsimp only
      rw [ih hvars.2]
      cases hwarning : p.truncationWarning? v <;> simp [hwarning]
    · have hquiet : p.truncationWarning? v = none := by
        rw [truncationWarning?_eq p hvars.1, Option.map_eq_none_iff]
        by_contra hcut
        exact hpasses (passes_of_truncated? p hvars.1 (Option.isSome_iff_ne_none.mpr hcut))
      rw [hquiet, List.takeWhile_cons_of_neg (by simpa using hpasses)]
      cases helements : p.variableElements o v lits with
      | error e => rfl
      | ok r =>
        obtain ⟨hstorable, -, -⟩ := variableElements_eq_ok_iff.mp helements
        exact absurd (storable_iff_passes.mp hstorable) hpasses

end Program

/-! ## Addresses -/

namespace Scope

variable {ι : Type}

/-- The name whose address an entity starts with. -/
def Entity.addressedName? (e : Entity ι) : Option String :=
  match e.init with
  | some ⟨.address name _, _⟩ => some name
  | _ => none

theorem Entity.addressedName?_eq_some_iff {e : Entity ι} {name : String} :
    e.addressedName? = some name ↔
      ∃ init offset, e.init = some init ∧ init.value = .address name offset := by
  unfold Entity.addressedName?
  cases e.init with
  | none => simp
  | some init =>
    obtain ⟨value, target⟩ := init
    cases value <;> simp

variable [DecidableEq ι]

instance (ds : List (Place × Entity ι)) (place : Place) (name : String) (e : Entity ι) :
    Decidable (Denotes ds place name e) :=
  decidable_of_iff
    (∃ d ∈ ds, d.2 = e ∧ d.1 <+: place ∧ e.name = name ∧
      ∀ d' ∈ ds, d'.1 <+: place → d'.2.name = name → d'.1 <+: d.1)
    ⟨fun ⟨d, hd, he, hscope, hname, hnearest⟩ => ⟨d.1, hscope, he ▸ hd, hname, hnearest⟩,
      fun ⟨scope, hscope, hmem, hname, hnearest⟩ =>
        ⟨(scope, e), hmem, rfl, hscope, hname, hnearest⟩⟩

/-- The address of the entity is what a top-level entity or a static local starts with: at
the place of one of them, the name in its initial value denotes the entity. -/
def Tree.IsAddressed (t : Tree ι) (e : Entity ι) : Prop :=
  ∃ d ∈ t.entries, (d.1 = [] ∨ d.2.isStaticLocal = true) ∧
    ∃ name ∈ d.2.addressedName?, Denotes t.entries d.1 name e

instance (t : Tree ι) (e : Entity ι) : Decidable (t.IsAddressed e) :=
  inferInstanceAs (Decidable (∃ d ∈ t.entries, _ ∧ _))

omit [DecidableEq ι] in
/-- The top-level entities and the static locals, among all declarations. -/
theorem Tree.mem_entities_append_statics_iff {t : Tree ι} {v : Entity ι} :
    v ∈ t.entities ++ t.statics ↔
      ∃ place, (place, v) ∈ t.entries ∧ (place = [] ∨ v.isStaticLocal = true) := by
  have htop : v ∈ t.entities ↔ (([] : Place), v) ∈ t.entries := by
    rw [Tree.mem_entries_iff, Tree.vars?_nil, Option.getD_some]
  rw [List.mem_append, htop, Tree.statics_eq, List.mem_map]
  constructor
  · intro h
    rcases h with h | ⟨⟨place, v'⟩, hmem, rfl⟩
    · exact ⟨[], h, .inl rfl⟩
    · obtain ⟨hentry, hstatic⟩ := List.mem_filter.mp hmem
      simp only [isStaticAt, decide_eq_true_eq] at hstatic
      exact ⟨place, hentry, .inr hstatic.2⟩
  · intro h
    obtain ⟨place, hentry, hlasting⟩ := h
    by_cases hplace : place = []
    · exact .inl (hplace ▸ hentry)
    · have hstatic : v.isStaticLocal = true := hlasting.resolve_left hplace
      exact .inr ⟨(place, v), List.mem_filter.mpr ⟨hentry, by simp [isStaticAt, hplace, hstatic]⟩,
        rfl⟩

end Scope

namespace Load

theorem mem_targets_iff {es : List (Entity Site)} {id : Site} :
    id ∈ targets es ↔
      ∃ v ∈ es, ∃ init r, v.init = some init ∧ init.target = some r ∧ r.id = id := by
  simp only [targets, List.mem_filterMap, Option.bind_eq_some_iff, Option.map_eq_some_iff]
  grind

/-- Only an address has a target. -/
theorem exists_address_of_target {t : Scope.Tree Site} {place : Place} {init : Initializer Site}
    (hinit : init.target = none) {r : Scope.Reference Site}
    (h : (resolvedInit t place init).target = some r) :
    ∃ name offset, init.value = .address name offset := by
  unfold resolvedInit at h
  cases hvalue : init.value with
  | address name offset => exact ⟨name, offset, rfl⟩
  | _ => simp [hvalue, hinit] at h

end Load

namespace Document

section

variable {types : Table} {doc : Document} {place : Place}

/-- Nothing is referred to before addresses are looked up. -/
theorem target_of_mem_entries_declared {e : Entity Site}
    (h : (place, e) ∈ (doc.declared types).entries) {init : Initializer Site}
    (hinit : e.init = some init) : init.target = none := by
  have hdeclared (x : Option Init) (hx : x.bind Init.declared? = some init) :
      init.target = none := by
    obtain ⟨x, -, hx⟩ := Option.bind_eq_some_iff.mp hx
    obtain ⟨c, -, rfl⟩ := Option.map_eq_some_iff.mp hx
    rfl
  rcases mem_entries_declared h with ⟨-, i, -, rfl⟩ | ⟨-, v, rfl⟩
  · exact hdeclared i.init hinit
  · exact hdeclared v.init hinit

/-- A variable that refers to something starts with its address. -/
theorem exists_address_of_target {v : Entity Site}
    (h : (place, v) ∈ (doc.frozenTree types).entries) {init : Initializer Site}
    (hinit : v.init = some init) {r : Scope.Reference Site} (htarget : init.target = some r) :
    ∃ name offset, init.value = .address name offset := by
  obtain ⟨v₀, hv₀, rfl⟩ := Load.exists_of_mem_entries h
  rw [Load.resolvedEntity_eq] at hinit
  obtain ⟨init₀, hinit₀, rfl⟩ := Option.map_eq_some_iff.mp hinit
  have hnone := target_of_mem_entries_declared hv₀ hinit₀
  by_cases hstorage : v₀.storage = .automatic
  · simp [hstorage, hnone] at htarget
  · rw [if_neg hstorage] at htarget ⊢
    obtain ⟨name, offset, hvalue⟩ := Load.exists_address_of_target hnone htarget
    exact ⟨name, offset, by rw [Load.value_resolvedInit, hvalue]⟩

/-- What counts as referred to is what an address denotes. -/
theorem WellFormed.isReferred_iff (hdoc : doc.WellFormed types) {e : Entity Site}
    (he : (place, e) ∈ (doc.frozenTree types).entries) :
    (doc.frozenTree types).isReferred e.id = true ↔ (doc.frozenTree types).IsAddressed e := by
  have hreferred : (doc.frozenTree types).referred =
      Load.targets ((doc.frozenTree types).entities ++ (doc.frozenTree types).statics) := rfl
  simp only [Scope.Tree.isReferred, decide_eq_true_eq, hreferred, Load.mem_targets_iff,
    Scope.Tree.mem_entities_append_statics_iff]
  constructor
  · intro h
    obtain ⟨v, ⟨place', hv, hlasting⟩, init, r, hinit, htarget, hid⟩ := h
    obtain ⟨name, offset, hvalue⟩ := exists_address_of_target hv hinit htarget
    obtain ⟨e', hlookup, htarget', -⟩ :=
      hdoc.resolves.exists_target hv (storage_of_lasting hv hlasting) hinit hvalue
    obtain rfl : e'.reference = r := Option.some.inj (htarget'.symm.trans htarget)
    have hdenotes := Scope.Tree.denotes_of_lookup? hlookup
    have ⟨scope, _, hmem, _⟩ := hdenotes
    obtain rfl : e' = e := congrArg Prod.snd (hdoc.eq_of_id_eq he hmem hid)
    exact ⟨(place', v), hv, hlasting, name,
      Scope.Entity.addressedName?_eq_some_iff.mpr ⟨init, offset, hinit, hvalue⟩, hdenotes⟩
  · intro h
    obtain ⟨⟨place', v⟩, hv, hlasting, name, hname, hdenotes⟩ := h
    obtain ⟨init, offset, hinit, hvalue⟩ := Scope.Entity.addressedName?_eq_some_iff.mp hname
    obtain ⟨e', hlookup, htarget, -⟩ :=
      hdoc.resolves.exists_target hv (storage_of_lasting hv hlasting) hinit hvalue
    have hfound := (Scope.Tree.lookup?_eq_some_iff_denotes hdoc.nodup_vars?).mpr hdenotes
    obtain rfl : e' = e := Option.some.inj (hlookup.symm.trans hfound)
    exact ⟨v, ⟨place', hv, hlasting⟩, init, _, hinit, htarget, rfl⟩

/-- The scalar types of a target with pointers of 4 or 8 bytes have plain sizes. -/
theorem WellFormed.hasPlainSize (hdoc : doc.WellFormed types)
    (hsize : types.pointerSize = 4 ∨ types.pointerSize = 8) {v : Entity Site}
    (hv : v ∈ (doc.frozenTree types).classes.all) : Program.HasPlainSize v := by
  obtain ⟨d, scopes, horigin⟩ := hdoc.exists_origin hv
  obtain ⟨ty, hparse, hty⟩ := horigin.type
  have hhas := Table.parse_hasType (Table.pointerSize_pos hsize) hparse
  intro type htype hscalar
  obtain rfl : ty = type := Option.some.inj (hty.symm.trans htype)
  rw [Ty.size_eq_alignment hscalar]
  exact Table.alignment_of_hasType hsize hhas

end

end Document

/-! ## Diagnostics -/

namespace Diagnostic

/-- The lines of one kind of warning, if it is enabled. -/
def shown (o : Options) (w : Warning) (texts : List String) : String :=
  if o.warning w then String.join (texts.map fun text => line ⟨w, text⟩) else ""

theorem render_append (o : Options) (ds ds' : List Diagnostic) :
    render o (ds ++ ds') = render o ds ++ render o ds' := by
  rw [render, List.filter_append, List.map_append, String.join_append]
  rfl

theorem render_map (o : Options) (w : Warning) {α : Type} (text : α → String) (l : List α) :
    render o (l.map fun a => ⟨w, text a⟩) = shown o w (l.map text) := by
  unfold render shown
  cases hw : o.warning w <;> simp [List.filter_map, Function.comp_def, hw]

end Diagnostic

namespace Document

/-- One warning of each kind, each beside a variable that gives none.  The pointer in the
body is to the variable next to it and not to the extern one of the same name, and the last
variable at top level is behind one that is refused. -/
def assorted : Document where
  items := [
    { kind := "extern", name := "hidden", type := "int" },
    { kind := "extern", name := "used", type := "int" },
    { kind := "const", name := "k", type := "int*", init := some { symbol := "used" } },
    { kind := "var", name := "free", type := "int" },
    { kind := "var", name := "kept", type := "char", init := some { int := some 255 } },
    { kind := "var", name := "cut", type := "char", init := some { int := some 256 } },
    { kind := "var", name := "refused", type := "int[2]", init := some { int := some 1 } },
    { kind := "var", name := "late", type := "char", init := some { int := some 256 } },
    { kind := "func", name := "f", type := "int",
      body := some { vars := [
        { name := "p", type := "int*", storage := "static", init := some { symbol := "hidden" } },
        { name := "hidden", type := "int", storage := "static" }] } }]

end Document

end Cflat
