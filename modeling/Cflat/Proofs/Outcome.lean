import Cflat.Build.Run
import Cflat.Proofs.Targets
import Cflat.Proofs.Emission

/-!
# How generation ends

For a loaded program generation gives a listing or one of two kinds of error, and the
rules below say which.  A variable is refused because its type does not take the
initial value, or else because no directive has the width; the first variable that is
refused decides.  Only when all of them pass does the word size of the code matter.

* Rules.  `Program.Passes` and `Program.Rejects`, for one variable.
* Generation.  Each function is shown to fail by the rules, from the single value up to
  `listing_eq_error_iff`.
* Loaded programs.  They have the types and constants that the rules speak of, so that
  `Program.Outcome` holds of them.
-/

namespace Cflat

namespace Program

open Asm (Listing Element Directive)
open Scope (Entity Initializer Constant)

/-! ## Rules -/

/-- The initial values that a type takes. -/
def Suits (types : Table) (type : Ty) : Constant → Prop
  | .int _ => type.isScalar
  | .string _ => type.isPointer
  | .address _ _ => type.isPointer ∨ type.isInteger ∧ type.size = types.pointerSize
  | .other _ => False

/-- What is said of a type that does not take an initial value. -/
def unsuitedReason : Constant → InitReason
  | .int _ => .integerForNonScalar
  | .string _ => .stringForNonPointer
  | .address _ _ | .other _ => .addressTooWide

/-- The number of bytes that an initial value is stored in.  A string is stored as the
address of its literal. -/
def storedWidth (types : Table) (type : Ty) : Constant → Int64
  | .int _ => type.size
  | _ => types.pointerSize

/-- The numbers of bytes that there is a directive for. -/
def directiveWidths : Constant → List Int64
  | .int _ => [1, 2, 4, 8]
  | _ => [4, 8]

variable {ι : Type} [DecidableEq ι]

/-- A variable that can be emitted. -/
def Passes (p : Program ι) (v : Entity ι) : Prop :=
  ∃ type init, v.type = some type ∧ v.init = some init ∧ Suits p.types type init.value ∧
    storedWidth p.types type init.value ∈ directiveWidths init.value

/-- The error for a variable that cannot be emitted. -/
inductive Rejects (p : Program ι) (v : Entity ι) : GenerateError → Prop
  | unsuited {type : Ty} {init : Initializer ι} (htype : v.type = some type)
      (hinit : v.init = some init) (h : ¬ Suits p.types type init.value) :
      Rejects p v (.init (p.scope.symbol v) type (unsuitedReason init.value))
  | width {type : Ty} {init : Initializer ι} (htype : v.type = some type)
      (hinit : v.init = some init) (h : Suits p.types type init.value)
      (hwidth : storedWidth p.types type init.value ∉ directiveWidths init.value) :
      Rejects p v (.width p.file ⟨storedWidth p.types type init.value, ""⟩)

/-! ## Generation -/

theorem numberDirective?_eq_none_iff {size n : Int64} :
    numberDirective? size n = none ↔ size ∉ [1, 2, 4, 8] := by
  unfold numberDirective?
  grind

theorem addressDirective?_eq_none_iff {size : Int64} {expr : String} :
    addressDirective? size expr = none ↔ size ∉ [4, 8] := by
  unfold addressDirective?
  grind

theorem stored_eq_error_iff {fit : Bool} {err e : GenerateError} {d : Option Directive}
    {file : String} {width : Int64} {lits : Literals} :
    (if fit then (do let e ← stored d file width; return (e, lits)) else .error err) =
        (Except.error e : Except GenerateError (Element × Literals)) ↔
      ¬ fit ∧ e = err ∨ fit ∧ d = none ∧ e = .width file ⟨width, ""⟩ := by
  cases fit with
  | false => simp [eq_comm]
  | true =>
    cases d with
    | none => simp [stored, bind, Except.bind, eq_comm]
    | some d => simp [stored, bind, Except.bind, pure, Except.pure]

/-- A value is refused for its type, or else for its width. -/
theorem valueElement_eq_error_iff {p : Program ι} {symbol : String} {type : Ty}
    {init : Initializer ι} {lits : Literals} {e : GenerateError}
    (hknown : ∀ code, init.value ≠ .other code) :
    p.valueElement symbol type init lits = .error e ↔
      ¬ Suits p.types type init.value ∧ e = .init symbol type (unsuitedReason init.value) ∨
        Suits p.types type init.value ∧
          storedWidth p.types type init.value ∉ directiveWidths init.value ∧
          e = .width p.file ⟨storedWidth p.types type init.value, ""⟩ := by
  unfold valueElement
  cases hvalue : init.value with
  | int n =>
    dsimp only
    rw [stored_eq_error_iff, numberDirective?_eq_none_iff]
    rfl
  | string s =>
    dsimp only
    rw [stored_eq_error_iff, addressDirective?_eq_none_iff]
    rfl
  | address name offset =>
    dsimp only
    rw [stored_eq_error_iff, addressDirective?_eq_none_iff]
    simp [Suits, unsuitedReason, storedWidth, directiveWidths]
  | other code => exact absurd hvalue (hknown code)

/-- A variable with a type and an initial value of a known form. -/
def Known (v : Entity ι) : Prop :=
  ∃ type init, v.type = some type ∧ v.init = some init ∧ ∀ code, init.value ≠ .other code

theorem variableElements_eq_error_iff {p : Program ι} {o : Options} {v : Entity ι}
    {lits : Literals} {e : GenerateError} (hknown : Known v) :
    p.variableElements o v lits = .error e ↔ p.Rejects v e := by
  obtain ⟨type, init, htype, hinit, hvalue⟩ := hknown
  simp only [variableElements, htype, hinit, bind_eq_error_iff, pure_eq_error_iff, and_false,
    exists_false, or_false, valueElement_eq_error_iff hvalue]
  constructor
  · rintro (⟨hunsuited, rfl⟩ | ⟨hsuits, hwidth, rfl⟩)
    · exact .unsuited htype hinit hunsuited
    · exact .width htype hinit hsuits hwidth
  · intro h
    cases h with
    | unsuited htype' hinit' hunsuited =>
      cases htype.symm.trans htype'
      cases hinit.symm.trans hinit'
      exact .inl ⟨hunsuited, rfl⟩
    | width htype' hinit' hsuits hwidth =>
      cases htype.symm.trans htype'
      cases hinit.symm.trans hinit'
      exact .inr ⟨hsuits, hwidth, rfl⟩

theorem isSome_value?_iff {p : Program ι} {lits : Literals} {type : Ty} {init : Initializer ι} :
    (p.value? lits type init).isSome ↔ Suits p.types type init.value ∧
      storedWidth p.types type init.value ∈ directiveWidths init.value := by
  rw [Option.isSome_iff_ne_none, ne_eq, value?]
  cases init.value with
  | int n =>
    by_cases hfit : type.isScalar
    · simp only [hfit, if_true, numberDirective?_eq_none_iff, not_not, Suits, storedWidth,
        directiveWidths, true_and]
    · simp [hfit, Suits]
  | string s =>
    by_cases hfit : type.isPointer
    · simp only [hfit, if_true, addressDirective?_eq_none_iff, not_not, Suits, storedWidth,
        directiveWidths, true_and]
    · simp [hfit, Suits]
  | address name offset =>
    by_cases hfit : type.isPointer ∨ type.isInteger ∧ type.size = p.types.pointerSize
    · simp only [Bool.or_eq_true, Bool.and_eq_true, decide_eq_true_eq, hfit, if_true,
        addressDirective?_eq_none_iff, not_not, Suits, storedWidth, directiveWidths, true_and]
    · simp [hfit, Suits]
  | other code => simp [Suits]

theorem storable_iff_passes {p : Program ι} {v : Entity ι} : p.Storable v ↔ p.Passes v := by
  simp only [Storable, Passes, isSome_value?_iff]

/-- The first variable that is refused decides. -/
theorem variableListElements_eq_error_iff {p : Program ι} {o : Options} {vars : List (Entity ι)}
    {lits : Literals} {e : GenerateError} (hknown : ∀ v ∈ vars, Known v) :
    p.variableListElements o vars lits = .error e ↔
      ∃ before v after, vars = before ++ v :: after ∧ (∀ u ∈ before, p.Passes u) ∧
        p.Rejects v e := by
  induction vars generalizing lits with
  | nil => simp [variableListElements]
  | cons v vars ih =>
    rw [List.forall_mem_cons] at hknown
    simp only [variableListElements, bind_eq_error_iff, variableElements_eq_error_iff hknown.1,
      ih hknown.2, pure_eq_error_iff, and_false, exists_false, or_false, Prod.exists,
      variableElements_eq_ok_iff, storable_iff_passes]
    constructor
    · rintro (hv | ⟨_, _, ⟨hv, -, -⟩, before, w, after, rfl, hbefore, hw⟩)
      · exact ⟨[], v, vars, rfl, by simp, hv⟩
      · exact ⟨v :: before, w, after, rfl, List.forall_mem_cons.mpr ⟨hv, hbefore⟩, hw⟩
    · rintro ⟨before, w, after, hsplit, hbefore, hw⟩
      cases before with
      | nil =>
        cases hsplit
        exact .inl hw
      | cons u before =>
        cases hsplit
        rw [List.forall_mem_cons] at hbefore
        exact .inr ⟨_, _, ⟨hbefore.1, rfl, rfl⟩, before, w, after, rfl, hbefore.2, hw⟩

theorem dataSection_eq_error_iff {p : Program ι} {o : Options} {e : GenerateError}
    (hknown : ∀ v ∈ p.scope.classes.initialized, Known v) :
    p.dataSection o = .error e ↔
      ∃ before v after, p.scope.classes.initialized = before ++ v :: after ∧
        (∀ u ∈ before, p.Passes u) ∧ p.Rejects v e := by
  rw [dataSection, bind_eq_error_iff, variableListElements_eq_error_iff hknown, or_iff_left]
  rintro ⟨a, -, h⟩
  dsimp only at h
  split at h <;> cases h

/-- Without two-byte or four-byte words the helper has no stack pointer to read. -/
theorem thunkElements_eq_error_iff {file : String} {natural : Int64} {e : GenerateError} :
    thunkElements file natural = .error e ↔
      natural ≠ 2 ∧ natural ≠ 4 ∧ e = .width file ⟨natural, "%sp"⟩ := by
  rw [thunkElements_eq]
  split
  · next h => rcases h with rfl | rfl <;> simp
  · next h =>
    obtain ⟨h2, h4⟩ := not_or.mp h
    simp [h2, h4, eq_comm]

omit [DecidableEq ι] in
theorem helper_eq_error_iff {p : Program ι} {o : Options} {e : GenerateError} :
    p.helper o = .error e ↔
      o.feature .pic ∧ o.wordSize ≠ 2 ∧ o.wordSize ≠ 4 ∧
        e = .width p.file ⟨o.wordSize, "%sp"⟩ := by
  rw [helper]
  cases o.feature .pic with
  | false => simp
  | true => simpa using thunkElements_eq_error_iff

theorem ending_eq_error_iff {p : Program ι} {o : Options} {e : GenerateError}
    (htypes : ∀ v ∈ p.scope.classes.common, v.type.isSome) :
    p.ending o = .error e ↔
      o.feature .pic ∧ o.wordSize ≠ 2 ∧ o.wordSize ≠ 4 ∧
        e = .width p.file ⟨o.wordSize, "%sp"⟩ := by
  obtain ⟨common, hcommon⟩ : ∃ l, p.commonSymbols o = .ok l :=
    ⟨_, commonSymbols_eq_ok_iff.mpr ⟨htypes, rfl⟩⟩
  rw [← helper_eq_error_iff, ending, hcommon]
  cases p.helper o with
  | error e' => exact Iff.rfl
  | ok l => exact iff_of_false (fun h => by cases h) fun h => by cases h

/-- A program fails for a variable, or else for the word size of its code. -/
theorem listing_eq_error_iff {p : Program ι} {o : Options} {e : GenerateError}
    (hknown : ∀ v ∈ p.scope.classes.initialized, Known v)
    (htypes : ∀ v ∈ p.scope.classes.common, v.type.isSome) :
    p.listing o = .error e ↔
      (∃ before v after, p.scope.classes.initialized = before ++ v :: after ∧
        (∀ u ∈ before, p.Passes u) ∧ p.Rejects v e) ∨
      ((∀ v ∈ p.scope.classes.initialized, p.Passes v) ∧ o.feature .pic ∧ o.wordSize ≠ 2 ∧
        o.wordSize ≠ 4 ∧ e = .width p.file ⟨o.wordSize, "%sp"⟩) := by
  simp only [listing, sections, bind_eq_error_iff, dataSection_eq_error_iff hknown, Prod.exists,
    dataSection_eq_ok_iff, ending_eq_error_iff htypes, pure_eq_error_iff, and_false, exists_false,
    or_false, storable_iff_passes]
  apply or_congr_right
  constructor
  · rintro ⟨_, _, ⟨hvars, -, -⟩, hwidth⟩
    exact ⟨hvars, hwidth⟩
  · rintro ⟨hvars, hwidth⟩
    exact ⟨_, _, ⟨hvars, rfl, rfl⟩, hwidth⟩

/-! ## Outcome -/

/-- How generation ends, by the rules, and how a build that needs the listing ends. -/
structure Outcome (p : Program ι) (o : Options) : Prop where
  /-- There is a listing exactly when each variable passes and the words of
  position-independent code have two or four bytes. -/
  succeeds : (∃ l, (p.generate o).result = .ok l) ↔
    (∀ v ∈ p.frozen.scope.classes.initialized, p.frozen.Passes v) ∧
      (o.feature .pic → o.wordSize = 2 ∨ o.wordSize = 4)
  /-- Otherwise the error is that of the first variable that is refused, and that of the
  word size only if there is none. -/
  fails : ∀ e, (p.generate o).result = .error e ↔
    (∃ before v after, p.frozen.scope.classes.initialized = before ++ v :: after ∧
      (∀ u ∈ before, p.frozen.Passes u) ∧ p.frozen.Rejects v e) ∨
    ((∀ v ∈ p.frozen.scope.classes.initialized, p.frozen.Passes v) ∧ o.feature .pic ∧
      o.wordSize ≠ 2 ∧ o.wordSize ≠ 4 ∧ e = .width p.file ⟨o.wordSize, "%sp"⟩)
  /-- There is never a fault. -/
  faultless : ∀ f, (p.generate o).result ≠ .error (.fault f)
  /-- The errors of the compiler itself are those of width. -/
  internal : ∀ e, (p.generate o).result = .error e →
    (e.isInternal = true ↔ ∃ w, e = .width p.file w)
  /-- A build goes on with the text of the listing, which there always is, -/
  renders : ∀ (j : Build.Job) s text, j.options = o →
    (((j.generate p).run.run s).1 = .ok text ↔
      ∃ l, (p.generate o).result = .ok l ∧ l.render = .ok text)
  /-- and otherwise it exits -/
  exits : ∀ (j : Build.Job) s a, j.options = o → ((j.generate p).run.run s).1 = .error a →
    ∃ status, a = .exit status
  /-- with status 2 for an error of width, -/
  exitsInternal : ∀ (j : Build.Job) s, j.options = o →
    ((∃ status, ((j.generate p).run.run s).1 = .error (.exit status) ∧ status.code = 2) ↔
      ∃ w, (p.generate o).result = .error (.width p.file w))
  /-- and with status 1 for an initial value that does not suit its type. -/
  exitsFailure : ∀ (j : Build.Job) s, j.options = o →
    ((∃ status, ((j.generate p).run.run s).1 = .error (.exit status) ∧ status.code = 1) ↔
      ∃ symbol type reason, (p.generate o).result = .error (.init symbol type reason))

/-- The end of a stage that generates, without its state. -/
def endOf : Except GenerateError Listing → Except Build.Abort String
  | .ok l => .ok l.text
  | .error (.fault f) => .error (.fault f)
  | .error e => .error (.exit (if e.isInternal then .internal else .failure))

theorem fst_run_generate (p : Program ι) (j : Build.Job) (s : Build.State) :
    ((j.generate p).run.run s).1 = endOf (p.generate j.options).result := by
  rw [Build.Job.generate]
  cases hresult : (p.generate j.options).result with
  | ok l =>
    dsimp only
    rw [render_of_generate hresult]
    rfl
  | error e => cases e <;> rfl

/-- The status that a build exits with depends on whether the error is the compiler's own. -/
theorem exists_code_iff {p : Program ι} {j : Build.Job} {s : Build.State} {code : Nat}
    (hfaultless : ∀ f, (p.generate j.options).result ≠ .error (.fault f)) :
    (∃ status, ((j.generate p).run.run s).1 = .error (.exit status) ∧ status.code = code) ↔
      ∃ e, (p.generate j.options).result = .error e ∧
        (if e.isInternal then 2 else 1) = code := by
  rw [fst_run_generate]
  cases hresult : (p.generate j.options).result with
  | ok l => simp [endOf]
  | error e =>
    cases e with
    | fault f => exact absurd hresult (hfaultless f)
    | init symbol type reason => simp [endOf, GenerateError.isInternal, ExitStatus.code]
    | width file w => simp [endOf, GenerateError.isInternal, ExitStatus.code]

/-- A program whose variables are known ends by the rules. -/
theorem outcome_of_known {p : Program ι} (o : Options)
    (hknown : ∀ v ∈ p.frozen.scope.classes.initialized, Known v)
    (htypes : ∀ v ∈ p.frozen.scope.classes.common, v.type.isSome) : p.Outcome o := by
  have herror (e : GenerateError) := listing_eq_error_iff (o := o) (e := e) hknown htypes
  have hkinds {e : GenerateError} (he : (p.generate o).result = .error e) :
      (∃ symbol type reason, e = .init symbol type reason) ∨ ∃ w, e = .width p.file w := by
    rw [result_generate] at he
    rcases (herror e).mp he with ⟨_, _, _, -, -, hreject⟩ | ⟨-, -, -, -, rfl⟩
    · cases hreject with
      | unsuited => exact .inl ⟨_, _, _, rfl⟩
      | width => exact .inr ⟨_, rfl⟩
    · exact .inr ⟨_, rfl⟩
  have hfaultless : ∀ f, (p.generate o).result ≠ .error (.fault f) := by
    intro f hf
    rcases hkinds hf with ⟨_, _, _, hinit⟩ | ⟨_, hwidth⟩
    · cases hinit
    · cases hwidth
  refine ⟨?_, fun e => ?_, hfaultless, fun e he => ?_, ?_, ?_, ?_, ?_⟩
  · simp only [result_generate, listing_eq_ok_iff, storable_iff_passes]
    constructor
    · rintro ⟨_, hvars, -, hwidth, -⟩
      exact ⟨hvars, hwidth⟩
    · rintro ⟨hvars, hwidth⟩
      exact ⟨_, hvars, htypes, hwidth, rfl⟩
  · rw [result_generate]
    exact herror e
  · rcases hkinds he with ⟨_, _, _, rfl⟩ | ⟨w, rfl⟩ <;> simp [GenerateError.isInternal]
  · rintro j s text rfl
    rw [fst_run_generate]
    cases hresult : (p.generate j.options).result with
    | ok l => simp [endOf, render_of_generate hresult]
    | error e => cases e <;> simp [endOf]
  · rintro j s a rfl ha
    rw [fst_run_generate] at ha
    cases hresult : (p.generate j.options).result with
    | ok l =>
      rw [hresult] at ha
      cases ha
    | error e =>
      rw [hresult] at ha
      rcases hkinds hresult with ⟨_, _, _, rfl⟩ | ⟨w, rfl⟩ <;> cases ha <;> exact ⟨_, rfl⟩
  · rintro j s rfl
    rw [exists_code_iff hfaultless]
    constructor
    · rintro ⟨e, he, hcode⟩
      rcases hkinds he with ⟨_, _, _, rfl⟩ | ⟨w, rfl⟩
      · cases hcode
      · exact ⟨w, he⟩
    · rintro ⟨w, hw⟩
      exact ⟨_, hw, rfl⟩
  · rintro j s rfl
    rw [exists_code_iff hfaultless]
    constructor
    · rintro ⟨e, he, hcode⟩
      rcases hkinds he with ⟨symbol, type, reason, rfl⟩ | ⟨_, rfl⟩
      · exact ⟨symbol, type, reason, he⟩
      · cases hcode
    · rintro ⟨_, _, _, hinit⟩
      exact ⟨_, hinit, rfl⟩

end Program

namespace Document

open Scope (Entity)

theorem Init.constant?_ne_other (x : Init) (code : Int64) : x.constant? ≠ some (.other code) := by
  unfold Init.constant?
  grind

theorem Origin.known {types : Table} {doc : Document} {v : Entity Site} {d : Declaration}
    {scopes : List Block} (h : Origin types doc v d scopes) (hinit : v.init.isSome) :
    Program.Known v := by
  obtain ⟨type, -, htype⟩ := h.type
  obtain ⟨init, hinit⟩ := Option.isSome_iff_exists.mp hinit
  refine ⟨type, init, htype, hinit, fun code hcode => ?_⟩
  rw [h.init, Option.map_eq_some_iff] at hinit
  obtain ⟨init₀, hinit₀, rfl⟩ := hinit
  obtain ⟨x, -, hx⟩ := Option.bind_eq_some_iff.mp hinit₀
  obtain ⟨c, hc, rfl⟩ := Option.map_eq_some_iff.mp hx
  rw [Load.value_resolvedInit] at hcode
  exact x.constant?_ne_other code (hc.trans (congrArg some hcode))

theorem WellFormed.known {types : Table} {doc : Document} (h : doc.WellFormed types) :
    ∀ v ∈ (doc.frozenTree types).classes.initialized, Program.Known v := by
  intro v hv
  obtain ⟨hall, hinit⟩ := Scope.Tree.mem_initialized_iff.mp hv
  obtain ⟨d, scopes, horigin⟩ := h.exists_origin hall
  exact horigin.known hinit

theorem WellFormed.typed {types : Table} {doc : Document} (h : doc.WellFormed types) :
    ∀ v ∈ (doc.frozenTree types).classes.common, v.type.isSome := by
  intro v hv
  obtain ⟨d, scopes, horigin⟩ := h.exists_origin (Scope.Tree.mem_common_iff.mp hv).1
  obtain ⟨type, -, htype⟩ := horigin.type
  rw [htype, Option.isSome_some]

/-- How generation ends for a loaded program. -/
theorem outcome_of_load {types : Table} {doc : Document} {p : Program Site}
    (h : doc.load types = .ok p) (o : Options) : p.Outcome o := by
  obtain ⟨hdoc, rfl⟩ := (load_accepts types doc p).mp h
  exact Program.outcome_of_known o hdoc.known hdoc.typed

/-- With pointers of six bytes the string cannot be stored; the array behind it does not
take a number at all. -/
def refused : Document where
  file := "refused.cb"
  items := [
    { kind := "var", name := "n", type := "char", init := some { int := some 300 } },
    { kind := "var", name := "s", type := "char*", init := some { string := some "text" } },
    { kind := "var", name := "a", type := "int[2]", init := some { int := some 1 } },
    { kind := "func", name := "f", type := "int",
      body := some { vars := [
        { name := "p", type := "int*", storage := "static",
          init := some { symbol := "n" } }] } }]

theorem outcome_of_load_refused : ∃ p,
    refused.load { pointerSize := 6 } = .ok p ∧ p.Outcome {} ∧
      (p.generate {}).result = .error (.width "refused.cb" ⟨6, ""⟩) := by
  obtain ⟨p, hp⟩ := exists_eq_ok_of_isOk
    (show (refused.load { pointerSize := 6 }).isOk = true by decide +kernel)
  obtain ⟨-, rfl⟩ := (load_accepts _ _ _).mp hp
  exact ⟨_, hp, outcome_of_load hp {}, by decide +kernel⟩

end Document

end Cflat
