import Cflat.Program.Dump
import Cflat.Program.Generate
import Cflat.Proofs.Accepts
import Cflat.Proofs.Stateful

/-!
# Generation as a function

A generation goes through a program and asks an emitter for one line after another.  Here
the lines, the error and the warnings are plain functions of the program and the options,
and `generate_eq` shows that this is what a generation leaves behind.

* The parts of the listing, and the warnings, as functions of a program whose tree is
  frozen.
* Steps.  `Emits` says which lines and warnings a step adds and what becomes of the
  literals, and comes apart along `bind`.
* Parts.  One lemma for each part of the listing.
* The whole.  `generate_eq`: the result, the warnings, and the tree, which is frozen.
* The dump, which classifies the tree in the same way (`run_dump`).
-/

namespace Cflat

/-! ## The parts of the listing -/

namespace Program

open Asm (Listing Element Directive)
open Scope (Entity Initializer)

namespace Literals

/-- The position of a literal, which is added at the end if it is new. -/
def intern (l : Literals) (s : String) : Literals × Nat :=
  match l.idxOf? s with
  | some i => (l, i)
  | none => (l ++ [s], l.length)

/-- Literals with their labels, the first at position `i`. -/
def labels (i : Nat) : Literals → List (String × String)
  | [] => []
  | s :: rest => (s, label i) :: labels (i + 1) rest

end Literals

/-- The element of a directive, which exists for some widths only. -/
def stored (d : Option Directive) (file : String) (width : Int64) :
    Except GenerateError Element :=
  match d with
  | some d => .ok (.directive d)
  | none => .error (.width file ⟨width, ""⟩)

variable {ι : Type} [DecidableEq ι]

/-- The stored value of a variable, and the literals after it. -/
def valueElement (p : Program ι) (symbol : String) (type : Ty) (init : Initializer ι)
    (lits : Literals) : Except GenerateError (Element × Literals) :=
  match init.value with
  | .int n =>
    if type.isScalar then do
      let e ← stored (numberDirective? type.size n) p.file type.size
      return (e, lits)
    else .error (.init symbol type .integerForNonScalar)
  | .string s =>
    if type.isPointer then do
      let (lits, i) := Literals.intern lits s
      let e ← stored (addressDirective? p.types.pointerSize (Literals.label i)) p.file
        p.types.pointerSize
      return (e, lits)
    else .error (.init symbol type .stringForNonPointer)
  | .address _ offset =>
    if type.isPointer || (type.isInteger && type.size = p.types.pointerSize) then do
      let expr := (Asm.Operand.direct (p.scope.label init) offset).render
      let e ← stored (addressDirective? p.types.pointerSize expr) p.file p.types.pointerSize
      return (e, lits)
    else .error (.init symbol type .addressTooWide)
  | .other code => .error (.fault (.unknownInitializer code))

/-- A comment, if the listing is to have any. -/
def remark (o : Options) (text : String) (indent : Int) : Listing :=
  if o.feature .verboseAsm then [.comment text indent] else []

/-- One variable of the data section. -/
def variableElements (p : Program ι) (o : Options) (v : Entity ι) (lits : Literals) :
    Except GenerateError (Listing × Literals) :=
  match v.type, v.init with
  | some type, some init => do
    let symbol := p.scope.symbol v
    let (value, lits) ← p.valueElement symbol type init lits
    let visible := if v.isPrivate then [] else [.directive (.globalSymbol symbol)]
    return (remark o s!"{type.spelling} {v.name} ({v.storage.text})" 1 ++ visible ++
      [.directive (.align type.alignment), .directive (.symbolType symbol "@object"),
        .directive (.size symbol type.size), .label symbol, value], lits)
  | _, _ => .error (.fault .missingType)

/-- Several variables of the data section. -/
def variableListElements (p : Program ι) (o : Options) :
    List (Entity ι) → Literals → Except GenerateError (Listing × Literals)
  | [], lits => .ok ([], lits)
  | v :: rest, lits => do
    let (l, lits) ← p.variableElements o v lits
    let (l', lits) ← p.variableListElements o rest lits
    return (l ++ l', lits)

/-- The data section, and the literals of the program. -/
def dataSection (p : Program ι) (o : Options) : Except GenerateError (Listing × Literals) := do
  let vars := p.scope.classes.initialized
  let (l, lits) ← p.variableListElements o vars []
  if vars.isEmpty then
    return ([], [])
  return (.directive .data :: remark o "initialized data" 0 ++ l, lits)

/-- The lines of literals, the first of them at position `i`. -/
def literalElements (i : Nat) : Literals → Listing
  | [] => []
  | s :: rest => .label (Literals.label i) :: .directive (.string s) :: literalElements (i + 1) rest

/-- The section of the literals. -/
def literalSection (o : Options) (lits : Literals) : Listing :=
  if lits.isEmpty then []
  else .directive (.inSection ".rodata") :: remark o "string literals" 0 ++ literalElements 0 lits

/-- One variable that is left to the linker. -/
def commonElements (p : Program ι) (v : Entity ι) : Except GenerateError Listing :=
  match v.type with
  | some type =>
    let symbol := p.scope.symbol v
    let confined := if v.isPrivate then [.directive (.localSymbol symbol)] else []
    .ok (confined ++ [.directive (.common symbol type.size type.alignment)])
  | none => .error (.fault .missingType)

/-- The variables that are left to the linker. -/
def commonSymbols (p : Program ι) (o : Options) : Except GenerateError Listing := do
  let vars := p.scope.classes.common
  let ls ← vars.mapM p.commonElements
  return (if vars.isEmpty then [] else remark o "common symbols" 0) ++ ls.flatten

/-- The instructions of the helper for position-independent code. -/
def thunkCode (natural : Int64) : Except Asm.WidthError Listing := do
  let sp ← Asm.RegisterClass.sp.atWidth natural
  let bx ← Asm.RegisterClass.bx.atWidth natural
  let suffix ← Asm.suffixIn "mov" natural
  return [.instruction "mov" suffix [.indirect sp 0, .register bx], .instruction "ret" "" []]

/-- The helper for position-independent code. -/
def thunkElements (file : String) (natural : Int64) : Except GenerateError Listing := do
  let code ← (thunkCode natural).mapError (.width file)
  return [.directive (.inGroup (".text." ++ picThunk) "\"axG\"" "@progbits" picThunk "comdat"),
    .directive (.globalSymbol picThunk), .directive (.hidden picThunk),
    .directive (.symbolType picThunk "@function"), .label picThunk] ++ code

/-- The helper, if it is asked for. -/
def helper (p : Program ι) (o : Options) : Except GenerateError Listing :=
  if o.feature .pic then thunkElements p.file o.wordSize else .ok []

/-- The note that the stack holds no code. -/
def stackNote : Element :=
  .directive (.inSection ".note.GNU-stack,\"\",@progbits")

/-- The stack note, if it is asked for. -/
def note (o : Options) : Listing :=
  if o.feature .gnuStack then [stackNote] else []

/-- What comes after the literals: the common symbols, the helper and the stack note. -/
def ending (p : Program ι) (o : Options) : Except GenerateError Listing := do
  let common ← p.commonSymbols o
  let helper ← p.helper o
  return common ++ helper ++ note o

/-- All but the first line, and the literals of the program. -/
def sections (p : Program ι) (o : Options) : Except GenerateError (Listing × Literals) := do
  let (data, lits) ← p.dataSection o
  let ending ← p.ending o
  return (data ++ literalSection o lits ++ ending, lits)

/-- The listing of a program whose tree is frozen. -/
def listing (p : Program ι) (o : Options) : Except GenerateError Listing := do
  let (sections, _) ← p.sections o
  return .directive (.file p.file) :: sections

/-- One warning for each common symbol. -/
def commonWarnings (p : Program ι) : List Diagnostic :=
  p.scope.classes.common.map fun v =>
    ⟨.common, s!"'{p.scope.symbol v}' is left to the linker as a common symbol"⟩

/-- One warning for each external variable whose address is not taken. -/
def externWarnings (p : Program ι) : List Diagnostic :=
  (p.scope.classes.externals.filter fun v => !p.scope.isReferred v.id).map fun v =>
    ⟨.externUnused, s!"extern variable '{v.name}' is not referenced by any initializer"⟩

/-- A variable whose number is cut to its size. -/
def truncationWarning? (p : Program ι) (v : Entity ι) : Option Diagnostic :=
  match v.type, v.init with
  | some type, some ⟨.int n, _⟩ =>
    if type.isScalar && !fits n type.size then
      let symbol := p.scope.symbol v
      let spelling := type.spelling
      some ⟨.extra, s!"value {n} does not fit in '{symbol}' of type {spelling} and is truncated"⟩
    else none
  | _, _ => none

/-- The warnings of the data section end with the first variable that fails. -/
def truncationWarnings (p : Program ι) (o : Options) :
    List (Entity ι) → Literals → List Diagnostic
  | [], _ => []
  | v :: rest, lits =>
    (p.truncationWarning? v).toList ++
      match p.variableElements o v lits with
      | .ok (_, lits) => p.truncationWarnings o rest lits
      | .error _ => []

/-- The program after its tree was classified. -/
def frozen (p : Program ι) : Program ι :=
  { p with scope := p.scope.freeze }

/-- All warnings of a program whose tree is frozen. -/
def warningsOf (p : Program ι) (o : Options) : List Diagnostic :=
  p.commonWarnings ++ p.externWarnings ++ p.truncationWarnings o p.scope.classes.initialized []

end Program

/-! ## Steps -/

open Asm (Listing Element)
open Program (Literals)
open Scope (Entity Initializer)

variable {ι : Type}

/-- A generator with lines added at the end of its listing. -/
def Generator.line (g : Generator ι) (l : Listing) : Generator ι :=
  { g with asm := { g.asm with listing := g.asm.listing ++ l } }

/-- A generator with lines and warnings added and other literals. -/
def Generator.after (g : Generator ι) (l : Listing) (lits : Literals) (w : List Diagnostic) :
    Generator ι :=
  { g.line l with
    literals := lits
    labels := lits.labels 0
    warnings := g.warnings ++ w }

/-- A generator with another comment indent. -/
def Generator.withIndent (g : Generator ι) (indent : Int) : Generator ι :=
  { g with asm := { g.asm with commentIndent := indent } }

theorem Generator.line_nil (g : Generator ι) : g.line [] = g := by
  rw [Generator.line, List.append_nil]

theorem Generator.line_line (g : Generator ι) (l l' : Listing) :
    (g.line l).line l' = g.line (l ++ l') := by
  simp [Generator.line]

theorem Generator.after_literals (g : Generator ι) (h : g.labels = g.literals.labels 0)
    (l : Listing) (w : List Diagnostic) :
    g.after l g.literals w = { g.line l with warnings := g.warnings ++ w } := by
  rw [Generator.after, ← h]
  rfl

/-- A generator that works on a program whose tree is frozen.  Its labels are those of its
literals, and no two of these are the same. -/
structure Generator.WorksOn (g : Generator ι) (p : Program ι) (o : Options) : Prop where
  options : g.options = o
  file : g.file = p.file
  pointerSize : g.pointerSize = p.types.pointerSize
  scope : g.scope = p.scope
  natural : g.asm.natural = o.wordSize
  labels : g.labels = g.literals.labels 0
  distinct : g.literals.Nodup

/-- A step adds lines and warnings and leaves other literals, or it fails.  One that fails
has given its warnings, and the tree is still the same. -/
def Emits (x : Generate ι Unit) (g : Generator ι)
    (r : Except GenerateError (Listing × Literals)) (w : List Diagnostic) : Prop :=
  match r with
  | .ok (l, lits) => Gives x g () (g.after l lits w)
  | .error e => ∃ g', x.run.run g = (.error e, g') ∧ g'.scope = g.scope ∧
      g'.warnings = g.warnings ++ w

/-- Lines in front of what a step adds. -/
def prepend (l : Listing) (r : Except GenerateError (Listing × Literals)) :
    Except GenerateError (Listing × Literals) :=
  r.map fun (l', lits) => (l ++ l', lits)

theorem prepend_nil (r : Except GenerateError (Listing × Literals)) : prepend [] r = r := by
  cases r <;> rfl

namespace Emits

variable {x y : Generate ι Unit} {f : Unit → Generate ι Unit} {g : Generator ι} {l : Listing}
  {lits : Literals} {r : Except GenerateError (Listing × Literals)} {w w' : List Diagnostic}

theorem after_after (g : Generator ι) (l l' : Listing) (lits lits' : Literals)
    (w w' : List Diagnostic) :
    (g.after l lits w).after l' lits' w' = g.after (l ++ l') lits' (w ++ w') := by
  simp [Generator.after, Generator.line]

/-- What a step does that begins with one that succeeds. -/
theorem bind {α : Type} {x : Generate ι α} {a : α} {f : α → Generate ι Unit}
    (hx : Gives x g a (g.after l lits w)) (hf : Emits (f a) (g.after l lits w) r w') :
    Emits (x >>= f) g (prepend l r) (w ++ w') := by
  have hrun := hx.run_bind f
  cases r with
  | ok p =>
    show (x >>= f).run.run g = (.ok (), g.after (l ++ p.1) p.2 (w ++ w'))
    rw [hrun, ← after_after]
    exact hf
  | error e =>
    obtain ⟨g', hg', hscope, hwarnings⟩ := hf
    refine ⟨g', hrun.trans hg', hscope, hwarnings.trans ?_⟩
    exact List.append_assoc g.warnings w w'

/-- A step that begins with one that fails. -/
theorem bind_error {e : GenerateError} (hx : Emits x g (.error e) w) :
    Emits (x >>= f) g (.error e) w := by
  obtain ⟨g', hg', hscope, hwarnings⟩ := hx
  refine ⟨g', ?_, hscope, hwarnings⟩
  rw [run_bind, hg']

/-- A step that adds some lines, and then others, and leaves the literals alone. -/
theorem bind_lines {lines lines' : Except GenerateError Listing}
    (hx : Emits x g (lines.map fun l => (l, g.literals)) [])
    (hf : ∀ l, lines = .ok l →
      Emits (f ()) (g.after l g.literals []) (lines'.map fun l => (l, g.literals)) []) :
    Emits (x >>= f) g
      ((do let l ← lines; let l' ← lines'; return l ++ l' :
        Except GenerateError Listing).map fun l => (l, g.literals)) [] := by
  cases lines with
  | error e => exact bind_error hx
  | ok l =>
    have hshape : (do let l ← Except.ok l; let l' ← lines'; return l ++ l' :
          Except GenerateError Listing).map (fun l => (l, g.literals)) =
        prepend l (lines'.map fun l => (l, g.literals)) := by
      cases lines' <;> rfl
    rw [hshape]
    exact bind hx (hf l rfl)

/-- A step that comes down to another one after some lines. -/
theorem of_line (hrun : x.run.run g = y.run.run (g.line l)) (hy : Emits y (g.line l) r w) :
    Emits x g (prepend l r) w := by
  cases r with
  | ok p =>
    show x.run.run g = (.ok (), g.after (l ++ p.1) p.2 w)
    rw [hrun, show g.after (l ++ p.1) p.2 w = (g.line l).after p.1 p.2 w by
      simp [Generator.after, Generator.line]]
    exact hy
  | error e =>
    obtain ⟨g', hg', hscope, hwarnings⟩ := hy
    exact ⟨g', hrun.trans hg', hscope, hwarnings⟩

/-- A step that begins with some lines. -/
theorem line_bind (hx : Gives x g () (g.line l)) (hf : Emits (f ()) (g.line l) r w) :
    Emits (x >>= f) g (prepend l r) w :=
  of_line (hx.run_bind f) hf

theorem of_run (hrun : x.run.run g = y.run.run g) (hy : Emits y g r w) : Emits x g r w := by
  cases r with
  | ok p => exact hrun.trans hy
  | error e =>
    obtain ⟨g', hg', h⟩ := hy
    exact ⟨g', hrun.trans hg', h⟩

/-- A step that only adds lines. -/
theorem of_gives (hlabels : g.labels = g.literals.labels 0) (hx : Gives x g () (g.line l)) :
    Emits x g (.ok (l, g.literals)) [] := by
  refine Eq.trans hx ?_
  rw [g.after_literals hlabels, List.append_nil]
  rfl

theorem nothing (hlabels : g.labels = g.literals.labels 0) :
    Emits (pure ()) g (.ok ([], g.literals)) [] :=
  of_gives hlabels (by rw [g.line_nil]; rfl)

theorem of_throw {e : GenerateError} (hx : x.run.run g = (.error e, g)) :
    Emits x g (.error e) [] :=
  ⟨g, hx, rfl, (List.append_nil _).symm⟩

end Emits

/-! ## Parts of the listing -/

namespace Program.Literals

theorem lookup_labels (lits : Literals) (i : Nat) (s : String) :
    (lits.labels i).lookup s = (lits.idxOf? s).map fun k => label (i + k) := by
  induction lits generalizing i with
  | nil => rfl
  | cons t lits ih =>
    rw [labels, List.lookup_cons, List.idxOf?_cons]
    by_cases hst : s = t
    · simp [hst]
    · have hne : (s == t) = false := by simpa using hst
      have hne' : (t == s) = false := by simpa using Ne.symm hst
      simp only [hne, hne', ih, Option.map_map, Bool.false_eq_true, if_false]
      congr 1
      funext k
      simp [Nat.add_right_comm, Nat.add_assoc]

theorem labels_append (lits lits' : Literals) (i : Nat) :
    labels i (lits ++ lits') = labels i lits ++ labels (i + lits.length) lits' := by
  induction lits generalizing i with
  | nil => rfl
  | cons s lits ih =>
    rw [List.cons_append, labels, ih, labels, List.cons_append, List.length_cons,
      Nat.add_right_comm, Nat.add_assoc]

theorem idxOf?_of_nodup {front back : Literals} {s : String} (h : (front ++ s :: back).Nodup) :
    (front ++ s :: back).idxOf? s = some front.length := by
  have hnew : s ∉ front := fun hmem => (List.nodup_append.mp h).2.2 s hmem s (by simp) rfl
  have hfront : front.findIdx? (· == s) = none := List.idxOf?_eq_none_iff.mpr hnew
  rw [List.idxOf?, List.findIdx?_append, hfront, List.findIdx?_cons]
  simp

theorem nodup_intern {lits : Literals} (h : lits.Nodup) (s : String) : (lits.intern s).1.Nodup := by
  rw [intern]
  cases hs : lits.idxOf? s with
  | some i => exact h
  | none =>
    have hnew : s ∉ lits := List.idxOf?_eq_none_iff.mp hs
    refine List.nodup_append.mpr ⟨h, by simp, ?_⟩
    simpa using fun a ha => ne_of_mem_of_not_mem ha hnew

end Program.Literals

namespace Generator.WorksOn

variable {g : Generator ι} {p : Program ι} {o : Options}

theorem line (h : g.WorksOn p o) (l : Listing) : (g.line l).WorksOn p o :=
  ⟨h.options, h.file, h.pointerSize, h.scope, h.natural, h.labels, h.distinct⟩

theorem after (h : g.WorksOn p o) (l : Listing) {lits : Literals} (hlits : lits.Nodup)
    (w : List Diagnostic) : (g.after l lits w).WorksOn p o :=
  ⟨h.options, h.file, h.pointerSize, h.scope, h.natural, rfl, hlits⟩

theorem withIndent (h : g.WorksOn p o) (indent : Int) : (g.withIndent indent).WorksOn p o :=
  ⟨h.options, h.file, h.pointerSize, h.scope, h.natural, h.labels, h.distinct⟩

end Generator.WorksOn

namespace Generate

variable {g : Generator ι} {p : Program ι} {o : Options}

theorem emit_gives {op : Asm.Operation} {a : Asm.Emitter} (h : g.asm.respond op = (.ok (), a)) :
    Gives (emit op) g () { g with asm := a } := by
  rw [Gives, emit, run_bind, run_get]
  dsimp only
  rw [h]
  rfl

theorem emit_throws {op : Asm.Operation} {a : Asm.Emitter} {e : Asm.WidthError}
    (h : g.asm.respond op = (.error e, a)) :
    (emit op).run.run g = (.error (.width g.file e), { g with asm := a }) := by
  rw [emit, run_bind, run_get]
  dsimp only
  rw [h]
  rfl

theorem emit_directive_gives (g : Generator ι) (d : Asm.Directive) :
    Gives (emit (.directive d)) g () (g.line [.directive d]) :=
  rfl

theorem emit_label_gives (g : Generator ι) (name : String) :
    Gives (emit (.label name)) g () (g.line [.label name]) :=
  rfl

theorem comment_gives (g : Generator ι) (text : String) :
    Gives (comment text) g () (g.line (Program.remark g.options text g.asm.commentIndent)) := by
  rw [Gives, comment, run_bind, run_get]
  dsimp only
  rw [Program.remark]
  by_cases hverbose : g.options.feature .verboseAsm = true
  · rw [if_pos hverbose, if_pos hverbose]
    rfl
  · rw [if_neg hverbose, if_neg hverbose, g.line_nil, run_pure]

theorem store_emits (h : g.WorksOn p o) (d? : Option Asm.Directive) (width : Int64) :
    Emits (store d? width) g
      ((Program.stored d? p.file width).map fun e => ([e], g.literals)) [] := by
  cases d? with
  | some d => exact .of_gives h.labels rfl
  | none =>
    rw [Program.stored, ← h.file]
    exact .of_throw rfl

theorem address_emits (h : g.WorksOn p o) (expr : String) :
    Emits (address expr) g
      ((Program.stored (Program.addressDirective? p.types.pointerSize expr) p.file
        p.types.pointerSize).map fun e => ([e], g.literals)) [] := by
  have hstore := store_emits h (Program.addressDirective? p.types.pointerSize expr)
    p.types.pointerSize
  refine .of_run ?_ hstore
  rw [address, run_bind, run_get, ← h.pointerSize]

theorem literalLabel_gives (h : g.WorksOn p o) (s : String) :
    Gives (literalLabel s) g (Literals.label (g.literals.intern s).2)
      (g.after [] (g.literals.intern s).1 []) := by
  have hlookup := g.literals.lookup_labels 0 s
  rw [← h.labels] at hlookup
  rw [Gives, literalLabel, run_bind, run_get]
  dsimp only
  rw [hlookup, Literals.intern]
  cases hs : g.literals.idxOf? s with
  | some i =>
    rw [g.after_literals h.labels, List.append_nil, g.line_nil, Option.map_some, Nat.zero_add]
    rfl
  | none =>
    have hlabels : Literals.labels 0 (g.literals ++ [s]) =
        g.labels ++ [(s, Literals.label g.literals.length)] := by
      rw [Literals.labels_append, ← h.labels, Nat.zero_add]
      rfl
    rw [Generator.after, hlabels, List.append_nil, g.line_nil]
    rfl

theorem warn_gives (h : g.WorksOn p o) (d : Diagnostic) :
    Gives (warn d) g () (g.after [] g.literals [d]) := by
  rw [g.after_literals h.labels, g.line_nil]
  rfl

/-- A directive that is asked for on a condition. -/
theorem optional_emits {c : Prop} [Decidable c] {d : Asm.Directive} {k : Unit → Generate ι Unit}
    {r : Except GenerateError (Listing × Literals)} {w : List Diagnostic}
    (hk : ∀ l, Emits (k ()) (g.line l) r w) :
    Emits (if c then emit (.directive d) >>= k else k ()) g
      (prepend (if c then [.directive d] else []) r) w := by
  by_cases hc : c
  · rw [if_pos hc, if_pos hc]
    exact .line_bind (emit_directive_gives g d) (hk _)
  · have hnothing := hk []
    rw [g.line_nil] at hnothing
    rwa [if_neg hc, if_neg hc, prepend_nil]

section Variables

variable [DecidableEq ι]

theorem symbolOf_gives (h : g.WorksOn p o) (v : Entity ι) :
    Gives (symbolOf v) g (p.scope.symbol v) g := by
  rw [← h.scope]
  rfl

theorem map_bind_pure (x : Except GenerateError Element) (lits : Literals) :
    ((do let e ← x; return (e, lits)) : Except GenerateError (Element × Literals)).map
      (fun (e, lits) => ([e], lits)) = x.map fun e => ([e], lits) := by
  cases x <;> rfl

/-- The initial value of a variable. -/
theorem initialValue_emits (h : g.WorksOn p o) {v : Entity ι} {type : Ty} {init : Initializer ι}
    (htype : v.type = some type) (hinit : v.init = some init) :
    Emits (initialValue v type init) g
      ((p.valueElement (p.scope.symbol v) type init g.literals).map fun (e, lits) => ([e], lits))
      (p.truncationWarning? v).toList := by
  rw [initialValue]
  refine .of_run ((symbolOf_gives h v).run_bind _) ?_
  rw [Program.valueElement, Program.truncationWarning?, htype, hinit]
  obtain ⟨value, target⟩ := init
  cases value with
  | int n =>
    dsimp only
    cases type.isScalar with
    | false => exact .of_throw rfl
    | true =>
      rw [if_pos rfl, map_bind_pure]
      cases Program.fits n type.size with
      | true => exact store_emits h _ _
      | false =>
        rw [← prepend_nil (Except.map _ _)]
        exact Emits.bind (warn_gives h _) (store_emits (h.after [] h.distinct _) _ _)
  | string s =>
    dsimp only
    cases type.isPointer with
    | false => exact .of_throw rfl
    | true =>
      have hinterned := h.after [] (Literals.nodup_intern h.distinct s) []
      rw [if_pos rfl, map_bind_pure, ← prepend_nil (Except.map _ _)]
      exact Emits.bind (literalLabel_gives h s) (address_emits hinterned _)
  | address name offset =>
    dsimp only
    refine .of_run ((show Gives get g g g from rfl).run_bind _) ?_
    rw [h.pointerSize, h.scope]
    cases type.isPointer || (type.isInteger && decide (type.size = p.types.pointerSize)) with
    | false => exact .of_throw rfl
    | true =>
      rw [if_pos rfl, map_bind_pure]
      exact address_emits h _
  | other code => exact .of_throw rfl

/-- The lines of a variable in the order in which they are asked for. -/
theorem variableElements_eq (p : Program ι) (o : Options) {v : Entity ι} {type : Ty}
    {init : Initializer ι} (htype : v.type = some type) (hinit : v.init = some init)
    (lits : Literals) :
    p.variableElements o v lits =
      prepend (Program.remark o s!"{type.spelling} {v.name} ({v.storage.text})" 1)
        (prepend (if !v.isPrivate then [.directive (.globalSymbol (p.scope.symbol v))] else [])
          (prepend [.directive (.align type.alignment)]
            (prepend [.directive (.symbolType (p.scope.symbol v) "@object")]
              (prepend [.directive (.size (p.scope.symbol v) type.size)]
                (prepend [.label (p.scope.symbol v)]
                  ((p.valueElement (p.scope.symbol v) type init lits).map
                    fun (e, lits) => ([e], lits))))))) := by
  rw [Program.variableElements, htype, hinit]
  dsimp only
  cases p.valueElement (p.scope.symbol v) type init lits with
  | ok r => cases v.isPrivate <;> simp [prepend, Except.map, bind, Except.bind, pure, Except.pure]
  | error e => rfl

/-- One variable of the data section, where comments are indented. -/
theorem initialized_emits (h : g.WorksOn p o) (hindent : g.asm.commentIndent = 1) (v : Entity ι) :
    Emits (initialized v) g (p.variableElements o v g.literals)
      (p.truncationWarning? v).toList := by
  have hremark (text : String) :
      Gives (comment text) g () (g.line (Program.remark o text 1)) := by
    rw [← h.options, ← hindent]
    exact comment_gives g text
  rw [initialized]
  refine .of_run ((symbolOf_gives h v).run_bind _) ?_
  cases htype : v.type with
  | none =>
    rw [Program.variableElements, Program.truncationWarning?, htype]
    refine .line_bind (r := .error _) (hremark _) ?_
    refine optional_emits (r := .error _) fun l => ?_
    exact .of_throw (by rw [typeOf, htype]; rfl)
  | some type =>
    have htyped (g : Generator ι) : Gives (typeOf v) g type g := by
      rw [typeOf, htype]
      rfl
    cases hinit : v.init with
    | none =>
      rw [Program.variableElements, Program.truncationWarning?, htype, hinit]
      refine .line_bind (r := .error _) (hremark _) ?_
      refine optional_emits (r := .error _) fun l => ?_
      refine .of_run ((htyped _).run_bind _) ?_
      refine .line_bind (r := .error _) (emit_directive_gives _ _) ?_
      refine .line_bind (r := .error _) (emit_directive_gives _ _) ?_
      refine .line_bind (r := .error _) (emit_directive_gives _ _) ?_
      exact .line_bind (r := .error _) (emit_label_gives _ _) (.of_throw rfl)
    | some init =>
      rw [variableElements_eq p o htype hinit]
      refine .line_bind (hremark _) (optional_emits fun l => ?_)
      refine .of_run ((htyped _).run_bind _) ?_
      refine .line_bind (emit_directive_gives _ _) (.line_bind (emit_directive_gives _ _) ?_)
      refine .line_bind (emit_directive_gives _ _) (.line_bind (emit_label_gives _ _) ?_)
      rw [g.line_line, g.line_line, g.line_line, g.line_line, g.line_line]
      exact initialValue_emits (h.line _) htype hinit

omit [DecidableEq ι] in
theorem nodup_of_stored {d? : Option Asm.Directive} {file : String} {width : Int64}
    {lits lits' : Literals} {e : Element} (hlits : lits.Nodup)
    (h : (do let e ← Program.stored d? file width; return (e, lits)) = Except.ok (e, lits')) :
    lits'.Nodup := by
  cases d? with
  | none => cases h
  | some d =>
    cases h
    exact hlits

theorem nodup_of_valueElement {symbol : String} {type : Ty} {init : Initializer ι}
    {lits lits' : Literals} {e : Element} (hlits : lits.Nodup)
    (h : p.valueElement symbol type init lits = .ok (e, lits')) : lits'.Nodup := by
  unfold Program.valueElement at h
  split at h
  · split at h
    · exact nodup_of_stored hlits h
    · cases h
  · split at h
    · exact nodup_of_stored (Literals.nodup_intern hlits _) h
    · cases h
  · split at h
    · exact nodup_of_stored hlits h
    · cases h
  · cases h

theorem nodup_of_variableElements {v : Entity ι} {l : Listing} {lits lits' : Literals}
    (hlits : lits.Nodup) (h : p.variableElements o v lits = .ok (l, lits')) : lits'.Nodup := by
  unfold Program.variableElements at h
  split at h
  · obtain ⟨r, hvalue, hrest⟩ := bind_eq_ok_iff.mp h
    cases hrest
    exact nodup_of_valueElement hlits hvalue
  · cases h

theorem nodup_of_variableListElements {vars : List (Entity ι)} {l : Listing}
    {lits lits' : Literals} (hlits : lits.Nodup)
    (h : p.variableListElements o vars lits = .ok (l, lits')) : lits'.Nodup := by
  induction vars generalizing l lits with
  | nil =>
    cases h
    exact hlits
  | cons v vars ih =>
    obtain ⟨r, hv, h⟩ := bind_eq_ok_iff.mp h
    obtain ⟨r', hvars, h⟩ := bind_eq_ok_iff.mp h
    cases h
    exact ih (nodup_of_variableElements hlits hv) hvars

theorem nodup_of_dataSection {l : Listing} {lits : Literals}
    (h : p.dataSection o = .ok (l, lits)) : lits.Nodup := by
  obtain ⟨⟨_, lits'⟩, hvars, h⟩ := bind_eq_ok_iff.mp h
  have hdistinct := nodup_of_variableListElements List.nodup_nil hvars
  cases hempty : p.scope.classes.initialized.isEmpty with
  | true =>
    rw [hempty] at h
    cases h
    exact List.nodup_nil
  | false =>
    rw [hempty] at h
    cases h
    exact hdistinct

/-- The variables of the data section, one after the other. -/
theorem forM_initialized_emits (vars : List (Entity ι)) (h : g.WorksOn p o)
    (hindent : g.asm.commentIndent = 1) :
    Emits (vars.forM initialized) g (p.variableListElements o vars g.literals)
      (p.truncationWarnings o vars g.literals) := by
  induction vars generalizing g with
  | nil => exact .nothing h.labels
  | cons v vars ih =>
    have hv := initialized_emits h hindent v
    rw [List.forM_eq_forM, List.forM_cons, Program.variableListElements,
      Program.truncationWarnings]
    cases hresult : p.variableElements o v g.literals with
    | error e =>
      rw [hresult] at hv
      rw [List.append_nil]
      exact hv.bind_error
    | ok r =>
      rw [hresult] at hv
      have hworks := h.after r.1 (nodup_of_variableElements h.distinct hresult)
        (p.truncationWarning? v).toList
      exact Emits.bind (f := fun _ => vars.forM initialized) hv (ih hworks hindent)

end Variables

theorem emit_indentComment_gives (g : Generator ι) :
    Gives (emit .indentComment) g () (g.withIndent (g.asm.commentIndent + 1)) :=
  rfl

theorem emit_unindentComment_gives (g : Generator ι) :
    Gives (emit .unindentComment) g () (g.withIndent
      (if 0 < g.asm.commentIndent then g.asm.commentIndent - 1 else g.asm.commentIndent)) := by
  have hrun : (emit .unindentComment).run.run g = (.ok (), { g with
      asm := if 0 < g.asm.commentIndent then
        { g.asm with commentIndent := g.asm.commentIndent - 1 } else g.asm }) := rfl
  rw [Gives, hrun, Generator.withIndent]
  split <;> rfl

/-- Steps with comments that are indented, and are not any longer afterwards. -/
theorem indented_emits {x : Generate ι Unit} {r : Except GenerateError (Listing × Literals)}
    {w : List Diagnostic} (hindent : g.asm.commentIndent = 0) (hx : Emits x (g.withIndent 1) r w) :
    Emits (emit .indentComment >>= fun _ => tryFinally x (emit .unindentComment)) g r w := by
  have hopen := emit_indentComment_gives g
  rw [hindent] at hopen
  have hrun : (emit .indentComment >>= fun _ => tryFinally x (emit .unindentComment)).run.run g =
      (tryFinally x (emit .unindentComment)).run.run (g.withIndent 1) :=
    hopen.run_bind _
  rw [run_tryFinally] at hrun
  cases r with
  | ok r =>
    have hclosed : ((g.withIndent 1).after r.1 r.2 w).withIndent 0 = g.after r.1 r.2 w := by
      rw [← hindent]
      rfl
    rw [show x.run.run _ = _ from hx] at hrun
    dsimp only at hrun
    rw [show (emit .unindentComment).run.run _ = _ from emit_unindentComment_gives _] at hrun
    exact hrun.trans (congrArg (Prod.mk _) hclosed)
  | error e =>
    obtain ⟨g', hg', hscope, hwarnings⟩ := hx
    rw [hg'] at hrun
    dsimp only at hrun
    rw [show (emit .unindentComment).run.run _ = _ from emit_unindentComment_gives _] at hrun
    exact ⟨_, hrun, hscope, hwarnings⟩

/-- The classes of a tree that is frozen already. -/
theorem classes_gives (h : g.WorksOn p o) (hfrozen : p.scope.frozen = true) :
    Gives classes g p.scope.classes g := by
  have hscope : g.scope.freeze = g.scope := by
    rw [h.scope]
    exact Scope.Tree.freeze_of_frozen hfrozen
  have hrun : classes.run.run g = (.ok g.scope.classes, { g with scope := g.scope.freeze }) := rfl
  rw [Gives, hrun, hscope, ← h.scope]

/-- The lines of some of the literals, whose labels are found among those of all. -/
theorem forM_literals_emits (front back : Literals)
    {labels : List (String × String)} (hlabels : labels = Literals.labels 0 (front ++ back))
    (hdistinct : (front ++ back).Nodup) (h : g.labels = g.literals.labels 0) :
    Emits (back.forM fun s => do
        emit (.label ((labels.lookup s).getD ""))
        emit (.directive (.string s))) g
      (.ok (Program.literalElements front.length back, g.literals)) [] := by
  induction back generalizing front g with
  | nil => exact .nothing h
  | cons s back ih =>
    have hlookup : labels.lookup s = some (Literals.label front.length) := by
      rw [hlabels, Literals.lookup_labels, Literals.idxOf?_of_nodup hdistinct, Option.map_some,
        Nat.zero_add]
    have hfirst : Gives (do
          emit (.label ((labels.lookup s).getD ""))
          emit (.directive (.string s))) g ()
        (g.line [.label (Literals.label front.length), .directive (.string s)]) := by
      rw [hlookup, Gives, (emit_label_gives g _).run_bind]
      exact (emit_directive_gives _ _).trans (congrArg (Prod.mk _) (g.line_line _ _))
    have hrest := ih (front ++ [s])
      (g := g.line [.label (Literals.label front.length), .directive (.string s)])
      (by rw [hlabels, List.append_assoc, List.singleton_append])
      (by rwa [List.append_assoc, List.singleton_append]) h
    rw [List.length_append] at hrest
    rw [List.forM_eq_forM, List.forM_cons, Program.literalElements]
    exact .line_bind (f := fun _ => back.forM _) hfirst hrest

/-- The section of the literals. -/
theorem literalSection_emits (h : g.WorksOn p o) (hindent : g.asm.commentIndent = 0) :
    Emits literalSection g (.ok (Program.literalSection o g.literals, g.literals)) [] := by
  rw [literalSection, Program.literalSection]
  refine .of_run ((show Gives get g g g from rfl).run_bind _) ?_
  cases hempty : g.literals.isEmpty with
  | true => exact .nothing h.labels
  | false =>
    have hremark : Gives (comment "string literals") (g.line [.directive (.inSection ".rodata")]) ()
        ((g.line [.directive (.inSection ".rodata")]).line
          (Program.remark o "string literals" 0)) := by
      rw [← h.options, ← hindent]
      exact comment_gives _ _
    have hlines := forM_literals_emits [] g.literals h.labels h.distinct
      (g := (g.line [.directive (.inSection ".rodata")]).line
        (Program.remark o "string literals" 0)) h.labels
    have hshape : (Except.ok ((.directive (.inSection ".rodata") ::
          Program.remark o "string literals" 0 ++ Program.literalElements 0 g.literals),
          g.literals)) =
        prepend [.directive (.inSection ".rodata")] (prepend (Program.remark o "string literals" 0)
          (.ok (Program.literalElements 0 g.literals, g.literals))) := rfl
    simp only [Bool.false_eq_true, if_false, hshape]
    exact .line_bind (emit_directive_gives g _) (.line_bind hremark hlines)

theorem register_gives (h : g.WorksOn p o) {c : Asm.RegisterClass} {r : Asm.Register}
    (hr : c.atWidth o.wordSize = .ok r) : Gives (register c) g r g := by
  rw [← h.natural] at hr
  rw [Gives, register, run_bind, run_get]
  dsimp only
  rw [hr, run_pure]

theorem register_fails (h : g.WorksOn p o) {c : Asm.RegisterClass} {e : Asm.WidthError}
    (he : c.atWidth o.wordSize = .error e) (f : Asm.Register → Generate ι Unit) :
    Emits (register c >>= f) g (.error (.width p.file e)) [] := by
  rw [← h.natural] at he
  refine .of_throw ?_
  rw [run_bind, register, run_bind, run_get]
  dsimp only
  rw [he, run_throw, h.file]

theorem respond_mov (a : Asm.Emitter) (x y : Asm.Operand) :
    a.respond (.mov x y) =
      match Asm.suffixIn "mov" a.natural with
      | .ok suffix =>
        (.ok (), { a with listing := a.listing ++ [.instruction "mov" suffix [x, y]] })
      | .error e => (.error e, a) := by
  have hrun : a.respond (.mov x y) = (Asm.Emit.sized a.natural "mov" [x, y]).run.run a := rfl
  rw [hrun, Asm.Emit.sized, run_bind, run_ofExcept]
  cases Asm.suffixIn "mov" a.natural with
  | ok suffix =>
    dsimp only
    rw [String.empty_append]
    rfl
  | error e => rfl

theorem emit_mov_emits (h : g.WorksOn p o) (x y : Asm.Operand) :
    Emits (emit (.mov x y)) g
      (((Asm.suffixIn "mov" o.wordSize).mapError (.width p.file)).map
        fun suffix => ([.instruction "mov" suffix [x, y]], g.literals)) [] := by
  have hrespond := respond_mov g.asm x y
  rw [← h.natural, ← h.file]
  cases hsuffix : Asm.suffixIn "mov" g.asm.natural with
  | ok suffix =>
    rw [hsuffix] at hrespond
    exact .of_gives h.labels (emit_gives hrespond)
  | error e =>
    rw [hsuffix] at hrespond
    exact .of_throw (emit_throws hrespond)

theorem thunkCode_emits (h : g.WorksOn p o) :
    Emits (do
        let sp ← register .sp
        let bx ← register .bx
        emit (.mov (.indirect sp 0) (.register bx))
        emit .ret) g
      (((Program.thunkCode o.wordSize).mapError (.width p.file)).map fun l => (l, g.literals))
      [] := by
  rw [Program.thunkCode]
  cases hsp : Asm.RegisterClass.sp.atWidth o.wordSize with
  | error e => exact register_fails h hsp _
  | ok sp =>
    refine .of_run ((register_gives h hsp).run_bind _) ?_
    cases hbx : Asm.RegisterClass.bx.atWidth o.wordSize with
    | error e => exact register_fails h hbx _
    | ok bx =>
      refine .of_run ((register_gives h hbx).run_bind _) ?_
      have hmov := emit_mov_emits h (.indirect sp 0) (.register bx)
      cases hsuffix : Asm.suffixIn "mov" o.wordSize with
      | error e =>
        rw [hsuffix] at hmov
        exact hmov.bind_error
      | ok suffix =>
        rw [hsuffix] at hmov
        exact .bind (f := fun _ => emit .ret) hmov
          (.of_gives (l := [.instruction "ret" "" []]) rfl rfl)

/-- The helper for position-independent code. -/
theorem thunk_emits (h : g.WorksOn p o) :
    Emits thunk g ((Program.thunkElements p.file o.wordSize).map fun l => (l, g.literals)) [] := by
  have hshape : (Program.thunkElements p.file o.wordSize).map (fun l => (l, g.literals)) =
      prepend [.directive (.inGroup (".text." ++ Program.picThunk) "\"axG\"" "@progbits"
          Program.picThunk "comdat")]
        (prepend [.directive (.globalSymbol Program.picThunk)]
          (prepend [.directive (.hidden Program.picThunk)]
            (prepend [.directive (.symbolType Program.picThunk "@function")]
              (prepend [.label Program.picThunk]
                (((Program.thunkCode o.wordSize).mapError (.width p.file)).map
                  fun l => (l, g.literals)))))) := by
    rw [Program.thunkElements]
    cases Program.thunkCode o.wordSize <;> rfl
  rw [thunk, hshape]
  refine .line_bind (emit_directive_gives _ _) (.line_bind (emit_directive_gives _ _) ?_)
  refine .line_bind (emit_directive_gives _ _) (.line_bind (emit_directive_gives _ _) ?_)
  refine .line_bind (emit_label_gives _ _) ?_
  rw [g.line_line, g.line_line, g.line_line, g.line_line]
  exact thunkCode_emits (h.line _)

/-- A loop that only gives warnings. -/
theorem forM_warn_gives (step : Entity ι → Generate ι Unit) (w : Entity ι → List Diagnostic)
    (hstep : ∀ g : Generator ι, g.WorksOn p o →
      ∀ v, Gives (step v) g () (g.after [] g.literals (w v)))
    (vars : List (Entity ι)) (h : g.WorksOn p o) :
    Gives (vars.forM step) g () (g.after [] g.literals (vars.flatMap w)) := by
  induction vars generalizing g with
  | nil =>
    rw [List.flatMap_nil, g.after_literals h.labels, List.append_nil, g.line_nil]
    rfl
  | cons v vars ih =>
    rw [List.forM_eq_forM, List.forM_cons, List.flatMap_cons, Gives, (hstep g h v).run_bind]
    refine (ih (h.after [] h.distinct (w v))).trans ?_
    rw [Emits.after_after]
    rfl

/-- The helper, if it is asked for, and what follows it. -/
theorem helper_emits {k : Unit → Generate ι Unit} {l' : Listing} (h : g.WorksOn p o)
    (hk : ∀ l, Emits (k ()) (g.after l g.literals []) (.ok (l', g.literals)) []) :
    Emits (if o.feature .pic then thunk >>= k else k ()) g
      (((p.helper o).map (· ++ l')).map fun l => (l, g.literals)) [] := by
  rw [Program.helper]
  cases o.feature .pic with
  | true =>
    have hshape : (Program.thunkElements p.file o.wordSize).map (· ++ l') = do
        let l ← Program.thunkElements p.file o.wordSize
        let l' ← .ok l'
        return l ++ l' := by
      cases Program.thunkElements p.file o.wordSize <;> rfl
    simp only [if_true, hshape]
    exact .bind_lines (thunk_emits h) fun l _ => hk l
  | false =>
    have hnothing := hk []
    rwa [g.after_literals h.labels, g.line_nil, List.append_nil] at hnothing

theorem note_emits (h : g.WorksOn p o) :
    Emits (if o.feature .gnuStack then
        emit (.directive (.inSection ".note.GNU-stack,\"\",@progbits")) else pure ()) g
      (.ok (Program.note o, g.literals)) [] := by
  rw [Program.note]
  cases o.feature .gnuStack with
  | true => exact .of_gives h.labels rfl
  | false => exact .nothing h.labels

section Variables

variable [DecidableEq ι]

/-- The data section. -/
theorem dataSection_emits (h : g.WorksOn p o) (hfrozen : p.scope.frozen = true)
    (hindent : g.asm.commentIndent = 0) (hlits : g.literals = []) :
    Emits dataSection g (p.dataSection o)
      (p.truncationWarnings o p.scope.classes.initialized []) := by
  rw [dataSection, Program.dataSection]
  refine .of_run ((classes_gives h hfrozen).run_bind _) ?_
  dsimp only
  cases hvars : p.scope.classes.initialized with
  | nil =>
    have hnothing := Emits.nothing h.labels
    rw [hlits] at hnothing
    exact hnothing
  | cons v vars =>
    have hremark : Gives (comment "initialized data") (g.line [.directive .data]) ()
        ((g.line [.directive .data]).line (Program.remark o "initialized data" 0)) := by
      rw [← h.options, ← hindent]
      exact comment_gives _ _
    have hshape : (do
          let (l, lits) ← p.variableListElements o (v :: vars) []
          if (v :: vars).isEmpty then
            return ([], [])
          return (.directive .data :: Program.remark o "initialized data" 0 ++ l, lits)) =
        prepend [.directive .data] (prepend (Program.remark o "initialized data" 0)
          (p.variableListElements o (v :: vars) [])) := by
      cases p.variableListElements o (v :: vars) [] <;> rfl
    rw [hshape]
    have hworks := (h.line [.directive .data]).line (Program.remark o "initialized data" 0)
    have hlines := forM_initialized_emits (v :: vars) (hworks.withIndent 1) rfl
    have hnone : (((g.line [.directive .data]).line
        (Program.remark o "initialized data" 0)).withIndent 1).literals = [] := hlits
    rw [hnone] at hlines
    refine .line_bind (emit_directive_gives g _) (.line_bind hremark ?_)
    exact indented_emits hindent hlines

/-- One variable that is left to the linker. -/
theorem common_emits (h : g.WorksOn p o) (v : Entity ι) :
    Emits (common v) g ((p.commonElements v).map fun l => (l, g.literals)) [] := by
  rw [common, Program.commonElements]
  refine .of_run ((symbolOf_gives h v).run_bind _) ?_
  cases htype : v.type with
  | none =>
    refine optional_emits (r := .error _) fun l => ?_
    exact .of_throw (by rw [typeOf, htype]; rfl)
  | some type =>
    change Emits _ g (prepend (if v.isPrivate then [.directive (.localSymbol (p.scope.symbol v))]
      else []) (.ok ([.directive (.common (p.scope.symbol v) type.size type.alignment)],
        g.literals))) []
    refine optional_emits fun l => .of_gives (g := g.line l) h.labels ?_
    rw [typeOf, htype]
    rfl

theorem forM_common_emits (vars : List (Entity ι)) (h : g.WorksOn p o) :
    Emits (vars.forM common) g
      (((vars.mapM p.commonElements).map List.flatten).map fun l => (l, g.literals)) [] := by
  induction vars generalizing g with
  | nil => exact .nothing h.labels
  | cons v vars ih =>
    have hshape : ((v :: vars).mapM p.commonElements).map List.flatten = do
        let l ← p.commonElements v
        let l' ← (vars.mapM p.commonElements).map List.flatten
        return l ++ l' := by
      rw [List.mapM_cons]
      cases p.commonElements v with
      | error e => rfl
      | ok l => cases vars.mapM p.commonElements <;> rfl
    rw [List.forM_eq_forM, List.forM_cons, hshape]
    exact .bind_lines (f := fun _ => vars.forM common) (common_emits h v)
      fun l _ => ih (h.after l h.distinct [])

/-- The variables that are left to the linker. -/
theorem commonSymbols_emits (h : g.WorksOn p o) (hfrozen : p.scope.frozen = true)
    (hindent : g.asm.commentIndent = 0) :
    Emits commonSymbols g ((p.commonSymbols o).map fun l => (l, g.literals)) [] := by
  rw [commonSymbols, Program.commonSymbols]
  refine .of_run ((classes_gives h hfrozen).run_bind _) ?_
  dsimp only
  cases p.scope.classes.common with
  | nil => exact .nothing h.labels
  | cons v vars =>
    have hremark : Gives (comment "common symbols") g ()
        (g.line (Program.remark o "common symbols" 0)) := by
      rw [← h.options, ← hindent]
      exact comment_gives _ _
    have hshape : ((do
          let ls ← (v :: vars).mapM p.commonElements
          return (if (v :: vars).isEmpty then [] else Program.remark o "common symbols" 0) ++
            ls.flatten) : Except GenerateError Listing).map (fun l => (l, g.literals)) =
        prepend (Program.remark o "common symbols" 0)
          ((((v :: vars).mapM p.commonElements).map List.flatten).map
            fun l => (l, g.literals)) := by
      cases (v :: vars).mapM p.commonElements <;> rfl
    rw [hshape]
    exact .line_bind hremark (forM_common_emits (v :: vars) (h.line _))

theorem externWarnings_eq (p : Program ι) :
    p.externWarnings = p.scope.classes.externals.flatMap fun v =>
      if !p.scope.isReferred v.id then
        [⟨.externUnused, s!"extern variable '{v.name}' is not referenced by any initializer"⟩]
      else [] := by
  rw [Program.externWarnings]
  induction p.scope.classes.externals with
  | nil => rfl
  | cons v vars ih =>
    rw [List.flatMap_cons, ← ih]
    cases hreferred : p.scope.isReferred v.id <;> simp [hreferred]

theorem warnCommon_gives (h : g.WorksOn p o) (v : Entity ι) :
    Gives (do
        let symbol ← symbolOf v
        warn ⟨.common, s!"'{symbol}' is left to the linker as a common symbol"⟩) g ()
      (g.after [] g.literals
        [⟨.common, s!"'{p.scope.symbol v}' is left to the linker as a common symbol"⟩]) := by
  rw [Gives, (symbolOf_gives h v).run_bind]
  exact warn_gives h _

theorem warnExtern_gives (h : g.WorksOn p o) (v : Entity ι) (d : Diagnostic) :
    Gives (do if !(← get).scope.isReferred v.id then warn d) g ()
      (g.after [] g.literals (if !p.scope.isReferred v.id then [d] else [])) := by
  rw [Gives, run_bind, run_get, ← h.scope]
  dsimp only
  cases g.scope.isReferred v.id with
  | true =>
    rw [g.after_literals h.labels, g.line_nil]
    simp only [Bool.not_true, Bool.false_eq_true, if_false, List.append_nil]
    rfl
  | false => exact warn_gives h d

/-- The warnings that do not depend on initial values. -/
theorem warnings_gives (h : g.WorksOn p o) (hfrozen : p.scope.frozen = true) :
    Gives warnings g () (g.after [] g.literals (p.commonWarnings ++ p.externWarnings)) := by
  have hcommon := forM_warn_gives _ _ (fun _ h v => warnCommon_gives h v) p.scope.classes.common h
  rw [← List.map_eq_flatMap] at hcommon
  have hworks := h.after [] h.distinct p.commonWarnings
  have hunused := forM_warn_gives _ _ (fun _ h v => warnExtern_gives h v
      ⟨.externUnused, s!"extern variable '{v.name}' is not referenced by any initializer"⟩)
    p.scope.classes.externals hworks
  rw [← externWarnings_eq] at hunused
  rw [Gives, warnings, (classes_gives h hfrozen).run_bind, hcommon.run_bind]
  refine ((classes_gives hworks hfrozen).run_bind _).trans (hunused.trans ?_)
  rw [Emits.after_after]
  rfl

/-- What comes after the literals. -/
theorem ending_emits (h : g.WorksOn p o) (hfrozen : p.scope.frozen = true)
    (hindent : g.asm.commentIndent = 0) :
    Emits (do
        commonSymbols
        if o.feature .pic then
          thunk
        if o.feature .gnuStack then
          emit (.directive (.inSection ".note.GNU-stack,\"\",@progbits"))) g
      ((p.ending o).map fun l => (l, g.literals)) [] := by
  have hshape : p.ending o = do
      let l ← p.commonSymbols o
      let l' ← (p.helper o).map (· ++ Program.note o)
      return l ++ l' := by
    rw [Program.ending]
    cases p.commonSymbols o with
    | error e => rfl
    | ok l =>
      cases p.helper o with
      | error e => rfl
      | ok l' => exact congrArg Except.ok (List.append_assoc l l' (Program.note o))
  rw [hshape]
  refine .bind_lines (commonSymbols_emits h hfrozen hindent) fun l _ => ?_
  have hworks := h.after l h.distinct []
  exact helper_emits hworks fun l => note_emits (hworks.after l h.distinct [])

/-- The data section and all that comes after it. -/
theorem sections_emits (h : g.WorksOn p o) (hfrozen : p.scope.frozen = true)
    (hindent : g.asm.commentIndent = 0) (hlits : g.literals = []) :
    Emits (do
        dataSection
        literalSection
        commonSymbols
        if o.feature .pic then
          thunk
        if o.feature .gnuStack then
          emit (.directive (.inSection ".note.GNU-stack,\"\",@progbits"))) g
      (p.sections o) (p.truncationWarnings o p.scope.classes.initialized []) := by
  have hdata := dataSection_emits h hfrozen hindent hlits
  rw [Program.sections]
  cases hsection : p.dataSection o with
  | error e =>
    rw [hsection] at hdata
    exact hdata.bind_error
  | ok r =>
    obtain ⟨data, lits⟩ := r
    rw [hsection] at hdata
    have hworks := h.after data (nodup_of_dataSection hsection)
      (p.truncationWarnings o p.scope.classes.initialized [])
    have hliterals := literalSection_emits hworks hindent
    have hending := ending_emits
      (hworks.after (Program.literalSection o lits) hworks.distinct []) hfrozen hindent
    have hshape : (do
          let (data, lits) ← Except.ok (data, lits)
          let ending ← p.ending o
          return (data ++ Program.literalSection o lits ++ ending, lits)) =
        prepend data (prepend (Program.literalSection o lits)
          ((p.ending o).map fun l => (l, lits))) := by
      cases p.ending o with
      | error e => rfl
      | ok l => exact congrArg (fun l => Except.ok (l, lits)) (List.append_assoc data _ l)
    rw [hshape, ← List.append_nil (p.truncationWarnings o p.scope.classes.initialized [])]
    exact Emits.bind hdata (Emits.bind hliterals hending)

/-- All of the listing. -/
theorem listing_emits (h : g.WorksOn p o) (hfrozen : p.scope.frozen = true)
    (hindent : g.asm.commentIndent = 0) (hlits : g.literals = []) :
    Emits listing g (prepend [.directive (.file p.file)] (p.sections o)) (p.warningsOf o) := by
  have hworks := h.after [] h.distinct (p.commonWarnings ++ p.externWarnings)
  have hsections := sections_emits (hworks.line [.directive (.file p.file)]) hfrozen hindent hlits
  rw [listing, ← prepend_nil (prepend _ _)]
  refine Emits.bind (warnings_gives h hfrozen) ?_
  refine .of_run ((show Gives get _ _ _ from rfl).run_bind _) ?_
  rw [hworks.options, hworks.file]
  exact .line_bind (emit_directive_gives _ _) hsections

end Variables

end Generate

/-! ## The whole -/

namespace Program

variable [DecidableEq ι]

/-- A generation classifies the tree first, so it may be classified before. -/
theorem run_listing_frozen (p : Program ι) (o : Options) :
    Generate.listing.run.run (p.generator o) = Generate.listing.run.run (p.frozen.generator o) := by
  have hclasses (f : Scope.Classes ι → Generate ι Unit) :
      (Generate.classes >>= f).run.run (p.generator o) =
        (Generate.classes >>= f).run.run (p.frozen.generator o) := by
    have hrun (q : Program ι) : (Generate.classes >>= f).run.run (q.generator o) =
        (f q.scope.classes).run.run (q.frozen.generator o) := rfl
    have htwice : p.frozen.frozen = p.frozen :=
      congrArg (fun scope => { p with scope }) p.scope.freeze_freeze
    have hsame : p.frozen.scope.classes = p.scope.classes := p.scope.classes_freeze
    rw [hrun, hrun, htwice, hsame]
  rw [Generate.listing, run_bind, run_bind, Generate.warnings, hclasses]

/-- **What a generation leaves behind.**  The result and the warnings are those of the program with
its tree classified, and so is the tree. -/
theorem generate_eq (p : Program ι) (o : Options) :
    p.generate o =
      { warnings := p.frozen.warningsOf o
        result := p.frozen.listing o
        scope := p.scope.freeze } := by
  have hworks : (p.frozen.generator o).WorksOn p.frozen o :=
    ⟨rfl, rfl, rfl, rfl, rfl, rfl, List.nodup_nil⟩
  have hlisting := Generate.listing_emits hworks p.scope.frozen_freeze rfl rfl
  rw [generate, run_listing_frozen, listing]
  cases hsections : p.frozen.sections o with
  | ok r =>
    rw [hsections] at hlisting
    rw [show Generate.listing.run.run _ = _ from hlisting]
    rfl
  | error e =>
    rw [hsections] at hlisting
    obtain ⟨g, hg, hscope, hwarnings⟩ := hlisting
    rw [hg]
    dsimp only
    rw [hscope, hwarnings]
    rfl

theorem result_generate (p : Program ι) (o : Options) :
    (p.generate o).result = p.frozen.listing o := by
  rw [generate_eq]

theorem warnings_generate (p : Program ι) (o : Options) :
    (p.generate o).warnings = p.frozen.warningsOf o := by
  rw [generate_eq]

/-! ## The dump -/

/-- Some variables of a tree, under a title. -/
def sectionText (t : Scope.Tree ι) (title : String) (vars : List (Scope.Entity ι)) :
    Except Fault String := do
  let lines ← vars.mapM (dumpVariable t)
  return title ++ ":\n" ++ String.join lines

/-- The dump of a tree that is frozen. -/
def dumpText (t : Scope.Tree ι) : Except Fault String := do
  let initialized ← sectionText t "initialized" t.classes.initialized
  let common ← sectionText t "common" t.classes.common
  let externals ← sectionText t "extern" t.classes.externals
  let functions := t.functions.map fun f => "  " ++ f.text ++ "\n"
  return initialized ++ common ++ externals ++ "functions:\n" ++ String.join functions

theorem run_dumpSection (title : String) (vars : Scope.Classes ι → List (Scope.Entity ι))
    (t : Scope.Tree ι) :
    (dumpSection title vars).run.run t =
      (sectionText t.freeze title (vars t.freeze.classes), t.freeze) := by
  have hclassify : t.classify = (t.freeze.classes, t.freeze) :=
    Prod.ext t.classes_freeze.symm rfl
  simp only [dumpSection, sectionText, run_bind, run_modifyGet, run_get, run_ofExcept, hclassify]
  cases (vars t.freeze.classes).mapM (dumpVariable t.freeze) <;> rfl

/-- A dump shows the tree as it is once it is classified, and leaves it so. -/
theorem run_dump (t : Scope.Tree ι) : dump.run.run t = (dumpText t.freeze, t.freeze) := by
  rw [dump, run_bind, run_dumpSection, dumpText]
  cases sectionText t.freeze "initialized" t.freeze.classes.initialized with
  | error e => rfl
  | ok initialized =>
    dsimp only
    rw [run_bind, run_dumpSection, t.freeze_freeze]
    cases sectionText t.freeze "common" t.freeze.classes.common with
    | error e => rfl
    | ok common =>
      dsimp only
      rw [run_bind, run_dumpSection, t.freeze_freeze]
      cases sectionText t.freeze "extern" t.freeze.classes.externals <;> rfl

end Program

end Cflat
