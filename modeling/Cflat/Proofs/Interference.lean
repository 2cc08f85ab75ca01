import Cflat.Proofs.Symbols

/-!
# Options that do not interfere

What each option has a hand in.  Comments are the only effect of asking for a verbose
listing, the settings of warnings choose among the warnings and nothing else, and the
helper and the stack note come behind a listing that does not know of them.

* Two runs.  `Alike` relates computations that fail with the same error or succeed with
  related results; it goes through a sequence of steps like an invariant.
* Comments.  Under two sets of options each function of generation is alike up to the
  comments.
* Warnings.  They are made from the variables, so no option changes them.
* The end of a listing: `lines_eq_append`.
-/

namespace Cflat

/-! ## Two runs -/

/-- Two computations that fail with the same error, or succeed with related results. -/
inductive Alike {ε α β : Type} (R : α → β → Prop) : Except ε α → Except ε β → Prop
  | ok {a : α} {b : β} (h : R a b) : Alike R (.ok a) (.ok b)
  | error (e : ε) : Alike R (.error e) (.error e)

namespace Alike

variable {ε α β γ δ : Type} {R : α → β → Prop} {S : γ → δ → Prop}

theorem refl {R : α → α → Prop} (h : ∀ a, R a a) (x : Except ε α) : Alike R x x := by
  cases x with
  | error e => exact .error e
  | ok a => exact .ok (h a)

theorem pure {a : α} {b : β} (h : R a b) :
    Alike R (Pure.pure a : Except ε α) (Pure.pure b) :=
  .ok h

theorem bind {x : Except ε α} {y : Except ε β} {f : α → Except ε γ} {g : β → Except ε δ}
    (h : Alike R x y) (hstep : ∀ a b, R a b → Alike S (f a) (g b)) :
    Alike S (x >>= f) (y >>= g) := by
  cases h with
  | ok hab => exact hstep _ _ hab
  | error e => exact .error e

/-- Results that a function does not tell apart. -/
theorem map_eq {x y : Except ε α} {f : α → γ} (h : Alike (fun a b => f a = f b) x y) :
    x.map f = y.map f := by
  cases h with
  | ok hab => exact congrArg Except.ok hab
  | error e => rfl

end Alike

/-- Options that differ at most in the comments they ask for and in warnings. -/
structure Options.SameCode (o o' : Options) : Prop where
  feature : ∀ f, f ≠ .verboseAsm → o.feature f = o'.feature f
  wordSize : o.wordSize = o'.wordSize

theorem Options.sameCode_setFeature (o : Options) (on : Bool) :
    o.SameCode (o.setFeature .verboseAsm on) := by
  refine ⟨fun f hf => ?_, rfl⟩
  rw [Options.feature_setFeature, if_neg hf]

namespace Asm

/-- Whether an element is a comment. -/
def Element.isComment : Element → Bool
  | comment _ _ => true
  | _ => false

/-- What an assembler sees of a listing. -/
def Listing.withoutComments (l : Listing) : Listing :=
  l.filter (!·.isComment)

@[simp]
theorem Listing.withoutComments_append (l l' : Listing) :
    Listing.withoutComments (l ++ l') = l.withoutComments ++ l'.withoutComments :=
  List.filter_append l l'

@[simp]
theorem Listing.withoutComments_cons_directive (d : Directive) (l : Listing) :
    Listing.withoutComments (.directive d :: l) = .directive d :: l.withoutComments :=
  rfl

end Asm

namespace Program

open Asm (Listing Element Directive)
open Scope (Entity)

/-! ## Comments -/

@[simp]
theorem withoutComments_remark (o : Options) (text : String) (indent : Int) :
    (remark o text indent).withoutComments = [] := by
  unfold remark
  split <;> rfl

/-- The same literals, and the same lines up to the comments. -/
def SameLines (x y : Listing × Literals) : Prop :=
  x.1.withoutComments = y.1.withoutComments ∧ x.2 = y.2

theorem SameLines.refl (x : Listing × Literals) : SameLines x x :=
  ⟨rfl, rfl⟩

variable {ι : Type} [DecidableEq ι] (p : Program ι) (o o' : Options)

theorem variableElements_alike (v : Entity ι) (lits : Literals) :
    Alike SameLines (p.variableElements o v lits) (p.variableElements o' v lits) := by
  unfold variableElements
  cases v.type with
  | none => exact .error _
  | some type =>
    cases v.init with
    | none => exact .error _
    | some init =>
      refine Alike.bind (Alike.refl (fun _ => rfl) _) ?_
      rintro ⟨value, lits'⟩ _ rfl
      refine .pure ⟨?_, rfl⟩
      simp only [Listing.withoutComments_append, withoutComments_remark]

theorem variableListElements_alike (vars : List (Entity ι)) (lits : Literals) :
    Alike SameLines (p.variableListElements o vars lits) (p.variableListElements o' vars lits) := by
  induction vars generalizing lits with
  | nil => exact .ok (.refl _)
  | cons v vars ih =>
    refine (p.variableElements_alike o o' v lits).bind ?_
    rintro ⟨l₁, lits₁⟩ ⟨l₁', _⟩ ⟨hfirst, rfl⟩
    refine (ih lits₁).bind ?_
    rintro ⟨l₂, lits₂⟩ ⟨l₂', _⟩ ⟨hrest, rfl⟩
    refine .pure ⟨?_, rfl⟩
    simp only [Listing.withoutComments_append] at hfirst hrest ⊢
    rw [hfirst, hrest]

theorem dataSection_alike : Alike SameLines (p.dataSection o) (p.dataSection o') := by
  refine (p.variableListElements_alike o o' _ []).bind ?_
  rintro ⟨l, lits⟩ ⟨l', _⟩ ⟨hlines, rfl⟩
  dsimp only
  split
  · exact .pure (.refl _)
  · refine .pure ⟨?_, rfl⟩
    simp only [List.cons_append, Listing.withoutComments_cons_directive,
      Listing.withoutComments_append, withoutComments_remark]
    rw [hlines]

theorem commonSymbols_alike :
    Alike (fun l l' => l.withoutComments = l'.withoutComments) (p.commonSymbols o)
      (p.commonSymbols o') := by
  refine Alike.bind (Alike.refl (fun _ => rfl) _) ?_
  rintro ls _ rfl
  refine .pure ?_
  split
  · rfl
  · simp only [Listing.withoutComments_append, withoutComments_remark]

theorem withoutComments_literalSection (lits : Literals) :
    (literalSection o lits).withoutComments = (literalSection o' lits).withoutComments := by
  unfold literalSection
  split
  · rfl
  · simp only [List.cons_append, Listing.withoutComments_cons_directive,
      Listing.withoutComments_append, withoutComments_remark]

theorem ending_alike {o o' : Options} (h : o.SameCode o') :
    Alike (fun l l' => l.withoutComments = l'.withoutComments) (p.ending o) (p.ending o') := by
  have hhelper : p.helper o = p.helper o' := by
    rw [helper, helper, h.feature .pic (by decide), h.wordSize]
  have hnote : note o = note o' := by
    rw [note, note, h.feature .gnuStack (by decide)]
  refine (p.commonSymbols_alike o o').bind fun common common' hcommon => ?_
  rw [hhelper, hnote]
  refine Alike.bind (Alike.refl (fun _ => rfl) _) ?_
  rintro thunk _ rfl
  refine .pure ?_
  simp only [Listing.withoutComments_append, hcommon]

theorem sections_alike {o o' : Options} (h : o.SameCode o') :
    Alike SameLines (p.sections o) (p.sections o') := by
  refine (p.dataSection_alike o o').bind ?_
  rintro ⟨data, lits⟩ ⟨data', _⟩ ⟨hdata, rfl⟩
  refine (p.ending_alike h).bind fun ending ending' hending => .pure ⟨?_, rfl⟩
  dsimp only at hdata ⊢
  simp only [Listing.withoutComments_append, hdata, hending,
    withoutComments_literalSection o o' lits]

/-- Options for the same code give the same listing up to the comments, or the same error. -/
theorem listing_alike {o o' : Options} (h : o.SameCode o') :
    Alike (fun l l' => l.withoutComments = l'.withoutComments) (p.listing o) (p.listing o') := by
  refine (p.sections_alike h).bind ?_
  rintro ⟨l, lits⟩ ⟨l', _⟩ ⟨hlines, rfl⟩
  refine .pure ?_
  dsimp only at hlines ⊢
  rw [Listing.withoutComments_cons_directive, Listing.withoutComments_cons_directive, hlines]

/-! ## Warnings -/

/-- Comments do not decide which variable fails first. -/
theorem truncationWarnings_eq (vars : List (Entity ι)) (lits : Literals) :
    p.truncationWarnings o vars lits = p.truncationWarnings o' vars lits := by
  induction vars generalizing lits with
  | nil => rfl
  | cons v vars ih =>
    rw [truncationWarnings, truncationWarnings]
    have halike := p.variableElements_alike o o' v lits
    generalize p.variableElements o v lits = x at halike ⊢
    generalize p.variableElements o' v lits = y at halike ⊢
    cases halike with
    | ok h =>
      rename_i a b
      obtain ⟨l, lits₁⟩ := a
      obtain ⟨l', lits₂⟩ := b
      obtain ⟨-, rfl⟩ := h
      dsimp only
      rw [ih]
    | error e => rfl

/-- The warnings of a program are the same under all options. -/
theorem warnings_generate_eq : (p.generate o).warnings = (p.generate o').warnings := by
  rw [warnings_generate, warnings_generate, warningsOf, truncationWarnings_eq _ o o', warningsOf]

/-! ## The end of a listing -/

/-- Options without the helper and without the stack note. -/
def dataOnly : Options :=
  (o.setFeature .pic false).setFeature .gnuStack false

/-- The lines of a program end with those of the helper and the stack note. -/
theorem lines_eq_append :
    p.lines o = p.lines (dataOnly o) ++ (if o.feature .pic then thunkLines o.wordSize else []) ++
      (if o.feature .gnuStack then [stackNote] else []) := by
  have hremark : remark (dataOnly o) = remark o := rfl
  have hvariable : p.variableLines (dataOnly o) = p.variableLines o := rfl
  have hpic : (dataOnly o).feature .pic = false := rfl
  have hnote : (dataOnly o).feature .gnuStack = false := rfl
  simp only [lines, dataLines, literalSection, hremark, hvariable, hpic, hnote,
    Bool.false_eq_true, if_false, List.append_nil]

/-- Options do not interfere.

Options that differ only in comments and in warnings give the same error, or listings that
are the same without their comments.  The diagnostics depend on the settings of warnings
alone.  With the helper, a listing is the one without the helper and the stack note,
followed by the lines of the helper and, if it is asked for, the stack note. -/
theorem options_noninterference (p : Program ι) :
    (∀ o o' : Options, o.SameCode o' →
      (p.generate o).result.map Listing.withoutComments =
        (p.generate o').result.map Listing.withoutComments) ∧
    (∀ o o' : Options, o.warning = o'.warning →
      Diagnostic.render o (p.generate o).warnings =
        Diagnostic.render o' (p.generate o').warnings) ∧
    (∀ (o : Options) (l : Listing), o.feature .pic = true → (p.generate o).result = .ok l →
      ∃ base, (p.generate (dataOnly o)).result = .ok base ∧
        l = base ++ thunkLines o.wordSize ++
          if o.feature .gnuStack then [stackNote] else []) := by
  refine ⟨fun o o' h => ?_, fun o o' h => ?_, fun o l hpic hl => ?_⟩
  · rw [result_generate, result_generate]
    exact (listing_alike _ h).map_eq
  · rw [p.warnings_generate_eq o o', Diagnostic.render, Diagnostic.render, h]
  · rw [result_generate] at hl ⊢
    obtain ⟨hvars, htypes, -, rfl⟩ := listing_eq_ok_iff.mp hl
    refine ⟨_, listing_eq_ok_iff.mpr ⟨hvars, htypes, ?_, rfl⟩, ?_⟩
    · intro hoff
      cases hoff
    · rw [lines_eq_append, hpic, if_pos rfl]

/-- A verbose listing for position-independent code. -/
def verbosePic : Options :=
  (({} : Options).setFeature .verboseAsm true).setFeature .pic true

theorem options_noninterference_sample : ∃ p l l' base,
    Document.sample.load { pointerSize := 4 } = .ok p ∧
      (p.generate verbosePic).result = .ok l ∧
      (p.generate (verbosePic.setFeature .verboseAsm false)).result = .ok l' ∧
      l ≠ l' ∧ l.withoutComments = l'.withoutComments ∧
      (p.generate (dataOnly verbosePic)).result = .ok base ∧
      l = base ++ thunkLines 4 ++ [stackNote] := by
  obtain ⟨hp, l, hl⟩ := @Document.exists_listing { pointerSize := 4 } Document.sample verbosePic
    (by decide +kernel) (by decide +kernel)
  obtain ⟨-, l', hl'⟩ := @Document.exists_listing { pointerSize := 4 } Document.sample
    (verbosePic.setFeature .verboseAsm false) (by decide +kernel) (by decide +kernel)
  obtain ⟨hcomments, -, hend⟩ :=
    options_noninterference (Document.sample.program { pointerSize := 4 })
  have hsame := hcomments _ _ (verbosePic.sameCode_setFeature false)
  rw [hl, hl'] at hsame
  obtain ⟨base, hbase, hsplit⟩ := hend _ l rfl hl
  refine ⟨_, l, l', base, hp, hl, hl', ?_, Except.ok.inj hsame, hbase, hsplit⟩
  rintro rfl
  exact absurd (hl.trans hl'.symm) (by decide +kernel)

end Program

end Cflat
