import Cflat.Proofs.Addresses

/-!
# Literals are shared

Each text that variables start with is held once, in order of first use.  There are three
groups.

* First uses.  `FirstUses` relates the texts in order of use to the literals; interning one
  more text keeps it, and so it holds of the literals of a program.
* Contents of a section: its labels and what puts bytes there.
* The contents of the data section and of the section for literals.
-/

namespace Cflat

open Scope (Entity Initializer)

/-! ## First uses -/

namespace Program.Literals

/-- The literals are the texts that are used, each once and in order of first use. -/
structure FirstUses (uses : List String) (lits : Literals) : Prop where
  nodup : lits.Nodup
  mem_iff : ∀ s, s ∈ lits ↔ s ∈ uses
  ordered : lits.Pairwise fun s s' => uses.idxOf s < uses.idxOf s'

theorem firstUses_nil : FirstUses [] [] :=
  ⟨.nil, by simp, .nil⟩

variable {uses : List String} {lits : Literals}

/-- A text that was used before changes nothing, and a new one comes last. -/
theorem FirstUses.intern (h : FirstUses uses lits) (s : String) :
    FirstUses (uses ++ [s]) (lits.intern s).1 := by
  have hindex {x : String} (hx : x ∈ lits) : (uses ++ [s]).idxOf x = uses.idxOf x :=
    List.idxOf_append_of_mem ((h.mem_iff x).mp hx)
  have hkept : lits.Pairwise fun x y => (uses ++ [s]).idxOf x < (uses ++ [s]).idxOf y := by
    apply h.ordered.imp_of_mem
    intro x y hx hy hlt
    rw [hindex hx, hindex hy]
    exact hlt
  rw [intern_eq]
  by_cases hs : s ∈ lits
  · rw [if_pos hs]
    refine ⟨h.nodup, fun x => ?_, hkept⟩
    rw [List.mem_append, List.mem_singleton, ← h.mem_iff]
    grind
  · rw [if_neg hs]
    have hnew : (uses ++ [s]).idxOf s = uses.length := by
      rw [List.idxOf_append_of_notMem (mt (h.mem_iff s).mpr hs), List.idxOf_cons_self]
      omega
    refine ⟨?_, fun x => ?_, ?_⟩
    · simpa using h.nodup.concat hs
    · simp [h.mem_iff]
    · rw [List.pairwise_append]
      refine ⟨hkept, List.pairwise_singleton _ _, fun x hx y hy => ?_⟩
      rw [List.mem_singleton.mp hy, hnew, hindex hx]
      exact List.idxOf_lt_length_of_mem ((h.mem_iff x).mp hx)

theorem FirstUses.internAll (h : FirstUses uses lits) (texts : List String) :
    FirstUses (uses ++ texts) (lits.internAll texts) := by
  induction texts generalizing uses lits with
  | nil =>
    rw [List.append_nil]
    exact h
  | cons s texts ih =>
    rw [internAll_cons, List.append_cons]
    exact ih (h.intern s)

end Program.Literals

/-! ## Contents of a section -/

namespace Asm

/-- Whether an element stands in the contents of its section, as a place or as bytes. -/
def Element.isContent : Element → Bool
  | label _ | instruction _ _ _ => true
  | directive d => d.isData
  | comment _ _ => false

/-- Whether an element neither opens a section nor adds to one. -/
def Element.isAside (e : Element) : Bool :=
  e.keepsSection && !e.isContent

/-- The contents of the sections that `switch` opens; `inside` says whether the first line
is in one. -/
def Listing.contentsFrom (switch : Directive) (inside : Bool) : Listing → Listing
  | [] => []
  | e :: l =>
    if e.keepsSection then
      (if inside && e.isContent then [e] else []) ++ contentsFrom switch inside l
    else contentsFrom switch (e = .directive switch) l

/-- The contents of the sections that `switch` opens. -/
def Listing.contents (switch : Directive) (l : Listing) : Listing :=
  contentsFrom switch false l

namespace Listing

theorem all_keepsSection_of_isAside {l : Listing} (h : l.all (·.isAside) = true) :
    l.all (·.keepsSection) = true := by
  rw [List.all_eq_true] at h ⊢
  intro e he
  exact (Bool.and_eq_true_iff.mp (h e he)).1

theorem not_mem_of_all_keepsSection {l : Listing} (h : l.all (·.keepsSection) = true)
    {d : Directive} (hd : (Element.directive d).keepsSection = false) :
    .directive d ∉ l := by
  intro hmem
  have hkeeps := List.all_eq_true.mp h _ hmem
  simp [hd] at hkeeps

theorem filter_isContent_of_isAside {l : Listing} (h : l.all (·.isAside) = true) :
    l.filter (·.isContent) = [] := by
  rw [List.all_eq_true] at h
  rw [List.filter_eq_nil_iff]
  intro e he
  simpa using (Bool.and_eq_true_iff.mp (h e he)).2

variable {switch : Directive} {inside : Bool}

/-- Lines that stay in a section add their contents to it. -/
theorem contentsFrom_append {part : Listing} (hpart : part.all (·.keepsSection) = true)
    (l : Listing) :
    contentsFrom switch inside (part ++ l) =
      (if inside then part.filter (·.isContent) else []) ++ contentsFrom switch inside l := by
  induction part with
  | nil => cases inside <;> rfl
  | cons e part ih =>
    rw [List.all_cons, Bool.and_eq_true] at hpart
    rw [List.cons_append, contentsFrom, if_pos hpart.1, ih hpart.2]
    cases inside <;> cases hcontent : e.isContent <;> simp [hcontent]

/-- A section adds its contents if `switch` opens it. -/
theorem contentsFrom_section {d : Directive} (hd : (Element.directive d).keepsSection = false)
    {body : Listing} (hbody : body.all (·.keepsSection) = true) (l : Listing) :
    contentsFrom switch inside (.directive d :: body ++ l) =
      (if d = switch then body.filter (·.isContent) else []) ++
        contentsFrom switch (d = switch) l := by
  rw [List.cons_append, contentsFrom, if_neg (by simp [hd]), contentsFrom_append hbody]
  simp

end Listing

end Asm

/-! ## The contents of a listing -/

namespace Program

open Asm (Listing Element Directive)

theorem all_isAside_remark (o : Options) (text : String) (indent : Int) :
    (remark o text indent).all (·.isAside) = true := by
  unfold remark
  split <;> rfl

theorem filter_isContent_literalElements (i : Nat) (lits : Literals) :
    (literalElements i lits).filter (·.isContent) =
      (lits.zipIdx i).flatMap fun x => [.label (Literals.label x.2), .directive (.string x.1)] := by
  induction lits generalizing i with
  | nil => rfl
  | cons s lits ih =>
    rw [literalElements, List.zipIdx_cons, List.flatMap_cons, ← ih]
    rfl

variable {ι : Type} [DecidableEq ι]

/-- The contents of the lines of a variable are its label and its value. -/
theorem filter_isContent_variableLines {p : Program ι} {o : Options} {lits : Literals}
    {v : Entity ι} {type : Ty} {init : Initializer ι} {d : Directive} (htype : v.type = some type)
    (hinit : v.init = some init) (hd : p.value? lits type init = some d) :
    (p.variableLines o lits v).filter (·.isContent) =
      [.label (p.scope.symbol v), .directive d] := by
  have hcontent : (Element.directive d).isContent = true := isData_of_value? hd
  have hhead : (remark o s!"{type.spelling} {v.name} ({v.storage.text})" 1 ++
      if v.isPrivate then [] else [Element.directive (.globalSymbol (p.scope.symbol v))]).all
        (·.isAside) = true := by
    rw [List.all_append, all_isAside_remark]
    cases v.isPrivate <;> rfl
  simp only [variableLines, htype, hinit, hd]
  rw [List.filter_append, List.filter_append, Listing.filter_isContent_of_isAside hhead]
  show [Element.label (p.scope.symbol v)] ++ List.filter _ [Element.directive d] = _
  rw [List.filter_cons_of_pos hcontent]
  rfl

/-- The directive that stores the variable. -/
def StoredAs (p : Program ι) (v : Entity ι) (d : Directive) : Prop :=
  ∃ type init, v.type = some type ∧ v.init = some init ∧
    p.value? p.literals type init = some d

theorem exists_storedAs {p : Program ι} {vars : List (Entity ι)}
    (hvars : ∀ v ∈ vars, p.Storable v) :
    ∃ stored : Entity ι → Directive, ∀ v ∈ vars, p.StoredAs v (stored v) := by
  have hexists : ∀ v ∈ vars, ∃ d, p.StoredAs v d := by
    intro v hv
    obtain ⟨type, init, htype, hinit, hsome⟩ := hvars v hv
    rw [p.isSome_value? [] p.literals] at hsome
    obtain ⟨d, hd⟩ := Option.isSome_iff_exists.mp hsome
    exact ⟨d, type, init, htype, hinit, hd⟩
  have : Nonempty Directive := ⟨.data⟩
  choose! stored hstored using hexists
  exact ⟨stored, hstored⟩

theorem filter_isContent_flatMap_variableLines {p : Program ι} (o : Options)
    {vars : List (Entity ι)} {stored : Entity ι → Directive}
    (hstored : ∀ v ∈ vars, p.StoredAs v (stored v)) :
    (vars.flatMap (p.variableLines o p.literals)).filter (·.isContent) =
      vars.flatMap fun v => [.label (p.scope.symbol v), .directive (stored v)] := by
  rw [List.filter_flatMap]
  apply List.flatMap_congr
  intro v hv
  obtain ⟨type, init, htype, hinit, hd⟩ := hstored v hv
  exact filter_isContent_variableLines htype hinit hd

/-- The lines of the common symbols. -/
theorem all_isAside_commonLines (p : Program ι) (o : Options) :
    ((if p.scope.classes.common.isEmpty then [] else remark o "common symbols" 0) ++
      p.scope.classes.common.flatMap p.commonLines).all (·.isAside) = true := by
  rw [List.all_append, Bool.and_eq_true]
  constructor
  · split
    · rfl
    · exact all_isAside_remark o _ _
  · rw [List.all_flatMap, List.all_eq_true]
    intro v _
    unfold commonLines
    cases v.type with
    | none => rfl
    | some type => cases v.isPrivate <;> rfl

/-- Behind the literals nothing more is put into either section: common symbols have no
contents, and the helper and the note have sections of their own. -/
theorem exists_tail_eq (p : Program ι) (o : Options) :
    ∃ tail, p.lines o =
        .directive (.file p.file) :: p.dataLines o ++ (literalSection o p.literals ++ tail) ∧
      .directive (.inSection ".rodata") ∉ tail ∧
      ∀ switch ∈ [Directive.data, .inSection ".rodata"], ∀ inside,
        Listing.contentsFrom switch inside tail = [] := by
  have haside := all_isAside_commonLines p o
  have hcommon := Listing.all_keepsSection_of_isAside haside
  refine ⟨((if p.scope.classes.common.isEmpty then [] else remark o "common symbols" 0) ++
      p.scope.classes.common.flatMap p.commonLines) ++
    ((if o.feature .pic then thunkLines o.wordSize else []) ++
    (if o.feature .gnuStack then [stackNote] else [])), ?_, ?_, ?_⟩
  · simp [lines]
  · rw [List.mem_append, not_or]
    refine ⟨Listing.not_mem_of_all_keepsSection hcommon rfl, ?_⟩
    cases o.feature .pic <;> cases o.feature .gnuStack <;> simp [thunkLines, stackNote]
  · intro switch hswitch inside
    rw [Listing.contentsFrom_append hcommon, Listing.filter_isContent_of_isAside haside, ite_self,
      List.nil_append]
    simp only [List.mem_cons, List.not_mem_nil, or_false] at hswitch
    rcases hswitch with rfl | rfl
    · cases o.feature .pic <;> cases o.feature .gnuStack <;> rfl
    · cases o.feature .pic <;> cases o.feature .gnuStack <;> rfl

theorem all_keepsSection_dataBody {p : Program ι} (o : Options)
    (hvars : ∀ v ∈ p.scope.classes.initialized, p.Storable v) :
    (remark o "initialized data" 0 ++
      p.scope.classes.initialized.flatMap (p.variableLines o p.literals)).all
        (·.keepsSection) = true := by
  rw [List.all_append, all_keepsSection_remark, all_keepsSection_variableLines o _ hvars]
  rfl

theorem all_keepsSection_literalBody (o : Options) (lits : Literals) :
    (remark o "string literals" 0 ++ literalElements 0 lits).all (·.keepsSection) = true := by
  rw [List.all_append, all_keepsSection_remark, all_keepsSection_literalElements]
  rfl

/-- The data section holds a label and a value for each variable. -/
theorem contents_data {p : Program ι} {o : Options} {stored : Entity ι → Directive}
    (hvars : ∀ v ∈ p.scope.classes.initialized, p.Storable v)
    (hstored : ∀ v ∈ p.scope.classes.initialized, p.StoredAs v (stored v)) :
    (p.lines o).contents .data = p.scope.classes.initialized.flatMap fun v =>
      [.label (p.scope.symbol v), .directive (stored v)] := by
  obtain ⟨tail, hlines, -, htail⟩ := p.exists_tail_eq o
  have hrest (inside : Bool) :
      Listing.contentsFrom .data inside (literalSection o p.literals ++ tail) = [] := by
    unfold literalSection
    split
    · exact htail .data (by simp) inside
    · rw [List.cons_append,
        Listing.contentsFrom_section rfl (all_keepsSection_literalBody o p.literals),
        htail .data (by simp)]
      rfl
  rw [hlines]
  show Listing.contentsFrom .data false (p.dataLines o ++ _) = _
  unfold dataLines
  dsimp only
  split
  · next hempty =>
    rw [List.isEmpty_iff.mp hempty]
    exact hrest false
  · rw [List.cons_append, Listing.contentsFrom_section rfl (all_keepsSection_dataBody o hvars),
      hrest, if_pos rfl, List.append_nil, List.filter_append,
      Listing.filter_isContent_of_isAside (all_isAside_remark o _ _),
      filter_isContent_flatMap_variableLines o hstored, List.nil_append]

/-- The section for literals holds each of them under its label. -/
theorem contents_rodata {p : Program ι} (o : Options)
    (hvars : ∀ v ∈ p.scope.classes.initialized, p.Storable v) :
    (p.lines o).contents (.inSection ".rodata") = p.literals.zipIdx.flatMap fun x =>
      [.label (Literals.label x.2), .directive (.string x.1)] := by
  obtain ⟨tail, hlines, -, htail⟩ := p.exists_tail_eq o
  have hsection : Listing.contentsFrom (.inSection ".rodata") false
      (literalSection o p.literals ++ tail) = p.literals.zipIdx.flatMap fun x =>
        [.label (Literals.label x.2), .directive (.string x.1)] := by
    unfold literalSection
    split
    · next hempty =>
      rw [List.isEmpty_iff.mp hempty]
      exact htail _ (by simp) false
    · rw [List.cons_append,
        Listing.contentsFrom_section rfl (all_keepsSection_literalBody o p.literals),
        htail _ (by simp), if_pos rfl, List.append_nil, List.filter_append,
        Listing.filter_isContent_of_isAside (all_isAside_remark o _ _),
        filter_isContent_literalElements, List.nil_append]
  rw [hlines, ← hsection]
  show Listing.contentsFrom _ false (p.dataLines o ++ _) = _
  unfold dataLines
  dsimp only
  split
  · rfl
  · rw [List.cons_append, Listing.contentsFrom_section rfl (all_keepsSection_dataBody o hvars)]
    rfl

/-- The section for literals is there if it holds one. -/
theorem rodata_mem_lines_iff {p : Program ι} (o : Options)
    (hvars : ∀ v ∈ p.scope.classes.initialized, p.Storable v) :
    .directive (.inSection ".rodata") ∈ p.lines o ↔ p.literals ≠ [] := by
  obtain ⟨tail, hlines, htail, -⟩ := p.exists_tail_eq o
  have hdata : Element.directive (.inSection ".rodata") ∉ p.dataLines o := by
    unfold dataLines
    dsimp only
    split
    · simp
    · rw [List.cons_append, List.mem_cons, not_or]
      exact ⟨by simp, Listing.not_mem_of_all_keepsSection (all_keepsSection_dataBody o hvars) rfl⟩
  simp only [hlines, List.mem_append, List.mem_cons, hdata, htail, or_false, false_or,
    Element.directive.injEq, reduceCtorEq]
  unfold literalSection
  cases p.literals <;> simp

theorem addressDirective?_inj {size : Int64} {expr expr' : String} {d d' : Directive}
    (h : addressDirective? size expr = some d) (h' : addressDirective? size expr' = some d') :
    d = d' ↔ expr = expr' := by
  unfold addressDirective? at h h'
  grind

omit [DecidableEq ι] in
theorem literalOf?_eq_some_iff {v : Entity ι} {s : String} :
    literalOf? v = some s ↔ ∃ init, v.init = some init ∧ init.value = .string s := by
  unfold literalOf?
  cases v.init with
  | none => simp
  | some init =>
    obtain ⟨value, target⟩ := init
    cases value <;> simp [Initializer.literal?]

/-- A text is stored as the address of its literal. -/
theorem StoredAs.addressDirective?_eq {p : Program ι} {v : Entity ι} {d : Directive}
    (h : p.StoredAs v d) {s : String} (hs : literalOf? v = some s) :
    addressDirective? p.types.pointerSize (Literals.label (p.literals.idxOf s)) = some d := by
  obtain ⟨type, init, -, hinit, hd⟩ := h
  obtain ⟨init', hinit', hvalue⟩ := literalOf?_eq_some_iff.mp hs
  cases hinit.symm.trans hinit'
  rcases value?_cases hd with ⟨n, hn, -⟩ | ⟨s', hs', -, hdirective⟩ | ⟨name, offset, haddress, -⟩
  · cases hvalue.symm.trans hn
  · cases hvalue.symm.trans hs'
    exact hdirective
  · cases hvalue.symm.trans haddress

/-- A listing holds each text that a variable starts with once.

The section for literals has the texts in order of first use, under the labels `.LC0`,
`.LC1` and so on, and nothing else; it is left out if there are none.  In the data section
each variable has its label and one directive, which for a text is the address of its
literal.  So two of them are stored alike exactly when they start with the same bytes. -/
theorem literals_of_generate {p : Program ι} {o : Options} {l : Listing}
    (hl : (p.generate o).result = .ok l) :
    let t := p.scope.freeze
    let vars := t.classes.initialized
    let lits := (vars.filterMap literalOf?).eraseDups
    Literals.FirstUses (vars.filterMap literalOf?) lits ∧
    (l.contents (.inSection ".rodata") = lits.zipIdx.flatMap fun x =>
      [.label s!".LC{x.2}", .directive (.string x.1)]) ∧
    (∃ stored : Entity ι → Directive,
      (l.contents .data = vars.flatMap fun v =>
        [.label (t.symbol v), .directive (stored v)]) ∧
      (∀ v ∈ vars, ∀ s ∈ literalOf? v, ∃ i : Nat, lits[i]? = some s ∧
        (p.types.pointerSize, stored v) ∈
          [(4, .longSymbol s!".LC{i}"), (8, .quadSymbol s!".LC{i}")]) ∧
      ∀ v ∈ vars, ∀ w ∈ vars, ∀ s ∈ literalOf? v, ∀ s' ∈ literalOf? w,
        (stored v = stored w ↔ s.toUTF8 = s'.toUTF8)) ∧
    (.directive (.inSection ".rodata") ∉ l ↔ ∀ v ∈ vars, literalOf? v = none) := by
  intro t vars lits
  let q : Program ι := { p with scope := t }
  have hl : q.listing o = .ok l := (p.result_generate o).symm.trans hl
  obtain ⟨hvars, -, -, rfl⟩ := listing_eq_ok_iff.mp hl
  have hvars : ∀ v ∈ vars, q.Storable v := hvars
  obtain ⟨stored, hstored⟩ := exists_storedAs hvars
  have hmem : ∀ v ∈ vars, ∀ s ∈ literalOf? v, s ∈ lits := fun v hv s hs =>
    List.mem_eraseDups.mpr (List.mem_filterMap.mpr ⟨v, hv, hs⟩)
  refine ⟨?_, contents_rodata o hvars, ⟨stored, contents_data hvars hstored, ?_, ?_⟩, ?_⟩
  · have huses := Literals.firstUses_nil.internAll (texts vars)
    rw [List.nil_append, q.internAll_texts_initialized] at huses
    exact huses
  · intro v hv s hs
    have haddress := (hstored v hv).addressDirective?_eq hs
    exact ⟨lits.idxOf s, List.getElem?_idxOf (hmem v hv s hs),
      addressDirective?_eq_some_iff.mp haddress⟩
  · intro v hv w hw s hs s' hs'
    have haddress := (hstored v hv).addressDirective?_eq hs
    have haddress' := (hstored w hw).addressDirective?_eq hs'
    calc stored v = stored w
      _ ↔ Literals.label (lits.idxOf s) = Literals.label (lits.idxOf s') :=
        addressDirective?_inj haddress haddress'
      _ ↔ lits.idxOf s = lits.idxOf s' := ⟨Literals.label_inj, congrArg _⟩
      _ ↔ s = s' := List.idxOf_inj (hmem v hv s hs)
      _ ↔ s.toUTF8 = s'.toUTF8 := String.toByteArray_inj.symm
  · have hrodata : .directive (.inSection ".rodata") ∈ q.lines o ↔ lits ≠ [] :=
      rodata_mem_lines_iff o hvars
    rw [hrodata, not_not, ← List.filterMap_eq_nil_iff]
    simp only [lits, List.eq_nil_iff_forall_not_mem, List.mem_eraseDups]

/-- Two texts in four variables, one of them in a body, and a variable without a text. -/
def greetings : Document where
  items := [
    { kind := "func", name := "f", type := "int",
      body := some { vars := [
        { name := "a", type := "char*", storage := "static",
          init := some { string := some "ho" } }] } },
    { kind := "var", name := "a", type := "char*", init := some { string := some "hi" } },
    { kind := "var", name := "n", type := "int", init := some { int := some 7 } },
    { kind := "var", name := "b", type := "char*", init := some { string := some "ho" } },
    { kind := "var", name := "c", type := "char*", init := some { string := some "hi" } }]

theorem literals_of_generate_greetings : ∃ p l,
    greetings.load { pointerSize := 8 } = .ok p ∧ (p.generate {}).result = .ok l ∧
      l.contents (.inSection ".rodata") = [.label ".LC0", .directive (.string "hi"),
        .label ".LC1", .directive (.string "ho")] := by
  obtain ⟨hp, l, hl⟩ := @Document.exists_listing { pointerSize := 8 } greetings {}
    (by decide +kernel) (by decide +kernel)
  obtain ⟨-, hrodata, -⟩ := literals_of_generate hl
  exact ⟨_, l, hp, hl, hrodata.trans (by decide +kernel)⟩

end Program

end Cflat
