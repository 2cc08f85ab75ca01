import Cflat.Proofs.Symbols
import Cflat.Proofs.Targets

/-!
# Addresses in a listing

Where a listing stores an address, the symbol is that of the declaration that the name
denotes at the place of the variable, and whatever a listing does not leave to others it
defines itself.  There are three groups.

* Sections.  `Listing.HasUnder` says that lines stand in the section that a directive
  opens; the lines of variables, literals and common symbols are found in theirs.
* Declarations.  `Document.mem_entries_declared` reads the entries of the tree back into
  the document: they are told apart by their identifiers, and they are of known kinds.
* Targets.  What an address is taken of is a function, an extern variable or a variable
  of static duration.
-/

namespace Cflat

open Scope (Entity Initializer Place Denotes isAllocatedAt isStaticAt)

/-! ## Sections -/

namespace Asm

/-- Whether the line after an element stands in the same section as the line before it.
A verbatim line may be anything. -/
def Element.keepsSection : Element → Bool
  | directive .text | directive .data | directive (.inSection _) | directive (.inGroup ..)
  | directive (.verbatim _) => false
  | _ => true

/-- The lines `part` stand in a section that `switch` opens. -/
def Listing.HasUnder (l : Listing) (switch : Directive) (part : Listing) : Prop :=
  ∃ before between after, l = before ++ .directive switch :: between ++ part ++ after ∧
    between.all (·.keepsSection) = true

theorem Listing.HasUnder.append {l part : Listing} {switch : Directive}
    (h : l.HasUnder switch part) (l₁ l₂ : Listing) :
    Listing.HasUnder (l₁ ++ l ++ l₂) switch part := by
  obtain ⟨before, between, after, rfl, hkeeps⟩ := h
  exact ⟨l₁ ++ before, between, after ++ l₂, by simp, hkeeps⟩

/-- A part that stands further on stands there too. -/
theorem Listing.HasUnder.suffix {l : Listing} {switch : Directive} (head part : Listing)
    (h : l.HasUnder switch (head ++ part)) (hhead : head.all (·.keepsSection) = true) :
    l.HasUnder switch part := by
  obtain ⟨before, between, after, rfl, hkeeps⟩ := h
  exact ⟨before, between ++ head, after, by simp, by rw [List.all_append, hkeeps, hhead]; rfl⟩

/-- The first lines of a part stand there too. -/
theorem Listing.HasUnder.initial {l : Listing} {switch : Directive} (part rest : Listing)
    (h : l.HasUnder switch (part ++ rest)) : l.HasUnder switch part := by
  obtain ⟨before, between, after, rfl, hkeeps⟩ := h
  exact ⟨before, between, rest ++ after, by simp, hkeeps⟩

/-- The listing stores an address of `size` bytes under a symbol. -/
def Listing.StoresAddress (l : Listing) (size : Int64) (symbol expr : String) : Prop :=
  ∃ d, (size, d) ∈ [(4, Directive.longSymbol expr), (8, .quadSymbol expr)] ∧
    l.HasUnder .data [.label symbol, .directive d]

end Asm

namespace Program

open Asm (Listing Element Directive)

theorem all_keepsSection_remark (o : Options) (text : String) (indent : Int) :
    (remark o text indent).all (·.keepsSection) = true := by
  unfold remark
  split <;> rfl

variable {ι : Type} [DecidableEq ι]

/-- The directives that store a value stay in their section. -/
theorem keepsSection_of_value? {p : Program ι} {lits : Literals} {type : Ty}
    {init : Initializer ι} {d : Directive} (h : p.value? lits type init = some d) :
    (Element.directive d).keepsSection = true := by
  have hdata := isData_of_value? h
  cases d with
  | text | data | inSection _ | inGroup _ _ _ _ _ | verbatim _ =>
    simp [Directive.isData] at hdata
  | _ => rfl

/-- The lines of a variable end with its size, its label and its value. -/
theorem exists_variableLines_eq (p : Program ι) (o : Options) (lits : Literals) {v : Entity ι}
    (hv : p.Storable v) :
    ∃ type init d head, v.type = some type ∧ v.init = some init ∧
      p.value? lits type init = some d ∧ head.all (·.keepsSection) = true ∧
      p.variableLines o lits v = head ++
        [.directive (.size (p.scope.symbol v) type.size), .label (p.scope.symbol v),
          .directive d] := by
  obtain ⟨type, init, htype, hinit, hsome⟩ := hv
  rw [p.isSome_value? [] lits] at hsome
  obtain ⟨d, hd⟩ := Option.isSome_iff_exists.mp hsome
  refine ⟨type, init, d, remark o s!"{type.spelling} {v.name} ({v.storage.text})" 1 ++
    (if v.isPrivate then [] else [.directive (.globalSymbol (p.scope.symbol v))]) ++
    [.directive (.align type.alignment),
      .directive (.symbolType (p.scope.symbol v) "@object")], htype, hinit, hd, ?_, ?_⟩
  · rw [List.all_append, List.all_append, all_keepsSection_remark]
    cases v.isPrivate <;> rfl
  · simp [variableLines, htype, hinit, hd]

theorem all_keepsSection_variableLines {p : Program ι} (o : Options) (lits : Literals)
    {vars : List (Entity ι)} (hvars : ∀ v ∈ vars, p.Storable v) :
    (vars.flatMap (p.variableLines o lits)).all (·.keepsSection) = true := by
  rw [List.all_flatMap, List.all_eq_true]
  intro v hv
  obtain ⟨type, init, d, head, -, -, hd, hhead, hlines⟩ :=
    exists_variableLines_eq p o lits (hvars v hv)
  rw [hlines, List.all_append, hhead]
  simp only [List.all_cons, keepsSection_of_value? hd, List.all_nil]
  rfl

/-- A listing begins with the data section, and the section for literals follows it. -/
theorem exists_lines_eq (p : Program ι) (o : Options) :
    ∃ rest, p.lines o =
      .directive (.file p.file) :: p.dataLines o ++ literalSection o p.literals ++ rest := by
  refine ⟨((if p.scope.classes.common.isEmpty then [] else remark o "common symbols" 0) ++
      p.scope.classes.common.flatMap p.commonLines) ++
    (if o.feature .pic then thunkLines o.wordSize else []) ++
    (if o.feature .gnuStack then [stackNote] else []), ?_⟩
  simp [lines]

/-- In the data section each variable has its label, with the size before it and the value
after it. -/
theorem hasUnder_data {p : Program ι} {o : Options}
    (hvars : ∀ v ∈ p.scope.classes.initialized, p.Storable v) {v : Entity ι}
    (hv : v ∈ p.scope.classes.initialized) :
    ∃ type init d, v.type = some type ∧ v.init = some init ∧
      p.value? p.literals type init = some d ∧
      (p.lines o).HasUnder .data [.directive (.size (p.scope.symbol v) type.size),
        .label (p.scope.symbol v), .directive d] := by
  obtain ⟨type, init, d, head, htype, hinit, hd, hhead, hlines⟩ :=
    exists_variableLines_eq p o p.literals (hvars v hv)
  obtain ⟨before, after, hsplit⟩ := List.append_of_mem hv
  have hbefore : ∀ u ∈ before, p.Storable u := fun u hu => hvars u (by simp [hsplit, hu])
  have hdata : (p.dataLines o).HasUnder .data (p.variableLines o p.literals v) := by
    refine ⟨[], remark o "initialized data" 0 ++ before.flatMap (p.variableLines o p.literals),
      after.flatMap (p.variableLines o p.literals), ?_, ?_⟩
    · simp [dataLines, hsplit]
    · rw [List.all_append, all_keepsSection_remark, all_keepsSection_variableLines o _ hbefore]
      rfl
  rw [hlines] at hdata
  refine ⟨type, init, d, htype, hinit, hd, ?_⟩
  obtain ⟨rest, hrest⟩ := p.exists_lines_eq o
  have hlisting := (hdata.suffix head _ hhead).append [.directive (.file p.file)]
    (literalSection o p.literals ++ rest)
  simpa [hrest] using hlisting

theorem literalElements_append (i : Nat) (lits lits' : Literals) :
    literalElements i (lits ++ lits') =
      literalElements i lits ++ literalElements (i + lits.length) lits' := by
  induction lits generalizing i with
  | nil => rfl
  | cons s lits ih =>
    simp only [List.cons_append, literalElements, ih, List.length_cons]
    rw [show i + 1 + lits.length = i + (lits.length + 1) by omega]

theorem all_keepsSection_literalElements (i : Nat) (lits : Literals) :
    (literalElements i lits).all (·.keepsSection) = true := by
  induction lits generalizing i with
  | nil => rfl
  | cons s lits ih =>
    rw [literalElements, List.all_cons, List.all_cons, ih]
    rfl

/-- In the section for literals each literal has its label. -/
theorem hasUnder_rodata {p : Program ι} {o : Options} {s : String} (hs : s ∈ p.literals) :
    (p.lines o).HasUnder (.inSection ".rodata")
      [.label (Literals.label (p.literals.idxOf s)), .directive (.string s)] := by
  obtain ⟨before, after, hsplit, hfirst⟩ := List.eq_append_cons_of_mem hs
  have hindex : p.literals.idxOf s = before.length := by
    rw [hsplit, List.idxOf_append, if_neg hfirst, List.idxOf_cons_self, Nat.zero_add]
  have hsection : (literalSection o p.literals).HasUnder (.inSection ".rodata")
      [.label (Literals.label before.length), .directive (.string s)] := by
    refine ⟨[], remark o "string literals" 0 ++ literalElements 0 before,
      literalElements (before.length + 1) after, ?_, ?_⟩
    · simp [literalSection, hsplit, literalElements_append, literalElements]
    · rw [List.all_append, all_keepsSection_remark, all_keepsSection_literalElements]
      rfl
  rw [hindex]
  obtain ⟨rest, hrest⟩ := p.exists_lines_eq o
  rw [hrest]
  exact hsection.append (.directive (.file p.file) :: p.dataLines o) rest

theorem common_mem_lines {p : Program ι} {o : Options} {v : Entity ι}
    (hv : v ∈ p.scope.classes.common) {type : Ty} (htype : v.type = some type) :
    .directive (.common (p.scope.symbol v) type.size type.alignment) ∈ p.lines o := by
  have hlines : .directive (.common (p.scope.symbol v) type.size type.alignment) ∈
      p.scope.classes.common.flatMap p.commonLines :=
    List.mem_flatMap.mpr ⟨v, hv, by simp [commonLines, htype]⟩
  simp only [lines, List.mem_append]
  exact .inl (.inl (.inr (.inr hlines)))

/-- The listing defines the variable under the symbol, by a label in the data section or as
a common symbol. -/
def DefinesVariable (l : Listing) (symbol : String) (v : Entity ι) : Prop :=
  ∃ type, v.type = some type ∧
    if v.init.isSome then
      l.HasUnder .data [.directive (.size symbol type.size), .label symbol]
    else .directive (.common symbol type.size type.alignment) ∈ l

/-- A listing defines the variables of static duration. -/
theorem definesVariable_of_listing {p : Program ι} {o : Options} {l : Listing}
    (hl : p.listing o = .ok l) {v : Entity ι} (hv : v ∈ p.scope.classes.all) :
    DefinesVariable l (p.scope.symbol v) v := by
  obtain ⟨hvars, htypes, -, rfl⟩ := listing_eq_ok_iff.mp hl
  cases hinit : v.init with
  | none =>
    have hcommon : v ∈ p.scope.classes.common := Scope.Tree.mem_common_iff.mpr ⟨hv, hinit⟩
    obtain ⟨type, htype⟩ := Option.isSome_iff_exists.mp (htypes v hcommon)
    refine ⟨type, htype, ?_⟩
    rw [hinit]
    exact common_mem_lines hcommon htype
  | some init =>
    have hdata : v ∈ p.scope.classes.initialized :=
      Scope.Tree.mem_initialized_iff.mpr ⟨hv, by rw [hinit, Option.isSome_some]⟩
    obtain ⟨type, -, d, htype, -, -, hunder⟩ := @hasUnder_data _ _ p o hvars v hdata
    refine ⟨type, htype, ?_⟩
    rw [hinit]
    exact hunder.initial [_, _] [_]

/-- A listing has the value of a variable behind its label. -/
theorem exists_value_of_listing {p : Program ι} {o : Options} {l : Listing}
    (hl : p.listing o = .ok l) {v : Entity ι} (hv : v ∈ p.scope.classes.all)
    {init : Initializer ι} (hinit : v.init = some init) :
    ∃ type d, v.type = some type ∧ p.value? p.literals type init = some d ∧
      l.HasUnder .data [.label (p.scope.symbol v), .directive d] := by
  obtain ⟨hvars, -, -, rfl⟩ := listing_eq_ok_iff.mp hl
  have hdata : v ∈ p.scope.classes.initialized :=
    Scope.Tree.mem_initialized_iff.mpr ⟨hv, by rw [hinit, Option.isSome_some]⟩
  obtain ⟨type, init', d, htype, hinit', hd, hunder⟩ := @hasUnder_data _ _ p o hvars v hdata
  cases hinit.symm.trans hinit'
  exact ⟨type, d, htype, hd, hunder.suffix [_] [_, _] rfl⟩

end Program

/-! ## Declarations -/

namespace Load

variable {t : Scope.Tree Site}

/-- What stands in the tree after the addresses are looked up stood at the same place
before. -/
theorem exists_of_mem_entries {place : Place} {v : Entity Site}
    (h : (place, v) ∈ (resolvedTree t).entries) :
    ∃ e, (place, e) ∈ t.entries ∧ v = resolvedEntity t place e := by
  rw [Scope.Tree.mem_entries_iff, vars?_resolvedTree] at h
  cases hvars : t.vars? place with
  | none => simp [hvars] at h
  | some vars =>
    rw [hvars, Option.map_some, Option.getD_some, List.mem_map] at h
    obtain ⟨e, he, rfl⟩ := h
    refine ⟨e, ?_, rfl⟩
    rw [Scope.Tree.mem_entries_iff, hvars]
    exact he

theorem Resolves.of_mem_entries (h : Resolves t) {place : Place} {e : Entity Site}
    (he : (place, e) ∈ t.entries) : EntityResolves t place e := by
  rw [Scope.Tree.mem_entries_iff] at he
  cases place with
  | nil =>
    rw [t.vars?_nil] at he
    exact h.entities e he
  | cons i path =>
    rw [t.vars?_cons] at he
    cases hb : t.block? (i :: path) with
    | none => simp [hb] at he
    | some b =>
      rw [hb] at he
      exact h.blocks _ b hb e he

/-- An address is that of what its name denotes in the finished tree, and this has one. -/
theorem Resolves.exists_target (h : Resolves t) {place : Place} {v : Entity Site}
    (hv : (place, v) ∈ (resolvedTree t).entries) (hstorage : v.storage ≠ .automatic)
    {init : Initializer Site} (hinit : v.init = some init) {name : String} {offset : Int64}
    (hvalue : init.value = .address name offset) :
    ∃ e, (resolvedTree t).lookup? place name = some e ∧ init.target = some e.reference ∧
      ¬ (e.kind = .definedVariable ∧ e.storage = .automatic) ∧ e.kind ≠ .constant := by
  obtain ⟨v₀, hv₀, rfl⟩ := exists_of_mem_entries hv
  rw [resolvedEntity_eq] at hstorage hinit
  obtain ⟨init₀, hinit₀, rfl⟩ := Option.map_eq_some_iff.mp hinit
  rw [if_neg hstorage] at hvalue ⊢
  rw [value_resolvedInit] at hvalue
  obtain ⟨e, he, haddress⟩ := h.of_mem_entries hv₀ hstorage init₀ hinit₀ name offset hvalue
  obtain ⟨scope, hlookup⟩ := exists_lookup?_resolvedTree t he
  refine ⟨_, hlookup, ?_, ?_⟩
  · simp [resolvedInit, hvalue, he, reference_resolvedEntity]
  · rw [resolvedEntity_eq]
    exact haddress

end Load

namespace Document

/-- The tree of a document holds its items at top level and the variables of its blocks
everywhere else. -/
theorem mem_entries_declared {types : Table} {doc : Document} {place : Place} {e : Entity Site}
    (h : (place, e) ∈ (doc.declared types).entries) :
    (place = [] ∧ ∃ i ∈ doc.items, e = i.declared types) ∨
      (place ≠ [] ∧ ∃ v : LocalVar, e = v.declared types place) := by
  rw [Scope.Tree.mem_entries_iff] at h
  cases place with
  | nil =>
    rw [Scope.Tree.vars?_nil, Option.getD_some] at h
    obtain ⟨i, hi, rfl⟩ := List.mem_map.mp h
    exact .inl ⟨rfl, i, hi, rfl⟩
  | cons k path =>
    rw [Scope.Tree.vars?_cons, block?_declared, Option.map_map] at h
    generalize (doc.functions[k]?.bind fun item => Block.trail? path (item.body.getD {})) = found
      at h
    cases found with
    | none => simp at h
    | some trail =>
      rw [Option.map_some, Option.getD_some, Function.comp_apply, Block.vars_declared,
        List.mem_map] at h
      obtain ⟨v, -, rfl⟩ := h
      exact .inr ⟨by simp, v, rfl⟩

/-- A scope of the tree declares the names that the block of the document declares. -/
theorem map_name_vars? (types : Table) (doc : Document) (k : Nat) (path : List Nat) :
    ((doc.frozenTree types).vars? (k :: path)).map (·.map (·.name)) =
      (doc.functions[k]?.bind fun item => Block.trail? path (item.body.getD {})).map
        fun trail => trail.1.vars.map (·.name) := by
  rw [show (doc.frozenTree types).vars? _ = _ from Load.vars?_resolvedTree _ _,
    Scope.Tree.vars?_cons, block?_declared]
  cases doc.functions[k]?.bind fun item => Block.trail? path (item.body.getD {}) with
  | none => rfl
  | some trail => simp [Function.comp_def, Load.resolvedEntity_eq, LocalVar.declared]

theorem map_name_entities (types : Table) (doc : Document) :
    (doc.frozenTree types).entities.map (·.name) = doc.items.map (·.name) := by
  rw [show (doc.frozenTree types).entities = _ from entities_program types doc, List.map_map]
  apply List.map_congr_left
  intro i _
  rw [Function.comp_apply, resolvedItem, Load.resolvedEntity_eq]
  rfl

/-- No scope declares a name twice. -/
theorem WellFormed.nodup_vars? {types : Table} {doc : Document} (h : doc.WellFormed types)
    (place : Place) : ((((doc.frozenTree types).vars? place).getD []).map (·.name)).Nodup := by
  cases place with
  | nil =>
    rw [Scope.Tree.vars?_nil, Option.getD_some, map_name_entities]
    exact h.distinct
  | cons k path =>
    have hnames := map_name_vars? types doc k path
    cases hvars : (doc.frozenTree types).vars? (k :: path) with
    | none => simp
    | some vars =>
      rw [hvars, Option.map_some, eq_comm, Option.map_eq_some_iff] at hnames
      obtain ⟨trail, hfound, hnames⟩ := hnames
      obtain ⟨item, hitem, htrail⟩ := Option.bind_eq_some_iff.mp hfound
      rw [Option.getD_some, ← hnames]
      rcases hasBlock_of_trail hitem htrail with hblock | hempty
      · exact (h.blocks _ _ hblock).distinct
      · simp [hempty]

section

variable {types : Table} {doc : Document} {place : Place} {e : Entity Site}

/-- An entity is identified by where it is declared and its name. -/
theorem id_of_mem_entries (h : (place, e) ∈ (doc.frozenTree types).entries) :
    e.id = ⟨place, e.name⟩ := by
  obtain ⟨e₀, he₀, rfl⟩ := Load.exists_of_mem_entries h
  rw [Load.resolvedEntity_eq]
  rcases mem_entries_declared he₀ with ⟨rfl, i, -, rfl⟩ | ⟨-, v, rfl⟩
  · rfl
  · rfl

/-- No two entities share their identifier. -/
theorem WellFormed.eq_of_id_eq (hdoc : doc.WellFormed types)
    (h : (place, e) ∈ (doc.frozenTree types).entries) {d : Place × Entity Site}
    (hd : d ∈ (doc.frozenTree types).entries) (hid : d.2.id = e.id) : d = (place, e) := by
  obtain ⟨place', e'⟩ := d
  rw [id_of_mem_entries h, id_of_mem_entries hd, Site.mk.injEq] at hid
  obtain ⟨rfl, hname⟩ := hid
  rw [Scope.Tree.mem_entries_iff] at h hd
  rw [List.inj_on_of_nodup_map (hdoc.nodup_vars? place') hd h hname]

/-- What has an address is a function, an extern variable, or a variable of static
duration. -/
theorem target_cases (h : (place, e) ∈ (doc.frozenTree types).entries)
    (hlasting : ¬ (e.kind = .definedVariable ∧ e.storage = .automatic))
    (hconstant : e.kind ≠ .constant) :
    e.kind = .externVariable ∨ e.isFunction = true ∨ isAllocatedAt (place, e) = true := by
  obtain ⟨e₀, he₀, rfl⟩ := Load.exists_of_mem_entries h
  rw [Load.resolvedEntity_eq] at hlasting hconstant ⊢
  rcases mem_entries_declared he₀ with ⟨rfl, i, -, rfl⟩ | ⟨hplace, v, rfl⟩
  · cases hkind : Load.kind? i.kind with
    | none => simp [isAllocatedAt, Item.declared, hkind]
    | some kind =>
      have hwords := Load.kind?_eq_some_iff.mp hkind
      simp only [Item.declared, hkind, Option.getD_some] at hconstant ⊢
      simp only [List.mem_cons, Prod.mk.injEq, List.not_mem_nil, or_false] at hwords
      rcases hwords with ⟨-, rfl⟩ | ⟨-, rfl⟩ | ⟨-, rfl⟩ | ⟨-, rfl⟩ | ⟨-, rfl⟩
      · simp [isAllocatedAt]
      · exact .inl rfl
      · exact .inr (.inl rfl)
      · exact .inr (.inl rfl)
      · exact absurd rfl hconstant
  · have hstatic : v.storage = "static" := by
      by_contra hother
      exact hlasting ⟨rfl, by simp [Load.storage_declared, hother]⟩
    have hkind : (v.declared types place).kind = .definedVariable := rfl
    refine .inr (.inr ?_)
    simp [isAllocatedAt, isStaticAt, hplace, Entity.isStaticLocal, Load.storage_declared, hstatic,
      hkind]

/-- What stands at top level and the static locals last as long as the program runs. -/
theorem storage_of_lasting (h : (place, e) ∈ (doc.frozenTree types).entries)
    (hlasting : place = [] ∨ e.isStaticLocal = true) : e.storage ≠ .automatic := by
  rcases hlasting with rfl | hstatic
  · obtain ⟨e₀, he₀, rfl⟩ := Load.exists_of_mem_entries h
    rw [Load.resolvedEntity_eq]
    rcases mem_entries_declared he₀ with ⟨-, i, -, rfl⟩ | ⟨hplace, -⟩
    · simp [Item.declared]
    · exact absurd rfl hplace
  · simp only [Entity.isStaticLocal, Bool.and_eq_true, decide_eq_true_eq] at hstatic
    simp [hstatic.2]

theorem storage_of_mem_entries (h : (place, e) ∈ (doc.frozenTree types).entries)
    (hallocated : isAllocatedAt (place, e) = true) : e.storage ≠ .automatic := by
  simp only [isAllocatedAt, isStaticAt, decide_eq_true_eq] at hallocated
  rcases hallocated with ⟨rfl, -⟩ | ⟨-, hstatic⟩
  · exact storage_of_lasting h (.inl rfl)
  · exact storage_of_lasting h (.inr hstatic)

end

/-- Every address that a listing stores is that of what the name denotes at the variable,
and what the listing does not leave to others it defines.

A symbol in an initial value refers to the nearest declaration of the name around the
variable, in the whole tree and not only what comes before.  The directive has the symbol
of that declaration, which is that of a function, of an extern variable, or the one under
which the listing defines a variable.  A text is stored as the address of a literal that
the listing holds. -/
theorem addresses_of_listing {doc : Document} {types : Table} {p : Program Site} {o : Options}
    {l : Asm.Listing} (hload : doc.load types = .ok p) (hl : (p.generate o).result = .ok l) :
    let t := p.scope.freeze
    ∀ place v init, (place, v) ∈ t.entries → isAllocatedAt (place, v) = true →
      v.init = some init →
      (∀ name offset, init.value = .address name offset →
        ∃ e, Denotes t.entries place name e ∧ t.lookup? place name = some e ∧
          init.target = some e.reference ∧
          (∀ d ∈ t.entries, d.2.id = e.id → d.2 = e) ∧
          (e.kind = .externVariable ∨ e.isFunction = true ∨
            e ∈ t.classes.all ∧ Program.DefinesVariable l (t.symbol e) e) ∧
          l.StoresAddress types.pointerSize (t.symbol v)
            (Asm.Operand.direct (t.symbol e) offset).render) ∧
      (∀ s, init.value = .string s →
        ∃ i, l.StoresAddress types.pointerSize (t.symbol v) (Program.Literals.label i) ∧
          l.HasUnder (.inSection ".rodata")
            [.label (Program.Literals.label i), .directive (.string s)]) := by
  obtain ⟨hdoc, rfl⟩ := (load_accepts types doc p).mp hload
  have hl := listing_of_generate hl
  have hresolves : Load.Resolves (doc.declared types) :=
    (resolves_declared_iff hdoc.items hdoc.blocks).mpr ⟨hdoc.addresses, hdoc.localAddresses⟩
  have hall {place : Place} {e : Entity Site} (he : (place, e) ∈ (doc.frozenTree types).entries)
      (hallocated : isAllocatedAt (place, e) = true) :
      e ∈ (doc.frozenTree types).classes.all := by
    rw [Scope.Tree.all_eq]
    exact List.mem_map.mpr ⟨(place, e), List.mem_filter.mpr ⟨he, hallocated⟩, rfl⟩
  intro t place v init hv hallocated hinit
  obtain ⟨type, d, -, hd, hunder⟩ :=
    Program.exists_value_of_listing hl (hall hv hallocated) hinit
  refine ⟨fun name offset hvalue => ?_, fun s hvalue => ?_⟩
  · obtain ⟨e, hlookup, htarget, hlasting, hconstant⟩ :=
      hresolves.exists_target hv (storage_of_mem_entries hv hallocated) hinit hvalue
    have hdenotes := Scope.Tree.denotes_of_lookup? hlookup
    have ⟨scope, _, hmem, _⟩ := hdenotes
    refine ⟨e, hdenotes, hlookup, htarget,
      fun d hd hid => congrArg Prod.snd (hdoc.eq_of_id_eq hmem hd hid), ?_, d, ?_, hunder⟩
    · rcases target_cases hmem hlasting hconstant with hextern | hfunction | hallocated
      · exact .inl hextern
      · exact .inr (.inl hfunction)
      · exact .inr (.inr ⟨hall hmem hallocated,
          Program.definesVariable_of_listing hl (hall hmem hallocated)⟩)
    · rcases Program.value?_cases hd with ⟨n, hn, -⟩ | ⟨s, hs, -⟩ |
        ⟨name', offset', haddress, -, hdirective⟩
      · cases hvalue.symm.trans hn
      · cases hvalue.symm.trans hs
      · cases hvalue.symm.trans haddress
        rw [Scope.Tree.label, htarget] at hdirective
        exact Program.addressDirective?_eq_some_iff.mp hdirective
  · rcases Program.value?_cases hd with ⟨n, hn, -⟩ | ⟨s', hs, -, hdirective⟩ |
      ⟨name, offset, haddress, -⟩
    · cases hvalue.symm.trans hn
    · cases hvalue.symm.trans hs
      obtain ⟨-, -, -, rfl⟩ := Program.listing_eq_ok_iff.mp hl
      have hdata : v ∈ (doc.frozenTree types).classes.initialized :=
        Scope.Tree.mem_initialized_iff.mpr
          ⟨hall hv hallocated, by rw [hinit, Option.isSome_some]⟩
      exact ⟨_, ⟨d, Program.addressDirective?_eq_some_iff.mp hdirective, hunder⟩,
        Program.hasUnder_rodata (Program.mem_literals hdata hinit hs)⟩
    · cases hvalue.symm.trans haddress

/-- Three variables of one name; the pointer is to the one behind it in its own block. -/
def forward : Document where
  items := [
    { kind := "func", name := "f", type := "int",
      body := some { vars := [{ name := "n", type := "int", storage := "static" }] } },
    { kind := "func", name := "g", type := "int",
      body := some {
        blocks := [{ vars := [
          { name := "p", type := "int*", storage := "static",
            init := some { symbol := "n", offset := 8 } },
          { name := "n", type := "int[4]", storage := "static" },
          { name := "s", type := "char*", storage := "static",
            init := some { string := some "hi" } }] }] } },
    { kind := "var", name := "n", type := "int" }]

/-- The pointer, as it stands in the tree. -/
def forwardPointer : Entity Site where
  id := ⟨[1, 0], "p"⟩
  kind := .definedVariable
  name := "p"
  type := some (.pointer (.integer true .int 4) 4)
  storage := .static
  init := some ⟨.address "n" 8, some ⟨⟨[1, 0], "n"⟩, "n"⟩⟩

theorem addresses_of_listing_forward : ∃ p l,
    forward.load { pointerSize := 4 } = .ok p ∧ (p.generate {}).result = .ok l ∧
      ([1, 0], forwardPointer) ∈ p.scope.freeze.entries ∧
      isAllocatedAt ([1, 0], forwardPointer) = true ∧
      ∃ e, Denotes p.scope.freeze.entries [1, 0] "n" e ∧ p.scope.freeze.symbol e = "n.1" ∧
        Program.DefinesVariable l "n.1" e ∧ l.StoresAddress 4 "p.0" "n.1+8" := by
  obtain ⟨hp, l, hl⟩ := @exists_listing { pointerSize := 4 } forward {} (by decide +kernel)
    (by decide +kernel)
  have hv : ([1, 0], forwardPointer) ∈ (forward.frozenTree { pointerSize := 4 }).entries := by
    decide +kernel
  obtain ⟨e, hdenotes, hlookup, -, -, hkind, hstores⟩ :=
    (addresses_of_listing hp hl [1, 0] forwardPointer _ hv (by decide) rfl).1 "n" 8 rfl
  have hfound : ((forward.frozenTree { pointerSize := 4 }).lookup? [1, 0] "n").map
      (fun e => ((forward.frozenTree { pointerSize := 4 }).symbol e, e.kind)) =
        some ("n.1", .definedVariable) := by
    decide +kernel
  rw [hlookup, Option.map_some, Option.some.injEq, Prod.mk.injEq] at hfound
  obtain ⟨hsymbol, hvariable⟩ := hfound
  have hpointer : (forward.frozenTree { pointerSize := 4 }).symbol forwardPointer = "p.0" := by
    decide +kernel
  rw [hsymbol, hpointer] at hstores
  refine ⟨_, l, hp, hl, hv, by decide, e, hdenotes, hsymbol, ?_, hstores⟩
  rcases hkind with hextern | hfunction | ⟨-, hdefines⟩
  · cases hvariable.symm.trans hextern
  · simp [Entity.isFunction, hvariable] at hfunction
  · exact hsymbol ▸ hdefines

end Document

end Cflat
