import Cflat.Proofs.Generation
import Cflat.Proofs.Targets

/-!
# Automatic variables

Automatic variables leave no trace in what the compiler writes: a document and the
document without them give the same listing, the same warnings and the same dump.
They do take part in loading, where their names can be taken and can hide others, so
the argument is about lookups.

* Trees.  `Tree.withoutAutomatics` deletes the automatic variables of a tree.  A lookup
  that does not end at one finds the same afterwards (`lookup?_withoutAutomatics`).
* Addresses.  In a tree that passes the third pass no lookup ends at one, so looking up
  addresses and deleting commute.
* Documents.  Deleting in the document is deleting in its tree.
* Output.  Generation and the dump read a tree through its top level, its static locals
  and what was referred to.
-/

namespace Cflat

open Scope (Entity Initializer Place)

/-! ## Trees -/

namespace Scope

variable {ι : Type}

/-- Whether an entity is an automatic variable. -/
def Entity.isAutomatic (e : Entity ι) : Bool :=
  e.kind = .definedVariable && e.storage = .automatic

mutual

/-- The block without its automatic variables, at any depth. -/
def Block.withoutAutomatics : Block ι → Block ι
  | ⟨decls, blocks⟩ =>
    ⟨.of (decls.entities.filter (!·.isAutomatic)), Block.withoutAutomaticsOfList blocks⟩

/-- Several blocks without their automatic variables. -/
def Block.withoutAutomaticsOfList : List (Block ι) → List (Block ι)
  | [] => []
  | b :: rest => b.withoutAutomatics :: Block.withoutAutomaticsOfList rest

end

/-- The tree without the automatic variables of its bodies, not classified yet. -/
def Tree.withoutAutomatics (t : Tree ι) : Tree ι where
  decls := t.decls
  bodies := t.bodies.map fun body => { body with block := body.block.withoutAutomatics }
  referred := t.referred

theorem Block.withoutAutomaticsOfList_eq_map (bs : List (Block ι)) :
    Block.withoutAutomaticsOfList bs = bs.map Block.withoutAutomatics := by
  induction bs with
  | nil => rw [Block.withoutAutomaticsOfList, List.map_nil]
  | cons b bs ih => rw [Block.withoutAutomaticsOfList, List.map_cons, ih]

theorem Block.vars?_withoutAutomatics (path : List Nat) (b : Block ι) :
    b.withoutAutomatics.vars? path = (b.vars? path).map (List.filter (!·.isAutomatic)) := by
  induction path generalizing b with
  | nil =>
    cases b
    rw [Block.withoutAutomatics, Block.vars?_nil, Block.vars?_nil, Option.map_some]
    rfl
  | cons i path ih =>
    cases b with | mk vars blocks =>
    rw [Block.withoutAutomatics, Block.vars?_cons, Block.vars?_cons,
      Block.withoutAutomaticsOfList_eq_map, List.getElem?_map]
    cases blocks[i]? with
    | none => rfl
    | some c => exact ih c

theorem Tree.vars?_nil_withoutAutomatics (t : Tree ι) :
    t.withoutAutomatics.vars? [] = t.vars? [] := by
  rw [Tree.vars?_nil, Tree.vars?_nil]
  rfl

theorem Tree.vars?_cons_withoutAutomatics (t : Tree ι) (i : Nat) (path : List Nat) :
    t.withoutAutomatics.vars? (i :: path) =
      (t.vars? (i :: path)).map (List.filter (!·.isAutomatic)) := by
  have hbody : t.withoutAutomatics.root.blocks[i]? =
      t.root.blocks[i]?.map Block.withoutAutomatics := by
    simp [Tree.root, Tree.withoutAutomatics, Function.comp_def]
  rw [Tree.vars?, Tree.vars?, Block.vars?_cons, Block.vars?_cons, hbody]
  cases t.root.blocks[i]? with
  | none => rfl
  | some b => exact Block.vars?_withoutAutomatics path b

/-- What is not automatic is still declared where it was. -/
theorem Tree.findAt?_withoutAutomatics {t : Tree ι} {place : Place} {name : String} {e : Entity ι}
    (h : t.findAt? place name = some e) (he : e.isAutomatic = false) :
    t.withoutAutomatics.findAt? place name = some e := by
  cases place with
  | nil => rwa [Tree.findAt?, Tree.vars?_nil_withoutAutomatics, ← Tree.findAt?]
  | cons i path =>
    obtain ⟨vars, hvars, hfind⟩ := Option.bind_eq_some_iff.mp h
    obtain ⟨hname, before, after, rfl, hbefore⟩ := List.find?_eq_some_iff_append.mp hfind
    have hkept : ((before ++ e :: after).filter (!·.isAutomatic)).find? (·.name = name) =
        some e := by
      rw [List.find?_filter, List.find?_eq_some_iff_append]
      refine ⟨by simpa [he] using hname, before, after, rfl, fun a ha => ?_⟩
      have hother := hbefore a ha
      simp only [Bool.not_eq_true', decide_eq_false_iff_not] at hother
      simp [hother]
    rw [Tree.findAt?, Tree.vars?_cons_withoutAutomatics, hvars]
    exact hkept

/-- Nothing new is declared. -/
theorem Tree.isSome_findAt?_of_withoutAutomatics {t : Tree ι} {place : Place} {name : String}
    (h : (t.withoutAutomatics.findAt? place name).isSome) : (t.findAt? place name).isSome := by
  cases place with
  | nil => rwa [Tree.findAt?, Tree.vars?_nil_withoutAutomatics, ← Tree.findAt?] at h
  | cons i path =>
    rw [Tree.findAt?, Tree.vars?_cons_withoutAutomatics] at h
    rw [Tree.findAt?]
    cases hvars : t.vars? (i :: path) with
    | none => simp [hvars] at h
    | some vars =>
      rw [hvars, Option.map_some, Option.bind_some, List.find?_isSome] at h
      obtain ⟨e, he, hname⟩ := h
      rw [Option.bind_some, List.find?_isSome]
      exact ⟨e, (List.mem_filter.mp he).1, hname⟩

/-- A name that does not denote an automatic variable denotes the same without them. -/
theorem Tree.lookup?_withoutAutomatics {t : Tree ι} {place : Place} {name : String} {e : Entity ι}
    (h : t.lookup? place name = some e) (he : e.isAutomatic = false) :
    t.withoutAutomatics.lookup? place name = some e := by
  obtain ⟨scope, hscope, hfind, hnearest⟩ := Tree.lookup?_eq_some_iff.mp h
  rw [Tree.lookup?_eq_some_iff]
  refine ⟨scope, hscope, Tree.findAt?_withoutAutomatics hfind he, fun q hq hsome => ?_⟩
  exact hnearest q hq (Tree.isSome_findAt?_of_withoutAutomatics hsome)

mutual

/-- Static locals are not automatic. -/
theorem Block.statics_withoutAutomatics : ∀ b : Block ι, b.withoutAutomatics.statics = b.statics
  | ⟨decls, blocks⟩ => by
    have hvars : (decls.entities.filter (!·.isAutomatic)).filter (·.isStaticLocal) =
        decls.entities.filter (·.isStaticLocal) := by
      rw [List.filter_filter]
      apply List.filter_congr
      intro e _
      cases hs : e.storage <;> simp [Entity.isStaticLocal, Entity.isAutomatic, hs]
    rw [Block.withoutAutomatics, Block.statics, Block.statics, Declarations.entities_of, hvars,
      Block.staticsOfList_withoutAutomatics blocks]

theorem Block.staticsOfList_withoutAutomatics : ∀ bs : List (Block ι),
    Block.staticsOfList (Block.withoutAutomaticsOfList bs) = Block.staticsOfList bs
  | [] => by rw [Block.withoutAutomaticsOfList]
  | b :: rest => by
    rw [Block.withoutAutomaticsOfList, Block.staticsOfList, Block.staticsOfList,
      Block.statics_withoutAutomatics b, Block.staticsOfList_withoutAutomatics rest]

end

theorem Tree.statics_withoutAutomatics (t : Tree ι) : t.withoutAutomatics.statics = t.statics := by
  simp only [Tree.statics, Tree.withoutAutomatics, Body.statics, List.flatMap_map,
    Block.statics_withoutAutomatics]

end Scope

/-! ## Addresses -/

namespace Load

variable {t : Scope.Tree Site}

/-- An address that exists is that of the same entity without the automatic variables. -/
theorem InitResolves.withoutAutomatics {place : Place} {init : Initializer Site}
    (h : InitResolves t place init) :
    InitResolves t.withoutAutomatics place init ∧
      resolvedInit t.withoutAutomatics place init = resolvedInit t place init := by
  have hlookup : ∀ symbol offset, init.value = .address symbol offset →
      ∃ target, t.lookup? place symbol = some target ∧
        t.withoutAutomatics.lookup? place symbol = some target ∧
        ¬ (target.kind = .definedVariable ∧ target.storage = .automatic) ∧
        target.kind ≠ .constant := by
    intro symbol offset hvalue
    obtain ⟨target, hfound, hlasting, hconstant⟩ := h symbol offset hvalue
    have hkept : target.isAutomatic = false := by simpa [Entity.isAutomatic] using hlasting
    exact ⟨target, hfound, Scope.Tree.lookup?_withoutAutomatics hfound hkept, hlasting, hconstant⟩
  constructor
  · intro symbol offset hvalue
    obtain ⟨target, -, hfound, haddress⟩ := hlookup symbol offset hvalue
    exact ⟨target, hfound, haddress⟩
  · cases hvalue : init.value with
    | address symbol offset =>
      obtain ⟨target, hbefore, hafter, -⟩ := hlookup symbol offset hvalue
      simp only [resolvedInit, hvalue, hbefore, hafter]
    | _ => simp only [resolvedInit, hvalue]

theorem EntityResolves.withoutAutomatics {place : Place} {e : Entity Site}
    (h : EntityResolves t place e) :
    EntityResolves t.withoutAutomatics place e ∧
      resolvedEntity t.withoutAutomatics place e = resolvedEntity t place e := by
  constructor
  · intro hstorage init hinit
    exact (h hstorage init hinit).withoutAutomatics.1
  · unfold resolvedEntity
    split
    · rfl
    · next hstorage =>
      cases hinit : e.init with
      | none => rfl
      | some init =>
        rw [Option.map_some, Option.map_some, (h hstorage init hinit).withoutAutomatics.2]

theorem isAutomatic_resolvedEntity (place : Place) (e : Entity Site) :
    (resolvedEntity t place e).isAutomatic = e.isAutomatic := by
  rw [resolvedEntity_eq]
  rfl

mutual

theorem resolvedBlock_withoutAutomatics (place : Place) : ∀ b : Scope.Block Site,
    (∀ path c, b.at? path = some c → ∀ e ∈ c.vars, EntityResolves t (place ++ path) e) →
      resolvedBlock t.withoutAutomatics place b.withoutAutomatics =
        (resolvedBlock t place b).withoutAutomatics
  | ⟨decls, blocks⟩, h => by
    obtain ⟨hown, hin⟩ := Scope.Block.forall_at?.mp h
    rw [List.append_nil] at hown
    have hvars : (decls.entities.filter (!·.isAutomatic)).map
        (resolvedEntity t.withoutAutomatics place) =
          (decls.entities.map (resolvedEntity t place)).filter (!·.isAutomatic) := by
      rw [List.filter_map]
      simp only [Function.comp_def, isAutomatic_resolvedEntity]
      apply List.map_congr_left
      intro e he
      exact (hown e (List.mem_filter.mp he).1).withoutAutomatics.2
    have hblocks : resolvedBlocks t.withoutAutomatics place 0
        (Scope.Block.withoutAutomaticsOfList blocks) =
          Scope.Block.withoutAutomaticsOfList (resolvedBlocks t place 0 blocks) := by
      apply resolvedBlocks_withoutAutomatics
      intro k b hb
      rw [Nat.zero_add]
      exact hin k b hb
    rw [Scope.Block.withoutAutomatics, resolvedBlock, resolvedBlock,
      Scope.Declarations.entities_of, hvars, hblocks, Scope.Block.withoutAutomatics,
      Scope.Declarations.entities_of]

theorem resolvedBlocks_withoutAutomatics (place : Place) (i : Nat) :
    ∀ bs : List (Scope.Block Site),
      (∀ k b, bs[k]? = some b → ∀ path c, b.at? path = some c →
        ∀ e ∈ c.vars, EntityResolves t (place ++ (i + k) :: path) e) →
      resolvedBlocks t.withoutAutomatics place i (Scope.Block.withoutAutomaticsOfList bs) =
        Scope.Block.withoutAutomaticsOfList (resolvedBlocks t place i bs)
  | [], _ => by
    rw [Scope.Block.withoutAutomaticsOfList, resolvedBlocks, resolvedBlocks,
      Scope.Block.withoutAutomaticsOfList]
  | b :: rest, h => by
    have hfirst := resolvedBlock_withoutAutomatics (place ++ [i]) b fun path c hc => by
      simpa using h 0 b rfl path c hc
    have hrest := resolvedBlocks_withoutAutomatics place (i + 1) rest fun k d hd => by
      rw [show i + 1 + k = i + (k + 1) by omega]
      exact h (k + 1) d hd
    rw [Scope.Block.withoutAutomaticsOfList, resolvedBlocks, resolvedBlocks, hfirst, hrest,
      Scope.Block.withoutAutomaticsOfList]

end

/-- Deleting the automatic variables breaks no address. -/
theorem Resolves.withoutAutomatics (h : Resolves t) : Resolves t.withoutAutomatics := by
  refine ⟨fun e he => (h.entities e he).withoutAutomatics.1, ?_⟩
  rintro (_ | ⟨i, path⟩) b hb e he
  · simp [Scope.Tree.block?] at hb
  · have hvars := t.vars?_cons_withoutAutomatics i path
    rw [Scope.Tree.vars?_cons, Scope.Tree.vars?_cons, hb] at hvars
    cases hc : t.block? (i :: path) with
    | none => simp [hc] at hvars
    | some c =>
      rw [hc] at hvars
      simp only [Option.map_some, Option.some.injEq] at hvars
      rw [hvars] at he
      exact (h.blocks _ c hc e (List.mem_filter.mp he).1).withoutAutomatics.1

/-- Looking up addresses commutes with deleting the automatic variables. -/
theorem Resolves.resolvedTree_withoutAutomatics (h : Resolves t) :
    resolvedTree t.withoutAutomatics = (resolvedTree t).withoutAutomatics := by
  have hentities : t.entities.map (resolvedEntity t.withoutAutomatics []) =
      t.entities.map (resolvedEntity t []) :=
    List.map_congr_left fun e he => (h.entities e he).withoutAutomatics.2
  have hblocks : resolvedBlocks t.withoutAutomatics [] 0
      ((t.bodies.map (·.block)).map Scope.Block.withoutAutomatics) =
        (resolvedBlocks t [] 0 (t.bodies.map (·.block))).map Scope.Block.withoutAutomatics := by
    rw [← Scope.Block.withoutAutomaticsOfList_eq_map,
      ← Scope.Block.withoutAutomaticsOfList_eq_map]
    apply resolvedBlocks_withoutAutomatics
    intro k b hb path c hc
    rw [List.nil_append, Nat.zero_add]
    refine h.blocks (k :: path) c ?_
    rw [t.block?_eq_at? (by simp), Scope.Block.at?_cons, Scope.Tree.root, hb]
    exact hc
  have hbodies : (resolvedTree t.withoutAutomatics).bodies =
      (resolvedTree t).withoutAutomatics.bodies := by
    simp only [resolvedTree, Scope.Tree.withoutAutomatics, List.map_map, Function.comp_def]
    simp only [List.map_map, Function.comp_def, Scope.Tree.withoutAutomatics] at hblocks
    rw [hblocks, List.zip_map, List.map_map]
    rfl
  have hstatics : (resolvedTree t.withoutAutomatics).statics = (resolvedTree t).statics := by
    rw [Scope.Tree.statics, hbodies, ← Scope.Tree.statics, Scope.Tree.statics_withoutAutomatics]
  have hreferred : (resolvedTree t.withoutAutomatics).referred = (resolvedTree t).referred := by
    change targets (t.entities.map (resolvedEntity t.withoutAutomatics []) ++
      (resolvedTree t.withoutAutomatics).statics) =
        targets (t.entities.map (resolvedEntity t []) ++ (resolvedTree t).statics)
    rw [hentities, hstatics]
  exact Scope.Tree.ext hentities hbodies hreferred rfl

end Load

/-! ## Documents -/

namespace Document

mutual

/-- The block without its automatic variables, at any depth. -/
def Block.withoutAutomatics : Block → Block
  | ⟨vars, blocks⟩ =>
    ⟨vars.filter fun v => v.storage ≠ "" ∧ v.storage ≠ "auto",
      Block.withoutAutomaticsOfList blocks⟩

/-- Several blocks without their automatic variables. -/
def Block.withoutAutomaticsOfList : List Block → List Block
  | [] => []
  | b :: rest => b.withoutAutomatics :: Block.withoutAutomaticsOfList rest

end

/-- The item without the automatic variables of its body. -/
def Item.withoutAutomatics (i : Item) : Item :=
  { i with body := i.body.map Block.withoutAutomatics }

/-- The document without its automatic variables and their initial values. -/
def withoutAutomatics (doc : Document) : Document :=
  { doc with items := doc.items.map Item.withoutAutomatics }

theorem Block.vars_withoutAutomatics (b : Block) :
    b.withoutAutomatics.vars = b.vars.filter fun v => v.storage ≠ "" ∧ v.storage ≠ "auto" := by
  cases b
  rw [Block.withoutAutomatics]

theorem Block.blocks_withoutAutomatics (b : Block) :
    b.withoutAutomatics.blocks = b.blocks.map Block.withoutAutomatics := by
  have hlist (bs : List Block) :
      Block.withoutAutomaticsOfList bs = bs.map Block.withoutAutomatics := by
    induction bs with
    | nil => rw [Block.withoutAutomaticsOfList, List.map_nil]
    | cons b bs ih => rw [Block.withoutAutomaticsOfList, List.map_cons, ih]
  cases b
  rw [Block.withoutAutomatics, hlist]

/-- Deleting makes no blocks. -/
theorem Block.HasBlock.of_withoutAutomatics {b c : Block} {outer : List Block}
    (h : b.withoutAutomatics.HasBlock c outer) :
    ∃ d outer, b.HasBlock d outer ∧ c = d.withoutAutomatics := by
  induction h with
  | self => exact ⟨b, [], .self, rfl⟩
  | nested _ hd ih =>
    obtain ⟨e, outer', he, rfl⟩ := ih
    rw [Block.blocks_withoutAutomatics] at hd
    obtain ⟨d, hmem, rfl⟩ := List.mem_map.mp hd
    exact ⟨d, _, .nested he hmem, rfl⟩

theorem Block.WellFormed.withoutAutomatics {types : Table} {b : Block} (h : b.WellFormed types) :
    b.withoutAutomatics.WellFormed types := by
  constructor
  · intro v hv
    rw [Block.vars_withoutAutomatics] at hv
    exact h.vars v (List.mem_filter.mp hv).1
  · rw [Block.vars_withoutAutomatics]
    exact h.distinct.sublist (List.filter_sublist.map _)

/-- A local variable is automatic in the tree exactly when it is in the document. -/
theorem LocalVar.WellFormed.isAutomatic_declared {types : Table} {v : LocalVar}
    (h : v.WellFormed types) (place : Place) :
    (!(v.declared types place).isAutomatic) = decide (v.storage ≠ "" ∧ v.storage ≠ "auto") := by
  have hkind : (v.declared types place).kind = .definedVariable := rfl
  have hstorage := h.storage
  simp only [List.mem_cons, List.not_mem_nil, or_false] at hstorage
  rw [Entity.isAutomatic, hkind, Load.storage_declared]
  rcases hstorage with hs | hs | hs <;> simp [hs]

mutual

/-- Deleting in the document is deleting in the tree. -/
theorem Block.declared_withoutAutomatics (types : Table) (place : Place) : ∀ b : Block,
    (∀ c outer, b.HasBlock c outer → c.WellFormed types) →
      b.withoutAutomatics.declared types place = (b.declared types place).withoutAutomatics
  | ⟨vars, blocks⟩, h => by
    obtain ⟨hown, hin⟩ := Block.forall_hasBlock.mp h
    have hvars : (vars.filter fun v => v.storage ≠ "" ∧ v.storage ≠ "auto").map
        (LocalVar.declared types place) =
          (vars.map (LocalVar.declared types place)).filter (!·.isAutomatic) := by
      rw [List.filter_map]
      congr 1
      apply List.filter_congr
      intro v hv
      exact ((hown.vars v hv).isAutomatic_declared place).symm
    rw [Block.withoutAutomatics, Block.declared, Block.declared, hvars,
      Block.declaredList_withoutAutomatics types place 0 blocks hin,
      Scope.Block.withoutAutomatics, Scope.Declarations.entities_of]

theorem Block.declaredList_withoutAutomatics (types : Table) (place : Place) (i : Nat) :
    ∀ bs : List Block, (∀ b ∈ bs, ∀ c outer, b.HasBlock c outer → c.WellFormed types) →
      Block.declaredList types place i (Block.withoutAutomaticsOfList bs) =
        Scope.Block.withoutAutomaticsOfList (Block.declaredList types place i bs)
  | [], _ => by
    rw [Block.withoutAutomaticsOfList, Block.declaredList, Scope.Block.withoutAutomaticsOfList]
  | b :: rest, h => by
    rw [List.forall_mem_cons] at h
    rw [Block.withoutAutomaticsOfList, Block.declaredList, Block.declaredList,
      Block.declared_withoutAutomatics types (place ++ [i]) b h.1,
      Block.declaredList_withoutAutomatics types place (i + 1) rest h.2,
      Scope.Block.withoutAutomaticsOfList]

end

theorem Item.getD_body_withoutAutomatics (i : Item) :
    i.withoutAutomatics.body.getD {} = (i.body.getD {}).withoutAutomatics := by
  have hempty : ({} : Block).withoutAutomatics = {} := by
    rw [Block.withoutAutomatics, Block.withoutAutomaticsOfList, List.filter_nil]
  rw [Item.withoutAutomatics]
  cases i.body with
  | none => exact hempty.symm
  | some body => rfl

theorem declaredBodies_withoutAutomatics (types : Table) (i : Nat) (items : List Item)
    (h : ∀ item ∈ items, ∀ c outer, (item.body.getD {}).HasBlock c outer → c.WellFormed types) :
    declaredBodies types i (items.map Item.withoutAutomatics) =
      (declaredBodies types i items).map fun body =>
        { body with block := body.block.withoutAutomatics } := by
  induction items generalizing i with
  | nil => rw [List.map_nil, declaredBodies, List.map_nil]
  | cons item items ih =>
    rw [List.forall_mem_cons] at h
    rw [List.map_cons, declaredBodies, declaredBodies, List.map_cons, ih (i + 1) h.2,
      Item.getD_body_withoutAutomatics, Block.declared_withoutAutomatics types [i] _ h.1]
    rfl

section

variable {types : Table} {doc : Document}

theorem WellFormed.declared_withoutAutomatics (h : doc.WellFormed types) :
    doc.withoutAutomatics.declared types = (doc.declared types).withoutAutomatics := by
  have hfunctions : (doc.items.map Item.withoutAutomatics).filter (·.kind = "func") =
      doc.functions.map Item.withoutAutomatics := by
    rw [List.filter_map]
    rfl
  have hentities : (doc.items.map Item.withoutAutomatics).map (Item.declared types) =
      doc.items.map (Item.declared types) := by
    rw [List.map_map]
    rfl
  have hbodies := declaredBodies_withoutAutomatics types 0 doc.functions
    ((forall_functions_iff h.items).mpr h.blocks)
  refine Scope.Tree.ext hentities ?_ rfl rfl
  change declaredBodies types 0 ((doc.items.map Item.withoutAutomatics).filter
    (·.kind = "func")) = _
  rw [hfunctions, hbodies]
  rfl

/-- A well-formed document is well-formed without its automatic variables. -/
theorem WellFormed.withoutAutomatics (h : doc.WellFormed types) :
    doc.withoutAutomatics.WellFormed types := by
  have hitems : ∀ i ∈ doc.withoutAutomatics.items, i.WellFormed types := by
    intro item hitem
    obtain ⟨i, hi, rfl⟩ := List.mem_map.mp hitem
    have hwf := h.items i hi
    refine ⟨hwf.named, hwf.typed, hwf.kind, hwf.init, hwf.constant, fun hsome => hwf.body ?_⟩
    simpa [Item.withoutAutomatics] using hsome
  have hblocks : ∀ b outer, doc.withoutAutomatics.HasBlock b outer → b.WellFormed types := by
    rintro b outer ⟨item, hitem, trimmed, htrimmed, hb⟩
    obtain ⟨i, hi, rfl⟩ := List.mem_map.mp hitem
    obtain ⟨body, hbody, rfl⟩ := Option.map_eq_some_iff.mp htrimmed
    obtain ⟨c, outer', hc, rfl⟩ := hb.of_withoutAutomatics
    exact (h.blocks c outer' ⟨i, hi, body, hbody, hc⟩).withoutAutomatics
  have hdistinct : (doc.withoutAutomatics.items.map (·.name)).Nodup := by
    have hnames : doc.withoutAutomatics.items.map (·.name) = doc.items.map (·.name) := by
      rw [Document.withoutAutomatics, List.map_map]
      rfl
    rw [hnames]
    exact h.distinct
  have hresolves : Load.Resolves (doc.withoutAutomatics.declared types) := by
    rw [h.declared_withoutAutomatics]
    exact h.resolves.withoutAutomatics
  obtain ⟨haddresses, hlocal⟩ := (resolves_declared_iff hitems hblocks).mp hresolves
  exact ⟨hitems, hdistinct, hblocks, haddresses, hlocal⟩

/-- Its program is the same, with the automatic variables deleted. -/
theorem WellFormed.program_withoutAutomatics (h : doc.WellFormed types) :
    doc.withoutAutomatics.program types =
      { doc.program types with scope := (doc.program types).scope.withoutAutomatics } := by
  rw [program, h.declared_withoutAutomatics, h.resolves.resolvedTree_withoutAutomatics, program]
  rfl

end

end Document

/-! ## Output -/

namespace Scope

variable {ι : Type}

/-- Two trees that agree on all that is read of a tree after loading. -/
structure Tree.Agrees (t u : Tree ι) : Prop where
  entities : t.entities = u.entities
  statics : t.statics = u.statics
  referred : t.referred = u.referred
  frozen : t.frozen = u.frozen

namespace Tree.Agrees

variable {t u : Tree ι}

theorem freeze (h : t.Agrees u) : t.freeze.Agrees u.freeze where
  entities := by rw [t.entities_freeze, u.entities_freeze, h.entities]
  statics := by rw [t.statics_freeze, u.statics_freeze, h.statics]
  referred := by rw [t.referred_freeze, u.referred_freeze, h.referred]
  frozen := by rw [t.frozen_freeze, u.frozen_freeze]

theorem classes (h : t.Agrees u) : t.classes = u.classes := by
  rw [t.classes_eq, u.classes_eq, h.entities, h.statics]

theorem functions (h : t.Agrees u) : t.functions = u.functions := by
  rw [Tree.functions, Tree.functions, h.entities]

variable [DecidableEq ι]

theorem isReferred (h : t.Agrees u) : t.isReferred = u.isReferred := by
  funext id
  rw [Tree.isReferred, Tree.isReferred, h.referred]

theorem referenceSymbol (h : t.Agrees u) : t.referenceSymbol = u.referenceSymbol := by
  funext r
  rw [Tree.referenceSymbol, Tree.referenceSymbol, t.ordinal?_eq, u.ordinal?_eq, h.frozen,
    h.statics]

theorem symbol (h : t.Agrees u) : t.symbol = u.symbol := by
  funext e
  rw [Tree.symbol, Tree.symbol, h.referenceSymbol]

theorem label (h : t.Agrees u) : t.label = u.label := by
  funext init
  rw [Tree.label, Tree.label, h.referenceSymbol]

end Tree.Agrees

theorem Tree.agrees_withoutAutomatics {t : Tree ι} (h : t.frozen = false) :
    t.withoutAutomatics.Agrees t :=
  ⟨rfl, t.statics_withoutAutomatics, rfl, h.symm⟩

end Scope

namespace Program

variable {ι : Type} [DecidableEq ι]

/-- Two programs whose trees agree. -/
structure Agrees (p q : Program ι) : Prop where
  file : p.file = q.file
  scope : p.scope.Agrees q.scope
  types : p.types = q.types

namespace Agrees

variable {p q : Program ι}

theorem valueElement (h : p.Agrees q) : p.valueElement = q.valueElement := by
  funext symbol type init lits
  rw [Program.valueElement, Program.valueElement, h.file, h.types, h.scope.label]

theorem variableElements (h : p.Agrees q) : p.variableElements = q.variableElements := by
  funext o v lits
  rw [Program.variableElements, Program.variableElements, h.scope.symbol, h.valueElement]

theorem variableListElements (h : p.Agrees q) (o : Options) (vars : List (Entity ι))
    (lits : Literals) :
    p.variableListElements o vars lits = q.variableListElements o vars lits := by
  induction vars generalizing lits with
  | nil => rfl
  | cons v vars ih =>
    rw [Program.variableListElements, Program.variableListElements, h.variableElements]
    simp only [ih]

theorem commonElements (h : p.Agrees q) : p.commonElements = q.commonElements := by
  funext v
  rw [Program.commonElements, Program.commonElements, h.scope.symbol]

theorem listing (h : p.Agrees q) (o : Options) : p.listing o = q.listing o := by
  have hdata : p.dataSection o = q.dataSection o := by
    rw [dataSection, dataSection, h.scope.classes, h.variableListElements]
  have hcommon : p.commonSymbols o = q.commonSymbols o := by
    rw [commonSymbols, commonSymbols, h.scope.classes, h.commonElements]
  have hhelper : p.helper o = q.helper o := by
    rw [helper, helper, h.file]
  rw [Program.listing, Program.listing, sections, sections, ending, ending, h.file, hdata, hcommon,
    hhelper]

theorem truncationWarnings (h : p.Agrees q) (o : Options) (vars : List (Entity ι))
    (lits : Literals) : p.truncationWarnings o vars lits = q.truncationWarnings o vars lits := by
  induction vars generalizing lits with
  | nil => rfl
  | cons v vars ih =>
    rw [Program.truncationWarnings, Program.truncationWarnings, truncationWarning?,
      truncationWarning?, h.scope.symbol, h.variableElements]
    simp only [ih]

omit [DecidableEq ι] in
theorem frozen (h : p.Agrees q) : p.frozen.Agrees q.frozen :=
  ⟨h.file, h.scope.freeze, h.types⟩

/-- Programs that agree give the same listing or error. -/
theorem result_generate (h : p.Agrees q) (o : Options) :
    (p.generate o).result = (q.generate o).result := by
  rw [p.result_generate, q.result_generate, h.frozen.listing]

/-- Programs that agree give the same warnings. -/
theorem warnings_generate (h : p.Agrees q) (o : Options) :
    (p.generate o).warnings = (q.generate o).warnings := by
  have hfrozen := h.frozen
  rw [p.warnings_generate, q.warnings_generate]
  simp only [warningsOf, commonWarnings, externWarnings, hfrozen.truncationWarnings,
    hfrozen.scope.classes, hfrozen.scope.symbol, hfrozen.scope.isReferred]

end Agrees

/-- Trees that agree have the same dump. -/
theorem dumpText_of_agrees {t u : Scope.Tree ι} (h : t.Agrees u) : dumpText t = dumpText u := by
  have hvariable : dumpVariable t = dumpVariable u := by
    funext v
    rw [dumpVariable, dumpVariable, h.symbol]
  simp only [dumpText, sectionText, hvariable, h.classes, h.functions]

end Program

namespace Document

/-- Automatic variables do not influence the output.  Without them the document loads as
well, and it has the same dump; under whatever options, it gives the same listing or the
same error, and the same text of diagnostics. -/
theorem output_withoutAutomatics {types : Table} {doc : Document} {p : Program Site}
    (h : doc.load types = .ok p) :
    ∃ q, doc.withoutAutomatics.load types = .ok q ∧
      (Program.dump.run.run q.scope).1 = (Program.dump.run.run p.scope).1 ∧
      ∀ o, (q.generate o).result = (p.generate o).result ∧
        Diagnostic.render o (q.generate o).warnings =
          Diagnostic.render o (p.generate o).warnings := by
  obtain ⟨hdoc, rfl⟩ := (load_accepts types doc p).mp h
  have hloads := (load_accepts types _ _).mpr ⟨hdoc.withoutAutomatics, rfl⟩
  rw [hdoc.program_withoutAutomatics] at hloads
  have hscope : (doc.program types).scope.withoutAutomatics.Agrees (doc.program types).scope :=
    Scope.Tree.agrees_withoutAutomatics rfl
  have hagrees : Program.Agrees { doc.program types with
      scope := (doc.program types).scope.withoutAutomatics } (doc.program types) :=
    ⟨rfl, hscope, rfl⟩
  refine ⟨_, hloads, ?_, fun o => ⟨hagrees.result_generate o, ?_⟩⟩
  · rw [Program.run_dump, Program.run_dump]
    exact Program.dumpText_of_agrees hscope.freeze
  · rw [hagrees.warnings_generate o]

/-- An automatic variable that hides a global one, next to a block with a pointer to what
it does not hide.  Its own initial value names nothing at all. -/
def concealing : Document where
  items := [
    { kind := "var", name := "n", type := "int" },
    { kind := "func", name := "f", type := "int",
      body := some {
        vars := [
          { name := "p", type := "int*", storage := "static", init := some { symbol := "n" } }]
        blocks := [
          { vars := [
            { name := "n", type := "char", init := some { symbol := "nowhere" } },
            { name := "m", type := "char", storage := "static",
              init := some { int := some 300 } }] },
          { vars := [
            { name := "m", type := "int", storage := "auto" },
            { name := "q", type := "int*", storage := "static",
              init := some { symbol := "n", offset := 4 } }] }] } }]

theorem output_withoutAutomatics_concealing : ∃ p q,
    concealing.load { pointerSize := 4 } = .ok p ∧
      concealing.withoutAutomatics.load { pointerSize := 4 } = .ok q ∧
      p.scope.entries.length = 7 ∧ q.scope.entries.length = 5 ∧
      (Program.dump.run.run q.scope).1 = (Program.dump.run.run p.scope).1 ∧
      (q.generate {}).result = (p.generate {}).result := by
  obtain ⟨p, hp⟩ := exists_eq_ok_of_isOk
    (show (concealing.load { pointerSize := 4 }).isOk = true by decide +kernel)
  obtain ⟨q, hq, hdump, hgenerate⟩ := output_withoutAutomatics hp
  obtain ⟨-, rfl⟩ := (load_accepts _ _ _).mp hp
  obtain ⟨-, rfl⟩ := (load_accepts _ _ _).mp hq
  exact ⟨_, _, hp, hq, by decide +kernel, by decide +kernel, hdump, (hgenerate {}).1⟩

end Document

end Cflat
