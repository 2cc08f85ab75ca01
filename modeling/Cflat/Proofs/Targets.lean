import Cflat.Proofs.Classification

/-!
# Declarations and targets

Where the variables of a loaded program come from.  There are three groups.

* Lookups.  Looking up addresses changes initial values only, so a name denotes the
  same in the finished tree as before.
* Declarations of a document, and what a lookup can give.
* Origins: every variable of the program belongs to a declaration of the document,
  and an address in its initial value is that of what the name denotes around it.
-/

namespace Cflat

open Scope (Entity Place Initializer)

/-! ## Lookups -/

namespace Load

variable (t : Scope.Tree Site)

theorem reference_resolvedEntity (place : Place) (e : Entity Site) :
    (resolvedEntity t place e).reference = e.reference := by
  rw [resolvedEntity_eq]
  rfl

theorem blocks_resolvedBlock (place : Place) (b : Scope.Block Site) :
    (resolvedBlock t place b).blocks = resolvedBlocks t place 0 b.blocks := by
  cases b
  rw [resolvedBlock]

theorem getElem?_resolvedBlocks (place : Place) (bs : List (Scope.Block Site)) (i k : Nat) :
    (resolvedBlocks t place i bs)[k]? = bs[k]?.map (resolvedBlock t (place ++ [i + k])) :=
  getElem?_of_counting (fun i => resolvedBlock t (place ++ [i]))
    (fun i => by rw [resolvedBlocks]) (fun i b rest => by rw [resolvedBlocks]) bs i k

theorem vars?_resolvedBlock (path : List Nat) (place : Place) (b : Scope.Block Site) :
    (resolvedBlock t place b).vars? path =
      (b.vars? path).map fun vars => vars.map (resolvedEntity t (place ++ path)) := by
  induction path generalizing place b with
  | nil =>
    cases b
    rw [resolvedBlock, List.append_nil, Scope.Block.vars?_nil, Scope.Block.vars?_nil]
    rfl
  | cons i path ih =>
    rw [Scope.Block.vars?_cons, Scope.Block.vars?_cons, blocks_resolvedBlock,
      getElem?_resolvedBlocks, Nat.zero_add]
    cases b.blocks[i]? with
    | none => rfl
    | some c => simp [ih]

/-- Looking up addresses changes the entities one by one and keeps them where they are. -/
theorem vars?_resolvedTree (place : Place) :
    (resolvedTree t).vars? place =
      (t.vars? place).map fun vars => vars.map (resolvedEntity t place) := by
  have hroot : (resolvedTree t).root = resolvedBlock t [] t.root := by
    rw [Scope.Tree.root, map_block_resolvedTree, Scope.Tree.root, resolvedBlock]
    rfl
  rw [Scope.Tree.vars?, hroot, vars?_resolvedBlock, List.nil_append, Scope.Tree.vars?]

theorem findAt?_resolvedTree (place : Place) (name : String) :
    (resolvedTree t).findAt? place name =
      (t.findAt? place name).map (resolvedEntity t place) := by
  have hname : (fun e : Entity Site => decide (e.name = name)) ∘ resolvedEntity t place =
      fun e => decide (e.name = name) := by
    funext e
    rw [Function.comp_apply, resolvedEntity_eq]
  rw [Scope.Tree.findAt?, vars?_resolvedTree, Scope.Tree.findAt?]
  cases t.vars? place with
  | none => rfl
  | some vars => rw [Option.map_some, Option.bind_some, List.find?_map, hname, Option.bind_some]

/-- A name denotes the same after the addresses are looked up. -/
theorem exists_lookup?_resolvedTree {place : Place} {name : String} {e : Entity Site}
    (h : t.lookup? place name = some e) :
    ∃ scope, (resolvedTree t).lookup? place name = some (resolvedEntity t scope e) := by
  obtain ⟨scope, hscope, hfind, hnearest⟩ := Scope.Tree.lookup?_eq_some_iff.mp h
  refine ⟨scope, Scope.Tree.lookup?_eq_some_iff.mpr ⟨scope, hscope, ?_, fun q hq hsome => ?_⟩⟩
  · rw [findAt?_resolvedTree, hfind, Option.map_some]
  · rw [findAt?_resolvedTree, Option.isSome_map] at hsome
    exact hnearest q hq hsome

end Load

theorem Scope.Tree.name_of_lookup? {t : Scope.Tree Site} {place : Place} {name : String}
    {e : Entity Site} (h : t.lookup? place name = some e) : e.name = name := by
  rw [Scope.Tree.lookup?, Option.or_eq_some_iff] at h
  rcases h with h | ⟨-, h⟩
  · obtain ⟨b, -, hb⟩ := List.exists_of_findSome?_eq_some h
    rw [Scope.Block.find?, Scope.Declarations.find?_eq] at hb
    simpa using List.find?_some hb
  · rw [Scope.Tree.find?, Scope.Declarations.find?_eq] at h
    simpa using List.find?_some h

/-! ## Declarations -/

namespace Document

namespace Declaration

/-- The name that is declared. -/
def name : Declaration → String
  | item i => i.name
  | localVar v => v.name

/-- The spelling of the type. -/
def type : Declaration → String
  | item i => i.type
  | localVar v => v.type

/-- The initial value, if there is one. -/
def init : Declaration → Option Init
  | item i => i.init
  | localVar v => v.init

end Declaration

/-- The declarations of a document: its items, and the variables of its blocks. -/
def Contains (doc : Document) : Declaration → Prop
  | .item i => i ∈ doc.items
  | .localVar v => ∃ b outer, doc.HasBlock b outer ∧ v ∈ b.vars

theorem Block.HasBlock.exists_of_mem {b c d : Block} {outer : List Block}
    (h : b.HasBlock c outer) (hd : d ∈ c :: outer) : ∃ outer, b.HasBlock d outer := by
  induction h with
  | self => exact ⟨[], List.mem_singleton.mp hd ▸ .self⟩
  | nested h hblock ih =>
    rcases List.mem_cons.mp hd with rfl | hd
    · exact ⟨_, .nested h hblock⟩
    · exact ih hd

/-- A lookup gives a declaration of that name. -/
theorem contains_of_lookup? {doc : Document} {scopes : List Block}
    (hscopes : ∀ c ∈ scopes, ∃ outer, doc.HasBlock c outer) {name : String} {d : Declaration}
    (h : doc.lookup? scopes name = some d) : doc.Contains d ∧ d.name = name := by
  rw [lookup?, Option.or_eq_some_iff] at h
  rcases h with h | ⟨-, h⟩
  · obtain ⟨v, hv, rfl⟩ := Option.map_eq_some_iff.mp h
    obtain ⟨b, hb, hfind⟩ := List.exists_of_findSome?_eq_some hv
    obtain ⟨outer, houter⟩ := hscopes b hb
    have hname : v.name = name := by simpa using List.find?_some hfind
    exact ⟨⟨b, outer, houter, List.mem_of_find?_eq_some hfind⟩, hname⟩
  · obtain ⟨i, hi, rfl⟩ := Option.map_eq_some_iff.mp h
    have hname : i.name = name := by simpa using List.find?_some hi
    exact ⟨List.mem_of_find?_eq_some hi, hname⟩

/-! ## Origins -/

/-- The variable `v` of the program comes from the declaration `d`, which stands
inside the blocks `scopes`. -/
structure Origin (types : Table) (doc : Document) (v : Entity Site) (d : Declaration)
    (scopes : List Block) : Prop where
  contains : doc.Contains d
  name : v.name = d.name
  type : ∃ ty, types.parse d.type = .ok ty ∧ v.type = some ty
  init : v.init =
    (d.init.bind Init.declared?).map (Load.resolvedInit (doc.declared types) v.id.place)
  initWellFormed : ∀ x, d.init = some x → x.WellFormed
  addressable : doc.Addressable scopes d.init
  enclosing :
    List.Forall₂ (Block.Declares types) ((doc.declared types).enclosing v.id.place) scopes
  blocks : ∀ c ∈ scopes, ∃ outer, doc.HasBlock c outer

theorem WellFormed.origin_of_item {types : Table} {doc : Document} (h : doc.WellFormed types)
    {i : Item} (hi : i ∈ doc.items) :
    Origin types doc (resolvedItem types (doc.declared types) i) (.item i) [] := by
  obtain ⟨ty, hty, -⟩ := (h.items i hi).typed
  rw [resolvedItem, Load.resolvedEntity_eq]
  exact
    { contains := hi
      name := rfl
      type := ⟨ty, hty, by simp [Item.declared, hty, Except.toOption]⟩
      init := rfl
      initWellFormed x hx := ((h.items i hi).init x hx).1
      addressable := h.addresses i hi
      enclosing := .nil
      blocks c hc := absurd hc List.not_mem_nil }

mutual

/-- The place of a static variable of a block leads to it. -/
theorem Block.exists_trail_of_mem_placedStatics {place : Place} {x : Place × LocalVar} :
    ∀ b : Block, x ∈ b.placedStatics place →
      ∃ path c outer, x.1 = place ++ path ∧ Block.trail? path b = some (c, outer) ∧
        x.2 ∈ c.vars ∧ x.2.storage = "static"
  | ⟨vars, blocks⟩, hx => by
    rw [Block.placedStatics, List.mem_append] at hx
    rcases hx with hx | hx
    · obtain ⟨v, hv, rfl⟩ := List.mem_map.mp hx
      obtain ⟨hv, hstatic⟩ := List.mem_filter.mp hv
      exact ⟨[], _, [], (List.append_nil _).symm, rfl, hv, by simpa using hstatic⟩
    · obtain ⟨k, b, path, c, outer, hb, hplace, htrail, hv⟩ :=
        Block.exists_trail_of_mem_placedStaticsOfList blocks hx
      refine ⟨k :: path, c, outer ++ [⟨vars, blocks⟩], by simpa using hplace, ?_, hv⟩
      rw [Block.trail?, hb, Option.bind_some, htrail]
      rfl

theorem Block.exists_trail_of_mem_placedStaticsOfList {place : Place} {i : Nat}
    {x : Place × LocalVar} :
    ∀ bs : List Block, x ∈ Block.placedStaticsOfList place i bs →
      ∃ k b path c outer, bs[k]? = some b ∧ x.1 = place ++ (i + k) :: path ∧
        Block.trail? path b = some (c, outer) ∧ x.2 ∈ c.vars ∧ x.2.storage = "static"
  | [], hx => by simp [Block.placedStaticsOfList] at hx
  | b :: rest, hx => by
    rw [Block.placedStaticsOfList, List.mem_append] at hx
    rcases hx with hx | hx
    · obtain ⟨path, c, outer, hplace, htrail, hv⟩ :=
        Block.exists_trail_of_mem_placedStatics b hx
      exact ⟨0, b, path, c, outer, rfl, by simpa using hplace, htrail, hv⟩
    · obtain ⟨k, b', path, c, outer, hb, hplace, htrail, hv⟩ :=
        Block.exists_trail_of_mem_placedStaticsOfList rest hx
      refine ⟨k + 1, b', path, c, outer, hb, ?_, htrail, hv⟩
      rw [hplace, show i + 1 + k = i + (k + 1) by omega]

end

theorem WellFormed.exists_origin_of_static {types : Table} {doc : Document}
    (h : doc.WellFormed types) {x : Place × LocalVar} (hx : x ∈ doc.placedStatics) :
    ∃ scopes, Origin types doc (resolvedVar types (doc.declared types) x) (.localVar x.2)
      scopes := by
  obtain ⟨k, body, path, c, outer, hbody, hplace, htrail, hv, hstatic⟩ :=
    Block.exists_trail_of_mem_placedStaticsOfList _ hx
  rw [List.getElem?_map] at hbody
  obtain ⟨item, hitem, rfl⟩ := Option.map_eq_some_iff.mp hbody
  rw [Nat.zero_add, List.nil_append] at hplace
  have hblock : doc.HasBlock c outer := by
    rcases hasBlock_of_trail hitem htrail with hblock | hempty
    · exact hblock
    · simp [hempty] at hv
  have hwf := (h.blocks c outer hblock).vars x.2 hv
  obtain ⟨ty, hty, -⟩ := hwf.typed
  have hstorage : (x.2.declared types x.1).storage ≠ .automatic := by
    simp [Load.storage_declared, hstatic]
  refine ⟨c :: outer, ?_⟩
  rw [resolvedVar, Load.resolvedEntity_eq, if_neg hstorage]
  exact
    { contains := ⟨c, outer, hblock, hv⟩
      name := rfl
      type := ⟨ty, hty, by simp [LocalVar.declared, hty, Except.toOption]⟩
      init := rfl
      initWellFormed := hwf.init
      addressable := h.localAddresses c outer hblock x.2 hv hstatic
      enclosing := by
        rw [show (x.2.declared types x.1).id.place = k :: path from hplace]
        exact forall₂_enclosing types doc hitem htrail
      blocks d hd := by
        obtain ⟨i, hi, b, hb, hin⟩ := hblock
        obtain ⟨outer', houter⟩ := hin.exists_of_mem hd
        exact ⟨outer', i, hi, b, hb, houter⟩ }

/-- Every variable of a program has its origin in the document. -/
theorem WellFormed.exists_origin {types : Table} {doc : Document} (h : doc.WellFormed types)
    {v : Entity Site} (hv : v ∈ (doc.frozenTree types).classes.all) :
    ∃ d scopes, Origin types doc v d scopes := by
  rw [Scope.Tree.all_classes] at hv
  rcases List.mem_append.mp (List.mem_filter.mp hv).1 with hv | hv
  · rw [entities_frozenTree] at hv
    obtain ⟨i, hi, rfl⟩ := List.mem_map.mp hv
    exact ⟨_, _, h.origin_of_item hi⟩
  · rw [statics_frozenTree] at hv
    obtain ⟨x, hx, rfl⟩ := List.mem_map.mp hv
    exact ⟨_, h.exists_origin_of_static hx⟩

/-- An address in an initial value is that of the entity that the name denotes at
the place of the variable. -/
theorem Origin.exists_target {types : Table} {doc : Document} {v : Entity Site} {d : Declaration}
    {scopes : List Block} (h : Origin types doc v d scopes) {init : Initializer Site}
    (hinit : v.init = some init) {name : String} {offset : Int64}
    (hvalue : init.value = .address name offset) :
    ∃ e, (doc.frozenTree types).lookup? v.id.place name = some e ∧
      init.target = some e.reference ∧ ∃ d, doc.Contains d ∧ d.name = e.name := by
  rw [h.init, Option.map_eq_some_iff] at hinit
  obtain ⟨init₀, hinit₀, rfl⟩ := hinit
  have hvalue₀ : init₀.value = .address name offset := by
    rw [← hvalue, Load.value_resolvedInit]
  have hresolves := (initResolves_iff h.enclosing h.initWellFormed).mpr h.addressable
  obtain ⟨e₀, he₀, -⟩ := hresolves init₀ hinit₀ name offset hvalue₀
  obtain ⟨scope, he⟩ := Load.exists_lookup?_resolvedTree (doc.declared types) he₀
  refine ⟨_, (Scope.Tree.lookup?_freeze ..).trans he, ?_, ?_⟩
  · simp [Load.resolvedInit, hvalue₀, he₀, Load.reference_resolvedEntity]
  · have hrel := rel_lookup? types doc h.enclosing name
    rw [he₀] at hrel
    generalize hd : doc.lookup? scopes name = found at hrel
    cases hrel with
    | some _ =>
      obtain ⟨hcontains, hname⟩ := contains_of_lookup? h.blocks hd
      exact ⟨_, hcontains, hname.trans (Scope.Tree.name_of_lookup? he).symm⟩

end Document

end Cflat
