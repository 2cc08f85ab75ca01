import Cflat.Proofs.Elaboration
import Mathlib.Data.List.Forall2

/-!
# Which documents load

Loading accepts exactly the well-formed documents, and every refusal is an error
of the document.

* Paths.  `Block.trail?` follows a path of positions into a block of a document;
  it leads to the same blocks as `HasBlock`, and to the blocks of the declared
  tree at the same path.
* Names.  Looking a name up at a place of the declared tree finds what the name
  denotes in the document.
* The whole: `load_accepts` gives the program of a well-formed document, and
  `load_semantic` the sort of every error.
-/

namespace Cflat

open Scope (Entity Initializer Kind Storage Place)

/-- A function that goes through a list and counts the members from `i` on makes the `k`-th
member of the `k`-th one, with the number `i + k`. -/
theorem getElem?_of_counting {α β : Type} (f : Nat → α → β) {walk : Nat → List α → List β}
    (hnil : ∀ i, walk i [] = []) (hcons : ∀ i a l, walk i (a :: l) = f i a :: walk (i + 1) l)
    (l : List α) (i k : Nat) : (walk i l)[k]? = l[k]?.map (f (i + k)) := by
  induction l generalizing i k with
  | nil => simp [hnil]
  | cons a l ih =>
    rw [hcons]
    cases k with
    | zero => rfl
    | succ k =>
      rw [List.getElem?_cons_succ, List.getElem?_cons_succ, ih,
        show i + 1 + k = i + (k + 1) by omega]

namespace Document

/-- The tree of a document before its addresses are looked up. -/
def declared (types : Table) (doc : Document) : Scope.Tree Site where
  decls := .of (doc.items.map (Item.declared types))
  bodies := declaredBodies types 0 (doc.items.filter (·.kind = "func"))

/-- The program of a document. -/
def program (types : Table) (doc : Document) : Program Site where
  file := doc.file
  scope := Load.resolvedTree (doc.declared types)
  types

/-! ## Paths -/

/-- The block at the end of a path, and the blocks around it, the nearest first. -/
def Block.trail? : List Nat → Block → Option (Block × List Block)
  | [], b => some (b, [])
  | i :: path, b =>
    b.blocks[i]?.bind fun c => (Block.trail? path c).map fun (d, inner) => (d, inner ++ [b])

theorem Block.trail?_concat (path : List Nat) (i : Nat) (b : Block) :
    Block.trail? (path ++ [i]) b =
      (Block.trail? path b).bind fun (c, outer) => c.blocks[i]?.map fun d => (d, c :: outer) := by
  induction path generalizing b with
  | nil =>
    cases hi : b.blocks[i]? <;> simp [Block.trail?, hi]
  | cons k path ih =>
    simp only [List.cons_append, Block.trail?]
    cases hk : b.blocks[k]? with
    | none => rfl
    | some c =>
      simp only [Option.bind_some, ih]
      cases hc : Block.trail? path c with
      | none => rfl
      | some p =>
        obtain ⟨d, inner⟩ := p
        cases hd : d.blocks[i]? <;> simp [hd]

/-- The blocks in a block are those at the ends of paths. -/
theorem Block.hasBlock_iff_trail? {b c : Block} {outer : List Block} :
    b.HasBlock c outer ↔ ∃ path, Block.trail? path b = some (c, outer) := by
  constructor
  · intro h
    induction h with
    | self => exact ⟨[], rfl⟩
    | @nested c d outer _ hd ih =>
      obtain ⟨path, hpath⟩ := ih
      obtain ⟨i, hi⟩ := List.mem_iff_getElem?.mp hd
      exact ⟨path ++ [i], by simp [Block.trail?_concat, hpath, hi]⟩
  · intro hpath
    obtain ⟨path, h⟩ := hpath
    induction path generalizing b c outer with
    | nil =>
      cases h
      exact .self
    | cons i path ih =>
      obtain ⟨d, hd, h⟩ := Option.bind_eq_some_iff.mp h
      obtain ⟨⟨e, inner⟩, he, heq⟩ := Option.map_eq_some_iff.mp h
      cases heq
      exact (ih he).under (List.mem_of_getElem? hd)

@[simp]
theorem Block.vars_declared (types : Table) (place : Place) (b : Block) :
    (b.declared types place).vars = b.vars.map (LocalVar.declared types place) := by
  cases b
  rw [Block.declared]
  rfl

@[simp]
theorem Block.blocks_declared (types : Table) (place : Place) (b : Block) :
    (b.declared types place).blocks = Block.declaredList types place 0 b.blocks := by
  cases b
  rw [Block.declared]

theorem Block.getElem?_declaredList (types : Table) (place : Place) (bs : List Block) (i k : Nat) :
    (Block.declaredList types place i bs)[k]? =
      bs[k]?.map fun b => b.declared types (place ++ [i + k]) :=
  getElem?_of_counting (fun i (b : Block) => b.declared types (place ++ [i]))
    (fun i => by rw [Block.declaredList]) (fun i b rest => by rw [Block.declaredList]) bs i k

theorem getElem?_declaredBodies (types : Table) (items : List Item) (i k : Nat) :
    (declaredBodies types i items)[k]? =
      items[k]?.map fun item =>
        ⟨⟨[], item.name⟩, (item.body.getD {}).declared types [i + k]⟩ :=
  getElem?_of_counting (fun i (item : Item) =>
      (⟨⟨[], item.name⟩, (item.body.getD {}).declared types [i]⟩ : Scope.Body Site))
    (fun i => by rw [declaredBodies]) (fun i item rest => by rw [declaredBodies]) items i k

/-- A path leads to the same block before and after declaring. -/
theorem Block.at?_declared (types : Table) (place : Place) (path : List Nat) (b : Block) :
    (b.declared types place).at? path =
      (Block.trail? path b).map fun (c, _) => c.declared types (place ++ path) := by
  induction path generalizing b place with
  | nil => simp [Block.trail?]
  | cons i path ih =>
    rw [Scope.Block.at?_cons, Block.blocks_declared, Block.getElem?_declaredList, Block.trail?]
    cases b.blocks[i]? with
    | none => rfl
    | some c =>
      simp only [Option.map_some, Option.bind_some, ih, Option.map_map]
      rw [show place ++ [0 + i] ++ path = place ++ i :: path by simp]
      rfl

/-! ## Names -/

/-- A scope of the tree holds the variables of a block of the document. -/
def Block.Declares (types : Table) (s : Scope.Block Site) (b : Block) : Prop :=
  ∃ place, s = b.declared types place

/-- An entity is the one that a declaration of the document declares. -/
def Declaration.Declares (types : Table) (e : Entity Site) : Declaration → Prop
  | item i => e = i.declared types
  | localVar v => ∃ place, e = v.declared types place

/-- The scopes on the way along a path hold the variables of the blocks there. -/
theorem Block.forall₂_along (types : Table) {path : List Nat} {b c : Block} {outer : List Block}
    (h : Block.trail? path b = some (c, outer)) (place : Place) :
    List.Forall₂ (Block.Declares types) ((b.declared types place).along path).reverse
      (c :: outer) := by
  induction path generalizing b c outer place with
  | nil =>
    cases h
    rw [Scope.Block.along]
    exact .cons ⟨place, rfl⟩ .nil
  | cons i path ih =>
    obtain ⟨d, hd, h⟩ := Option.bind_eq_some_iff.mp h
    obtain ⟨⟨e, inner⟩, he, heq⟩ := Option.map_eq_some_iff.mp h
    cases heq
    rw [Scope.Block.along, Block.blocks_declared, Block.getElem?_declaredList, hd]
    simp only [Option.map_some, List.reverse_cons, ← List.cons_append]
    exact List.rel_append (ih he _) (.cons ⟨place, rfl⟩ .nil)

theorem Block.find?_declared (types : Table) (place : Place) (b : Block) (name : String) :
    (b.declared types place).find? name =
      (b.vars.find? (·.name = name)).map (LocalVar.declared types place) := by
  have hvars := b.vars_declared types place
  rw [Scope.Block.vars] at hvars
  rw [Scope.Block.find?, Scope.Declarations.find?_eq, hvars, List.find?_map]
  rfl

theorem find?_declared (types : Table) (doc : Document) (name : String) :
    (doc.declared types).find? name =
      (doc.items.find? (·.name = name)).map (Item.declared types) := by
  rw [Scope.Tree.find?, Scope.Declarations.find?_eq]
  exact List.find?_map

/-- A name is found in the scopes of the tree as it is in the document. -/
theorem rel_findSome? (types : Table) {ss : List (Scope.Block Site)} {bs : List Block}
    (h : List.Forall₂ (Block.Declares types) ss bs) (name : String) :
    Option.Rel (fun e v => ∃ place, e = LocalVar.declared types place v)
      (ss.findSome? (·.find? name)) (lookupLocal? bs name) := by
  induction h with
  | nil => exact .none
  | @cons s b ss bs hb _ ih =>
    obtain ⟨place, rfl⟩ := hb
    rw [lookupLocal?, List.findSome?_cons, List.findSome?_cons, Block.find?_declared]
    cases b.vars.find? (·.name = name) with
    | none => exact ih
    | some v => exact .some ⟨place, rfl⟩

theorem rel_lookup? (types : Table) (doc : Document) {place : Place} {scopes : List Block}
    (h : List.Forall₂ (Block.Declares types) ((doc.declared types).enclosing place) scopes)
    (name : String) :
    Option.Rel (Declaration.Declares types) ((doc.declared types).lookup? place name)
      (doc.lookup? scopes name) := by
  rw [Scope.Tree.lookup?, lookup?, find?_declared]
  have hrel := rel_findSome? types h name
  generalize ((doc.declared types).enclosing place).findSome? (·.find? name) = x at hrel ⊢
  generalize lookupLocal? scopes name = y at hrel ⊢
  cases hrel with
  | none =>
    cases doc.items.find? (·.name = name) with
    | none => exact .none
    | some i => exact .some rfl
  | some hv => exact .some hv

/-- What has an address in the document has one in the tree. -/
theorem Declaration.hasAddress_iff {types : Table} {e : Entity Site} {d : Declaration}
    (h : d.Declares types e) :
    d.HasAddress ↔
      ¬ (e.kind = .definedVariable ∧ e.storage = .automatic) ∧ e.kind ≠ .constant := by
  cases d with
  | item i =>
    subst h
    have hconst : (i.declared types).kind = .constant ↔ i.kind = "const" := by
      rw [Load.kind_declared_eq_iff (by simp), Load.kind?_eq_some_iff]
      simp
    have hglobal : (i.declared types).storage = .global := rfl
    simp [HasAddress, hconst, hglobal]
  | localVar v =>
    obtain ⟨place, rfl⟩ := h
    have hkind : (v.declared types place).kind = .definedVariable := rfl
    rw [HasAddress, Load.storage_declared, hkind]
    by_cases hs : v.storage = "static" <;> simp [hs]

/-! ## Addresses -/

/-- A well-formed initial value takes an address exactly when it has a symbol. -/
theorem Init.WellFormed.constant?_eq_address_iff {x : Init} (h : x.WellFormed) {symbol : String}
    {offset : Int64} :
    x.constant? = some (.address symbol offset) ↔
      x.symbol ≠ "" ∧ symbol = x.symbol ∧ offset = x.offset := by
  revert h
  unfold Init.constant? Init.WellFormed
  rcases x with ⟨int, string, s, o⟩
  cases int <;> cases string <;> by_cases hs : s = "" <;> simp [hs, eq_comm]

/-- A name denotes something with an address at a place of the tree exactly when
it does inside the blocks around the place. -/
theorem exists_target_iff {types : Table} {doc : Document} {place : Place} {scopes : List Block}
    (h : List.Forall₂ (Block.Declares types) ((doc.declared types).enclosing place) scopes)
    (name : String) :
    (∃ e, (doc.declared types).lookup? place name = some e ∧
        ¬ (e.kind = .definedVariable ∧ e.storage = .automatic) ∧ e.kind ≠ .constant) ↔
      ∃ d, doc.lookup? scopes name = some d ∧ d.HasAddress := by
  have hrel := rel_lookup? types doc h name
  generalize (doc.declared types).lookup? place name = x at hrel ⊢
  generalize doc.lookup? scopes name = y at hrel ⊢
  cases hrel with
  | none => simp
  | some hd => simp only [Option.some.injEq, exists_eq_left', Declaration.hasAddress_iff hd]

/-- An initial value that is well-formed resolves at a place exactly when it is
addressable inside the blocks around the place. -/
theorem initResolves_iff {types : Table} {doc : Document} {place : Place} {scopes : List Block}
    (h : List.Forall₂ (Block.Declares types) ((doc.declared types).enclosing place) scopes)
    {init : Option Init} (hinit : ∀ x, init = some x → x.WellFormed) :
    (∀ r, init.bind Init.declared? = some r → Load.InitResolves (doc.declared types) place r) ↔
      doc.Addressable scopes init := by
  cases init with
  | none => simp [Addressable]
  | some x =>
    have hx := hinit x rfl
    obtain ⟨c, hc⟩ := hx.exists_constant
    have haddress := @Init.WellFormed.constant?_eq_address_iff x hx
    simp only [hc, Option.some.injEq] at haddress
    simp only [Init.declared?, Option.bind_some, hc, Option.map_some, Option.some.injEq,
      forall_eq', Load.InitResolves, haddress, Addressable, exists_target_iff h]
    constructor
    · intro hr hsymbol
      exact hr x.symbol x.offset ⟨hsymbol, rfl, rfl⟩
    · rintro hd symbol offset ⟨hsymbol, rfl, rfl⟩
      exact hd hsymbol

/-- The functions of a document, in order. -/
def functions (doc : Document) : List Item :=
  doc.items.filter (·.kind = "func")

theorem block?_declared (types : Table) (doc : Document) (k : Nat) (path : List Nat) :
    (doc.declared types).block? (k :: path) =
      (doc.functions[k]?.bind fun item => Block.trail? path (item.body.getD {})).map
        fun (c, _) => c.declared types (k :: path) := by
  rw [Scope.Tree.block?, declared, getElem?_declaredBodies, functions]
  cases (doc.items.filter (·.kind = "func"))[k]? with
  | none => rfl
  | some item => simp [Block.at?_declared]

theorem forall₂_enclosing (types : Table) (doc : Document) {k : Nat} {path : List Nat}
    {item : Item} {c : Block} {outer : List Block} (hitem : doc.functions[k]? = some item)
    (htrail : Block.trail? path (item.body.getD {}) = some (c, outer)) :
    List.Forall₂ (Block.Declares types) ((doc.declared types).enclosing (k :: path))
      (c :: outer) := by
  rw [functions] at hitem
  rw [Scope.Tree.enclosing, declared, getElem?_declaredBodies, hitem]
  exact Block.forall₂_along types htrail _

/-- Every block of the document is found in the tree. -/
theorem HasBlock.exists_trail {types : Table} {doc : Document}
    (hitems : ∀ i ∈ doc.items, i.WellFormed types) {b : Block} {outer : List Block}
    (h : doc.HasBlock b outer) :
    ∃ (k : Nat) (path : List Nat) (item : Item), doc.functions[k]? = some item ∧
      Block.trail? path (item.body.getD {}) = some (b, outer) := by
  obtain ⟨item, hmem, body, hbody, hb⟩ := h
  have hfunc : item.kind = "func" := (hitems item hmem).body (by simp [hbody])
  have hmem' : item ∈ doc.functions := List.mem_filter.mpr ⟨hmem, by simpa using hfunc⟩
  obtain ⟨k, hk⟩ := List.mem_iff_getElem?.mp hmem'
  obtain ⟨path, hpath⟩ := Block.hasBlock_iff_trail?.mp hb
  exact ⟨k, path, item, hk, by rw [hbody]; exact hpath⟩

/-- A block of the tree stands in the document, or it is the empty body of a
function that has none. -/
theorem hasBlock_of_trail {doc : Document} {k : Nat} {path : List Nat} {item : Item} {b : Block}
    {outer : List Block} (hitem : doc.functions[k]? = some item)
    (htrail : Block.trail? path (item.body.getD {}) = some (b, outer)) :
    doc.HasBlock b outer ∨ b.vars = [] := by
  have hmem : item ∈ doc.items := (List.mem_filter.mp (List.mem_of_getElem? hitem)).1
  cases hbody : item.body with
  | some body =>
    rw [hbody] at htrail
    exact .inl ⟨item, hmem, body, hbody, Block.hasBlock_iff_trail?.mpr ⟨path, htrail⟩⟩
  | none =>
    rw [hbody] at htrail
    cases path with
    | nil =>
      cases htrail
      exact .inr rfl
    | cons i path => simp [Block.trail?] at htrail

theorem entityResolves_item_iff {types : Table} {doc : Document} {i : Item}
    (hi : i.WellFormed types) :
    Load.EntityResolves (doc.declared types) [] (i.declared types) ↔
      doc.Addressable [] i.init := by
  have hscopes : List.Forall₂ (Block.Declares types) ((doc.declared types).enclosing []) [] := .nil
  rw [← initResolves_iff hscopes fun x hx => (hi.init x hx).1]
  exact ⟨fun h => h nofun, fun h _ => h⟩

theorem entityResolves_localVar_iff {types : Table} {doc : Document} {place : Place}
    {scopes : List Block} {v : LocalVar} (hv : v.WellFormed types)
    (h : List.Forall₂ (Block.Declares types) ((doc.declared types).enclosing place) scopes) :
    Load.EntityResolves (doc.declared types) place (v.declared types place) ↔
      (v.storage = "static" → doc.Addressable scopes v.init) := by
  rw [← initResolves_iff h hv.init, Load.EntityResolves, Load.storage_declared]
  by_cases hs : v.storage = "static" <;> simp [hs, LocalVar.declared]

/-- The addresses in the tree of a document exist exactly when those in the
document do. -/
theorem resolves_declared_iff {types : Table} {doc : Document}
    (hitems : ∀ i ∈ doc.items, i.WellFormed types)
    (hblocks : ∀ b outer, doc.HasBlock b outer → b.WellFormed types) :
    Load.Resolves (doc.declared types) ↔
      (∀ i ∈ doc.items, doc.Addressable [] i.init) ∧
        ∀ b outer, doc.HasBlock b outer → ∀ v ∈ b.vars, v.storage = "static" →
          doc.Addressable (b :: outer) v.init := by
  constructor
  · intro h
    refine ⟨fun i hi => ?_, fun b outer hb v hv => ?_⟩
    · exact (entityResolves_item_iff (hitems i hi)).mp (h.entities _ (List.mem_map_of_mem hi))
    · obtain ⟨k, path, item, hitem, htrail⟩ := hb.exists_trail hitems
      have hblock : (doc.declared types).block? (k :: path) =
          some (b.declared types (k :: path)) := by
        rw [block?_declared, hitem, Option.bind_some, htrail]
        rfl
      refine (entityResolves_localVar_iff ((hblocks b outer hb).vars v hv)
        (forall₂_enclosing types doc hitem htrail)).mp ?_
      exact h.blocks _ _ hblock _ (by simpa using ⟨v, hv, rfl⟩)
  · intro haddresses
    obtain ⟨htop, hlocal⟩ := haddresses
    refine ⟨?_, ?_⟩
    · intro e he
      obtain ⟨i, hi, rfl⟩ := List.mem_map.mp he
      exact (entityResolves_item_iff (hitems i hi)).mpr (htop i hi)
    · rintro (_ | ⟨k, path⟩) s hs e he
      · simp [Scope.Tree.block?] at hs
      · rw [block?_declared, Option.map_eq_some_iff] at hs
        obtain ⟨⟨b, outer⟩, hb, rfl⟩ := hs
        obtain ⟨item, hitem, htrail⟩ := Option.bind_eq_some_iff.mp hb
        rw [Block.vars_declared, List.mem_map] at he
        obtain ⟨v, hv, rfl⟩ := he
        rcases hasBlock_of_trail hitem htrail with hdoc | hempty
        · exact (entityResolves_localVar_iff ((hblocks b outer hdoc).vars v hv)
            (forall₂_enclosing types doc hitem htrail)).mpr (hlocal b outer hdoc v hv)
        · simp [hempty] at hv

theorem WellFormed.resolves {types : Table} {doc : Document} (h : doc.WellFormed types) :
    Load.Resolves (doc.declared types) :=
  (resolves_declared_iff h.items h.blocks).mpr ⟨h.addresses, h.localAddresses⟩

/-! ## The whole -/

/-- The blocks of the functions are those of the document, except that a function
without a body has an empty one. -/
theorem forall_functions_iff {types : Table} {doc : Document}
    (hitems : ∀ i ∈ doc.items, i.WellFormed types) :
    (∀ i ∈ doc.functions, ∀ c outer, (i.body.getD {}).HasBlock c outer → c.WellFormed types) ↔
      ∀ b outer, doc.HasBlock b outer → b.WellFormed types := by
  constructor
  · rintro h b outer ⟨i, hi, body, hbody, hb⟩
    have hfunc : i.kind = "func" := (hitems i hi).body (by simp [hbody])
    refine h i (List.mem_filter.mpr ⟨hi, by simpa using hfunc⟩) b outer ?_
    rw [hbody]
    exact hb
  · intro h i hi c outer hc
    cases hbody : i.body with
    | some body =>
      rw [hbody] at hc
      exact h c outer ⟨i, (List.mem_filter.mp hi).1, body, hbody, hc⟩
    | none =>
      rw [hbody] at hc
      rcases Block.hasBlock_iff.mp hc with ⟨rfl, -⟩ | ⟨d, hd, -⟩
      · exact ⟨nofun, .nil⟩
      · simp at hd

/-- Loading accepts exactly the well-formed documents and gives their program. -/
theorem load_accepts (types : Table) : Accepts (load types) (WellFormed types) (program types) := by
  intro doc p
  unfold load
  simp only [bind_eq_ok_iff, pure_eq_ok_iff, Prod.exists, Load.resolveTree_accepts _ _]
  constructor
  · intro h
    obtain ⟨_, _, hdeclare, _, ⟨hresolves, rfl⟩, rfl⟩ := h
    obtain ⟨⟨hitems, hdistinct⟩, hbodies, rfl⟩ := Load.declareAll_eq_ok_iff.mp hdeclare
    have hblocks := (forall_functions_iff hitems).mp hbodies
    obtain ⟨htop, hlocal⟩ := (resolves_declared_iff hitems hblocks).mp hresolves
    exact ⟨⟨hitems, hdistinct, hblocks, htop, hlocal⟩, rfl⟩
  · intro h
    obtain ⟨⟨hitems, hdistinct, hblocks, htop, hlocal⟩, rfl⟩ := h
    have hdeclare := Load.declareAll_eq_ok_iff (u := ()).mpr
      ⟨⟨hitems, hdistinct⟩, (forall_functions_iff hitems).mpr hblocks, rfl⟩
    refine ⟨(), _, hdeclare, _, ⟨?_, rfl⟩, rfl⟩
    exact (resolves_declared_iff hitems hblocks).mpr ⟨htop, hlocal⟩

end Document

/-! ## Errors -/

/-- Whether an error is about the program text and not about the use of a tree. -/
def Scope.ScopeError.isSemantic : Scope.ScopeError → Bool
  | frozen => false
  | noSuchScope => false
  | _ => true

/-- Whether a semantic error is at the bottom of a loading error. -/
def LoadError.isSemantic : LoadError → Bool
  | scope e => e.isSemantic
  | unresolved _ e => e.isSemantic
  | inFunction _ e => e.isSemantic
  | _ => true

namespace Load

/-- All errors of a step of loading are semantic. -/
abbrev Semantic {α : Type} (x : Except LoadError α) : Prop :=
  FailsWith (fun e => e.isSemantic = true) x

theorem initializer_semantic (name : String) (init : Option Document.Init) :
    Semantic (initializer name init) := by
  unfold initializer
  split
  · exact .pure _
  · split
    · exact .pure _
    · exact .throw rfl

theorem parseType_semantic (types : Table) (name spec : String) :
    Semantic (parseType types name spec) :=
  .mapError fun _ _ => rfl

theorem entity_semantic (types : Table) (i : Document.Item) : Semantic (entity types i) := by
  unfold entity
  refine .guard rfl (.bind (parseType_semantic _ _ _) fun ty _ =>
    .bind (initializer_semantic _ _) fun init _ => .guard rfl ?_)
  cases kind? i.kind with
  | none => exact .throw rfl
  | some kind => exact .guard rfl (.guard rfl (.pure _))

theorem localVar_semantic (types : Table) (place : Place) (v : Document.LocalVar) :
    Semantic (localVar types place v) := by
  unfold localVar
  refine .bind (parseType_semantic _ _ _) fun ty _ => .guard rfl
    (.bind (initializer_semantic _ _) fun init _ => ?_)
  cases storage? v.storage with
  | none => exact .throw rfl
  | some storage => exact .pure _

/-- A declaration that finds its scope is refused for the sake of the program text. -/
theorem change_declare_semantic {t : Scope.Tree Site} {place : Place} {vars : List (Entity Site)}
    (ht : t.frozen = false) (hvars : t.vars? place = some vars) (e : Entity Site) :
    Semantic (change (.declare place e) t) := by
  have hmisfit : (e.misfit place).isSemantic = true := by
    unfold Entity.misfit
    split <;> rfl
  have hclash : (e.clash place).isSemantic = true := by
    unfold Entity.clash
    split <;> rfl
  rw [change, Scope.Tree.apply_declare, Scope.Tree.refusal?, ht, hvars]
  by_cases hfits : e.FitsAt place
  · by_cases htaken : e.name ∈ vars.map (·.name)
    · simp only [hfits, htaken]
      exact .throw hclash
    · simp only [hfits, htaken]
      exact .pure _
  · simp only [hfits]
    exact .throw hmisfit

theorem declareItem_semantic (types : Table) {t : Scope.Tree Site} (ht : t.frozen = false)
    (i : Document.Item) : Semantic (declareItem types i t) := by
  unfold declareItem
  refine .run_bind (.run_lift (entity_semantic types i) t) fun e t₁ he => ?_
  obtain ⟨-, rfl⟩ := run_lift_eq_ok_iff.mp he
  refine .run_bind (change_declare_semantic ht t₁.vars?_nil e) fun _ t₂ _ => ?_
  exact .run_guard rfl (.pure _)

theorem declareVar_semantic (types : Table) {place : Place} {t : Scope.Tree Site}
    (ht : Ready place t) (v : Document.LocalVar) : Semantic (declareVar types place v t) := by
  unfold declareVar
  refine .run_bind (.run_lift (localVar_semantic types place v) t) fun e t₁ he => ?_
  obtain ⟨-, rfl⟩ := run_lift_eq_ok_iff.mp he
  obtain ⟨vars, hvars⟩ := ht.exists_vars?
  exact change_declare_semantic ht.unfrozen hvars e

/-- Loading is refused only for the sake of the program text. -/
theorem semantic_of_eq_ok {α : Type} {x : Except LoadError α} {a : α} (h : x = .ok a) :
    Semantic x := by
  rw [h]
  exact .pure a

mutual

theorem block_semantic (types : Table) (place : Place) :
    ∀ (b : Document.Block) {t : Scope.Tree Site}, Ready place t → t.block? place = some {} →
      Semantic (block types place b t)
  | ⟨vars, blocks⟩, t, ht, hempty => by
    rw [block]
    refine .run_bind
      (.run_forM (Ready place) (fun t v _ ht => declareVar_semantic types ht v) ?_ ht)
      fun _ t₁ h => ?_
    · intro t v _ _ t' ht h
      rw [((declareVar_eq_ok_iff ht).mp h).2.2]
      exact ht.addAt _
    · obtain ⟨-, -, rfl⟩ := (forM_declareVar_eq_ok_iff ht hempty vars).mp h
      exact blockList_semantic types place blocks (ht.modifyBlock _)

theorem blockList_semantic (types : Table) (outer : Place) :
    ∀ (bs : List Document.Block) {t : Scope.Tree Site}, Ready outer t →
      Semantic (blockList types outer bs t)
  | [], t, ht => by
    rw [blockList]
    exact .pure _
  | b :: rest, t, ht => by
    obtain ⟨c, hc⟩ := Option.isSome_iff_exists.mp ht.block
    rw [blockList]
    have hopen := (change_openBlock_eq_ok_iff ht.unfrozen hc).mpr ⟨rfl, rfl⟩
    have hopened := Ready.of_block? (t.frozen_modifyBlock _ ht.inBlock) (block?_addBlock hc)
    refine .run_bind (semantic_of_eq_ok hopen) fun place t₁ h => ?_
    obtain ⟨rfl, rfl⟩ := (change_openBlock_eq_ok_iff ht.unfrozen hc).mp h
    refine .run_bind (block_semantic types _ b hopened (block?_addBlock hc)) fun _ t₂ h => ?_
    obtain ⟨-, rfl⟩ := (block_eq_ok_iff types _ b _ _ hopened (block?_addBlock hc)).mp h
    rw [Scope.Tree.modifyBlock_addBlock ht.inBlock hc]
    exact blockList_semantic types outer rest (ht.modifyBlock _)

end

theorem openBody_semantic (types : Table) {t : Scope.Tree Site} (ht : t.frozen = false)
    (i : Document.Item) {f : Entity Site} (hf : f.kind = .definedFunction) :
    Semantic (openBody types i f t) := by
  unfold openBody
  have hopen := (change_openBody_eq_ok_iff ht hf).mpr ⟨rfl, rfl⟩
  have hopened := Ready.of_block? (t := t.addBody f.id) rfl (block?_addBody t f.id)
  refine .run_bind (semantic_of_eq_ok hopen) fun place t₁ h => ?_
  obtain ⟨rfl, rfl⟩ := (change_openBody_eq_ok_iff ht hf).mp h
  refine .mapError fun e he => ?_
  exact block_semantic types _ _ hopened (block?_addBody t f.id) e he

theorem declareAll_semantic (types : Table) (items : List Document.Item) :
    Semantic (declareAll types items {}) := by
  unfold declareAll
  refine .run_bind
    (.run_mapM (fun t => t.frozen = false) (fun t i ht => declareItem_semantic types ht i) ?_
      items rfl)
    fun es t h => ?_
  · intro t i _ t' ht h
    rw [((declareItem_eq_ok_iff ht).mp h).2.2.2]
    rfl
  · obtain ⟨-, -, -, rfl⟩ := (mapM_declareItem_eq_ok_iff items).mp h
    have hkind {i : Document.Item} {f : Entity Site}
        (h : (i, f) ∈ (items.zip es).filter (·.2.kind = .definedFunction)) :
        f.kind = .definedFunction := by
      simpa using (List.mem_filter.mp h).2
    refine .run_forM (fun t => t.frozen = false) ?_ ?_ rfl
    · intro t p hp ht
      exact openBody_semantic types ht p.1 (hkind hp)
    · intro t p hp _ t' ht h
      rw [((openBody_eq_ok_iff ht (hkind hp)).mp h).2]
      rfl

theorem resolveInit_semantic (t : Scope.Tree Site) (place : Place) (owner : String)
    (init : Initializer Site) : Semantic (resolveInit t place owner init) := by
  unfold resolveInit
  split
  · refine .bind (.mapError fun d hd => ?_) fun target _ => .guard rfl (.guard rfl (.pure _))
    unfold Scope.Tree.resolve at hd
    split at hd <;> cases hd
    rfl
  · exact .pure _

theorem resolveEntity_semantic (t : Scope.Tree Site) (place : Place) (e : Entity Site) :
    Semantic (resolveEntity t place e) := by
  unfold resolveEntity
  split
  · split
    · exact .pure _
    · exact (resolveInit_semantic t place _ _).bind fun _ _ => .pure _
  · exact .pure _

mutual

theorem resolveBlock_semantic (t : Scope.Tree Site) (place : Place) :
    ∀ b : Scope.Block Site, Semantic (resolveBlock t place b)
  | ⟨decls, blocks⟩ => by
    rw [resolveBlock]
    exact .bind (.mapM (resolveEntity_semantic t place) decls.entities) fun _ _ =>
      (resolveBlocks_semantic t place 0 blocks).bind fun _ _ => .pure _

theorem resolveBlocks_semantic (t : Scope.Tree Site) (place : Place) (i : Nat) :
    ∀ bs : List (Scope.Block Site), Semantic (resolveBlocks t place i bs)
  | [] => by
    rw [resolveBlocks]
    exact .pure _
  | b :: rest => by
    rw [resolveBlocks]
    exact (resolveBlock_semantic t (place ++ [i]) b).bind fun _ _ =>
      (resolveBlocks_semantic t place (i + 1) rest).bind fun _ _ => .pure _

end

theorem resolveTree_semantic (t : Scope.Tree Site) : Semantic (resolveTree t) := by
  unfold resolveTree
  exact .bind (.mapM (resolveEntity_semantic t []) t.entities) fun _ _ =>
    (resolveBlocks_semantic t [] 0 _).bind fun _ _ => .pure _

end Load

namespace Document

/-- Whatever is wrong with a document, the error is semantic. -/
theorem load_semantic (types : Table) (doc : Document) : Load.Semantic (doc.load types) := by
  unfold load
  refine (Load.declareAll_semantic types doc.items).bind fun p _ => ?_
  exact (Load.resolveTree_semantic p.2).bind fun _ _ => .pure _

/-- A document loads exactly when it is well-formed.  Otherwise there is an error,
and it is a semantic one. -/
theorem load_succeeds_iff_wellFormed (types : Table) (doc : Document) :
    ((∃ p, doc.load types = .ok p) ↔ doc.WellFormed types) ∧
      (¬ doc.WellFormed types → ∃ e, doc.load types = .error e ∧ e.isSemantic) := by
  refine ⟨⟨?_, ?_⟩, ?_⟩
  · intro hloaded
    obtain ⟨p, hp⟩ := hloaded
    exact ((load_accepts types doc p).mp hp).1
  · intro h
    exact ⟨_, (load_accepts types doc _).mpr ⟨h, rfl⟩⟩
  · intro h
    obtain ⟨e, he⟩ := (load_accepts types).exists_error h
    exact ⟨e, he, load_semantic types doc e he⟩

end Document

end Cflat
