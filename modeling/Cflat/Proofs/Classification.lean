import Cflat.Proofs.Acceptance
import Cflat.Proofs.Ordinals

/-!
# The variables of a program, read off its document

Which variables a loaded program has, in which order and under which symbols, is
a walk over the document.  There are three groups.

* The walk.  `Document.definedVariables` lists the global variables and then the static
  locals in preorder, each with its symbol and its initial value.
* Places.  The same walk with the place of each static local.  It is the list of
  static locals of the loaded tree, and no two of them share their identifier.
* The classes of the loaded program, in the terms of the walk.
-/

namespace Cflat

open Scope (Entity Place)

namespace Document

/-! ## The walk -/

mutual

/-- The static variables of a block in preorder: its own, then those of each
nested block in turn. -/
def Block.staticVars : Block → List LocalVar
  | ⟨vars, blocks⟩ => vars.filter (·.storage = "static") ++ Block.staticVarsOfList blocks

/-- The static variables of some blocks, one block after the other. -/
def Block.staticVarsOfList : List Block → List LocalVar
  | [] => []
  | b :: rest => b.staticVars ++ Block.staticVarsOfList rest

end

/-- The static local variables of all functions, in document order. -/
def staticVars (doc : Document) : List LocalVar :=
  doc.functions.flatMap fun i => (i.body.getD {}).staticVars

/-- The symbols of static variables: each name with the number of earlier
variables of that name. -/
def numbered (vs : List LocalVar) : List (String × Option Init) :=
  vs.mapIdx fun k v => (s!"{v.name}.{((vs.take k).map (·.name)).count v.name}", v.init)

/-- The variables that a document defines, with their symbols and initial values:
the global ones in order, then the static locals. -/
def definedVariables (doc : Document) : List (String × Option Init) :=
  (doc.items.filter (·.kind = "var")).map (fun i => (i.name, i.init)) ++ numbered doc.staticVars

mutual

theorem Block.exists_hasBlock_of_mem_staticVars {v : LocalVar} :
    ∀ b : Block, v ∈ b.staticVars → ∃ c outer, b.HasBlock c outer ∧ v ∈ c.vars
  | ⟨vars, blocks⟩, hv => by
    rw [Block.staticVars, List.mem_append] at hv
    rcases hv with hv | hv
    · exact ⟨_, [], .self, (List.mem_filter.mp hv).1⟩
    · obtain ⟨b, hb, c, outer, hc, hvc⟩ := Block.exists_hasBlock_of_mem_staticVarsOfList blocks hv
      exact ⟨c, _, hc.under hb, hvc⟩

theorem Block.exists_hasBlock_of_mem_staticVarsOfList {v : LocalVar} :
    ∀ bs : List Block, v ∈ Block.staticVarsOfList bs →
      ∃ b ∈ bs, ∃ c outer, b.HasBlock c outer ∧ v ∈ c.vars
  | [], hv => by simp [Block.staticVarsOfList] at hv
  | b :: rest, hv => by
    rw [Block.staticVarsOfList, List.mem_append] at hv
    rcases hv with hv | hv
    · exact ⟨b, by simp, Block.exists_hasBlock_of_mem_staticVars b hv⟩
    · obtain ⟨b', hb', hblock⟩ := Block.exists_hasBlock_of_mem_staticVarsOfList rest hv
      exact ⟨b', by simp [hb'], hblock⟩

end

/-- The walk meets only variables of blocks of the document. -/
theorem exists_hasBlock_of_mem_staticVars {doc : Document} {v : LocalVar}
    (hv : v ∈ doc.staticVars) : ∃ b outer, doc.HasBlock b outer ∧ v ∈ b.vars := by
  obtain ⟨i, hi, hvi⟩ := List.mem_flatMap.mp hv
  cases hbody : i.body with
  | none => simp [hbody, Block.staticVars, Block.staticVarsOfList] at hvi
  | some body =>
    rw [hbody] at hvi
    obtain ⟨c, outer, hc, hvc⟩ := Block.exists_hasBlock_of_mem_staticVars body hvi
    exact ⟨c, outer, ⟨i, (List.mem_filter.mp hi).1, body, hbody, hc⟩, hvc⟩

theorem WellFormed.staticVars {types : Table} {doc : Document} (h : doc.WellFormed types)
    {v : LocalVar} (hv : v ∈ doc.staticVars) : v.WellFormed types := by
  obtain ⟨b, outer, hb, hvb⟩ := exists_hasBlock_of_mem_staticVars hv
  exact (h.blocks b outer hb).vars v hvb

/-! ## Places -/

mutual

/-- The static variables of a block at `place`, each with its own place. -/
def Block.placedStatics (place : Place) : Block → List (Place × LocalVar)
  | ⟨vars, blocks⟩ =>
    (vars.filter (·.storage = "static")).map (place, ·) ++
      Block.placedStaticsOfList place 0 blocks

/-- The static variables of the blocks in `place`, the first at position `i`. -/
def Block.placedStaticsOfList (place : Place) (i : Nat) : List Block → List (Place × LocalVar)
  | [] => []
  | b :: rest =>
    b.placedStatics (place ++ [i]) ++ Block.placedStaticsOfList place (i + 1) rest

end

/-- The static locals of a document with their places. -/
def placedStatics (doc : Document) : List (Place × LocalVar) :=
  Block.placedStaticsOfList [] 0 (doc.functions.map fun i => i.body.getD {})

mutual

theorem Block.map_snd_placedStatics (place : Place) :
    ∀ b : Block, (b.placedStatics place).map Prod.snd = b.staticVars
  | ⟨vars, blocks⟩ => by
    rw [Block.placedStatics, Block.staticVars, List.map_append,
      Block.map_snd_placedStaticsOfList place 0 blocks, List.map_map]
    simp [Function.comp_def]

theorem Block.map_snd_placedStaticsOfList (place : Place) (i : Nat) : ∀ bs : List Block,
    (Block.placedStaticsOfList place i bs).map Prod.snd = Block.staticVarsOfList bs
  | [] => rfl
  | b :: rest => by
    rw [Block.placedStaticsOfList, Block.staticVarsOfList, List.map_append,
      Block.map_snd_placedStatics (place ++ [i]) b,
      Block.map_snd_placedStaticsOfList place (i + 1) rest]

end

theorem map_snd_placedStatics (doc : Document) :
    doc.placedStatics.map Prod.snd = doc.staticVars := by
  rw [placedStatics, Block.map_snd_placedStaticsOfList, staticVars]
  induction doc.functions with
  | nil => rfl
  | cons i items ih => rw [List.map_cons, Block.staticVarsOfList, ih, List.flatMap_cons]

mutual

/-- The places in a block lie under its own place. -/
theorem Block.isPrefix_of_mem_placedStatics {place : Place} {x : Place × LocalVar} :
    ∀ b : Block, x ∈ b.placedStatics place → place <+: x.1
  | ⟨vars, blocks⟩, hx => by
    rw [Block.placedStatics, List.mem_append] at hx
    rcases hx with hx | hx
    · obtain ⟨v, -, rfl⟩ := List.mem_map.mp hx
      exact List.prefix_rfl
    · obtain ⟨k, -, hk⟩ := Block.isPrefix_of_mem_placedStaticsOfList blocks hx
      exact (List.prefix_append place [k]).trans hk

theorem Block.isPrefix_of_mem_placedStaticsOfList {place : Place} {i : Nat}
    {x : Place × LocalVar} :
    ∀ bs : List Block, x ∈ Block.placedStaticsOfList place i bs →
      ∃ k, i ≤ k ∧ place ++ [k] <+: x.1
  | [], hx => by simp [Block.placedStaticsOfList] at hx
  | b :: rest, hx => by
    rw [Block.placedStaticsOfList, List.mem_append] at hx
    rcases hx with hx | hx
    · exact ⟨i, Nat.le_refl i, Block.isPrefix_of_mem_placedStatics b hx⟩
    · obtain ⟨k, hik, hk⟩ := Block.isPrefix_of_mem_placedStaticsOfList rest hx
      exact ⟨k, by omega, hk⟩

end

/-- The identifier of a placed variable. -/
def siteOf (x : Place × LocalVar) : Site :=
  ⟨x.1, x.2.name⟩

mutual

/-- Well-formed blocks declare no two static variables under one identifier. -/
theorem Block.nodup_placedStatics (types : Table) (place : Place) :
    ∀ b : Block, (∀ c outer, b.HasBlock c outer → c.WellFormed types) →
      ((b.placedStatics place).map siteOf).Nodup
  | ⟨vars, blocks⟩, h => by
    obtain ⟨hown, hin⟩ := Block.forall_hasBlock.mp h
    rw [Block.placedStatics, List.map_append, List.nodup_append]
    refine ⟨?_, Block.nodup_placedStaticsOfList types place 0 blocks hin, ?_⟩
    · have hnames : ((vars.filter (·.storage = "static")).map (·.name)).Nodup :=
        hown.distinct.sublist (List.filter_sublist.map _)
      refine List.Nodup.of_map Site.name ?_
      simpa [Function.comp_def, siteOf] using hnames
    · rintro site hown site' hnested rfl
      obtain ⟨x, hx, rfl⟩ := List.mem_map.mp hown
      obtain ⟨v, -, rfl⟩ := List.mem_map.mp hx
      obtain ⟨y, hy, hxy⟩ := List.mem_map.mp hnested
      obtain ⟨k, -, hk⟩ := Block.isPrefix_of_mem_placedStaticsOfList blocks hy
      have hplace : y.1 = place := congrArg Site.place hxy
      have hlen := hk.length_le
      rw [hplace, List.length_append, List.length_singleton] at hlen
      omega

theorem Block.nodup_placedStaticsOfList (types : Table) (place : Place) (i : Nat) :
    ∀ bs : List Block, (∀ b ∈ bs, ∀ c outer, b.HasBlock c outer → c.WellFormed types) →
      ((Block.placedStaticsOfList place i bs).map siteOf).Nodup
  | [], _ => .nil
  | b :: rest, h => by
    rw [List.forall_mem_cons] at h
    rw [Block.placedStaticsOfList, List.map_append, List.nodup_append]
    refine ⟨Block.nodup_placedStatics types (place ++ [i]) b h.1,
      Block.nodup_placedStaticsOfList types place (i + 1) rest h.2, ?_⟩
    rintro site hfirst site' hlater rfl
    obtain ⟨x, hx, rfl⟩ := List.mem_map.mp hfirst
    obtain ⟨y, hy, hxy⟩ := List.mem_map.mp hlater
    have hi := Block.isPrefix_of_mem_placedStatics b hx
    obtain ⟨k, hik, hk⟩ := Block.isPrefix_of_mem_placedStaticsOfList rest hy
    have hplace : y.1 = x.1 := congrArg Site.place hxy
    rw [hplace] at hk
    have := Scope.eq_of_isPrefix_concat hi hk
    omega

end

end Document

/-! ## The static locals of the tree -/

namespace Load

/-- Looking up addresses changes an entity in its initial value only. -/
theorem resolvedEntity_eq (t : Scope.Tree Site) (place : Place) (e : Entity Site) :
    resolvedEntity t place e =
      { e with
        init := e.init.map (if e.storage = .automatic then id else resolvedInit t place) } := by
  unfold resolvedEntity
  split <;> simp

/-- Looking up addresses leaves the constants alone. -/
theorem value_resolvedInit (t : Scope.Tree Site) (place : Place)
    (init : Scope.Initializer Site) : (resolvedInit t place init).value = init.value := by
  unfold resolvedInit
  split <;> rfl

theorem map_value_resolvedEntity (t : Scope.Tree Site) (place : Place) (e : Entity Site) :
    (resolvedEntity t place e).init.map (·.value) = e.init.map (·.value) := by
  unfold resolvedEntity
  split
  · rfl
  · simp [Function.comp_def, value_resolvedInit]

theorem map_value_declared? (init : Option Document.Init) :
    (init.bind Document.Init.declared?).map (·.value) =
      init.bind Document.Init.constant? := by
  cases init with
  | none => rfl
  | some x => simp [Document.Init.declared?, Function.comp_def]

theorem length_resolvedBlocks (t : Scope.Tree Site) (place : Place) (i : Nat)
    (bs : List (Scope.Block Site)) : (resolvedBlocks t place i bs).length = bs.length := by
  induction bs generalizing i with
  | nil => rw [resolvedBlocks]
  | cons b bs ih => rw [resolvedBlocks, List.length_cons, List.length_cons, ih]

theorem map_block_resolvedTree (t : Scope.Tree Site) :
    (resolvedTree t).bodies.map (·.block) = resolvedBlocks t [] 0 (t.bodies.map (·.block)) := by
  simp only [resolvedTree, List.map_map]
  exact List.map_snd_zip (by simp [length_resolvedBlocks])

end Load

namespace Document

theorem map_block_declaredBodies (types : Table) (items : List Item) (i : Nat) :
    (declaredBodies types i items).map (·.block) =
      Block.declaredList types [] i (items.map fun item => item.body.getD {}) := by
  induction items generalizing i with
  | nil => rw [declaredBodies, List.map_nil, List.map_nil, Block.declaredList]
  | cons item items ih =>
    rw [declaredBodies, List.map_cons, List.map_cons, Block.declaredList, ih]
    rfl

/-- The entity of a placed variable, its address looked up in `t`. -/
def resolvedVar (types : Table) (t : Scope.Tree Site) (x : Place × LocalVar) : Entity Site :=
  Load.resolvedEntity t x.1 (x.2.declared types x.1)

section

variable (types : Table) (t : Scope.Tree Site) (x : Place × LocalVar)

theorem id_resolvedVar : (resolvedVar types t x).id = siteOf x := by
  rw [resolvedVar, Load.resolvedEntity_eq]
  rfl

theorem name_resolvedVar : (resolvedVar types t x).name = x.2.name := by
  rw [resolvedVar, Load.resolvedEntity_eq]
  rfl

theorem kind_resolvedVar : (resolvedVar types t x).kind = .definedVariable := by
  rw [resolvedVar, Load.resolvedEntity_eq]
  rfl

end

theorem isStaticLocal_resolvedVar (types : Table) (t : Scope.Tree Site) (place : Place)
    (v : LocalVar) :
    (resolvedVar types t (place, v)).isStaticLocal = decide (v.storage = "static") := by
  have hstorage := Load.storage_declared types place v
  rw [resolvedVar, Load.resolvedEntity_eq, Entity.isStaticLocal, hstorage]
  by_cases hs : v.storage = "static" <;> simp [hs, LocalVar.declared]

mutual

theorem Block.statics_resolvedBlock (types : Table) (t : Scope.Tree Site) (place : Place) :
    ∀ b : Block, (Load.resolvedBlock t place (b.declared types place)).statics =
      (b.placedStatics place).map (resolvedVar types t)
  | ⟨vars, blocks⟩ => by
    rw [Block.declared, Load.resolvedBlock, Scope.Block.statics, Block.placedStatics,
      Block.statics_resolvedBlocks types t place 0 blocks, List.map_append, List.map_map,
      Scope.Declarations.entities_of, Scope.Declarations.entities_of, List.map_map,
      List.filter_map]
    congr 2
    apply List.filter_congr
    intro v _
    exact isStaticLocal_resolvedVar types t place v

theorem Block.statics_resolvedBlocks (types : Table) (t : Scope.Tree Site) (place : Place)
    (i : Nat) : ∀ bs : List Block,
      Scope.Block.staticsOfList
          (Load.resolvedBlocks t place i (Block.declaredList types place i bs)) =
        (Block.placedStaticsOfList place i bs).map (resolvedVar types t)
  | [] => by
    rw [Block.declaredList, Load.resolvedBlocks, Scope.Block.staticsOfList,
      Block.placedStaticsOfList, List.map_nil]
  | b :: rest => by
    rw [Block.declaredList, Load.resolvedBlocks, Scope.Block.staticsOfList,
      Block.placedStaticsOfList, List.map_append,
      Block.statics_resolvedBlock types t (place ++ [i]) b,
      Block.statics_resolvedBlocks types t place (i + 1) rest]

end

/-- The static locals of the program of a document are those of the walk. -/
theorem statics_program (types : Table) (doc : Document) :
    (doc.program types).scope.statics =
      doc.placedStatics.map (resolvedVar types (doc.declared types)) := by
  rw [program, Scope.Tree.statics_eq_staticsOfList, Load.map_block_resolvedTree, declared,
    map_block_declaredBodies, Block.statics_resolvedBlocks]
  rfl

/-! ## Symbols -/

/-- The entity of a top-level item, its address looked up in `t`. -/
def resolvedItem (types : Table) (t : Scope.Tree Site) (i : Item) : Entity Site :=
  Load.resolvedEntity t [] (i.declared types)

theorem entities_program (types : Table) (doc : Document) :
    (doc.program types).scope.entities =
      doc.items.map (resolvedItem types (doc.declared types)) := by
  exact List.map_map

/-- The tree of a document at the time of generation. -/
abbrev frozenTree (types : Table) (doc : Document) : Scope.Tree Site :=
  (doc.program types).scope.freeze

theorem statics_frozenTree (types : Table) (doc : Document) :
    (doc.frozenTree types).statics =
      doc.placedStatics.map (resolvedVar types (doc.declared types)) :=
  (Scope.Tree.statics_freeze _).trans (statics_program types doc)

theorem entities_frozenTree (types : Table) (doc : Document) :
    (doc.frozenTree types).entities =
      doc.items.map (resolvedItem types (doc.declared types)) :=
  (Scope.Tree.entities_freeze _).trans (entities_program types doc)

theorem map_id_statics (types : Table) (doc : Document) :
    (doc.frozenTree types).statics.map (·.id) = doc.placedStatics.map siteOf := by
  rw [statics_frozenTree, List.map_map]
  exact List.map_congr_left fun x _ => id_resolvedVar types _ x

/-- The static locals of a well-formed document have distinct identifiers. -/
theorem WellFormed.nodup_statics {types : Table} {doc : Document} (h : doc.WellFormed types) :
    ((doc.frozenTree types).statics.map (·.id)).Nodup := by
  rw [map_id_statics]
  refine Block.nodup_placedStaticsOfList types [] 0 _ fun b hb => ?_
  obtain ⟨i, hi, rfl⟩ := List.mem_map.mp hb
  exact (forall_functions_iff h.items).mpr h.blocks i hi

/-- Entities at top level keep their names as symbols. -/
theorem symbol_of_mem_entities {types : Table} {doc : Document} {e : Entity Site}
    (he : e ∈ (doc.frozenTree types).entities) : (doc.frozenTree types).symbol e = e.name := by
  apply Scope.Tree.symbol_eq_name
  rw [map_id_statics]
  intro hmem
  obtain ⟨x, hx, hsite⟩ := List.mem_map.mp hmem
  obtain ⟨i, -, rfl⟩ := List.mem_map.mp (entities_frozenTree types doc ▸ he)
  have hplace : x.1 = [] := by
    rw [resolvedItem, Load.resolvedEntity_eq] at hsite
    exact congrArg Site.place hsite
  obtain ⟨k, -, hk⟩ := Block.isPrefix_of_mem_placedStaticsOfList _ hx
  rw [hplace] at hk
  simp at hk

/-! ## The classes -/

theorem Item.WellFormed.kind_declared_eq_iff {types : Table} {i : Item} (hi : i.WellFormed types)
    {k : Scope.Kind} : (i.declared types).kind = k ↔ Load.kind? i.kind = some k := by
  obtain ⟨k', hk'⟩ := Load.exists_kind?_iff.mpr hi.kind
  simp [Item.declared, hk']

/-- Entities of some kinds at top level are the items with the words for them. -/
theorem WellFormed.map_filter_entities {types : Table} {doc : Document}
    (h : doc.WellFormed types) (p : Scope.Kind → Bool) (q : String → Bool)
    (hpq : ∀ k word, Load.kind? word = some k → p k = q word) :
    ((doc.frozenTree types).entities.filter fun e => p e.kind).map
        (fun e => ((doc.frozenTree types).symbol e, e.init.map (·.value))) =
      (doc.items.filter fun i => q i.kind).map
        fun i => (i.name, i.init.bind Init.constant?) := by
  have hentities := entities_frozenTree types doc
  have hfilter : doc.items.filter
      ((fun e => p e.kind) ∘ resolvedItem types (doc.declared types)) =
        doc.items.filter fun i => q i.kind := by
    apply List.filter_congr
    intro i hi
    rw [Function.comp_apply, resolvedItem, Load.resolvedEntity_eq]
    exact hpq _ _ ((h.items i hi).kind_declared_eq_iff.mp rfl)
  rw [hentities, List.filter_map, hfilter, List.map_map]
  apply List.map_congr_left
  intro i hi
  have hmem : i ∈ doc.items := (List.mem_filter.mp hi).1
  have hsymbol := symbol_of_mem_entities (hentities ▸ List.mem_map_of_mem hmem)
  rw [Function.comp_apply, hsymbol, resolvedItem, Load.map_value_resolvedEntity, Item.declared,
    Load.map_value_declared?, Load.resolvedEntity_eq]

theorem map_name_statics (types : Table) (doc : Document) :
    (doc.frozenTree types).statics.map (·.name) = doc.staticVars.map (·.name) := by
  rw [statics_frozenTree, List.map_map,
    ← map_snd_placedStatics, List.map_map]
  exact List.map_congr_left fun x _ => name_resolvedVar types _ x

/-- The static locals with their symbols are those of the walk. -/
theorem WellFormed.map_statics {types : Table} {doc : Document} (h : doc.WellFormed types) :
    (doc.frozenTree types).statics.map
        (fun e => ((doc.frozenTree types).symbol e, e.init.map (·.value))) =
      (numbered doc.staticVars).map fun x => (x.1, x.2.bind Init.constant?) := by
  have hstatics := statics_frozenTree types doc
  apply List.ext_getElem?
  intro k
  rw [List.getElem?_map, List.getElem?_map, numbered, List.getElem?_mapIdx,
    ← map_snd_placedStatics, List.getElem?_map, hstatics, List.getElem?_map]
  cases hk : doc.placedStatics[k]? with
  | none => rfl
  | some x =>
    have hget : (doc.frozenTree types).statics[k]? =
        some (resolvedVar types (doc.declared types) x) := by
      rw [hstatics, List.getElem?_map, hk]
      rfl
    have hvalue : (resolvedVar types (doc.declared types) x).init.map (·.value) =
        x.2.init.bind Init.constant? := by
      rw [resolvedVar, Load.map_value_resolvedEntity, LocalVar.declared, Load.map_value_declared?]
    have hfrozen : (doc.frozenTree types).frozen = true := Scope.Tree.frozen_freeze _
    simp only [Option.map_some, Scope.Tree.symbol_eq_numbered hfrozen h.nodup_statics hget,
      name_resolvedVar, hvalue, List.map_take, map_name_statics, ← map_snd_placedStatics]

theorem kind_of_mem_statics {types : Table} {doc : Document} {e : Entity Site}
    (he : e ∈ (doc.frozenTree types).statics) : e.kind = .definedVariable := by
  rw [statics_frozenTree] at he
  obtain ⟨x, -, rfl⟩ := List.mem_map.mp he
  exact kind_resolvedVar types _ x

/-- The defined variables with their symbols are those of the walk. -/
theorem WellFormed.map_all {types : Table} {doc : Document} (h : doc.WellFormed types) :
    (doc.frozenTree types).classes.all.map
        (fun e => ((doc.frozenTree types).symbol e, e.init.map (·.value))) =
      doc.definedVariables.map fun x => (x.1, x.2.bind Init.constant?) := by
  have hstatics : (doc.frozenTree types).statics.filter (·.kind = .definedVariable) =
      (doc.frozenTree types).statics :=
    List.filter_eq_self.mpr fun e he => by simpa using kind_of_mem_statics he
  have hglobals := h.map_filter_entities (· = .definedVariable) (· = "var") fun k word hk => by
    grind [Load.kind?_eq_some_iff.mp hk]
  rw [Scope.Tree.classes_eq, Scope.Classes.of, List.filter_append, hstatics, List.map_append,
    hglobals, h.map_statics, definedVariables, List.map_append, List.map_map]
  rfl

theorem WellFormed.init_of_mem_definedVariables {types : Table} {doc : Document}
    (h : doc.WellFormed types) {x : String × Option Init} (hx : x ∈ doc.definedVariables) :
    ∀ y, x.2 = some y → y.WellFormed := by
  rw [definedVariables, List.mem_append] at hx
  rcases hx with hx | hx
  · obtain ⟨i, hi, rfl⟩ := List.mem_map.mp hx
    intro y hy
    exact ((h.items i (List.mem_filter.mp hi).1).init y hy).1
  · obtain ⟨k, hk, rfl⟩ := List.mem_mapIdx.mp hx
    exact (h.staticVars (List.getElem_mem hk)).init

theorem WellFormed.map_all_isSome {types : Table} {doc : Document} (h : doc.WellFormed types) :
    (doc.frozenTree types).classes.all.map
        (fun e => ((doc.frozenTree types).symbol e, e.init.isSome)) =
      doc.definedVariables.map fun x => (x.1, x.2.isSome) := by
  have hall := congrArg (List.map fun x => (x.1, x.2.isSome)) h.map_all
  simp only [List.map_map, Function.comp_def, Option.isSome_map] at hall
  rw [hall]
  apply List.map_congr_left
  intro x hx
  have hinit := Load.isSome_bind_declared? (h.init_of_mem_definedVariables hx)
  rw [← hinit, ← Load.map_value_declared?, Option.isSome_map]

/-- Lists that agree on a key and a flag agree on the keys of the flagged members. -/
theorem map_filter_of_map_pair_eq {α β γ : Type} {f : α → γ} {p : α → Bool} {g : β → γ}
    {q : β → Bool} : ∀ {l : List α} {m : List β},
      (l.map fun a => (f a, p a)) = (m.map fun b => (g b, q b)) →
        (l.filter p).map f = (m.filter q).map g
  | [], [], _ => rfl
  | a :: l, b :: m, h => by
    simp only [List.map_cons, List.cons.injEq, Prod.mk.injEq] at h
    obtain ⟨⟨hf, hp⟩, hrest⟩ := h
    rw [List.filter_cons, List.filter_cons, hp]
    split <;> simp [hf, map_filter_of_map_pair_eq hrest]

/-- The classes of a loaded program, in the terms of its document. -/
theorem classes_of_load {types : Table} {doc : Document} {p : Program Site}
    (h : doc.load types = .ok p) :
    let t := p.scope.freeze
    t.classes.all.map t.symbol = doc.definedVariables.map Prod.fst ∧
    t.classes.initialized.map t.symbol =
      (doc.definedVariables.filter (·.2.isSome)).map Prod.fst ∧
    t.classes.common.map t.symbol = (doc.definedVariables.filter (·.2.isNone)).map Prod.fst ∧
    t.classes.externals.map t.symbol =
      (doc.items.filter (·.kind = "extern")).map (·.name) ∧
    t.functions.map t.symbol =
      (doc.items.filter fun i => i.kind = "func" ∨ i.kind = "extern-func").map (·.name) := by
  obtain ⟨hdoc, rfl⟩ := (load_accepts types doc p).mp h
  have hall := hdoc.map_all_isSome
  have hnames := congrArg (List.map Prod.fst) hall
  have hexternals := congrArg (List.map Prod.fst)
    (hdoc.map_filter_entities (· = .externVariable) (· = "extern") fun k word hk => by
      grind [Load.kind?_eq_some_iff.mp hk])
  have hfunctions := congrArg (List.map Prod.fst)
    (hdoc.map_filter_entities (fun k => k = .definedFunction ∨ k = .externFunction)
      (fun w => w = "func" ∨ w = "extern-func") fun k word hk => by
      grind [Load.kind?_eq_some_iff.mp hk])
  have hnone := congrArg (List.map fun x => (x.1, !x.2)) hall
  simp only [List.map_map, Function.comp_def, Option.not_isSome]
    at hnames hnone hexternals hfunctions
  refine ⟨hnames, map_filter_of_map_pair_eq hall, map_filter_of_map_pair_eq hnone,
    hexternals, ?_⟩
  rw [← hfunctions, Scope.Tree.functions]
  simp only [Scope.Entity.isFunction, Bool.decide_or]

/-- One function with a static local in its body and one of the same name in a nested block,
between two global variables. -/
def sample : Document where
  items := [
    { kind := "var", name := "first", type := "int", init := some { int := some 1 } },
    { kind := "func", name := "f", type := "void",
      body := some {
        vars := [{ name := "n", type := "char*", storage := "static" }]
        blocks := [{ vars := [{ name := "n", type := "long[2]", storage := "static" }] }] } },
    { kind := "var", name := "second", type := "short" }]

theorem classes_of_load_sample : ∃ p, sample.load { pointerSize := 4 } = .ok p ∧
    let t := p.scope.freeze
    t.classes.all.map t.symbol = ["first", "second", "n.0", "n.1"] := by
  have hload : (sample.load { pointerSize := 4 }).isOk := by decide +kernel
  obtain ⟨p, hp⟩ := exists_eq_ok_of_isOk hload
  exact ⟨p, hp, (classes_of_load hp).1.trans (by decide +kernel)⟩

end Document

end Cflat
