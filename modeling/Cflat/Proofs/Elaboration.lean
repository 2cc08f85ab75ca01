import Cflat.Program.Load
import Cflat.Proofs.Places
import Cflat.Proofs.WellFormed

/-!
# What a document declares

The scope tree of a well-formed document, as plain functions of the document.
`declared` is the tree before its addresses are looked up and `resolved` the tree
after.  Each pass of loading is shown to accept exactly the documents with its
rules, and to answer with these functions.

* The parts: kinds, storage words, initial values, items and local variables.
* The top level: `mapM_declareItem_eq_ok_iff`.
* The bodies: `block_eq_ok_iff`, `forM_openBody_eq_ok_iff`.
* The addresses: `resolveTree_accepts`, for any tree.
-/

namespace Cflat

open Scope (Entity Initializer Kind Storage Place Reference)

/-! ## The parts -/

namespace Document

/-- The initial value of a declaration, with its target open. -/
def Init.declared? (x : Init) : Option (Initializer Site) :=
  x.constant?.map fun c => ⟨c, none⟩

/-- The entity that an item declares. -/
def Item.declared (types : Table) (i : Item) : Entity Site :=
  let kind := (Load.kind? i.kind).getD .definedVariable
  { id := ⟨[], i.name⟩
    kind
    name := i.name
    type := (types.parse i.type).toOption
    markedPrivate := i.isStatic && (kind = .definedVariable || kind = .definedFunction)
    init := i.init.bind Init.declared? }

/-- The variable that a block at `place` declares. -/
def LocalVar.declared (types : Table) (place : Place) (v : LocalVar) : Entity Site where
  id := ⟨place, v.name⟩
  kind := .definedVariable
  name := v.name
  type := (types.parse v.type).toOption
  storage := (Load.storage? v.storage).getD .automatic
  init := v.init.bind Init.declared?

theorem Init.isSome_constant? (x : Init) : x.constant?.isSome ↔ x.WellFormed := by
  unfold Init.constant? Init.WellFormed
  rcases x with ⟨int, string, symbol, offset⟩
  cases int <;> cases string <;> by_cases hs : symbol = "" <;> simp [hs]

/-- A well-formed initial value declares one. -/
theorem Init.WellFormed.exists_constant {x : Init} (h : x.WellFormed) :
    ∃ c, x.constant? = some c :=
  Option.isSome_iff_exists.mp (x.isSome_constant?.mpr h)

end Document

namespace Load

/-- The words for kinds. -/
theorem kind?_eq_some_iff {s : String} {k : Kind} :
    kind? s = some k ↔ (s, k) ∈ [("var", Kind.definedVariable), ("extern", .externVariable),
      ("func", .definedFunction), ("extern-func", .externFunction), ("const", .constant)] := by
  unfold kind?
  split <;> simp_all [@eq_comm _ _ k]

theorem exists_kind?_iff {s : String} :
    (∃ k, kind? s = some k) ↔ s ∈ ["var", "extern", "func", "extern-func", "const"] := by
  unfold kind?
  split <;> simp_all

/-- The words for storage. -/
theorem exists_storage?_iff {s : String} :
    (∃ k, storage? s = some k) ↔ s ∈ ["", "auto", "static"] := by
  unfold storage?
  split <;> simp_all

/-- Only the word `static` makes a variable static. -/
theorem storage_declared (types : Table) (place : Place) (v : Document.LocalVar) :
    (v.declared types place).storage = if v.storage = "static" then .static else .automatic := by
  simp only [Document.LocalVar.declared, storage?]
  split <;> simp_all

/-- Every kind but the one of plain variables needs its word. -/
theorem kind_declared_eq_iff {types : Table} {i : Document.Item} {k : Kind}
    (hk : k ≠ .definedVariable) : (i.declared types).kind = k ↔ kind? i.kind = some k := by
  simp only [Document.Item.declared]
  cases kind? i.kind with
  | none => simp [hk.symm]
  | some k' => simp

theorem parseType_eq_ok_iff {types : Table} {name spec : String} {ty : Ty} :
    parseType types name spec = .ok ty ↔ types.parse spec = .ok ty :=
  mapError_eq_ok_iff

theorem initializer_accepts (name : String) :
    Accepts (initializer name) (fun init => ∀ x, init = some x → x.WellFormed)
      (fun init => init.bind Document.Init.declared?) := by
  intro init r
  cases init with
  | none => simp [initializer, eq_comm]
  | some x =>
    simp only [initializer, Option.some.injEq, forall_eq', Option.bind_some,
      ← x.isSome_constant?, Document.Init.declared?]
    cases x.constant? with
    | none => simp
    | some c => simp [eq_comm]

/-- An initial value that passes its check is there exactly when it is written. -/
theorem isSome_bind_declared? {init : Option Document.Init}
    (hinit : ∀ x, init = some x → x.WellFormed) :
    (init.bind Document.Init.declared?).isSome = init.isSome := by
  cases init with
  | none => rfl
  | some x =>
    obtain ⟨c, hc⟩ := (hinit x rfl).exists_constant
    simp [Document.Init.declared?, hc]

/-- The rule for bodies apart, which is looked at later, an item is declared
exactly when it is well-formed. -/
theorem entity_eq_ok_iff {types : Table} {i : Document.Item} {e : Entity Site} :
    entity types i = .ok e ↔
      { i with body := none }.WellFormed types ∧ e = i.declared types := by
  unfold entity
  simp only [↓guard_eq_ok_iff, bind_eq_ok_iff, parseType_eq_ok_iff, initializer_accepts _ _ _]
  constructor
  · intro hok
    obtain ⟨hname, ty, hty, init, ⟨hinit, rfl⟩, hvoid, h⟩ := hok
    have hsome := isSome_bind_declared? hinit
    cases hk : kind? i.kind with
    | none => simp [hk, throw_eq_ok_iff] at h
    | some kind =>
      simp only [hk, ↓guard_eq_ok_iff, pure_eq_ok_iff, ← Option.not_isSome, hsome] at h
      obtain ⟨hconst, hallowed, rfl⟩ := h
      have hword := kind?_eq_some_iff.mp hk
      refine ⟨⟨hname, ⟨ty, hty, ?_⟩, exists_kind?_iff.mp ⟨kind, hk⟩,
        fun x hx => ⟨hinit x hx, ?_⟩, ?_, nofun⟩, ?_⟩
      · grind [Ty.isVoid]
      · grind
      · grind
      · simp [Document.Item.declared, hk, hty, Except.toOption]
  · intro hrules
    obtain ⟨⟨hname, ⟨ty, hty, hvoid⟩, hkind, hinit, hconst, -⟩, rfl⟩ := hrules
    have hsome := isSome_bind_declared? fun x hx => (hinit x hx).1
    obtain ⟨kind, hk⟩ := exists_kind?_iff.mpr hkind
    have hword := kind?_eq_some_iff.mp hk
    refine ⟨hname, ty, hty, _, ⟨fun x hx => (hinit x hx).1, rfl⟩, ?_, ?_⟩
    · cases ty <;> grind [Ty.isVoid]
    · simp only [hk, ↓guard_eq_ok_iff, pure_eq_ok_iff, ← Option.not_isSome, hsome]
      refine ⟨by grind, ?_, ?_⟩
      · cases hx : i.init with
        | none => simp
        | some x =>
          rcases (hinit x hx).2 with hvar | hvar <;> grind
      · simp [Document.Item.declared, hk, hty, Except.toOption]

/-- A local variable is declared exactly when it is well-formed. -/
theorem localVar_accepts (types : Table) (place : Place) :
    Accepts (localVar types place) (fun v => v.WellFormed types)
      (Document.LocalVar.declared types place) := by
  intro v e
  unfold localVar
  simp only [↓guard_eq_ok_iff, bind_eq_ok_iff, parseType_eq_ok_iff, initializer_accepts _ _ _]
  constructor
  · intro hok
    obtain ⟨ty, hty, hvoid, init, ⟨hinit, rfl⟩, h⟩ := hok
    cases hs : storage? v.storage with
    | none => simp [hs, throw_eq_ok_iff] at h
    | some storage =>
      simp only [hs, pure_eq_ok_iff] at h
      refine ⟨⟨⟨ty, hty, ?_⟩, hinit, exists_storage?_iff.mp ⟨storage, hs⟩⟩, ?_⟩
      · rintro rfl
        exact hvoid rfl
      · rw [h]
        simp [Document.LocalVar.declared, hs, hty, Except.toOption]
  · intro hrules
    obtain ⟨⟨⟨ty, hty, hvoid⟩, hinit, hstorage⟩, rfl⟩ := hrules
    obtain ⟨storage, hs⟩ := exists_storage?_iff.mpr hstorage
    refine ⟨ty, hty, by cases ty <;> simp_all [Ty.isVoid], _, ⟨hinit, rfl⟩, ?_⟩
    simp [hs, pure_eq_ok_iff, Document.LocalVar.declared, hty, Except.toOption]

end Load

/-! ## The top level -/

namespace Scope

variable {ι : Type}

theorem Tree.foldl_addTop (es : List (Entity ι)) {t : Tree ι} (ht : t.frozen = false) :
    es.foldl addTop t = { t with decls := .of (t.entities ++ es), classified := none } := by
  induction es generalizing t with
  | nil => exact Tree.ext (t.entities.append_nil).symm rfl rfl ht
  | cons e es ih =>
    rw [List.foldl_cons, ih rfl]
    exact Tree.ext (List.append_assoc t.entities [e] es) rfl rfl rfl

theorem Block.foldl_addVar (es : List (Entity ι)) (b : Block ι) :
    es.foldl addVar b = { b with decls := .of (b.vars ++ es) } := by
  induction es generalizing b with
  | nil =>
    cases b
    rw [List.foldl_nil, List.append_nil, Block.vars, Declarations.of_entities]
  | cons e es ih =>
    rw [List.foldl_cons, ih]
    exact congrArg (Block.mk · b.blocks) (Declarations.ext (List.append_assoc b.vars [e] es))

end Scope

namespace Load

/-- A change is a step of loading where it is not refused. -/
theorem change_eq_ok_iff {α : Type} {x : Scope.Change Site α} {t t' : Scope.Tree Site} {a : α} :
    change x t = .ok (a, t') ↔ t.apply x = (.ok a, t') := by
  rw [change]
  rcases t.apply x with ⟨r, t₁⟩
  cases r <;> simp

theorem change_declare_eq_ok_iff {t t' : Scope.Tree Site} {place : Place} {e : Entity Site}
    {u : Unit} (ht : t.frozen = false) (he : e.FitsAt place) :
    change (.declare place e) t = .ok (u, t') ↔
      (∃ vars, t.vars? place = some vars ∧ e.name ∉ vars.map (·.name)) ∧ t' = t.addAt place e := by
  rw [change_eq_ok_iff, Scope.Tree.apply_declare_eq_ok_iff, Scope.Tree.refusal?_eq_none_iff,
    and_iff_right ht, and_iff_right he]

theorem declareItem_eq_ok_iff {types : Table} {t t' : Scope.Tree Site} {i : Document.Item}
    {e : Entity Site} (ht : t.frozen = false) :
    declareItem types i t = .ok (e, t') ↔
      i.WellFormed types ∧ i.name ∉ t.entities.map (·.name) ∧
        e = i.declared types ∧ t' = t.addTop (i.declared types) := by
  have hfits : (i.declared types).FitsAt [] := fun _ => rfl
  have hdeclare {t₁ : Scope.Tree Site} {u : Unit} :
      change (.declare [] (i.declared types)) t = .ok (u, t₁) ↔
        i.name ∉ t.entities.map (·.name) ∧ t₁ = t.addTop (i.declared types) := by
    rw [change_declare_eq_ok_iff ht hfits, t.vars?_nil]
    simp [Document.Item.declared, Scope.Tree.addAt]
  unfold declareItem
  simp only [run_bind_eq_ok_iff, run_lift_eq_ok_iff, entity_eq_ok_iff, ↓run_guard_eq_ok_iff,
    run_pure_eq_ok_iff]
  constructor
  · intro h
    obtain ⟨_, _, ⟨⟨hi, rfl⟩, rfl⟩, _, _, hdecl, hbody, rfl, rfl⟩ := h
    obtain ⟨hfresh, rfl⟩ := hdeclare.mp hdecl
    obtain ⟨kind, hk⟩ := exists_kind?_iff.mpr hi.kind
    refine ⟨⟨hi.named, hi.typed, hi.kind, hi.init, hi.constant, ?_⟩, hfresh, rfl, rfl⟩
    intro hsome
    have hword := kind?_eq_some_iff.mp hk
    simp only [Document.Item.declared, hk, hsome] at hbody
    grind
  · intro h
    obtain ⟨hi, hfresh, rfl, rfl⟩ := h
    have hi' : { i with body := none }.WellFormed types :=
      ⟨hi.named, hi.typed, hi.kind, hi.init, hi.constant, by simp⟩
    refine ⟨_, _, ⟨⟨hi', rfl⟩, rfl⟩, (), _, hdeclare.mpr ⟨hfresh, rfl⟩, ?_, rfl, rfl⟩
    cases hsome : i.body.isSome with
    | false => simp
    | true =>
      have hfunc := hi.body hsome
      simp [Document.Item.declared, hfunc, kind?]

/-- The first pass accepts the items that are well-formed one by one, with
distinct names. -/
theorem mapM_declareItem_eq_ok_iff {types : Table} {es : List (Entity Site)} {t : Scope.Tree Site}
    (items : List Document.Item) :
    items.mapM (declareItem types) {} = .ok (es, t) ↔
      (∀ i ∈ items, i.WellFormed types) ∧ (items.map (·.name)).Nodup ∧
        es = items.map (Document.Item.declared types) ∧
          t = { decls := .of (items.map (Document.Item.declared types)) } := by
  have hpush : items.foldl (fun t i => t.addTop (i.declared types)) ({} : Scope.Tree Site) =
      { decls := .of (items.map (Document.Item.declared types)) } := by
    rw [← List.foldl_map, Scope.Tree.foldl_addTop _ rfl]
    rfl
  refine (mapM_fresh_eq_ok_iff (fun t : Scope.Tree Site => t.entities.map (·.name))
    (fun t => t.frozen = false) (fun _ _ _ _ ht => declareItem_eq_ok_iff ht)
    (fun t i _ => List.map_append) (fun _ _ _ => rfl) items rfl).trans ?_
  have hnone : ∀ i ∈ items, i.name ∉ ({} : Scope.Tree Site).entities.map (·.name) :=
    fun i _ => List.not_mem_nil
  rw [hpush, and_iff_right hnone]

end Load

/-! ## The bodies -/

namespace Document

mutual

/-- The block that a block of a document declares at a place. -/
def Block.declared (types : Table) (place : Place) : Block → Scope.Block Site
  | ⟨vars, blocks⟩ =>
    ⟨.of (vars.map (LocalVar.declared types place)), Block.declaredList types place 0 blocks⟩

/-- The blocks that are declared in the block at a place, the first of them at position `i`. -/
def Block.declaredList (types : Table) (place : Place) (i : Nat) :
    List Block → List (Scope.Block Site)
  | [] => []
  | b :: rest => b.declared types (place ++ [i]) :: Block.declaredList types place (i + 1) rest

end

/-- The bodies of functions, the first of them at position `i`. -/
def declaredBodies (types : Table) (i : Nat) : List Item → List (Scope.Body Site)
  | [] => []
  | item :: rest =>
    ⟨⟨[], item.name⟩, (item.body.getD {}).declared types [i]⟩ :: declaredBodies types (i + 1) rest

end Document

namespace Scope

variable {ι : Type}

/-- Blocks added at the end of a block. -/
def Block.addBlocks (b : Block ι) (blocks : List (Block ι)) : Block ι :=
  { b with blocks := b.blocks ++ blocks }

theorem Block.addBlocks_nil (b : Block ι) : b.addBlocks [] = id b := by
  cases b
  rw [Block.addBlocks, List.append_nil, id]

theorem Block.length_addBlocks (b c : Block ι) :
    (b.addBlocks [c]).blocks.length = b.blocks.length + 1 :=
  List.length_append

theorem Tree.modifyBlock_addBlocks (t : Tree ι) (place : Place) (c : Block ι)
    (bs : List (Block ι)) :
    (t.modifyBlock (·.addBlocks [c]) place).modifyBlock (·.addBlocks bs) place =
      t.modifyBlock (·.addBlocks (c :: bs)) place := by
  rw [Tree.modifyBlock_modifyBlock]
  refine congrArg (t.modifyBlock · place) (funext fun b => ?_)
  exact congrArg (Block.mk b.decls) (List.append_assoc b.blocks [c] bs)

/-- Bodies added at the end of a tree. -/
def Tree.addBodies (t : Tree ι) (bodies : List (Body ι)) : Tree ι :=
  { t with bodies := t.bodies ++ bodies, classified := none }

theorem Block.modifyAt_id (path : List Nat) (b : Block ι) : b.modifyAt id path = b := by
  induction path generalizing b with
  | nil => rfl
  | cons i path ih =>
    cases b
    rw [Block.modifyAt, show Block.modifyAt id path = id from funext ih, List.modify_id]

theorem Tree.length_addBodies (t : Tree ι) (body : Body ι) :
    (t.addBodies [body]).bodies.length = t.bodies.length + 1 :=
  List.length_append

theorem Tree.addBodies_addBodies (t : Tree ι) (body : Body ι) (bodies : List (Body ι)) :
    (t.addBodies [body]).addBodies bodies = t.addBodies (body :: bodies) :=
  Tree.ext rfl (List.append_assoc t.bodies [body] bodies) rfl rfl

theorem Tree.modifyBlock_id {t : Tree ι} (ht : t.frozen = false) (place : Place) :
    t.modifyBlock id place = t := by
  cases place with
  | nil => rfl
  | cons i path =>
    refine Tree.ext rfl ?_ rfl ht.symm
    have hbody : (fun body : Body ι => { body with block := body.block.modifyAt id path }) = id :=
      funext fun body => congrArg (Body.mk body.function) (Block.modifyAt_id path body.block)
    exact (congrArg (t.bodies.modify i) hbody).trans (List.modify_id i t.bodies)

/-- Adding variables one by one at one place is one change of the block there. -/
theorem Tree.foldl_addAt (es : List (Entity ι)) {t : Tree ι} {place : Place}
    (ht : t.frozen = false) (hplace : place ≠ []) :
    es.foldl (·.addAt place) t = t.modifyBlock (fun b => es.foldl Block.addVar b) place := by
  induction es generalizing t with
  | nil => exact (Tree.modifyBlock_id ht place).symm
  | cons e es ih =>
    rw [List.foldl_cons, ih (t.frozen_addAt place e), Tree.addAt, if_neg hplace,
      Tree.modifyBlock_modifyBlock]
    rfl

theorem modify_concat {α : Type} (f : α → α) (l : List α) (a : α) :
    (l ++ [a]).modify l.length f = l ++ [f a] := by
  induction l with
  | nil => rfl
  | cons b l ih => simp [ih]

/-- Opening a block and filling it is adding the filled block. -/
theorem Tree.modifyBlock_addBlock {t : Tree ι} {outer : Place} {b : Block ι}
    (houter : outer ≠ []) (hb : t.block? outer = some b) (c : Block ι) :
    (t.modifyBlock (·.addBlock) outer).modifyBlock (fun _ => c) (outer ++ [b.blocks.length]) =
      t.modifyBlock (·.addBlocks [c]) outer := by
  rw [Tree.modifyBlock_append _ _ houter, Tree.modifyBlock_modifyBlock]
  refine Tree.modifyBlock_congr hb ?_
  exact congrArg (Block.mk b.decls) (modify_concat _ b.blocks {})

/-- Opening a body and filling it is adding the filled body. -/
theorem Tree.modifyBlock_addBody (t : Tree ι) (function : ι) (c : Block ι) :
    (t.addBody function).modifyBlock (fun _ => c) [t.bodies.length] =
      t.addBodies [⟨function, c⟩] :=
  Tree.ext rfl (modify_concat _ t.bodies { function }) rfl rfl

end Scope

namespace Load

theorem fitsAt_declared (types : Table) {place : Place} (hplace : place ≠ [])
    (v : Document.LocalVar) : (v.declared types place).FitsAt place := by
  rw [Entity.fitsAt_iff_of_ne_nil hplace, storage_declared]
  refine ⟨rfl, ?_⟩
  split <;> simp

/-- A tree that takes declarations at a place. -/
structure Ready (place : Place) (t : Scope.Tree Site) : Prop where
  inBlock : place ≠ []
  unfrozen : t.frozen = false
  block : (t.block? place).isSome

theorem Ready.exists_vars? {place : Place} {t : Scope.Tree Site} (h : Ready place t) :
    ∃ vars, t.vars? place = some vars := by
  obtain ⟨b, hb⟩ := Option.isSome_iff_exists.mp h.block
  rw [t.block?_eq_at? h.inBlock] at hb
  exact ⟨b.vars, by rw [Scope.Tree.vars?, Scope.Block.vars?, hb, Option.map_some]⟩

theorem Ready.modifyBlock {place : Place} {t : Scope.Tree Site} (h : Ready place t)
    (f : Scope.Block Site → Scope.Block Site) : Ready place (t.modifyBlock f place) where
  inBlock := h.inBlock
  unfrozen := t.frozen_modifyBlock f h.inBlock
  block := by rw [t.block?_modifyBlock, Option.isSome_map, h.block]

theorem declareVar_eq_ok_iff {types : Table} {place : Place} {t t' : Scope.Tree Site}
    {v : Document.LocalVar} {u : Unit} (ht : Ready place t) :
    declareVar types place v t = .ok (u, t') ↔
      v.WellFormed types ∧ v.name ∉ ((t.vars? place).getD []).map (·.name) ∧
        t' = t.addAt place (v.declared types place) := by
  obtain ⟨vars, hvars⟩ := ht.exists_vars?
  unfold declareVar
  simp only [run_bind_eq_ok_iff, run_lift_eq_ok_iff, localVar_accepts _ _ _ _]
  constructor
  · intro hok
    obtain ⟨_, _, ⟨⟨hv, rfl⟩, rfl⟩, h⟩ := hok
    rw [change_declare_eq_ok_iff ht.unfrozen (fitsAt_declared types ht.inBlock v)] at h
    obtain ⟨⟨vars', hvars', hfresh⟩, rfl⟩ := h
    exact ⟨hv, by rwa [hvars'], rfl⟩
  · intro hrules
    obtain ⟨hv, hfresh, rfl⟩ := hrules
    refine ⟨_, _, ⟨⟨hv, rfl⟩, rfl⟩, ?_⟩
    rw [change_declare_eq_ok_iff ht.unfrozen (fitsAt_declared types ht.inBlock v)]
    rw [hvars] at hfresh
    exact ⟨⟨vars, hvars, hfresh⟩, rfl⟩

theorem Ready.addAt {place : Place} {t : Scope.Tree Site} (h : Ready place t) (e : Entity Site) :
    Ready place (t.addAt place e) := by
  rw [Scope.Tree.addAt, if_neg h.inBlock]
  exact h.modifyBlock _

/-- The variables of a block are accepted when each is well-formed and their
names are distinct. -/
theorem forM_declareVar_eq_ok_iff {types : Table} {place : Place} {t t' : Scope.Tree Site}
    {u : Unit} (ht : Ready place t) (hempty : t.block? place = some {})
    (vars : List Document.LocalVar) :
    vars.forM (declareVar types place) t = .ok (u, t') ↔
      (∀ v ∈ vars, v.WellFormed types) ∧ (vars.map (·.name)).Nodup ∧
        t' = t.modifyBlock
          (fun _ => { decls := .of (vars.map (Document.LocalVar.declared types place)) })
          place := by
  have hpush : vars.foldl (fun t v => t.addAt place (v.declared types place)) t = t.modifyBlock
      (fun _ => { decls := .of (vars.map (Document.LocalVar.declared types place)) }) place := by
    rw [← List.foldl_map, Scope.Tree.foldl_addAt _ ht.unfrozen ht.inBlock]
    refine Scope.Tree.modifyBlock_congr hempty ?_
    rw [Scope.Block.foldl_addVar]
    rfl
  have hnone : t.vars? place = some [] := by
    rw [t.block?_eq_at? ht.inBlock] at hempty
    rw [Scope.Tree.vars?, Scope.Block.vars?, hempty]
    rfl
  refine (forM_fresh_eq_ok_iff (fun t : Scope.Tree Site => ((t.vars? place).getD []).map (·.name))
    (Ready place) (fun _ _ _ _ ht => declareVar_eq_ok_iff ht) ?_ ?_ vars ht).trans ?_
  · intro t v ht
    obtain ⟨es, hes⟩ := ht.exists_vars?
    rw [Scope.Tree.vars?_addAt hes, if_pos rfl, hes]
    exact List.map_append
  · intro t v ht
    exact ht.addAt _
  · have hfresh : ∀ v ∈ vars, v.name ∉ ((t.vars? place).getD []).map (·.name) := by
      rw [hnone]
      exact fun _ _ => List.not_mem_nil
    rw [hpush, and_iff_right hfresh]

theorem change_openBlock_eq_ok_iff {t t' : Scope.Tree Site} {outer place : Place}
    {b : Scope.Block Site} (ht : t.frozen = false) (hb : t.block? outer = some b) :
    change (.openBlock outer) t = .ok (place, t') ↔
      place = outer ++ [b.blocks.length] ∧ t' = t.modifyBlock (·.addBlock) outer := by
  rw [change_eq_ok_iff, Scope.Tree.apply_openBlock, ht, hb]
  simp [eq_comm]

theorem change_openBody_eq_ok_iff {t t' : Scope.Tree Site} {f : Entity Site} {place : Place}
    (ht : t.frozen = false) (hf : f.kind = .definedFunction) :
    change (.openBody f) t = .ok (place, t') ↔
      place = [t.bodies.length] ∧ t' = t.addBody f.id := by
  rw [change_eq_ok_iff, Scope.Tree.apply_openBody, ht, hf]
  simp [eq_comm]

/-- A block that was just opened is empty. -/
theorem block?_addBlock {t : Scope.Tree Site} {outer : Place} {b : Scope.Block Site}
    (hb : t.block? outer = some b) :
    (t.modifyBlock (·.addBlock) outer).block? (outer ++ [b.blocks.length]) = some {} := by
  have houter : outer ≠ [] := by
    rintro rfl
    cases hb
  have hplace : outer ++ [b.blocks.length] ≠ [] := by simp
  have hadded := t.block?_modifyBlock (·.addBlock) outer
  rw [Scope.Tree.block?_eq_at? _ houter, hb] at hadded
  rw [Scope.Tree.block?_eq_at? _ hplace, Scope.Block.at?_append, hadded]
  simp [Scope.Block.addBlock]

theorem block?_addBody (t : Scope.Tree Site) (function : Site) :
    (t.addBody function).block? [t.bodies.length] = some {} := by
  simp [Scope.Tree.block?, Scope.Tree.addBody]

theorem Ready.of_block? {place : Place} {t : Scope.Tree Site} {b : Scope.Block Site}
    (ht : t.frozen = false) (hb : t.block? place = some b) : Ready place t where
  inBlock := by
    rintro rfl
    cases hb
  unfrozen := ht
  block := by rw [hb, Option.isSome_some]

mutual

/-- The second pass fills an empty block when the block of the document and all blocks in
it are well-formed. -/
theorem block_eq_ok_iff (types : Table) (place : Place) : ∀ (b : Document.Block)
    {t : Scope.Tree Site} (t' : Scope.Tree Site) (u : Unit), Ready place t →
      t.block? place = some {} →
      (block types place b t = .ok (u, t') ↔
        (∀ c outer, b.HasBlock c outer → c.WellFormed types) ∧
          t' = t.modifyBlock (fun _ => b.declared types place) place)
  | ⟨vars, blocks⟩, t, t', u, ht, hempty => by
    rw [Document.Block.forall_hasBlock, block, Document.Block.declared]
    simp only [run_bind_eq_ok_iff, forM_declareVar_eq_ok_iff ht hempty]
    have hnested := blockList_eq_ok_iff types place blocks t' u
      (ht.modifyBlock fun _ =>
        { decls := .of (vars.map (Document.LocalVar.declared types place)) })
      (by rw [t.block?_modifyBlock, hempty]; rfl)
    simp only [Scope.Tree.modifyBlock_modifyBlock] at hnested
    constructor
    · intro h
      obtain ⟨_, _, ⟨hvars, hdistinct, rfl⟩, h⟩ := h
      obtain ⟨hblocks, rfl⟩ := hnested.mp h
      exact ⟨⟨⟨hvars, hdistinct⟩, hblocks⟩, rfl⟩
    · intro h
      obtain ⟨⟨⟨hvars, hdistinct⟩, hblocks⟩, rfl⟩ := h
      exact ⟨(), _, ⟨hvars, hdistinct, rfl⟩, hnested.mpr ⟨hblocks, rfl⟩⟩

/-- Blocks are added one after the other when they and all blocks in them are
well-formed. -/
theorem blockList_eq_ok_iff (types : Table) (outer : Place) : ∀ (bs : List Document.Block)
    {t : Scope.Tree Site} {b : Scope.Block Site} (t' : Scope.Tree Site) (u : Unit),
      Ready outer t → t.block? outer = some b →
      (blockList types outer bs t = .ok (u, t') ↔
        (∀ b ∈ bs, ∀ c outer, b.HasBlock c outer → c.WellFormed types) ∧
          t' = t.modifyBlock
            (·.addBlocks (Document.Block.declaredList types outer b.blocks.length bs)) outer)
  | [], t, b, t', u, ht, hb => by
    have hnothing : t.modifyBlock (·.addBlocks []) outer = t :=
      (Scope.Tree.modifyBlock_congr hb b.addBlocks_nil).trans
        (Scope.Tree.modifyBlock_id ht.unfrozen outer)
    rw [blockList, Document.Block.declaredList, hnothing, run_pure_eq_ok_iff]
    simp
  | d :: rest, t, b, t', u, ht, hb => by
    rw [blockList, Document.Block.declaredList]
    have hopened := Ready.of_block? (t.frozen_modifyBlock _ ht.inBlock) (block?_addBlock hb)
    have hfill (t' : Scope.Tree Site) (u : Unit) :=
      block_eq_ok_iff types (outer ++ [b.blocks.length]) d t' u hopened (block?_addBlock hb)
    simp only [Scope.Tree.modifyBlock_addBlock ht.inBlock hb] at hfill
    have hrest := blockList_eq_ok_iff types outer rest t' u (ht.modifyBlock
        (·.addBlocks [d.declared types (outer ++ [b.blocks.length])]))
      (by rw [t.block?_modifyBlock, hb]; rfl)
    simp only [Scope.Tree.modifyBlock_addBlocks, Scope.Block.length_addBlocks] at hrest
    simp only [run_bind_eq_ok_iff, change_openBlock_eq_ok_iff ht.unfrozen hb, List.forall_mem_cons]
    constructor
    · intro h
      obtain ⟨_, _, ⟨rfl, rfl⟩, _, _, h, h'⟩ := h
      obtain ⟨hd, rfl⟩ := (hfill _ _).mp h
      obtain ⟨hbs, rfl⟩ := hrest.mp h'
      exact ⟨⟨hd, hbs⟩, rfl⟩
    · intro h
      obtain ⟨⟨hd, hbs⟩, rfl⟩ := h
      exact ⟨_, _, ⟨rfl, rfl⟩, (), _, (hfill _ _).mpr ⟨hd, rfl⟩, hrest.mpr ⟨hbs, rfl⟩⟩

end

theorem openBody_eq_ok_iff {types : Table} {t t' : Scope.Tree Site} {item : Document.Item}
    {f : Entity Site} {u : Unit} (ht : t.frozen = false) (hf : f.kind = .definedFunction) :
    openBody types item f t = .ok (u, t') ↔
      (∀ c outer, (item.body.getD {}).HasBlock c outer → c.WellFormed types) ∧
        t' = t.addBodies [⟨f.id, (item.body.getD {}).declared types [t.bodies.length]⟩] := by
  have hopened := Ready.of_block? (t := t.addBody f.id) rfl (block?_addBody t f.id)
  have hfill := block_eq_ok_iff types [t.bodies.length] (item.body.getD {}) t' u hopened
    (block?_addBody t f.id)
  rw [openBody]
  simp only [run_bind_eq_ok_iff, change_openBody_eq_ok_iff ht hf, mapError_eq_ok_iff]
  constructor
  · intro h
    obtain ⟨_, _, ⟨rfl, rfl⟩, h⟩ := h
    rwa [hfill, Scope.Tree.modifyBlock_addBody] at h
  · intro h
    refine ⟨_, _, ⟨rfl, rfl⟩, ?_⟩
    rwa [hfill, Scope.Tree.modifyBlock_addBody]

/-- The second pass accepts the functions whose blocks are all well-formed. -/
theorem forM_openBody_eq_ok_iff {types : Table} (items : List Document.Item)
    {t t' : Scope.Tree Site} {u : Unit} (ht : t.frozen = false)
    (hfunctions : ∀ i ∈ items, (i.declared types).kind = .definedFunction) :
    (items.map fun i => (i, Document.Item.declared types i)).forM
        (fun (item, f) => openBody types item f : _ → Loading Unit) t = .ok (u, t') ↔
      (∀ i ∈ items, ∀ c outer, (i.body.getD {}).HasBlock c outer → c.WellFormed types) ∧
        t' = t.addBodies (Document.declaredBodies types t.bodies.length items) := by
  induction items generalizing t with
  | nil =>
    have hnothing : t.addBodies [] = t := Scope.Tree.ext rfl t.bodies.append_nil rfl ht.symm
    rw [Document.declaredBodies, hnothing]
    simp [List.forM_eq_forM, run_pure_eq_ok_iff]
  | cons item items ih =>
    rw [List.map_cons, List.forM_eq_forM, List.forM_cons]
    simp only [run_bind_eq_ok_iff, ← List.forM_eq_forM, List.forall_mem_cons,
      openBody_eq_ok_iff ht (hfunctions item (by simp)), Document.declaredBodies]
    have hrest (body : Scope.Body Site) := ih (t := t.addBodies [body]) rfl
      fun i hi => hfunctions i (by simp [hi])
    simp only [Scope.Tree.addBodies_addBodies, Scope.Tree.length_addBodies] at hrest
    constructor
    · intro h
      obtain ⟨_, _, ⟨hb, rfl⟩, h⟩ := h
      obtain ⟨hbs, rfl⟩ := (hrest _).mp h
      exact ⟨⟨hb, hbs⟩, rfl⟩
    · intro h
      obtain ⟨⟨hb, hbs⟩, rfl⟩ := h
      exact ⟨(), _, ⟨hb, rfl⟩, (hrest _).mpr ⟨hbs, rfl⟩⟩

theorem kind_declared_eq_func {types : Table} {i : Document.Item} :
    (i.declared types).kind = .definedFunction ↔ i.kind = "func" := by
  rw [kind_declared_eq_iff (by simp), kind?_eq_some_iff]
  simp

/-- The functions among the items, with their entities. -/
theorem filter_zip_declared (types : Table) (items : List Document.Item) :
    (items.zip (items.map (Document.Item.declared types))).filter (·.2.kind = .definedFunction) =
      (items.filter (·.kind = "func")).map fun i => (i, i.declared types) := by
  rw [← List.map_prod_left_eq_zip, List.filter_map]
  simp [Function.comp_def, kind_declared_eq_func]

/-- The first two passes accept the items that are well-formed and have distinct names, if
all blocks of the functions are well-formed. -/
theorem declareAll_eq_ok_iff {types : Table} {items : List Document.Item} {u : Unit}
    {t : Scope.Tree Site} :
    declareAll types items {} = .ok (u, t) ↔
      ((∀ i ∈ items, i.WellFormed types) ∧ (items.map (·.name)).Nodup) ∧
        (∀ i ∈ items.filter (·.kind = "func"), ∀ c outer,
          (i.body.getD {}).HasBlock c outer → c.WellFormed types) ∧
        t = {
          decls := .of (items.map (Document.Item.declared types))
          bodies := Document.declaredBodies types 0 (items.filter (·.kind = "func")) } := by
  have hfunctions : ∀ i ∈ items.filter (·.kind = "func"),
      (i.declared types).kind = .definedFunction := fun i hi => kind_declared_eq_func.mpr
    (by simpa using (List.mem_filter.mp hi).2)
  have hbodies := @forM_openBody_eq_ok_iff types _
    { decls := .of (items.map (Document.Item.declared types)) } t u rfl hfunctions
  rw [declareAll]
  rw [run_bind_eq_ok_iff]
  constructor
  · intro h
    obtain ⟨_, _, hdeclare, h⟩ := h
    obtain ⟨hitems, hdistinct, rfl, rfl⟩ := (mapM_declareItem_eq_ok_iff items).mp hdeclare
    rw [filter_zip_declared, hbodies] at h
    obtain ⟨hblocks, rfl⟩ := h
    exact ⟨⟨hitems, hdistinct⟩, hblocks, rfl⟩
  · intro h
    obtain ⟨⟨hitems, hdistinct⟩, hblocks, rfl⟩ := h
    refine ⟨_, _, (mapM_declareItem_eq_ok_iff items).mpr ⟨hitems, hdistinct, rfl, rfl⟩, ?_⟩
    rw [filter_zip_declared, hbodies]
    exact ⟨hblocks, rfl⟩

end Load

/-! ## The addresses -/

namespace Load

/-- The name that an initial value takes the address of, if it takes one, denotes
at `place` something that has an address. -/
def InitResolves (t : Scope.Tree Site) (place : Place) (init : Initializer Site) : Prop :=
  ∀ symbol offset, init.value = .address symbol offset →
    ∃ target, t.lookup? place symbol = some target ∧
      ¬ (target.kind = .definedVariable ∧ target.storage = .automatic) ∧ target.kind ≠ .constant

/-- The initial value of an entity resolves, unless the entity is automatic. -/
def EntityResolves (t : Scope.Tree Site) (place : Place) (e : Entity Site) : Prop :=
  e.storage ≠ .automatic → ∀ init, e.init = some init → InitResolves t place init

/-- All initial values of a tree resolve. -/
structure Resolves (t : Scope.Tree Site) : Prop where
  entities : ∀ e ∈ t.entities, EntityResolves t [] e
  blocks : ∀ place b, t.block? place = some b → ∀ e ∈ b.vars, EntityResolves t place e

/-- An initial value with its target. -/
def resolvedInit (t : Scope.Tree Site) (place : Place) (init : Initializer Site) :
    Initializer Site :=
  match init.value with
  | .address symbol _ => { init with target := (t.lookup? place symbol).map (·.reference) }
  | _ => init

/-- An entity with the target of its initial value. -/
def resolvedEntity (t : Scope.Tree Site) (place : Place) (e : Entity Site) : Entity Site :=
  if e.storage = .automatic then e
  else { e with init := e.init.map (resolvedInit t place) }

mutual

/-- A block with all targets in it. -/
def resolvedBlock (t : Scope.Tree Site) (place : Place) : Scope.Block Site → Scope.Block Site
  | ⟨decls, blocks⟩ =>
    ⟨.of (decls.entities.map (resolvedEntity t place)), resolvedBlocks t place 0 blocks⟩

/-- The blocks in `place` with all targets, the first at position `i`. -/
def resolvedBlocks (t : Scope.Tree Site) (place : Place) (i : Nat) :
    List (Scope.Block Site) → List (Scope.Block Site)
  | [] => []
  | b :: rest => resolvedBlock t (place ++ [i]) b :: resolvedBlocks t place (i + 1) rest

end

/-- A tree with all targets, and what they refer to. -/
def resolvedTree (t : Scope.Tree Site) : Scope.Tree Site :=
  let entities := t.entities.map (resolvedEntity t [])
  let blocks := resolvedBlocks t [] 0 (t.bodies.map (·.block))
  let bodies := (t.bodies.zip blocks).map fun (body, block) => { body with block }
  { decls := .of entities, bodies, referred := targets (entities ++ Scope.Body.statics bodies) }

theorem resolveInit_accepts (t : Scope.Tree Site) (place : Place) (owner : String) :
    Accepts (resolveInit t place owner) (InitResolves t place) (resolvedInit t place) := by
  rintro ⟨value, target⟩ r
  cases value with
  | address symbol offset =>
    simp only [resolveInit, resolvedInit, InitResolves, ↓guard_eq_ok_iff, bind_eq_ok_iff,
      mapError_eq_ok_iff, pure_eq_ok_iff, Scope.Tree.resolve]
    cases hfound : t.lookup? place symbol with
    | none => simp [hfound]
    | some e => simp [hfound, and_assoc]
  | _ => simp [resolveInit, resolvedInit, InitResolves, eq_comm]

theorem resolveEntity_accepts (t : Scope.Tree Site) (place : Place) :
    Accepts (resolveEntity t place) (EntityResolves t place) (resolvedEntity t place) := by
  intro e r
  unfold resolveEntity resolvedEntity EntityResolves
  by_cases hauto : e.storage = .automatic
  · cases e.init <;> simp [hauto, eq_comm]
  · cases hinit : e.init with
    | none =>
      cases e
      simp_all [eq_comm]
    | some init =>
      simp only [hauto, if_false, bind_eq_ok_iff, pure_eq_ok_iff, resolveInit_accepts _ _ _ _ _]
      simp [hauto]

mutual

theorem resolveBlock_accepts (t : Scope.Tree Site) (place : Place) :
    ∀ b b' : Scope.Block Site, resolveBlock t place b = .ok b' ↔
      (∀ path c, b.at? path = some c → ∀ e ∈ c.vars, EntityResolves t (place ++ path) e) ∧
        b' = resolvedBlock t place b
  | ⟨vars, blocks⟩, b' => by
    rw [Scope.Block.forall_at?, resolveBlock, resolvedBlock]
    simp only [bind_eq_ok_iff, pure_eq_ok_iff, (resolveEntity_accepts t place).mapM _ _,
      resolveBlocks_accepts t place 0 blocks, List.append_nil, Nat.zero_add]
    constructor
    · intro h
      obtain ⟨_, ⟨hvars, rfl⟩, _, ⟨hblocks, rfl⟩, rfl⟩ := h
      exact ⟨⟨hvars, hblocks⟩, rfl⟩
    · intro h
      obtain ⟨⟨hvars, hblocks⟩, rfl⟩ := h
      exact ⟨_, ⟨hvars, rfl⟩, _, ⟨hblocks, rfl⟩, rfl⟩

theorem resolveBlocks_accepts (t : Scope.Tree Site) (place : Place) (i : Nat) :
    ∀ bs bs' : List (Scope.Block Site), resolveBlocks t place i bs = .ok bs' ↔
      (∀ k b, bs[k]? = some b → ∀ path c, b.at? path = some c →
        ∀ e ∈ c.vars, EntityResolves t (place ++ (i + k) :: path) e) ∧
          bs' = resolvedBlocks t place i bs
  | [], bs' => by simp [resolveBlocks, resolvedBlocks, eq_comm]
  | b :: rest, bs' => by
    rw [resolveBlocks, resolvedBlocks]
    simp only [bind_eq_ok_iff, pure_eq_ok_iff, resolveBlock_accepts t (place ++ [i]) b,
      resolveBlocks_accepts t place (i + 1) rest]
    have hsplit {Q : Nat → Scope.Block Site → Prop} :
        (∀ k d, (b :: rest)[k]? = some d → Q k d) ↔
          Q 0 b ∧ ∀ k d, rest[k]? = some d → Q (k + 1) d := by
      constructor
      · intro h
        exact ⟨h 0 b rfl, fun k d hd => h (k + 1) d hd⟩
      · rintro ⟨h0, hs⟩ k d hd
        cases k with
        | zero => cases hd; exact h0
        | succ k => exact hs k d hd
    rw [hsplit]
    simp only [List.append_assoc, List.singleton_append, Nat.add_zero, Nat.add_right_comm i 1,
      ← Nat.add_assoc]
    constructor
    · intro hok
      obtain ⟨_, ⟨hb, rfl⟩, _, ⟨hrest, rfl⟩, rfl⟩ := hok
      exact ⟨⟨hb, hrest⟩, rfl⟩
    · intro hrules
      obtain ⟨⟨hb, hrest⟩, rfl⟩ := hrules
      exact ⟨_, ⟨hb, rfl⟩, _, ⟨hrest, rfl⟩, rfl⟩

end

/-- The third pass accepts the trees in which every address exists. -/
theorem resolveTree_accepts : Accepts resolveTree Resolves resolvedTree := by
  intro t t'
  unfold resolveTree
  simp only [bind_eq_ok_iff, pure_eq_ok_iff, (resolveEntity_accepts t []).mapM _ _,
    resolveBlocks_accepts]
  have hblocks : (∀ k b, (t.bodies.map (·.block))[k]? = some b → ∀ path c, b.at? path = some c →
      ∀ e ∈ c.vars, EntityResolves t ([] ++ (0 + k) :: path) e) ↔
        ∀ place b, t.block? place = some b → ∀ e ∈ b.vars, EntityResolves t place e := by
    constructor
    · rintro h (_ | ⟨k, path⟩) b hb
      · simp [Scope.Tree.block?] at hb
      · obtain ⟨body, hbody, hb⟩ := Option.bind_eq_some_iff.mp hb
        simpa using h k body.block (by simp [hbody]) path b hb
    · intro h k b hb path c hc
      obtain ⟨body, hbody, rfl⟩ := by simpa using hb
      simpa using h (k :: path) c (by simp [Scope.Tree.block?, hbody, hc])
  rw [hblocks]
  constructor
  · intro hok
    obtain ⟨_, ⟨hentities, rfl⟩, _, ⟨hin, rfl⟩, rfl⟩ := hok
    exact ⟨⟨hentities, hin⟩, rfl⟩
  · intro hrules
    obtain ⟨⟨hentities, hin⟩, rfl⟩ := hrules
    exact ⟨_, ⟨hentities, rfl⟩, _, ⟨hin, rfl⟩, rfl⟩

end Load

end Cflat
