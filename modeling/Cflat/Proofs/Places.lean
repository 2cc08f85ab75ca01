import Cflat.Scope.Change
import Cflat.Proofs.Accepts
import Cflat.Proofs.Stateful
import Mathlib.Data.List.Infix
import Mathlib.Data.List.Lex
import Mathlib.Data.List.Nodup

/-!
# The scope tree by place

Seen from outside, a tree is a map from places to the declarations of the scope
there.  `Tree.vars?` is this map, and the rest of the theory speaks of it and not of
nested blocks.

* Changes.  `apply_declare`, `apply_openBody` and `apply_openBlock` say what the changes
  do, refused ones included.  One that is accepted changes the map at one place:
  `declare_cases`, `openBody_cases`, `openBlock_cases`.
* Lookup.  A name is looked up at a place and then at the places around it:
  `lookup?_eq_some_iff`.
* Order.  `Tree.entries` lists the declarations of a tree with their places, depth
  first.  The places ascend in lexicographic order, in which a scope comes before
  the scopes in it.
* Denotation.  `Denotes` is the rule of the nearest declaration, over a list of
  declarations with their places; lookup keeps it.
* Classes.  The static locals and the variables of static duration are picked from
  the entries.
-/

namespace Cflat.Scope

variable {ι : Type}

/-! ## Blocks by path -/

@[simp]
theorem Block.at?_nil (b : Block ι) : b.at? [] = some b := by
  rw [Block.at?]

@[simp]
theorem Block.at?_cons (i : Nat) (path : List Nat) (b : Block ι) :
    b.at? (i :: path) = b.blocks[i]?.bind (Block.at? path) := by
  rw [Block.at?]

theorem Block.at?_append (path inner : List Nat) (b : Block ι) :
    b.at? (path ++ inner) = (b.at? path).bind (·.at? inner) := by
  induction path generalizing b with
  | nil => rfl
  | cons i path ih =>
    rw [List.cons_append, Block.at?_cons, Block.at?_cons, Option.bind_assoc]
    exact congrArg _ (funext ih)

/-- The blocks in a block, by their paths. -/
theorem Block.forall_at? {b : Block ι} {P : List Nat → Block ι → Prop} :
    (∀ path c, b.at? path = some c → P path c) ↔
      P [] b ∧ ∀ i d, b.blocks[i]? = some d → ∀ path c, d.at? path = some c → P (i :: path) c := by
  constructor
  · intro h
    refine ⟨h [] b b.at?_nil, fun i d hd path c hc => h (i :: path) c ?_⟩
    rw [Block.at?_cons, hd]
    exact hc
  · rintro ⟨hb, hin⟩ path c hc
    cases path with
    | nil =>
      rw [Block.at?_nil, Option.some.injEq] at hc
      exact hc ▸ hb
    | cons i path =>
      rw [Block.at?_cons, Option.bind_eq_some_iff] at hc
      obtain ⟨d, hd, hc⟩ := hc
      exact hin i d hd path c hc

/-- Where a block was changed there is the changed block. -/
theorem Block.at?_modifyAt (f : Block ι → Block ι) (path : List Nat) (b : Block ι) :
    (b.modifyAt f path).at? path = (b.at? path).map f := by
  induction path generalizing b with
  | nil => rfl
  | cons i path ih =>
    rw [Block.modifyAt, Block.at?_cons, Block.at?_cons, List.getElem?_modify_eq]
    cases b.blocks[i]? with
    | none => rfl
    | some d => exact ih d

theorem Block.modifyAt_modifyAt (f g : Block ι → Block ι) (path : List Nat) (b : Block ι) :
    (b.modifyAt f path).modifyAt g path = b.modifyAt (g ∘ f) path := by
  induction path generalizing b with
  | nil => rfl
  | cons i path ih =>
    rw [Block.modifyAt, Block.modifyAt, Block.modifyAt, List.modify_modify_eq]
    have hinner : Block.modifyAt g path ∘ Block.modifyAt f path = Block.modifyAt (g ∘ f) path :=
      funext ih
    rw [hinner]

theorem Block.modifyAt_append (f : Block ι → Block ι) (path inner : List Nat) :
    Block.modifyAt f (path ++ inner) = Block.modifyAt (Block.modifyAt f inner) path := by
  induction path with
  | nil => rfl
  | cons i path ih =>
    funext b
    rw [List.cons_append, Block.modifyAt, Block.modifyAt, ih]

theorem modify_congr {α : Type} {f g : α → α} {l : List α} {i : Nat} {a : α} (ha : l[i]? = some a)
    (h : f a = g a) : l.modify i f = l.modify i g := by
  apply List.ext_getElem?
  intro j
  rw [List.getElem?_modify, List.getElem?_modify]
  by_cases hij : i = j
  · simp [← hij, ha, h]
  · simp [hij]

/-- What a change does is what it does to the block at the path. -/
theorem Block.modifyAt_congr {f g : Block ι → Block ι} {path : List Nat} {b c : Block ι}
    (hc : b.at? path = some c) (h : f c = g c) : b.modifyAt f path = b.modifyAt g path := by
  induction path generalizing b with
  | nil =>
    obtain rfl : b = c := by simpa using hc
    exact h
  | cons i path ih =>
    rw [Block.at?_cons, Option.bind_eq_some_iff] at hc
    obtain ⟨d, hd, hc⟩ := hc
    rw [Block.modifyAt, Block.modifyAt, modify_congr hd (ih hc)]

/-- What the block at a path declares itself. -/
def Block.vars? (b : Block ι) (path : List Nat) : Option (List (Entity ι)) :=
  (b.at? path).map (·.vars)

@[simp]
theorem Block.vars?_nil (b : Block ι) : b.vars? [] = some b.vars := by
  simp [Block.vars?]

@[simp]
theorem Block.vars?_cons (i : Nat) (path : List Nat) (b : Block ι) :
    b.vars? (i :: path) = b.blocks[i]?.bind (·.vars? path) := by
  cases h : b.blocks[i]? <;> simp [Block.vars?, h]

theorem Block.vars?_append (path inner : List Nat) (b : Block ι) :
    b.vars? (path ++ inner) = (b.at? path).bind (·.vars? inner) := by
  rw [Block.vars?, Block.at?_append]
  cases b.at? path <;> rfl

/-- A change that makes the block at a path differ at one path below it makes the outer
block differ at one path. -/
theorem Block.vars?_modifyAt {f : Block ι → Block ι} {path inner : List Nat}
    {vars : List (Entity ι)} {b c : Block ι} (hc : b.at? path = some c)
    (hf : ∀ q, (f c).vars? q = if q = inner then some vars else c.vars? q) (q : List Nat) :
    (b.modifyAt f path).vars? q = if q = path ++ inner then some vars else b.vars? q := by
  induction path generalizing b q with
  | nil =>
    obtain rfl : b = c := by simpa using hc
    exact hf q
  | cons i path ih =>
    rw [Block.at?_cons, Option.bind_eq_some_iff] at hc
    obtain ⟨d, hd, hc⟩ := hc
    rw [Block.modifyAt]
    cases q with
    | nil => simp [Block.vars]
    | cons j q =>
      by_cases hij : j = i
      · subst hij
        simp [List.getElem?_modify_eq, hd, ih hc]
      · simp [List.getElem?_modify_ne _ _ (Ne.symm hij), hij]

/-! ## The tree by place -/

/-- The whole tree as one block: the top level with the bodies in it. -/
def Tree.root (t : Tree ι) : Block ι :=
  ⟨t.decls, t.bodies.map (·.block)⟩

/-- What the scope at a place declares itself, if there is one. -/
def Tree.vars? (t : Tree ι) (place : Place) : Option (List (Entity ι)) :=
  t.root.vars? place

/-- How many scopes there are right in the scope at a place, if there is one. -/
def Tree.inner? (t : Tree ι) (place : Place) : Option Nat :=
  (t.root.at? place).map (·.blocks.length)

theorem Tree.block?_eq_at? (t : Tree ι) {place : Place} (h : place ≠ []) :
    t.block? place = t.root.at? place := by
  cases place with
  | nil => exact absurd rfl h
  | cons i path => cases hi : t.bodies[i]? <;> simp [Tree.block?, Tree.root, hi]

theorem Tree.vars?_nil (t : Tree ι) : t.vars? [] = some t.entities := by
  rw [Tree.vars?, Block.vars?_nil, Tree.root, Block.vars, Tree.entities]

theorem Tree.vars?_cons (t : Tree ι) (i : Nat) (path : List Nat) :
    t.vars? (i :: path) = (t.block? (i :: path)).map (·.vars) := by
  rw [t.block?_eq_at? (by simp)]
  rfl

/-- A scope has an inner scope at each number below that of its inner scopes. -/
theorem Tree.isSome_vars?_concat {t : Tree ι} {place : Place} {n : Nat}
    (h : t.inner? place = some n) (i : Nat) : (t.vars? (place ++ [i])).isSome ↔ i < n := by
  obtain ⟨b, hb, rfl⟩ := Option.map_eq_some_iff.mp h
  rw [Tree.vars?, Block.vars?_append, hb]
  by_cases hi : i < b.blocks.length
  · simp [hi]
  · simp [hi]

@[simp]
theorem Tree.root_freeze (t : Tree ι) : t.freeze.root = t.root := by
  rw [Tree.root, Tree.root, t.decls_freeze, t.bodies_freeze]

@[simp]
theorem Tree.vars?_freeze (t : Tree ι) (place : Place) : t.freeze.vars? place = t.vars? place := by
  rw [Tree.vars?, Tree.root_freeze, Tree.vars?]

theorem Tree.root_addBody (t : Tree ι) (function : ι) :
    (t.addBody function).root = t.root.addBlock := by
  simp [Tree.root, Tree.addBody, Block.addBlock]

theorem map_modify {α β : Type} {f : α → β} {g : α → α} {g' : β → β}
    (h : ∀ a, f (g a) = g' (f a)) (l : List α) (i : Nat) :
    (l.modify i g).map f = (l.map f).modify i g' := by
  apply List.ext_getElem?
  intro j
  rw [List.getElem?_map, List.getElem?_modify, List.getElem?_modify, List.getElem?_map]
  cases l[j]? with
  | none => rfl
  | some a =>
    by_cases hij : i = j
    · simp [hij, h]
    · simp [hij]

/-- Changing a block of the tree is changing a block of its root. -/
theorem Tree.root_modifyBlock (t : Tree ι) (f : Block ι → Block ι) {place : Place}
    (h : place ≠ []) : (t.modifyBlock f place).root = t.root.modifyAt f place := by
  cases place with
  | nil => exact absurd rfl h
  | cons i path =>
    have hblocks : (t.bodies.modify i fun body =>
        { body with block := body.block.modifyAt f path }).map (·.block) =
        (t.bodies.map (·.block)).modify i (Block.modifyAt f path) := by
      apply map_modify
      intro body
      rfl
    exact congrArg (Block.mk t.decls) hblocks

theorem Tree.frozen_modifyBlock (t : Tree ι) (f : Block ι → Block ι) {place : Place}
    (h : place ≠ []) : (t.modifyBlock f place).frozen = false := by
  cases place with
  | nil => exact absurd rfl h
  | cons i path => rfl

theorem Tree.block?_modifyBlock (t : Tree ι) (f : Block ι → Block ι) (place : Place) :
    (t.modifyBlock f place).block? place = (t.block? place).map f := by
  cases place with
  | nil => rfl
  | cons i path =>
    rw [Tree.block?_eq_at? _ (by simp), t.root_modifyBlock f (by simp), Block.at?_modifyAt,
      ← t.block?_eq_at? (by simp)]

theorem Tree.modifyBlock_modifyBlock (t : Tree ι) (f g : Block ι → Block ι) (place : Place) :
    (t.modifyBlock f place).modifyBlock g place = t.modifyBlock (g ∘ f) place := by
  cases place with
  | nil => rfl
  | cons i path =>
    refine Tree.ext rfl ?_ rfl rfl
    simp only [Tree.modifyBlock, List.modify_modify_eq]
    refine congrArg _ (funext fun body => ?_)
    exact congrArg (Body.mk body.function) (body.block.modifyAt_modifyAt f g path)

theorem Tree.modifyBlock_append (t : Tree ι) (f : Block ι → Block ι) {place : Place}
    (h : place ≠ []) (inner : List Nat) :
    t.modifyBlock f (place ++ inner) = t.modifyBlock (Block.modifyAt f inner) place := by
  cases place with
  | nil => exact absurd rfl h
  | cons i path =>
    rw [List.cons_append, Tree.modifyBlock, Tree.modifyBlock, Block.modifyAt_append]

theorem Tree.modifyBlock_congr {t : Tree ι} {f g : Block ι → Block ι} {place : Place} {c : Block ι}
    (hc : t.block? place = some c) (h : f c = g c) :
    t.modifyBlock f place = t.modifyBlock g place := by
  cases place with
  | nil => cases hc
  | cons i path =>
    obtain ⟨body, hbody, hc⟩ := Option.bind_eq_some_iff.mp hc
    refine Tree.ext rfl ?_ rfl rfl
    exact modify_congr hbody (congrArg (Body.mk body.function) (Block.modifyAt_congr hc h))

/-! ## Changes -/

/-- Whether an entity may be declared at a place: at top level a variable is global, and
in a block there are only variables that are not. -/
def Entity.FitsAt (e : Entity ι) (place : Place) : Prop :=
  if place = [] then e.kind = .definedVariable → e.storage = .global
  else e.kind = .definedVariable ∧ e.storage ≠ .global

instance (e : Entity ι) (place : Place) : Decidable (e.FitsAt place) := by
  unfold Entity.FitsAt
  infer_instance

theorem Entity.not_fitsAt_nil_iff {e : Entity ι} :
    ¬ e.FitsAt [] ↔ e.kind = .definedVariable ∧ e.storage ≠ .global := by
  rw [Entity.FitsAt, if_pos rfl, Classical.not_imp]

theorem Entity.fitsAt_iff_of_ne_nil {e : Entity ι} {place : Place} (h : place ≠ []) :
    e.FitsAt place ↔ e.kind = .definedVariable ∧ e.storage ≠ .global := by
  rw [Entity.FitsAt, if_neg h]

theorem Entity.not_fitsAt_iff_of_ne_nil {e : Entity ι} {place : Place} (h : place ≠ []) :
    ¬ e.FitsAt place ↔ e.kind ≠ .definedVariable ∨ e.storage = .global := by
  rw [Entity.fitsAt_iff_of_ne_nil h, not_and_or, not_not]

/-- The error of a declaration of an entity that does not belong at a place. -/
def Entity.misfit (e : Entity ι) (place : Place) : ScopeError :=
  if place = [] then .notGlobal e.storage e.name else .notLocal e.name

/-- The error of a declaration of an entity whose name is taken at a place. -/
def Entity.clash (e : Entity ι) (place : Place) : ScopeError :=
  if place = [] then .duplicate e.name else .duplicateLocal e.name

/-- Why a declaration is refused, if it is. -/
def Tree.refusal? (t : Tree ι) (place : Place) (e : Entity ι) : Option ScopeError :=
  if t.frozen then some .frozen
  else match t.vars? place with
    | none => some .noSuchScope
    | some vars =>
      if ¬ e.FitsAt place then some (e.misfit place)
      else if e.name ∈ vars.map (·.name) then some (e.clash place)
      else none

/-- Add an entity at the end of the scope at a place. -/
def Tree.addAt (t : Tree ι) (place : Place) (e : Entity ι) : Tree ι :=
  if place = [] then t.addTop e else t.modifyBlock (·.addVar e) place

theorem Tree.isSome_find? (t : Tree ι) (name : String) :
    (t.find? name).isSome ↔ name ∈ t.entities.map (·.name) := by
  simp [Tree.find?, Declarations.find?_eq, Tree.entities, List.find?_isSome]

theorem Block.isSome_find? (b : Block ι) (name : String) :
    (b.find? name).isSome ↔ name ∈ b.vars.map (·.name) := by
  simp [Block.find?, Declarations.find?_eq, Block.vars, List.find?_isSome]

theorem Tree.apply_unlessFrozen_bind {α : Type} (t : Tree ι) (k : Unit → Change ι α) :
    t.apply (Change.unlessFrozen >>= k) =
      if t.frozen then (.error .frozen, t) else t.apply (k ()) := by
  rw [Tree.apply, run_bind, Change.unlessFrozen, run_bind, run_get]
  dsimp only
  by_cases hfrozen : t.frozen = true
  · rw [if_pos hfrozen, if_pos hfrozen, run_throw]
  · rw [if_neg hfrozen, if_neg hfrozen, run_pure, Tree.apply]

theorem Tree.apply_block_bind {α : Type} (t : Tree ι) (place : Place) (k : Block ι → Change ι α) :
    t.apply (Change.block place >>= k) =
      match t.block? place with
      | none => (.error .noSuchScope, t)
      | some b => t.apply (k b) := by
  rw [Tree.apply, run_bind, Change.block, run_bind, run_get]
  dsimp only
  cases t.block? place <;> rfl

/-- The last two checks of a declaration, and the declaration. -/
theorem Tree.apply_checks {place : Place} {e : Entity ι} {vars : List (Entity ι)} (t t' : Tree ι)
    {p q : Prop} [Decidable p] [Decidable q] (hp : p ↔ ¬ e.FitsAt place)
    (hq : q ↔ e.name ∈ vars.map (·.name)) :
    (if p then (.error (e.misfit place), t)
      else if q then (.error (e.clash place), t) else (.ok (), t')) =
    match (if ¬ e.FitsAt place then some (e.misfit place)
      else if e.name ∈ vars.map (·.name) then some (e.clash place) else none) with
    | some err => (Except.error err, t)
    | none => (.ok (), t') := by
  simp only [hp, hq]
  split
  · rfl
  · split <;> rfl

/-- **Declaring.**  A declaration that is refused leaves the tree as it is. -/
theorem Tree.apply_declare (t : Tree ι) (place : Place) (e : Entity ι) :
    t.apply (.declare place e) =
      match t.refusal? place e with
      | some err => (.error err, t)
      | none => (.ok (), t.addAt place e) := by
  rw [Change.declare, Tree.refusal?, Tree.addAt]
  by_cases hplace : place = []
  · subst hplace
    rw [if_pos rfl, if_pos rfl, Change.declareTop, Tree.apply_unlessFrozen_bind, t.vars?_nil]
    by_cases hfrozen : t.frozen = true
    · rw [if_pos hfrozen, if_pos hfrozen]
    · rw [if_neg hfrozen, if_neg hfrozen, Tree.apply]
      simp only [run_guard, run_bind, run_get, run_modify]
      exact Tree.apply_checks t (t.addTop e) Entity.not_fitsAt_nil_iff.symm (t.isSome_find? e.name)
  · rw [if_neg hplace, if_neg hplace, Change.declareLocal, Tree.apply_unlessFrozen_bind,
      Tree.apply_block_bind, Tree.vars?, Block.vars?, ← t.block?_eq_at? hplace]
    by_cases hfrozen : t.frozen = true
    · rw [if_pos hfrozen, if_pos hfrozen]
    · rw [if_neg hfrozen, if_neg hfrozen]
      cases t.block? place with
      | none => rfl
      | some b =>
        dsimp only [Option.map_some]
        rw [Tree.apply]
        simp only [run_guard, run_modify]
        have hmisfit : e.misfit place = .notLocal e.name := if_neg hplace
        have hclash : e.clash place = .duplicateLocal e.name := if_neg hplace
        rw [← hmisfit, ← hclash]
        exact Tree.apply_checks t (t.modifyBlock (·.addVar e) place)
          (Entity.not_fitsAt_iff_of_ne_nil hplace).symm (b.isSome_find? e.name)

theorem Tree.apply_openBody (t : Tree ι) (f : Entity ι) :
    t.apply (.openBody f) =
      if t.frozen then (.error .frozen, t)
      else if f.kind ≠ .definedFunction then (.error (.notFunction f.name), t)
      else (.ok [t.bodies.length], t.addBody f.id) := by
  rw [Change.openBody, Tree.apply_unlessFrozen_bind, Tree.apply]
  simp only [run_guard, run_bind, run_get, run_modify, run_pure]

theorem Tree.apply_openBlock (t : Tree ι) (outer : Place) :
    t.apply (.openBlock outer) =
      if t.frozen then (.error .frozen, t)
      else match t.block? outer with
        | none => (.error .noSuchScope, t)
        | some b => (.ok (outer ++ [b.blocks.length]), t.modifyBlock (·.addBlock) outer) := by
  rw [Change.openBlock, Tree.apply_unlessFrozen_bind, Tree.apply_block_bind]
  rfl

theorem Block.vars?_addVar (b : Block ι) (e : Entity ι) (q : List Nat) :
    (b.addVar e).vars? q = if q = [] then some (b.vars ++ [e]) else b.vars? q := by
  cases q with
  | nil => rfl
  | cons i q => simp [Block.addVar]

theorem Block.vars?_addBlock (b : Block ι) (q : List Nat) :
    b.addBlock.vars? q = if q = [b.blocks.length] then some [] else b.vars? q := by
  cases q with
  | nil => rfl
  | cons i q =>
    rw [Block.vars?_cons, Block.vars?_cons, Block.addBlock, List.getElem?_append]
    by_cases hlt : i < b.blocks.length
    · simp [hlt, Nat.ne_of_lt hlt]
    · rw [if_neg hlt, List.getElem?_eq_none (Nat.le_of_not_lt hlt), List.getElem?_singleton]
      by_cases hi : i = b.blocks.length
      · cases q <;> simp [hi, Block.vars]
      · simp [hi, show i - b.blocks.length ≠ 0 by omega]

/-- A new block has a new path. -/
theorem Block.vars?_length_blocks (b : Block ι) : b.vars? [b.blocks.length] = none := by
  simp

/-- What adding does: the scope at the place gets the entity at its end. -/
theorem Tree.vars?_addAt {t : Tree ι} {place : Place} {vars : List (Entity ι)}
    (h : t.vars? place = some vars) (e : Entity ι) (q : Place) :
    (t.addAt place e).vars? q = if q = place then some (vars ++ [e]) else t.vars? q := by
  rw [Tree.addAt]
  by_cases hplace : place = []
  · subst hplace
    cases t.vars?_nil.symm.trans h
    exact Block.vars?_addVar t.root e q
  · rw [if_neg hplace, Tree.vars?, t.root_modifyBlock _ hplace]
    obtain ⟨c, hc, rfl⟩ := Option.map_eq_some_iff.mp h
    have heffect := Block.vars?_modifyAt (f := (·.addVar e)) hc (Block.vars?_addVar c e) q
    rwa [List.append_nil] at heffect

theorem Tree.frozen_addAt (t : Tree ι) (place : Place) (e : Entity ι) :
    (t.addAt place e).frozen = false := by
  rw [Tree.addAt]
  split
  · rfl
  · next hplace => exact t.frozen_modifyBlock _ hplace

/-- Nothing is refused that may stand at a place under a name that is new there. -/
theorem Tree.refusal?_eq_none_iff {t : Tree ι} {place : Place} {e : Entity ι} :
    t.refusal? place e = none ↔
      t.frozen = false ∧ e.FitsAt place ∧
        ∃ vars, t.vars? place = some vars ∧ e.name ∉ vars.map (·.name) := by
  rw [Tree.refusal?]
  cases t.frozen with
  | true => simp
  | false =>
    cases t.vars? place with
    | none => simp
    | some vars =>
      by_cases hfits : e.FitsAt place
      · by_cases htaken : e.name ∈ vars.map (·.name) <;> simp [hfits, htaken, -List.mem_map]
      · simp [hfits]

/-- Declaring succeeds exactly when the tree is not frozen, the entity may stand at the
place, and its name is new there; then the entity is added. -/
theorem Tree.apply_declare_eq_ok_iff {t t' : Tree ι} {place : Place} {e : Entity ι} {u : Unit} :
    t.apply (.declare place e) = (.ok u, t') ↔
      t.refusal? place e = none ∧ t' = t.addAt place e := by
  rw [Tree.apply_declare]
  cases t.refusal? place e with
  | none => simp [eq_comm]
  | some err => simp

/-- What declaring does: the scope at the place gets the entity at its end. -/
theorem Tree.declare_cases {t t' : Tree ι} {place : Place} {e : Entity ι} {u : Unit}
    (h : t.apply (.declare place e) = (.ok u, t')) :
    t.frozen = false ∧ t'.frozen = false ∧ e.FitsAt place ∧
      ∃ vars, t.vars? place = some vars ∧ e.name ∉ vars.map (·.name) ∧
        ∀ q, t'.vars? q = if q = place then some (vars ++ [e]) else t.vars? q := by
  obtain ⟨hnone, rfl⟩ := Tree.apply_declare_eq_ok_iff.mp h
  obtain ⟨hfrozen, hfits, vars, hvars, hfresh⟩ := Tree.refusal?_eq_none_iff.mp hnone
  exact ⟨hfrozen, t.frozen_addAt place e, hfits, vars, hvars, hfresh, Tree.vars?_addAt hvars e⟩

/-- What opening a body does: there is a new scope, the next one in the top level, and it
is empty. -/
theorem Tree.openBody_cases {t t' : Tree ι} {f : Entity ι} {place : Place}
    (h : t.apply (.openBody f) = (.ok place, t')) :
    t.frozen = false ∧ t'.frozen = false ∧ f.kind = .definedFunction ∧
      (∃ n, t.inner? [] = some n ∧ place = [n]) ∧ t.vars? place = none ∧
      ∀ q, t'.vars? q = if q = place then some [] else t.vars? q := by
  rw [Tree.apply_openBody] at h
  split at h
  · cases h
  · next hfrozen =>
    split at h
    · cases h
    · next hkind =>
      cases h
      have hlength : t.bodies.length = t.root.blocks.length := by simp [Tree.root]
      refine ⟨by simpa using hfrozen, rfl, by simpa using hkind,
        ⟨_, by simp [Tree.inner?, hlength], rfl⟩, ?_, fun q => ?_⟩
      · rw [hlength]
        exact Block.vars?_length_blocks t.root
      · rw [hlength, Tree.vars?, Tree.vars?, ← Block.vars?_addBlock, t.root_addBody]

/-- What opening a block does: in the scope at the place there is a new one, the next, and
it is empty. -/
theorem Tree.openBlock_cases {t t' : Tree ι} {outer place : Place}
    (h : t.apply (.openBlock outer) = (.ok place, t')) :
    t.frozen = false ∧ t'.frozen = false ∧ outer ≠ [] ∧
      (∃ n, t.inner? outer = some n ∧ place = outer ++ [n]) ∧ t.vars? place = none ∧
      ∀ q, t'.vars? q = if q = place then some [] else t.vars? q := by
  rw [Tree.apply_openBlock] at h
  split at h
  · cases h
  · next hfrozen =>
    split at h
    · cases h
    · next c hc =>
      cases h
      have houter : outer ≠ [] := by
        rintro rfl
        cases hc
      rw [t.block?_eq_at? houter] at hc
      refine ⟨by simpa using hfrozen, t.frozen_modifyBlock _ houter, houter,
        ⟨_, by simp [Tree.inner?, hc], rfl⟩, ?_, fun q => ?_⟩
      · rw [Tree.vars?, Block.vars?_append, hc]
        exact Block.vars?_length_blocks c
      · rw [Tree.vars?, t.root_modifyBlock _ houter]
        exact Block.vars?_modifyAt hc (Block.vars?_addBlock c) q

/-! ## Lookup -/

/-- The declaration of a name in the scope at a place itself. -/
def Tree.findAt? (t : Tree ι) (place : Place) (name : String) : Option (Entity ι) :=
  (t.vars? place).bind fun vars => vars.find? (·.name = name)

theorem Block.along_concat (path : List Nat) (i : Nat) (b : Block ι) :
    b.along (path ++ [i]) = b.along path ++ (b.at? (path ++ [i])).toList := by
  induction path generalizing b with
  | nil =>
    rw [List.nil_append, Block.along, Block.along, Block.at?_cons]
    cases b.blocks[i]? <;> simp [Block.along]
  | cons k path ih =>
    rw [List.cons_append, Block.along, Block.along, Block.at?_cons]
    cases b.blocks[k]? with
    | none => rfl
    | some c => simp [ih]

theorem Tree.enclosing_concat (t : Tree ι) (place : Place) (i : Nat) :
    t.enclosing (place ++ [i]) = (t.block? (place ++ [i])).toList ++ t.enclosing place := by
  cases place with
  | nil =>
    rw [List.nil_append, Tree.enclosing, Tree.enclosing, Tree.block?]
    cases t.bodies[i]? <;> simp [Block.along]
  | cons k path =>
    rw [List.cons_append, Tree.enclosing, Tree.enclosing, Tree.block?]
    cases t.bodies[k]? with
    | none => rfl
    | some body =>
      simp only [Block.along_concat, List.reverse_append, Option.bind_some]
      cases body.block.at? (path ++ [i]) <;> rfl

theorem Tree.lookup?_nil (t : Tree ι) (name : String) : t.lookup? [] name = t.findAt? [] name := by
  simp [Tree.lookup?, Tree.enclosing, Tree.findAt?, Tree.vars?, Tree.root, Tree.find?,
    Declarations.find?_eq, Block.vars]

/-- A name is looked up in the scope at the place first, then in the scopes around it. -/
theorem Tree.lookup?_concat (t : Tree ι) (place : Place) (i : Nat) (name : String) :
    t.lookup? (place ++ [i]) name =
      (t.findAt? (place ++ [i]) name).or (t.lookup? place name) := by
  rw [Tree.lookup?, Tree.lookup?, Tree.enclosing_concat, Tree.findAt?, Tree.vars?, Block.vars?,
    t.block?_eq_at? (by simp)]
  cases t.root.at? (place ++ [i]) with
  | none => simp
  | some b =>
    simp only [Option.toList_some, List.singleton_append, List.findSome?_cons, Option.map_some,
      Option.bind_some, Block.find?, Declarations.find?_eq, Block.vars]
    cases b.decls.entities.find? (·.name = name) <;> rfl

/-- A name denotes the declaration in the nearest scope around the place that has one. -/
theorem Tree.lookup?_eq_some_iff {t : Tree ι} {place : Place} {name : String} {e : Entity ι} :
    t.lookup? place name = some e ↔
      ∃ scope, scope <+: place ∧ t.findAt? scope name = some e ∧
        ∀ q, q <+: place → (t.findAt? q name).isSome → q <+: scope := by
  induction place using List.reverseRecOn with
  | nil =>
    rw [Tree.lookup?_nil]
    constructor
    · intro h
      exact ⟨[], List.prefix_rfl, h, fun q hq _ => hq⟩
    · rintro ⟨scope, hscope, h, -⟩
      rwa [List.prefix_nil.mp hscope] at h
  | append_singleton place i ih =>
    rw [Tree.lookup?_concat]
    cases hhere : t.findAt? (place ++ [i]) name with
    | some d =>
      rw [Option.some_or, Option.some.injEq]
      constructor
      · rintro rfl
        exact ⟨_, List.prefix_rfl, hhere, fun q hq _ => hq⟩
      · rintro ⟨scope, hscope, h, hnearest⟩
        have hinner := hnearest _ List.prefix_rfl (by rw [hhere]; rfl)
        rw [hscope.eq_of_length_le hinner.length_le, hhere] at h
        exact Option.some.inj h
    | none =>
      rw [Option.none_or, ih]
      constructor
      · rintro ⟨scope, hscope, h, hnearest⟩
        refine ⟨scope, hscope.trans (List.prefix_append _ _), h, fun q hq hsome => ?_⟩
        rcases List.prefix_concat_iff.mp hq with rfl | hq
        · simp [hhere] at hsome
        · exact hnearest q hq hsome
      · rintro ⟨scope, hscope, h, hnearest⟩
        rcases List.prefix_concat_iff.mp hscope with rfl | hscope
        · simp [hhere] at h
        · exact ⟨scope, hscope, h, fun q hq => hnearest q (hq.trans (List.prefix_append _ _))⟩

theorem Tree.lookup?_eq_none_iff {t : Tree ι} {place : Place} {name : String} :
    t.lookup? place name = none ↔ ∀ q, q <+: place → t.findAt? q name = none := by
  induction place using List.reverseRecOn with
  | nil => simp [Tree.lookup?_nil]
  | append_singleton place i ih =>
    simp only [Tree.lookup?_concat, Option.or_eq_none_iff, ih, List.prefix_concat_iff]
    constructor
    · rintro ⟨hhere, houter⟩ q (rfl | hq)
      · exact hhere
      · exact houter q hq
    · intro h
      exact ⟨h _ (.inl rfl), fun q hq => h q (.inr hq)⟩

/-! ## Depth-first order -/

mutual

/-- The variables of a block at `place` and of the blocks in it, each with its place:
its own first, then those of each nested block in turn. -/
def Block.entries (place : Place) : Block ι → List (Place × Entity ι)
  | ⟨decls, blocks⟩ => decls.entities.map (place, ·) ++ Block.entriesOfList place 0 blocks

/-- The variables of the blocks at `place`, the first of them at position `i`. -/
def Block.entriesOfList (place : Place) (i : Nat) : List (Block ι) → List (Place × Entity ι)
  | [] => []
  | b :: rest => b.entries (place ++ [i]) ++ Block.entriesOfList place (i + 1) rest

end

/-- The declarations of a tree with their places, depth first. -/
def Tree.entries (t : Tree ι) : List (Place × Entity ι) :=
  t.root.entries []

mutual

/-- The places in a block lie under its own place. -/
theorem Block.isPrefix_of_mem_entries {place : Place} {x : Place × Entity ι} :
    ∀ b : Block ι, x ∈ b.entries place → place <+: x.1
  | ⟨decls, blocks⟩, hx => by
    rw [Block.entries, List.mem_append] at hx
    rcases hx with hx | hx
    · obtain ⟨v, -, rfl⟩ := List.mem_map.mp hx
      exact List.prefix_rfl
    · obtain ⟨k, -, hk⟩ := Block.isPrefix_of_mem_entriesOfList blocks hx
      exact (List.prefix_append place [k]).trans hk

theorem Block.isPrefix_of_mem_entriesOfList {place : Place} {i : Nat} {x : Place × Entity ι} :
    ∀ bs : List (Block ι), x ∈ Block.entriesOfList place i bs →
      ∃ k, i ≤ k ∧ place ++ [k] <+: x.1
  | [], hx => by simp [Block.entriesOfList] at hx
  | b :: rest, hx => by
    rw [Block.entriesOfList, List.mem_append] at hx
    rcases hx with hx | hx
    · exact ⟨i, Nat.le_refl i, Block.isPrefix_of_mem_entries b hx⟩
    · obtain ⟨k, hik, hk⟩ := Block.isPrefix_of_mem_entriesOfList rest hx
      exact ⟨k, by omega, hk⟩

end

/-- Two ways down from one place part at the first step. -/
theorem eq_of_isPrefix_concat {place q : Place} {i k : Nat} (hi : place ++ [i] <+: q)
    (hk : place ++ [k] <+: q) : i = k := by
  have hsame := (List.prefix_of_prefix_length_le hi hk (by simp)).eq_of_length (by simp)
  simpa using hsame

mutual

/-- The entries with a given place are what the block there declares. -/
theorem Block.filter_entries (place : Place) : ∀ (path : List Nat) (b : Block ι),
    (b.entries place).filter (·.1 = place ++ path) =
      ((b.vars? path).getD []).map (place ++ path, ·)
  | [], ⟨decls, blocks⟩ => by
    have hinner : (Block.entriesOfList place 0 blocks).filter (·.1 = place ++ []) = [] := by
      rw [List.filter_eq_nil_iff]
      intro x hx heq
      obtain ⟨k, -, hk⟩ := Block.isPrefix_of_mem_entriesOfList blocks hx
      simp only [List.append_nil, decide_eq_true_eq] at heq
      have hlen := hk.length_le
      rw [heq, List.length_append, List.length_singleton] at hlen
      omega
    rw [Block.entries, List.filter_append, hinner, List.append_nil, Block.vars?_nil,
      List.filter_eq_self.mpr (by simp)]
    simp [Block.vars]
  | k :: path, ⟨decls, blocks⟩ => by
    have hown : (decls.entities.map (place, ·)).filter (·.1 = place ++ k :: path) = [] := by
      simp [List.filter_eq_nil_iff]
    have hblocks := Block.filter_entriesOfList place 0 k path blocks
    rw [Nat.zero_add] at hblocks
    rw [Block.entries, List.filter_append, hown, List.nil_append, hblocks, Block.vars?_cons]

theorem Block.filter_entriesOfList (place : Place) (i : Nat) :
    ∀ (k : Nat) (path : List Nat) (bs : List (Block ι)),
      (Block.entriesOfList place i bs).filter (·.1 = place ++ (i + k) :: path) =
        ((bs[k]?.bind (·.vars? path)).getD []).map (place ++ (i + k) :: path, ·)
  | k, path, [] => by simp [Block.entriesOfList]
  | 0, path, b :: rest => by
    have hrest : (Block.entriesOfList place (i + 1) rest).filter
        (·.1 = place ++ (i + 0) :: path) = [] := by
      rw [List.filter_eq_nil_iff]
      intro x hx heq
      obtain ⟨k, hik, hk⟩ := Block.isPrefix_of_mem_entriesOfList rest hx
      have hi : place ++ [i] <+: x.1 := by simp_all
      have := eq_of_isPrefix_concat hi hk
      omega
    have hb := Block.filter_entries (place ++ [i]) path b
    rw [List.append_assoc, List.singleton_append] at hb
    rw [Block.entriesOfList, List.filter_append, hrest, List.append_nil, Nat.add_zero, hb]
    simp
  | k + 1, path, b :: rest => by
    have hb : (b.entries (place ++ [i])).filter (·.1 = place ++ (i + (k + 1)) :: path) = [] := by
      rw [List.filter_eq_nil_iff]
      intro x hx heq
      have hi := Block.isPrefix_of_mem_entries b hx
      have hk : place ++ [i + (k + 1)] <+: x.1 := by simp_all
      have := eq_of_isPrefix_concat hi hk
      omega
    have hrest := Block.filter_entriesOfList place (i + 1) k path rest
    rw [show i + 1 + k = i + (k + 1) by omega] at hrest
    rw [Block.entriesOfList, List.filter_append, hb, List.nil_append, hrest,
      List.getElem?_cons_succ]

end

theorem Tree.filter_entries (t : Tree ι) (place : Place) :
    t.entries.filter (·.1 = place) = ((t.vars? place).getD []).map (place, ·) :=
  Block.filter_entries [] place t.root

theorem Tree.mem_entries_iff {t : Tree ι} {place : Place} {e : Entity ι} :
    (place, e) ∈ t.entries ↔ e ∈ (t.vars? place).getD [] := by
  have h := congrArg ((place, e) ∈ ·) (t.filter_entries place)
  simpa using h

/-- A place comes before the places under it. -/
theorem le_of_isPrefix {p q : Place} (h : p <+: q) : p ≤ q :=
  not_lt.mp (List.IsPrefix.le h)

mutual

/-- Depth-first order is the lexicographic order of the places. -/
theorem Block.pairwise_entries (place : Place) :
    ∀ b : Block ι, (b.entries place).Pairwise fun x y => x.1 ≤ y.1
  | ⟨decls, blocks⟩ => by
    rw [Block.entries, List.pairwise_append, List.pairwise_map]
    refine ⟨List.pairwise_of_forall fun _ _ => le_rfl,
      Block.pairwise_entriesOfList place 0 blocks, ?_⟩
    intro x hx y hy
    obtain ⟨v, -, rfl⟩ := List.mem_map.mp hx
    obtain ⟨k, -, hk⟩ := Block.isPrefix_of_mem_entriesOfList blocks hy
    exact le_of_isPrefix ((List.prefix_append place [k]).trans hk)

theorem Block.pairwise_entriesOfList (place : Place) (i : Nat) :
    ∀ bs : List (Block ι), (Block.entriesOfList place i bs).Pairwise fun x y => x.1 ≤ y.1
  | [] => .nil
  | b :: rest => by
    rw [Block.entriesOfList, List.pairwise_append]
    refine ⟨Block.pairwise_entries (place ++ [i]) b,
      Block.pairwise_entriesOfList place (i + 1) rest, ?_⟩
    intro x hx y hy
    obtain ⟨r, hr⟩ := Block.isPrefix_of_mem_entries b hx
    obtain ⟨k, hik, r', hr'⟩ := Block.isPrefix_of_mem_entriesOfList rest hy
    rw [← hr, ← hr', List.append_assoc, List.append_assoc]
    exact le_of_lt (List.append_left_lt (List.cons_lt_cons_iff.mpr (.inl hik)))

end

theorem Tree.pairwise_entries (t : Tree ι) : t.entries.Pairwise fun x y => x.1 ≤ y.1 :=
  Block.pairwise_entries [] t.root

/-! ## Denotation -/

/-- Among the declarations `ds` the name denotes `e` at the place: `e` is declared under it
in a scope around the place, and each other such scope is around that one. -/
def Denotes (ds : List (Place × Entity ι)) (place : Place) (name : String) (e : Entity ι) :
    Prop :=
  ∃ scope, scope <+: place ∧ (scope, e) ∈ ds ∧ e.name = name ∧
    ∀ d ∈ ds, d.1 <+: place → d.2.name = name → d.1 <+: scope

theorem Tree.mem_entries_of_findAt? {t : Tree ι} {place : Place} {name : String} {e : Entity ι}
    (h : t.findAt? place name = some e) : (place, e) ∈ t.entries ∧ e.name = name := by
  obtain ⟨vars, hvars, hfind⟩ := Option.bind_eq_some_iff.mp h
  rw [Tree.mem_entries_iff, hvars]
  exact ⟨List.mem_of_find?_eq_some hfind, by simpa using List.find?_some hfind⟩

theorem Tree.isSome_findAt?_iff {t : Tree ι} {place : Place} {name : String} :
    (t.findAt? place name).isSome ↔ ∃ e, (place, e) ∈ t.entries ∧ e.name = name := by
  simp only [Tree.mem_entries_iff, Tree.findAt?]
  cases t.vars? place <;> simp

theorem Tree.denotes_of_lookup? {t : Tree ι} {place : Place} {name : String} {e : Entity ι}
    (h : t.lookup? place name = some e) : Denotes t.entries place name e := by
  obtain ⟨scope, hscope, hfind, hnearest⟩ := Tree.lookup?_eq_some_iff.mp h
  obtain ⟨hmem, hname⟩ := Tree.mem_entries_of_findAt? hfind
  refine ⟨scope, hscope, hmem, hname, ?_⟩
  rintro ⟨q, d⟩ hd hq hdname
  exact hnearest q hq (Tree.isSome_findAt?_iff.mpr ⟨d, hd, hdname⟩)

/-- Where no scope declares a name twice, lookup is denotation. -/
theorem Tree.lookup?_eq_some_iff_denotes {t : Tree ι}
    (hdistinct : ∀ q, (((t.vars? q).getD []).map (·.name)).Nodup) {place : Place} {name : String}
    {e : Entity ι} : t.lookup? place name = some e ↔ Denotes t.entries place name e := by
  refine ⟨Tree.denotes_of_lookup?, ?_⟩
  rintro ⟨scope, hscope, hmem, hname, hnearest⟩
  rw [Tree.lookup?_eq_some_iff]
  refine ⟨scope, hscope, ?_, fun q hq hsome => ?_⟩
  · obtain ⟨d, hd⟩ :=
      Option.isSome_iff_exists.mp (Tree.isSome_findAt?_iff.mpr ⟨e, hmem, hname⟩)
    obtain ⟨hdmem, hdname⟩ := Tree.mem_entries_of_findAt? hd
    rw [Tree.mem_entries_iff] at hmem hdmem
    rw [hd, List.inj_on_of_nodup_map (hdistinct scope) hdmem hmem (hdname.trans hname.symm)]
  · obtain ⟨d, hd, hdname⟩ := Tree.isSome_findAt?_iff.mp hsome
    exact hnearest (q, d) hd hq hdname

theorem Tree.lookup?_eq_none_iff_forall {t : Tree ι} {place : Place} {name : String} :
    t.lookup? place name = none ↔ ∀ d ∈ t.entries, d.1 <+: place → d.2.name ≠ name := by
  rw [Tree.lookup?_eq_none_iff]
  constructor
  · rintro hnone ⟨q, d⟩ hd hq hname
    have hsome := Tree.isSome_findAt?_iff.mpr ⟨d, hd, hname⟩
    simp [hnone q hq] at hsome
  · intro hnone q hq
    rw [← Option.not_isSome_iff_eq_none, Tree.isSome_findAt?_iff]
    rintro ⟨d, hd, hname⟩
    exact hnone (q, d) hd hq hname

/-! ## Classes -/

mutual

theorem Block.statics_eq_entries (place : Place) : ∀ b : Block ι,
    b.statics = ((b.entries place).filter (·.2.isStaticLocal)).map (·.2)
  | ⟨decls, blocks⟩ => by
    rw [Block.statics, Block.entries, List.filter_append, List.map_append,
      Block.statics_eq_entriesOfList place 0 blocks, List.filter_map, List.map_map]
    simp [Function.comp_def]

theorem Block.statics_eq_entriesOfList (place : Place) (i : Nat) : ∀ bs : List (Block ι),
    Block.staticsOfList bs =
      ((Block.entriesOfList place i bs).filter (·.2.isStaticLocal)).map (·.2)
  | [] => rfl
  | b :: rest => by
    rw [Block.staticsOfList, Block.entriesOfList, List.filter_append, List.map_append,
      Block.statics_eq_entries (place ++ [i]) b, Block.statics_eq_entriesOfList place (i + 1) rest]

end

theorem Tree.statics_eq_staticsOfList (t : Tree ι) :
    t.statics = Block.staticsOfList (t.bodies.map (·.block)) := by
  rw [Tree.statics, Body.statics]
  induction t.bodies with
  | nil => rfl
  | cons body bodies ih =>
    rw [List.flatMap_cons, ih, List.map_cons, Block.staticsOfList]

/-- Whether a declaration at a place is that of a static local. -/
def isStaticAt (d : Place × Entity ι) : Bool :=
  d.1 ≠ [] ∧ d.2.isStaticLocal

/-- Whether a declaration at a place is that of a variable of static duration. -/
def isAllocatedAt (d : Place × Entity ι) : Bool :=
  (d.1 = [] ∧ d.2.kind = .definedVariable) ∨ isStaticAt d

theorem Tree.entries_eq (t : Tree ι) :
    t.entries = t.entities.map ([], ·) ++ Block.entriesOfList [] 0 (t.bodies.map (·.block)) := by
  rw [Tree.entries, Tree.root, Block.entries, Tree.entities]

/-- The declarations in function bodies are not at top level. -/
theorem ne_nil_of_mem_entriesOfList {i : Nat} {x : Place × Entity ι} {bs : List (Block ι)}
    (hx : x ∈ Block.entriesOfList [] i bs) : x.1 ≠ [] := by
  obtain ⟨k, -, hk⟩ := Block.isPrefix_of_mem_entriesOfList bs hx
  rintro h
  simp [h] at hk

theorem Tree.statics_eq (t : Tree ι) : t.statics = (t.entries.filter isStaticAt).map (·.2) := by
  have htop : (t.entities.map (([] : Place), ·)).filter isStaticAt = [] := by
    simp [List.filter_eq_nil_iff, isStaticAt]
  rw [t.statics_eq_staticsOfList, Block.statics_eq_entriesOfList [] 0, t.entries_eq,
    List.filter_append, htop, List.nil_append]
  congr 1
  apply List.filter_congr
  intro x hx
  simp [isStaticAt, ne_nil_of_mem_entriesOfList hx]

theorem Tree.initialized_eq (t : Tree ι) :
    t.classes.initialized = t.classes.all.filter (·.init.isSome) := by
  rw [t.classes_eq]
  rfl

theorem Tree.common_eq (t : Tree ι) :
    t.classes.common = t.classes.all.filter (·.init.isNone) := by
  rw [t.classes_eq]
  rfl

/-- The variables of static duration, in depth-first order. -/
theorem Tree.all_eq (t : Tree ι) :
    t.classes.all = (t.entries.filter isAllocatedAt).map (·.2) := by
  have htop : (t.entities.map (([] : Place), ·)).filter isAllocatedAt =
      (t.entities.filter (·.kind = .definedVariable)).map ([], ·) := by
    rw [List.filter_map]
    congr 1
    apply List.filter_congr
    intro e _
    simp [isAllocatedAt, isStaticAt]
  have hlocal : (Block.entriesOfList [] 0 (t.bodies.map (·.block))).filter isAllocatedAt =
      (Block.entriesOfList [] 0 (t.bodies.map (·.block))).filter (·.2.isStaticLocal) := by
    apply List.filter_congr
    intro x hx
    simp [isAllocatedAt, isStaticAt, ne_nil_of_mem_entriesOfList hx]
  have hstatics : t.statics.filter (·.kind = .definedVariable) = t.statics := by
    rw [List.filter_eq_self]
    intro e he
    rw [t.statics_eq] at he
    obtain ⟨d, hd, rfl⟩ := List.mem_map.mp he
    have hstatic := (List.mem_filter.mp hd).2
    simp only [isStaticAt, Entity.isStaticLocal, Bool.and_eq_true, decide_eq_true_eq] at hstatic
    simpa using hstatic.2.1
  calc t.classes.all
      = t.entities.filter (·.kind = .definedVariable) ++ t.statics := by
        rw [← hstatics, ← List.filter_append, t.classes_eq, Classes.of]
    _ = (t.entries.filter isAllocatedAt).map (·.2) := by
        rw [t.statics_eq_staticsOfList, Block.statics_eq_entriesOfList [] 0, t.entries_eq,
          List.filter_append, htop, hlocal, List.map_append, List.map_map]
        simp [Function.comp_def]

end Cflat.Scope
