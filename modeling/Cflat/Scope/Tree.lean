import Cflat.Scope.Classes
import Cflat.Scope.Declarations

/-!
# The scope tree

The root of the tree holds the top-level entities in declaration order and one
body for each function that was opened.  A body is a block; a block holds its own
variables and the blocks nested in it.

A scope is addressed by its `Place`: the empty place is the top level, and
`b :: path` leads into body `b` and then from block to nested block.  Scopes are
only ever added at the end, so a place keeps its meaning.

The first call that asks for classes makes the tree keep them, with the numbers of the
static locals.  Every later one gets what was kept.  Numbers are part of symbol names,
`count.0` and `count.1`, so from then on the tree is frozen: a new declaration could
change them.
-/

namespace Cflat.Scope

/-- A block of a function: its own variables and the blocks in it. -/
structure Block (ι : Type) where
  decls : Declarations ι := {}
  blocks : List (Block ι) := []
  deriving Repr

/-- The outermost block of a function, with the function it belongs to. -/
structure Body (ι : Type) where
  function : ι
  block : Block ι := {}
  deriving Repr

/-- Where a scope stands in a tree. -/
abbrev Place := List Nat

/-- The scope around a block; the outermost block of a function has none but the top level. -/
def Place.outer? (place : Place) : Option Place :=
  if place.length ≤ 1 then none else some place.dropLast

variable {ι : Type}

namespace Block

/-- The variables that a block declares itself. -/
def vars (b : Block ι) : List (Entity ι) :=
  b.decls.entities

/-- The variable with a name that a block declares itself. -/
def find? (b : Block ι) (name : String) : Option (Entity ι) :=
  b.decls.find? name

/-- The block at the end of a path. -/
def at? : List Nat → Block ι → Option (Block ι)
  | [], b => some b
  | i :: path, b => b.blocks[i]?.bind (at? path)

/-- The blocks that a path goes through, outermost first. -/
def along : List Nat → Block ι → List (Block ι)
  | [], b => [b]
  | i :: path, b =>
    match b.blocks[i]? with
    | none => [b]
    | some c => b :: along path c

/-- Change the block at the end of a path, if there is one. -/
def modifyAt (f : Block ι → Block ι) : List Nat → Block ι → Block ι
  | [], b => f b
  | i :: path, b => { b with blocks := b.blocks.modify i (modifyAt f path) }

/-- Add a variable at the end. -/
def addVar (b : Block ι) (e : Entity ι) : Block ι :=
  { b with decls := b.decls.add e }

/-- Add an empty block at the end. -/
def addBlock (b : Block ι) : Block ι :=
  { b with blocks := b.blocks ++ [{}] }

mutual

/-- The static locals of a block and of the blocks in it: its own first, then
those of each nested block in turn. -/
def statics : Block ι → List (Entity ι)
  | ⟨decls, blocks⟩ => decls.entities.filter (·.isStaticLocal) ++ staticsOfList blocks

/-- The static locals of several blocks in turn. -/
def staticsOfList : List (Block ι) → List (Entity ι)
  | [] => []
  | b :: rest => b.statics ++ staticsOfList rest

end

end Block

/-- The static locals of all bodies in order. -/
def Body.statics (bodies : List (Body ι)) : List (Entity ι) :=
  bodies.flatMap (·.block.statics)

/-- A tree of scopes with what is known of their entities. -/
structure Tree (ι : Type) where
  decls : Declarations ι := {}
  bodies : List (Body ι) := []
  /-- The entities whose address was taken. -/
  referred : List ι := []
  /-- The classes and numbers, once they were asked for. -/
  classified : Option (Classified decls.entities (Body.statics bodies)) := none

namespace Tree

/-- The top-level entities in the order of their declarations. -/
def entities (t : Tree ι) : List (Entity ι) :=
  t.decls.entities

/-- The static locals in tree order. -/
def statics (t : Tree ι) : List (Entity ι) :=
  Body.statics t.bodies

/-- Whether the tree was classified. -/
def frozen (t : Tree ι) : Bool :=
  t.classified.isSome

/-- The top-level entity with a name. -/
def find? (t : Tree ι) (name : String) : Option (Entity ι) :=
  t.decls.find? name

/-- The functions, defined or not, in the order of their declarations. -/
def functions (t : Tree ι) : List (Entity ι) :=
  t.entities.filter (·.isFunction)

/-- The block at a place, if the place is not the top level. -/
def block? (t : Tree ι) : Place → Option (Block ι)
  | [] => none
  | b :: path => t.bodies[b]?.bind fun body => body.block.at? path

/-- The blocks around a place, innermost first. -/
def enclosing (t : Tree ι) : Place → List (Block ι)
  | [] => []
  | b :: path =>
    match t.bodies[b]? with
    | none => []
    | some body => (body.block.along path).reverse

/-- The declaration that a name denotes at a place: the one of the nearest
enclosing block that has one, else the one at top level. -/
def lookup? (t : Tree ι) (place : Place) (name : String) : Option (Entity ι) :=
  ((t.enclosing place).findSome? (·.find? name)).or (t.find? name)

/-- Mark an entity as one whose address was taken. -/
def refer (t : Tree ι) (id : ι) : Tree ι :=
  { t with referred := t.referred ++ [id] }

/-- The classes, and the tree that keeps them. -/
def classify (t : Tree ι) : Classes ι × Tree ι :=
  match t.classified with
  | some c => (c.classes, t)
  | none =>
    let c := Classified.of t.decls.entities (Body.statics t.bodies)
    (c.classes, { t with classified := some c })

/-- The classes of a tree. -/
def classes (t : Tree ι) : Classes ι :=
  t.classify.1

/-- The tree after it was classified. -/
def freeze (t : Tree ι) : Tree ι :=
  t.classify.2

variable [DecidableEq ι]

/-- Whether the address of an entity was taken. -/
def isReferred (t : Tree ι) (id : ι) : Bool :=
  id ∈ t.referred

/-- The body of a function: the one that was opened last. -/
def body? (t : Tree ι) (function : ι) : Option (Body ι) :=
  t.bodies.reverse.find? (·.function = function)

/-- The number that was given to a static local.  One that was declared in several places
has the number of the last. -/
def ordinal? (t : Tree ι) (id : ι) : Option Nat :=
  t.classified.bind fun c => c.ordinals.reverse.lookup id

/-- The assembler symbol of what a name was found to denote. -/
def referenceSymbol (t : Tree ι) (r : Reference ι) : String :=
  match t.ordinal? r.id with
  | none => r.name
  | some k => s!"{r.name}.{k}"

/-- The assembler symbol of an entity. -/
def symbol (t : Tree ι) (e : Entity ι) : String :=
  t.referenceSymbol e.reference

/-- The assembler symbol that an initial value points at. -/
def label (t : Tree ι) (init : Initializer ι) : String :=
  match init.target with
  | some r => t.referenceSymbol r
  | none =>
    match init.value with
    | .address symbol _ => symbol
    | _ => ""

end Tree

/-! ## What classifying does -/

namespace Tree

/-- Trees are the same if they hold the same and both or neither are frozen. -/
theorem ext {t t' : Tree ι} (hdecls : t.entities = t'.entities) (hbodies : t.bodies = t'.bodies)
    (hreferred : t.referred = t'.referred) (hfrozen : t.frozen = t'.frozen) : t = t' := by
  obtain ⟨decls, bodies, referred, classified⟩ := t
  obtain ⟨decls', bodies', referred', classified'⟩ := t'
  obtain rfl : decls = decls' := Declarations.ext hdecls
  obtain rfl : bodies = bodies' := hbodies
  obtain rfl : referred = referred' := hreferred
  have hclassified : classified = classified' := by
    cases classified with
    | none =>
      cases classified' with
      | none => rfl
      | some c' => cases hfrozen
    | some c =>
      cases classified' with
      | none => cases hfrozen
      | some c' => rw [Subsingleton.elim c c']
  rw [hclassified]

/-- The classes are those of what the tree holds, whether they were kept or not. -/
theorem classes_eq (t : Tree ι) : t.classes = .of t.entities t.statics := by
  unfold classes classify
  split
  · next c _ => exact c.classes_eq
  · rfl

theorem all_classes (t : Tree ι) :
    t.classes.all = (t.entities ++ t.statics).filter (·.kind = .definedVariable) := by
  rw [classes_eq, Classes.of]

theorem initialized_classes (t : Tree ι) :
    t.classes.initialized = t.classes.all.filter (·.init.isSome) := by
  rw [classes_eq, Classes.of]

theorem common_classes (t : Tree ι) :
    t.classes.common = t.classes.all.filter (·.init.isNone) := by
  rw [classes_eq, Classes.of]

theorem mem_initialized_iff {t : Tree ι} {e : Entity ι} :
    e ∈ t.classes.initialized ↔ e ∈ t.classes.all ∧ e.init.isSome := by
  rw [initialized_classes, List.mem_filter]

theorem mem_common_iff {t : Tree ι} {e : Entity ι} :
    e ∈ t.classes.common ↔ e ∈ t.classes.all ∧ e.init = none := by
  rw [common_classes, List.mem_filter, Option.isNone_iff_eq_none]

theorem externals_classes (t : Tree ι) :
    t.classes.externals = t.entities.filter (·.kind = .externVariable) := by
  rw [classes_eq, Classes.of]

@[simp]
theorem entities_freeze (t : Tree ι) : t.freeze.entities = t.entities := by
  unfold freeze classify
  split <;> rfl

@[simp]
theorem decls_freeze (t : Tree ι) : t.freeze.decls = t.decls :=
  Declarations.ext t.entities_freeze

@[simp]
theorem bodies_freeze (t : Tree ι) : t.freeze.bodies = t.bodies := by
  unfold freeze classify
  split <;> rfl

@[simp]
theorem referred_freeze (t : Tree ι) : t.freeze.referred = t.referred := by
  unfold freeze classify
  split <;> rfl

@[simp]
theorem frozen_freeze (t : Tree ι) : t.freeze.frozen = true := by
  unfold freeze classify frozen
  split
  · next h => simp [h]
  · rfl

@[simp]
theorem statics_freeze (t : Tree ι) : t.freeze.statics = t.statics := by
  rw [statics, bodies_freeze, statics]

@[simp]
theorem classes_freeze (t : Tree ι) : t.freeze.classes = t.classes := by
  rw [classes_eq, entities_freeze, statics_freeze, classes_eq]

@[simp]
theorem lookup?_freeze (t : Tree ι) (place : Place) (name : String) :
    t.freeze.lookup? place name = t.lookup? place name := by
  cases place <;> simp only [lookup?, enclosing, find?, decls_freeze, bodies_freeze]

/-- A tree that was classified stays as it is. -/
theorem freeze_of_frozen {t : Tree ι} (h : t.frozen = true) : t.freeze = t :=
  ext t.entities_freeze t.bodies_freeze t.referred_freeze (t.frozen_freeze.trans h.symm)

@[simp]
theorem freeze_freeze (t : Tree ι) : t.freeze.freeze = t.freeze :=
  freeze_of_frozen t.frozen_freeze

/-- Numbers exist once the tree is frozen. -/
theorem ordinal?_eq [DecidableEq ι] (t : Tree ι) (id : ι) :
    t.ordinal? id =
      if t.frozen then (numberFrom [] t.statics).reverse.lookup id else none := by
  unfold ordinal? frozen statics
  cases t.classified with
  | none => rfl
  | some c => rw [Option.bind_some, c.ordinals_eq, Option.isSome_some, if_pos rfl]

end Tree

end Cflat.Scope
