import Cflat.Document.Basic
import Cflat.Ty.Spelling

/-!
# Well-formed documents

The rules that a unit document has to keep, stated on the document alone.  There
are four groups.

* The parts: an initial value, a top-level item, a local variable, and a block
  with respect to its own variables.
* Nesting.  `Block.HasBlock` leads from a block to the blocks inside it, at any
  depth, together with the blocks around them.
* Names.  `lookup?` finds what a name denotes in the middle of a document: the
  variable of the nearest block around that has it, else the top-level item.
* The document: `WellFormed` puts the parts together and adds the rules that need
  more than one part, distinct names and addresses that exist.

Nothing here follows the order in which a loader would look at a document.
-/

namespace Cflat.Document

/-! ## The parts -/

/-- Exactly one of the integer, the string and the symbol is there. -/
def Init.WellFormed (i : Init) : Prop :=
  [i.int.isSome, i.string.isSome, i.symbol ≠ ""].count true = 1

/-- The rules for an item, its body apart. -/
structure Item.WellFormed (types : Table) (i : Item) : Prop where
  named : i.name ≠ ""
  typed : ∃ ty, types.parse i.type = .ok ty ∧
    (ty = .void → i.kind = "func" ∨ i.kind = "extern-func")
  kind : i.kind ∈ ["var", "extern", "func", "extern-func", "const"]
  init : ∀ x, i.init = some x → x.WellFormed ∧ (i.kind = "var" ∨ i.kind = "const")
  constant : i.kind = "const" → i.init.isSome
  body : i.body.isSome → i.kind = "func"

/-- The rules for a variable of a block. -/
structure LocalVar.WellFormed (types : Table) (v : LocalVar) : Prop where
  typed : ∃ ty, types.parse v.type = .ok ty ∧ ty ≠ .void
  init : ∀ x, v.init = some x → x.WellFormed
  storage : v.storage ∈ ["", "auto", "static"]

/-- The rules for the variables of a block itself. -/
structure Block.WellFormed (types : Table) (b : Block) : Prop where
  vars : ∀ v ∈ b.vars, v.WellFormed types
  distinct : (b.vars.map (·.name)).Nodup

/-! ## Nesting -/

/-- `b.HasBlock c outer`: the block `c` is `b` or lies in it, and `outer` are the
blocks around `c`, from the nearest one out to `b`. -/
inductive Block.HasBlock (b : Block) : Block → List Block → Prop
  | self : b.HasBlock b []
  | nested {c d : Block} {outer : List Block} :
    b.HasBlock c outer → d ∈ c.blocks → b.HasBlock d (c :: outer)

theorem Block.HasBlock.under {b c d : Block} {outer : List Block}
    (h : c.HasBlock d outer) (hc : c ∈ b.blocks) : b.HasBlock d (outer ++ [b]) := by
  induction h with
  | self => exact .nested .self hc
  | nested _ hd ih => exact .nested ih hd

/-- The blocks in a block, seen from outside: the block itself, and the blocks in
each block of its list, with one more block around them. -/
theorem Block.hasBlock_iff {b d : Block} {outer : List Block} :
    b.HasBlock d outer ↔
      d = b ∧ outer = [] ∨
        ∃ c ∈ b.blocks, ∃ inner, c.HasBlock d inner ∧ outer = inner ++ [b] := by
  constructor
  · intro h
    induction h with
    | self => exact .inl ⟨rfl, rfl⟩
    | @nested c d outer _ hd ih =>
      rcases ih with ⟨rfl, rfl⟩ | ⟨e, he, inner, hc, rfl⟩
      · exact .inr ⟨d, hd, [], .self, rfl⟩
      · exact .inr ⟨e, he, c :: inner, .nested hc hd, rfl⟩
  · rintro (⟨rfl, rfl⟩ | ⟨c, hc, inner, hd, rfl⟩)
    · exact .self
    · exact hd.under hc

theorem Block.forall_hasBlock {b : Block} {P : Block → List Block → Prop} :
    (∀ d outer, b.HasBlock d outer → P d outer) ↔
      P b [] ∧ ∀ c ∈ b.blocks, ∀ d inner, c.HasBlock d inner → P d (inner ++ [b]) := by
  constructor
  · intro h
    exact ⟨h b [] .self, fun c hc d inner hd => h d _ (hd.under hc)⟩
  · rintro ⟨hb, hin⟩ d outer h
    rcases Block.hasBlock_iff.mp h with ⟨rfl, rfl⟩ | ⟨c, hc, inner, hd, rfl⟩
    · exact hb
    · exact hin c hc d inner hd

end Cflat.Document

namespace Cflat

/-- The block `b` stands in a body of the document, and `outer` are the blocks
around it, the nearest first. -/
def Document.HasBlock (doc : Document) (b : Document.Block) (outer : List Document.Block) : Prop :=
  ∃ i ∈ doc.items, ∃ body, i.body = some body ∧ body.HasBlock b outer

/-! ## Names -/

namespace Document

/-- What a name can denote. -/
inductive Declaration
  | item (i : Item)
  | localVar (v : LocalVar)

/-- Automatic variables and constants have no address. -/
def Declaration.HasAddress : Declaration → Prop
  | item i => i.kind ≠ "const"
  | localVar v => v.storage = "static"

/-- The variable that a name denotes in the nearest block that declares it. -/
def lookupLocal? (scopes : List Block) (name : String) : Option LocalVar :=
  scopes.findSome? fun b => b.vars.find? (·.name = name)

/-- What a name denotes inside the blocks `scopes`, the nearest first. -/
def lookup? (doc : Document) (scopes : List Block) (name : String) : Option Declaration :=
  ((lookupLocal? scopes name).map .localVar).or ((doc.items.find? (·.name = name)).map .item)

/-- The name whose address an initial value takes, if it takes one, denotes
something that has an address. -/
def Addressable (doc : Document) (scopes : List Block) (init : Option Init) : Prop :=
  ∀ x, init = some x → x.symbol ≠ "" → ∃ d, doc.lookup? scopes x.symbol = some d ∧ d.HasAddress

/-! ## The document -/

/-- The rules for a document. -/
structure WellFormed (types : Table) (doc : Document) : Prop where
  items : ∀ i ∈ doc.items, i.WellFormed types
  distinct : (doc.items.map (·.name)).Nodup
  blocks : ∀ b outer, doc.HasBlock b outer → b.WellFormed types
  addresses : ∀ i ∈ doc.items, doc.Addressable [] i.init
  /-- Addresses in automatic variables are left to the code of the function. -/
  localAddresses : ∀ b outer, doc.HasBlock b outer → ∀ v ∈ b.vars, v.storage = "static" →
    doc.Addressable (b :: outer) v.init

end Document

end Cflat
