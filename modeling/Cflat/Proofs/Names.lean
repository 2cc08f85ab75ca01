import Cflat.Proofs.Addresses

/-!
# Names of declared things

A top-level item must have a name, but nothing asks for the name of a local variable.  A static
local without one gets a symbol that is a dot and its number.

* Names in the tree.  `exists_mem_entries_iff`: the names declared below the top level are those
  of the local variables of the document.
* Numbers under a name.  `mem_numbered_iff`: the static locals of one name take the first
  numbers, as many as there are of them.
* `named_of_load`: everything in the tree has a name exactly if every local variable has one,
  and the symbols that are a number alone are counted by the static locals without a name.
-/

namespace Cflat

open Scope (Entity Place)

namespace Document

/-! ## Names in the tree -/

/-- What is declared below the top level has the names of local variables. -/
theorem WellFormed.exists_mem_entries_iff {types : Table} {doc : Document}
    (h : doc.WellFormed types) {name : String} :
    (∃ d ∈ (doc.frozenTree types).entries, d.1 ≠ [] ∧ d.2.name = name) ↔
      ∃ b outer, doc.HasBlock b outer ∧ ∃ v ∈ b.vars, v.name = name := by
  constructor
  · rintro ⟨⟨place, e⟩, he, hplace, hname⟩
    cases place with
    | nil => exact absurd rfl hplace
    | cons k path =>
      rw [Scope.Tree.mem_entries_iff] at he
      have hnames := map_name_vars? types doc k path
      cases hvars : (doc.frozenTree types).vars? (k :: path) with
      | none => simp [hvars] at he
      | some vars =>
        rw [hvars, Option.map_some, eq_comm, Option.map_eq_some_iff] at hnames
        obtain ⟨⟨b, outer⟩, hfound, hnames⟩ := hnames
        obtain ⟨item, hitem, htrail⟩ := Option.bind_eq_some_iff.mp hfound
        have hmem : name ∈ b.vars.map (·.name) := by
          rw [hnames, ← hname]
          exact List.mem_map_of_mem (by simpa [hvars] using he)
        rcases hasBlock_of_trail hitem htrail with hblock | hempty
        · exact ⟨b, outer, hblock, List.mem_map.mp hmem⟩
        · simp [hempty] at hmem
  · rintro ⟨b, outer, hblock, v, hv, hname⟩
    obtain ⟨k, path, item, hitem, htrail⟩ := hblock.exists_trail h.items
    have hnames := map_name_vars? types doc k path
    rw [hitem, Option.bind_some, htrail, Option.map_some, Option.map_eq_some_iff] at hnames
    obtain ⟨vars, hvars, hnames⟩ := hnames
    have hmem : name ∈ vars.map (·.name) := by
      rw [hnames, ← hname]
      exact List.mem_map_of_mem hv
    obtain ⟨e, he, hname⟩ := List.mem_map.mp hmem
    refine ⟨(k :: path, e), ?_, by simp, hname⟩
    rw [Scope.Tree.mem_entries_iff, hvars]
    exact he

theorem WellFormed.named_of_mem_entities {types : Table} {doc : Document}
    (h : doc.WellFormed types) {e : Entity Site} (he : e ∈ (doc.frozenTree types).entities) :
    e.name ≠ "" := by
  have hname : e.name ∈ doc.items.map (·.name) := by
    rw [← map_name_entities types]
    exact List.mem_map_of_mem he
  obtain ⟨i, hi, hname⟩ := List.mem_map.mp hname
  exact hname ▸ (h.items i hi).named

theorem WellFormed.forall_named_iff {types : Table} {doc : Document} (h : doc.WellFormed types) :
    (∀ d ∈ (doc.frozenTree types).entries, d.2.name ≠ "") ↔
      ∀ b outer, doc.HasBlock b outer → ∀ v ∈ b.vars, v.name ≠ "" := by
  constructor
  · intro hall b outer hblock v hv hname
    obtain ⟨d, hd, -, hempty⟩ := h.exists_mem_entries_iff.mpr ⟨b, outer, hblock, v, hv, hname⟩
    exact hall d hd hempty
  · rintro hall ⟨place, e⟩ hd hname
    cases place with
    | nil =>
      rw [Scope.Tree.mem_entries_iff, Scope.Tree.vars?_nil] at hd
      exact h.named_of_mem_entities hd hname
    | cons k path =>
      obtain ⟨b, outer, hblock, v, hv, hempty⟩ :=
        h.exists_mem_entries_iff.mp ⟨_, hd, by simp, hname⟩
      exact hall b outer hblock v hv hempty

/-! ## Numbers under a name -/

/-- The occurrences of a member are told apart by how many come before. -/
theorem exists_count_take_iff {α : Type} [DecidableEq α] {l : List α} {a : α} {k : Nat} :
    (∃ j, l[j]? = some a ∧ (l.take j).count a = k) ↔ k < l.count a := by
  induction l generalizing k with
  | nil => simp
  | cons b l ih =>
    rw [List.count_cons]
    constructor
    · rintro ⟨j, hj, hcount⟩
      cases j with
      | zero =>
        rw [List.getElem?_cons_zero, Option.some.injEq] at hj
        simp [hj, ← hcount]
      | succ j =>
        rw [List.getElem?_cons_succ] at hj
        rw [List.take_succ_cons, List.count_cons] at hcount
        have hbefore := ih.mp ⟨j, hj, rfl⟩
        omega
    · intro hk
      by_cases hb : b = a
      · subst hb
        cases k with
        | zero => exact ⟨0, by simp, by simp⟩
        | succ k =>
          simp only [beq_self_eq_true, if_true] at hk
          obtain ⟨j, hj, hcount⟩ := ih.mpr (show k < l.count b by omega)
          exact ⟨j + 1, by simpa using hj, by simpa using hcount⟩
      · simp only [beq_eq_false_iff_ne.mpr hb, Bool.false_eq_true, if_false, Nat.add_zero] at hk
        obtain ⟨j, hj, hcount⟩ := ih.mpr hk
        exact ⟨j + 1, by simpa using hj, by simpa [hb] using hcount⟩

/-- The static locals of one name take the first numbers. -/
theorem mem_numbered_iff (vs : List LocalVar) (name : String) (k : Nat) :
    s!"{name}.{k}" ∈ (numbered vs).map Prod.fst ↔ k < vs.countP (·.name = name) := by
  have hcount : vs.countP (·.name = name) = (vs.map (·.name)).count name := by
    rw [List.count, List.countP_map]
    rfl
  rw [hcount, ← exists_count_take_iff]
  constructor
  · intro h
    obtain ⟨x, hx, hsymbol⟩ := List.mem_map.mp h
    obtain ⟨j, hj, rfl⟩ := List.mem_mapIdx.mp hx
    obtain ⟨hname, hnumber⟩ := numbered_inj hsymbol
    refine ⟨j, by simp [hj, hname], ?_⟩
    rw [← hname, ← List.map_take]
    exact hnumber
  · rintro ⟨j, hj, hnumber⟩
    rw [List.getElem?_map, Option.map_eq_some_iff] at hj
    obtain ⟨v, hv, rfl⟩ := hj
    obtain ⟨hlt, rfl⟩ := List.getElem?_eq_some_iff.mp hv
    rw [← List.map_take] at hnumber
    refine List.mem_map.mpr ⟨_, List.mem_mapIdx.mpr ⟨j, hlt, rfl⟩, ?_⟩
    rw [hnumber]

/-! ## Documents that load -/

/-- The symbols of a listing that are a dot and a number. -/
theorem WellFormed.mem_definedSymbols_iff {types : Table} {doc : Document}
    (h : doc.WellFormed types) {o : Options} {l : Asm.Listing}
    (hl : (doc.frozenProgram types).listing o = .ok l) (k : Nat) :
    s!".{k}" ∈ l.definedSymbols ↔
      k < doc.staticVars.countP (·.name = "") ∨
        ∃ i ∈ doc.items, i.kind = "var" ∧ i.name = s!".{k}" := by
  have hdot {name : String} (hname : name = "") : s!".{k}" = s!"{name}.{k}" := by
    simp [hname, toString]
  have hlabel : s!".{k}" ∉ (List.range doc.texts.length).map Program.Literals.label := by
    rw [hdot rfl]
    intro hmem
    obtain ⟨i, -, hi⟩ := List.mem_map.mp hmem
    exact Program.numbered_ne_label "" k i hi.symm
  have hthunk : s!".{k}" ∉ Program.thunkSymbols o := by
    rw [hdot rfl]
    unfold Program.thunkSymbols
    split
    · simpa using Program.numbered_ne_picThunk "" k
    · simp
  rw [(h.perm_definedSymbols hl).mem_iff, List.mem_append, List.mem_append, or_iff_left hthunk,
    or_iff_left hlabel, definedVariables, List.map_append, List.mem_append, or_comm]
  refine or_congr ?_ ?_
  · rw [hdot rfl]
    exact mem_numbered_iff doc.staticVars "" k
  · simp [and_assoc]

/-- **Names of declared things.**  Every top-level entity of a program that loads has a name, and
all entities have one exactly if the local variables of the document do: nothing checks them.
The symbols of a listing that are a dot and a number are those of the static locals without a
name, numbered from zero, and of global variables that are called so. -/
theorem named_of_load {types : Table} {doc : Document} {p : Program Site}
    (h : doc.load types = .ok p) :
    (∀ e ∈ p.scope.entities, e.name ≠ "") ∧
      ((∀ d ∈ p.scope.entries, d.2.name ≠ "") ↔
        ∀ b outer, doc.HasBlock b outer → ∀ v ∈ b.vars, v.name ≠ "") ∧
      ∀ o l, (p.generate o).result = .ok l → ∀ k : Nat,
        (s!".{k}" ∈ l.definedSymbols ↔
          k < doc.staticVars.countP (·.name = "") ∨
            ∃ i ∈ doc.items, i.kind = "var" ∧ i.name = s!".{k}") := by
  obtain ⟨hdoc, rfl⟩ := (load_accepts types doc p).mp h
  exact ⟨fun e he => hdoc.named_of_mem_entities he, hdoc.forall_named_iff,
    fun o l hl k => hdoc.mem_definedSymbols_iff (listing_of_generate hl) k⟩

/-- A function with static locals, some of them without a name, in two blocks. -/
def unnamedLocals : Document where
  items := [
    { kind := "func", name := "f", type := "int",
      body := some {
        vars := [{ type := "int", storage := "static" }, { name := "a", type := "int" }]
        blocks := [{ vars := [
          { name := "a", type := "int", storage := "static" },
          { type := "char", storage := "static" }] }] } }]

theorem named_of_load_unnamedLocals : ∃ p l,
    unnamedLocals.load { pointerSize := 4 } = .ok p ∧ (p.generate {}).result = .ok l ∧
      ∀ k : Nat, s!".{k}" ∈ l.definedSymbols ↔ k < 2 := by
  obtain ⟨hp, l, hl⟩ := @exists_listing { pointerSize := 4 } unnamedLocals {} (by decide +kernel)
    (by decide +kernel)
  refine ⟨_, l, hp, hl, fun k => ?_⟩
  have hcount : unnamedLocals.staticVars.countP (·.name = "") = 2 := by decide +kernel
  rw [(named_of_load hp).2.2 {} l hl k, hcount, or_iff_left (by simp [unnamedLocals])]

/-- One static local without a name, in the body of a function. -/
def unnamedLocal : Document where
  items := [
    { kind := "func", name := "f", type := "int",
      body := some { vars := [{ type := "int", storage := "static" }] } }]

/-- A local variable without a name is loaded and gets a symbol that is its number. -/
theorem unnamed_of_load_unnamedLocal : ∃ p l,
    unnamedLocal.load { pointerSize := 4 } = .ok p ∧ (p.generate {}).result = .ok l ∧
      (∃ d ∈ p.scope.entries, d.2.name = "") ∧ ".0" ∈ l.definedSymbols := by
  obtain ⟨hp, l, hl⟩ := @exists_listing { pointerSize := 4 } unnamedLocal {} (by decide +kernel)
    (by decide +kernel)
  refine ⟨_, l, hp, hl, by decide +kernel, ?_⟩
  have hdoc := ((load_accepts _ _ _).mp hp).1
  rw [(hdoc.perm_definedSymbols (listing_of_generate hl)).mem_iff]
  decide +kernel

end Document

end Cflat
