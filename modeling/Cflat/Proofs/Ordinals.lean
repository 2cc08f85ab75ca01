import Cflat.Proofs.Tokens
import Cflat.Scope.Tree
import Mathlib.Data.List.Nodup

/-!
# Ordinals of static locals

In a frozen tree whose static locals have distinct identifiers, the ordinal of a
static local is the number of static locals of the same name before it, and no
other entity has one.  A symbol made of a name and an ordinal can be taken apart
again at its last dot, so the symbols of static locals are distinct whatever their
names are.
-/

namespace Cflat

/-! ## Numbered names -/

/-- A name with its number, as it stands in a symbol. -/
theorem toList_numbered (name : String) (k : Nat) :
    (s!"{name}.{k}" : String).toList = name.toList ++ '.' :: Nat.toDigits 10 k := by
  simp [toString, Nat.repr]

theorem numbered_inj {a b : String} {j k : Nat} (h : s!"{a}.{j}" = s!"{b}.{k}") :
    a = b ∧ j = k := by
  have hlists := congrArg String.toList h
  rw [toList_numbered, toList_numbered] at hlists
  obtain ⟨hname, hdigits⟩ := append_cons_inj_of_notMem_right
    (Text.notMem_toDigits (by decide) j) (Text.notMem_toDigits (by decide) k) hlists
  refine ⟨String.toList_inj.mp hname, ?_⟩
  rw [← Nat.ofDigitChars_ten_toDigits (n := j), hdigits, Nat.ofDigitChars_ten_toDigits]

/-- Names that are numbered by their earlier occurrences are distinct. -/
theorem nodup_mapIdx_numbered (names : List String) :
    (names.mapIdx fun k name => s!"{name}.{(names.take k).count name}").Nodup := by
  rw [List.Nodup, List.pairwise_iff_getElem]
  intro i j hi hj hij heq
  rw [List.length_mapIdx] at hi hj
  rw [List.getElem_mapIdx, List.getElem_mapIdx] at heq
  obtain ⟨hname, hcount⟩ := numbered_inj heq
  have hmem : names[i] ∈ (names.take j).drop i := by
    rw [List.mem_iff_getElem]
    exact ⟨0, by simp; omega, by simp⟩
  have hsplit : (names.take j).count names[i] =
      (names.take i).count names[i] + ((names.take j).drop i).count names[i] := by
    conv_lhs => rw [← List.take_append_drop i (names.take j)]
    rw [List.count_append, List.take_take, Nat.min_eq_left (Nat.le_of_lt hij)]
  have hpos := List.count_pos_iff.mpr hmem
  rw [← hname] at hcount
  omega

end Cflat

namespace Cflat.Scope

variable {ι : Type}

/-- Numbering position by position. -/
theorem numberFrom_eq_mapIdx (seen : List String) (es : List (Entity ι)) :
    numberFrom seen es = es.mapIdx fun k e =>
      (e.id, seen.count e.name + ((es.take k).map (·.name)).count e.name) := by
  induction es generalizing seen with
  | nil => rfl
  | cons e es ih =>
    have hshift (k : Nat) (d : Entity ι) :
        (e.name :: seen).count d.name + ((es.take k).map (·.name)).count d.name =
          seen.count d.name + (((e :: es).take (k + 1)).map (·.name)).count d.name := by
      rw [List.take_succ_cons, List.map_cons, List.count_cons, List.count_cons]
      omega
    rw [numberFrom, ih, List.mapIdx_cons]
    simp only [hshift]
    simp

theorem map_fst_numberFrom (seen : List String) (es : List (Entity ι)) :
    (numberFrom seen es).map Prod.fst = es.map (·.id) := by
  induction es generalizing seen with
  | nil => rfl
  | cons e es ih => simp [numberFrom, ih]

/-- An association list with distinct keys can be searched from either end. -/
theorem lookup_reverse_eq_some_iff {α β : Type} [DecidableEq α] {l : List (α × β)}
    (h : (l.map Prod.fst).Nodup) {a : α} {b : β} :
    l.reverse.lookup a = some b ↔ (a, b) ∈ l := by
  rw [List.lookup_eq_some_iff]
  constructor
  · intro hsplit
    obtain ⟨l₁, l₂, heq, -⟩ := hsplit
    rw [← List.mem_reverse, heq]
    simp
  · intro hmem
    obtain ⟨l₁, l₂, heq⟩ := List.append_of_mem (List.mem_reverse.mpr hmem)
    refine ⟨l₁, l₂, heq, fun p hp => ?_⟩
    have hkeys : (l.reverse.map Prod.fst).Nodup := by
      rw [List.map_reverse, List.nodup_reverse]
      exact h
    rw [heq, List.map_append, List.map_cons, List.nodup_append] at hkeys
    have hne := hkeys.2.2 p.1 (List.mem_map_of_mem hp) a (by simp)
    simpa using hne.symm

variable [DecidableEq ι] {t : Tree ι}

/-- The ordinal of the static local at position `k`. -/
theorem Tree.ordinal?_eq_some (hfrozen : t.frozen = true) (hids : (t.statics.map (·.id)).Nodup)
    {k : Nat} {e : Entity ι} (hk : t.statics[k]? = some e) :
    t.ordinal? e.id = some (((t.statics.take k).map (·.name)).count e.name) := by
  rw [Tree.ordinal?_eq, if_pos hfrozen, lookup_reverse_eq_some_iff (by rwa [map_fst_numberFrom]),
    numberFrom_eq_mapIdx, List.mem_iff_getElem?]
  exact ⟨k, by simp [hk]⟩

/-- Nothing but a static local has an ordinal. -/
theorem Tree.ordinal?_eq_none {id : ι} (hid : id ∉ t.statics.map (·.id)) :
    t.ordinal? id = none := by
  rw [Tree.ordinal?_eq]
  split
  · rw [List.lookup_eq_none_iff]
    intro p hp
    have hmem : p.1 ∈ t.statics.map (·.id) := by
      rw [← map_fst_numberFrom []]
      exact List.mem_map_of_mem (List.mem_reverse.mp hp)
    have hne : id ≠ p.1 := fun h => hid (h ▸ hmem)
    simpa using hne
  · rfl

theorem Tree.symbol_eq_name {e : Entity ι} (hid : e.id ∉ t.statics.map (·.id)) :
    t.symbol e = e.name := by
  rw [Tree.symbol, Tree.referenceSymbol, Entity.reference, Tree.ordinal?_eq_none hid]

/-- The symbol of the static local at position `k`. -/
theorem Tree.symbol_eq_numbered (hfrozen : t.frozen = true)
    (hids : (t.statics.map (·.id)).Nodup) {k : Nat} {e : Entity ι} (hk : t.statics[k]? = some e) :
    t.symbol e = s!"{e.name}.{((t.statics.take k).map (·.name)).count e.name}" := by
  rw [Tree.symbol, Tree.referenceSymbol, Entity.reference, Tree.ordinal?_eq_some hfrozen hids hk]

/-- The symbols of the static locals, in order. -/
theorem Tree.map_symbol_statics (hfrozen : t.frozen = true)
    (hids : (t.statics.map (·.id)).Nodup) :
    t.statics.map t.symbol = t.statics.mapIdx fun k e =>
      s!"{e.name}.{((t.statics.take k).map (·.name)).count e.name}" := by
  apply List.ext_getElem?
  intro k
  rw [List.getElem?_map, List.getElem?_mapIdx]
  cases hk : t.statics[k]? with
  | none => rfl
  | some e => simp [Tree.symbol_eq_numbered hfrozen hids hk]

/-- Static locals have distinct symbols. -/
theorem Tree.nodup_symbol_statics (hfrozen : t.frozen = true)
    (hids : (t.statics.map (·.id)).Nodup) : (t.statics.map t.symbol).Nodup := by
  have hnames : t.statics.map t.symbol = (t.statics.map (·.name)).mapIdx fun k name =>
      s!"{name}.{((t.statics.map (·.name)).take k).count name}" := by
    rw [Tree.map_symbol_statics hfrozen hids]
    apply List.ext_getElem?
    intro k
    simp [List.map_take, Option.map_map, Function.comp_def]
  rw [hnames]
  exact nodup_mapIdx_numbered _

end Cflat.Scope
