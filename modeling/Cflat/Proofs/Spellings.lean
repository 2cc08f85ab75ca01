import Cflat.Proofs.TypeGrammar
import Mathlib.Data.List.Induction

/-!
# Spellings of types

* The parts of a spelling: that of the innermost element, then the lengths in brackets.
* Round trip: a type that was read is read again from its own spelling.
* Distinct spellings: two types of a table that are built from its base types by
  pointers and arrays, in any order and of any length, are spelled differently.  This
  goes beyond what can be read, since a pointer to an array is spelled but not read.
-/

namespace Cflat

open Text

namespace Ty

/-! ## The parts of a spelling -/

/-- Lengths in brackets, as they are spelled. -/
def bracketText (dims : List Int64) : List Char :=
  dims.flatMap fun n => '[' :: ((toString n).toList ++ [']'])

theorem bracketText_concat (dims : List Int64) (n : Int64) :
    bracketText (dims ++ [n]) = bracketText dims ++ '[' :: ((toString n).toList ++ [']']) := by
  simp [bracketText]

theorem toList_spellingWith (ty : Ty) (dims : String) :
    (ty.spellingWith dims).toList =
      ty.innermost.spelling.toList ++ (dims.toList ++ bracketText ty.lengths) := by
  induction ty generalizing dims with
  | array element n ih =>
    rw [spellingWith, ih]
    simp [innermost, lengths, bracketText, toString]
  | _ => simp [spellingWith, spelling, innermost, lengths, bracketText]

theorem toList_spelling (ty : Ty) :
    ty.spelling.toList = ty.innermost.spelling.toList ++ bracketText ty.lengths :=
  toList_spellingWith ty ""

theorem toList_spelling_array (element : Ty) (n : Int64) :
    (array element n).spelling.toList =
      element.innermost.spelling.toList ++ bracketText (n :: element.lengths) :=
  toList_spelling (array element n)

theorem toList_spelling_pointer (target : Ty) (bytes : Int64) :
    (pointer target bytes).spelling.toList = target.spelling.toList ++ ['*'] := by
  simp [spelling, spellingWith]

theorem toList_spelling_arrays {element : Ty} (h : element.isArray = false) (dims : List Int64) :
    (element.arrays dims).spelling.toList = element.spelling.toList ++ bracketText dims := by
  rw [toList_spelling, innermost_arrays h, lengths_arrays h]

end Ty

namespace Table

variable {t : Table}

/-! ## Round trip -/

theorem IsBase.isArray {names : List String} {base : Ty} (h : t.IsBase names base) :
    base.isArray = false := by
  cases h <;> rfl

theorem IsBase.spelling_eq {names : List String} {base : Ty} (h : t.IsBase names base) :
    base.spelling = base.baseName := by
  cases h <;> simp [Ty.spelling, Ty.spellingWith, integer]

theorem IsBase.hasWords_spelling {names : List String} {base : Ty} (h : t.IsBase names base) :
    HasWords (names.map String.toList) base.spelling.toList := by
  rw [← wordsChars_eq_iff, h.spelling_eq, ← h.words_baseName, words]
  simp [Function.comp_def]

theorem isArray_iterate {base : Ty} (h : base.isArray = false) (n : Nat) :
    (t.pointerTo^[n] base).isArray = false := by
  cases n with
  | zero => exact h
  | succ n =>
    rw [Function.iterate_succ_apply']
    rfl

theorem toList_spelling_iterate (base : Ty) (n : Nat) :
    (t.pointerTo^[n] base).spelling.toList = base.spelling.toList ++ List.replicate n '*' := by
  induction n with
  | zero => simp
  | succ n ih =>
    rw [Function.iterate_succ_apply', pointerTo, Ty.toList_spelling_pointer, ih,
      List.replicate_succ', List.append_assoc]

/-- The tokens of a spelling without white space. -/
theorem spaced_bracketText (stars : Nat) (dims : List Int64) :
    Spaced (List.replicate stars ['*'] ++
        (dims.map fun n => (toString n).toList).flatMap bracketed)
      (List.replicate stars '*' ++ Ty.bracketText dims) := by
  have htext : (List.replicate stars ['*'] ++
      (dims.map fun n => (toString n).toList).flatMap bracketed).flatten =
        List.replicate stars '*' ++ Ty.bracketText dims := by
    rw [List.flatten_append, List.flatten_replicate_singleton, List.flatMap_map]
    simp [List.flatMap, List.flatten_flatten, bracketed, Ty.bracketText, Function.comp_def]
  exact htext ▸ Spaced.flatten _

theorem isLength_toString {n : Int64} (h : 0 ≤ n.toInt) : IsLength (toString n).toList n :=
  ⟨readInt64?_eq_some_iff.mp (readInt64?_toString n), h⟩

theorem forall₂_isLength_toString {numerals : List (List Char)} {dims : List Int64}
    (h : List.Forall₂ IsLength numerals dims) :
    List.Forall₂ IsLength (dims.map fun n => (toString n).toList) dims := by
  induction h with
  | nil => exact .nil
  | cons hlength _ ih => exact .cons (isLength_toString hlength.nonneg) ih

/-- What a spelling denotes is denoted by its own spelling. -/
theorem Spells.spelling {text : List Char} {ty : Ty} (h : t.Spells text ty) :
    t.Spells ty.spelling.toList ty := by
  obtain @⟨names, base, stars, numerals, dims, name, rest, hbase, -, -, hdims, hvoid, hfits⟩ := h
  rw [Ty.toList_spelling_arrays (isArray_iterate hbase.isArray stars), toList_spelling_iterate,
    List.append_assoc]
  exact .intro hbase hbase.hasWords_spelling (spaced_bracketText stars dims)
    (forall₂_isLength_toString hdims) hvoid hfits

/-! ## Distinct spellings -/

/-- The types that pointers and arrays make of the base types of a table, with lengths
of any value. -/
inductive Builds (t : Table) : Ty → Prop
  | base {names : List String} {base : Ty} : t.IsBase names base → t.Builds base
  | pointer {target : Ty} : t.Builds target → t.Builds (t.pointerTo target)
  | array {element : Ty} (n : Int64) : t.Builds element → t.Builds (.array element n)

theorem Builds.innermost {ty : Ty} (h : t.Builds ty) : t.Builds ty.innermost := by
  induction h with
  | base hbase =>
    rw [Ty.innermost_of_not_isArray hbase.isArray]
    exact .base hbase
  | pointer htarget => exact .pointer htarget
  | array _ _ ih => exact ih

theorem getLast?_spelling_pointer (target : Ty) :
    (t.pointerTo target).spelling.toList.getLast? = some '*' := by
  rw [pointerTo, Ty.toList_spelling_pointer, List.getLast?_concat]

theorem getLast?_append_bracketText (text : List Char) {dims : List Int64} (h : dims ≠ []) :
    (text ++ Ty.bracketText dims).getLast? = some ']' := by
  obtain ⟨outer, n, rfl⟩ := (List.eq_nil_or_concat' dims).resolve_left h
  rw [Ty.bracketText_concat, ← List.cons_append, ← List.append_assoc, ← List.append_assoc,
    List.getLast?_concat]

theorem getLast?_spelling_array (element : Ty) (n : Int64) :
    (Ty.array element n).spelling.toList.getLast? = some ']' := by
  rw [Ty.toList_spelling_array]
  exact getLast?_append_bracketText _ (List.cons_ne_nil _ _)

theorem IsBase.getLast?_spelling_ne {names : List String} {base : Ty} (h : t.IsBase names base)
    {c : Char} (hblank : isBlank c = false) (halpha : c.isAlpha = false) :
    base.spelling.toList.getLast? ≠ some c := by
  intro hlast
  have hc := h.forall_mem h.hasWords_spelling c (List.mem_of_getLast? hlast)
  simp [hblank, halpha] at hc

/-! The kind of a type can be told from the end of its spelling. -/

theorem Builds.exists_pointer {ty : Ty} (h : t.Builds ty)
    (hlast : ty.spelling.toList.getLast? = some '*') :
    ∃ target, t.Builds target ∧ ty = t.pointerTo target := by
  cases h with
  | base hbase => exact absurd hlast (hbase.getLast?_spelling_ne (by decide) (by decide))
  | pointer htarget => exact ⟨_, htarget, rfl⟩
  | array n _ =>
    rw [getLast?_spelling_array] at hlast
    exact absurd hlast (by decide)

theorem Builds.exists_array {ty : Ty} (h : t.Builds ty)
    (hlast : ty.spelling.toList.getLast? = some ']') :
    ∃ element n, t.Builds element ∧ ty = .array element n := by
  cases h with
  | base hbase => exact absurd hlast (hbase.getLast?_spelling_ne (by decide) (by decide))
  | pointer _ =>
    rw [getLast?_spelling_pointer] at hlast
    exact absurd hlast (by decide)
  | array n helement => exact ⟨_, n, helement, rfl⟩

theorem Builds.exists_base {ty : Ty} (h : t.Builds ty)
    (hstar : ty.spelling.toList.getLast? ≠ some '*')
    (hbracket : ty.spelling.toList.getLast? ≠ some ']') : ∃ names, t.IsBase names ty := by
  cases h with
  | base hbase => exact ⟨_, hbase⟩
  | pointer _ => exact absurd (getLast?_spelling_pointer _) hstar
  | array n _ => exact absurd (getLast?_spelling_array _ n) hbracket

theorem Builds.getLast?_innermost {ty : Ty} (h : t.Builds ty) :
    ty.innermost.spelling.toList.getLast? ≠ some ']' := by
  intro hlast
  obtain ⟨element, n, -, harray⟩ := h.innermost.exists_array hlast
  have hnot := ty.isArray_innermost
  rw [harray] at hnot
  cases hnot

/-- Brackets at the end of a text can be cut off in one way only. -/
theorem append_bracketText_inj {x y : List Char} {ds es : List Int64}
    (hx : x.getLast? ≠ some ']') (hy : y.getLast? ≠ some ']')
    (h : x ++ Ty.bracketText ds = y ++ Ty.bracketText es) : x = y ∧ ds = es := by
  have hnil : Ty.bracketText [] = [] := rfl
  induction ds using List.reverseRecOn generalizing es with
  | nil =>
    by_cases hes : es = []
    · subst hes
      simpa [hnil] using h
    · rw [hnil, List.append_nil] at h
      exact absurd (h ▸ getLast?_append_bracketText y hes) hx
  | append_singleton ds n ih =>
    rcases List.eq_nil_or_concat' es with rfl | ⟨es, m, rfl⟩
    · rw [hnil, List.append_nil] at h
      exact absurd (h ▸ getLast?_append_bracketText x (by simp)) hy
    · have hbracket (k : Int64) : '[' ∉ (toString k).toList ++ [']'] := by
        simpa using notMem_toString (by decide) (by decide) k
      rw [Ty.bracketText_concat, Ty.bracketText_concat, ← List.append_assoc,
        ← List.append_assoc] at h
      obtain ⟨hfront, hlast⟩ := append_cons_inj_of_notMem_right (hbracket n) (hbracket m) h
      obtain ⟨hxy, rfl⟩ := ih hfront
      have hread := congrArg readInt64? (List.append_cancel_right hlast)
      rw [readInt64?_toString, readInt64?_toString, Option.some.injEq] at hread
      exact ⟨hxy, by rw [hread]⟩

theorem IsBase.eq_of_spelling_eq {names names' : List String} {a b : Ty} (ha : t.IsBase names a)
    (hb : t.IsBase names' b) (h : a.spelling = b.spelling) : a = b := by
  have hread {names : List String} {base : Ty} (hbase : t.IsBase names base) :
      t.parse base.spelling = .ok base := by
    have hspells : t.Spells (base.spelling.toList ++ []) ((t.pointerTo^[0] base).arrays []) :=
      .intro hbase hbase.hasWords_spelling (spaced_bracketText 0 []) .nil (by simp) trivial
    rw [List.append_nil] at hspells
    exact hspells.parse
  exact Except.ok.inj ((hread ha).symm.trans (h ▸ hread hb))

/-- Types that are spelled alike are the same. -/
theorem Builds.eq_of_spelling_eq {a b : Ty} (ha : t.Builds a) (hb : t.Builds b)
    (h : a.spelling = b.spelling) : a = b := by
  induction ha generalizing b with
  | base hbase =>
    obtain ⟨names, hbase'⟩ := hb.exists_base
      (h ▸ hbase.getLast?_spelling_ne (by decide) (by decide))
      (h ▸ hbase.getLast?_spelling_ne (by decide) (by decide))
    exact hbase.eq_of_spelling_eq hbase' h
  | pointer _ ih =>
    obtain ⟨target, htarget, rfl⟩ := hb.exists_pointer (h ▸ getLast?_spelling_pointer _)
    have hlists := congrArg String.toList h
    rw [pointerTo, pointerTo, Ty.toList_spelling_pointer, Ty.toList_spelling_pointer] at hlists
    rw [ih htarget (String.toList_inj.mp (List.append_cancel_right hlists))]
  | @array element n helement ih =>
    obtain ⟨element', n', helement', rfl⟩ := hb.exists_array (h ▸ getLast?_spelling_array _ n)
    have hlists := congrArg String.toList h
    rw [Ty.toList_spelling_array, Ty.toList_spelling_array] at hlists
    obtain ⟨hinnermost, hlengths⟩ := append_bracketText_inj helement.getLast?_innermost
      helement'.getLast?_innermost hlists
    obtain ⟨rfl, hlengths'⟩ := List.cons.inj hlengths
    have helements : element.spelling = element'.spelling := by
      rw [← String.toList_inj, Ty.toList_spelling element, Ty.toList_spelling element',
        hinnermost, hlengths']
    rw [ih helement' helements]

/-- A type that is read has a spelling that is read as the same type; and no two types
that pointers and arrays make of the base types are spelled alike. -/
theorem spelling_faithful (t : Table) :
    (∀ (spec : String) (ty : Ty), t.parse spec = .ok ty → t.parse ty.spelling = .ok ty) ∧
      ∀ a b : Ty, t.Builds a → t.Builds b → a.spelling = b.spelling → a = b := by
  refine ⟨fun spec ty h => ?_, fun a b ha hb h => ha.eq_of_spelling_eq hb h⟩
  exact (Spells.of_parse h).spelling.parse

theorem spelling_faithful_spaced :
    let t : Table := ⟨4⟩
    let ty : Ty := .array (.array (t.pointerTo (t.integer false .char)) 0) 3
    let rows : Ty := .array (t.pointerTo (t.integer true .int)) (-3)
    let row : Ty := t.pointerTo (.array (t.integer true .int) (-3))
    t.parse " unsigned\tchar * [ +3 ] [-0]" = .ok ty ∧ t.parse ty.spelling = .ok ty ∧
      t.Builds rows ∧ t.Builds row ∧ rows.spelling ≠ row.spelling := by
  intro t ty rows row
  have hread : t.parse " unsigned\tchar * [ +3 ] [-0]" = .ok ty := by decide +kernel
  have hint : t.Builds (t.integer true .int) := .base (.signed .int)
  refine ⟨hread, (spelling_faithful t).1 _ ty hread, .array _ (.pointer hint),
    .pointer (.array _ hint), fun h => ?_⟩
  have heq := (spelling_faithful t).2 rows row (.array _ (.pointer hint))
    (.pointer (.array _ hint)) h
  exact absurd heq (by decide)

end Table

end Cflat
