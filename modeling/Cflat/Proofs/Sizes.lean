import Cflat.Ty.Spelling
import Cflat.Proofs.Accepts

/-!
# Types of a table

`Table.HasType` are the types that a table can spell: its base types, pointers, and
arrays whose size is the exact product of the length and the size of an element.
Reading a spelling gives no other type (`parse_hasType`), so sizes and alignments
are read off by cases, with no word that wraps.
-/

namespace Cflat

namespace Table

/-- The types of a table.  The size of an array never wraps. -/
inductive HasType (t : Table) : Ty → Prop
  | void : t.HasType .void
  | integer (signed : Bool) (rank : Rank) : t.HasType (t.integer signed rank)
  | pointer {target : Ty} : t.HasType target → t.HasType (t.pointerTo target)
  | array {element : Ty} {n : Int64} : t.HasType element → 0 ≤ n.toInt →
    (element.size * n).toInt = element.size.toInt * n.toInt → t.HasType (.array element n)

variable {t : Table}

theorem rankSize_pos (hsize : 0 < t.pointerSize.toInt) (rank : Rank) :
    0 < (t.rankSize rank).toInt := by
  cases rank with
  | char => exact (by decide : 0 < (1 : Int64).toInt)
  | short => exact (by decide : 0 < (2 : Int64).toInt)
  | int => exact (by decide : 0 < (4 : Int64).toInt)
  | long => exact hsize

theorem size_nonneg_of_hasType (hsize : 0 < t.pointerSize.toInt) {ty : Ty} (h : t.HasType ty) :
    0 ≤ ty.size.toInt := by
  induction h with
  | void => decide
  | integer signed rank => exact Int.le_of_lt (rankSize_pos hsize rank)
  | pointer _ _ => exact Int.le_of_lt hsize
  | array _ hn hexact ih =>
    rw [Ty.size, hexact]
    exact Int.mul_nonneg ih hn

/-- The test on array lengths, in numbers that do not wrap. -/
theorem not_tooLarge_iff {s n : Int64} :
    ¬ (0 < s ∧ Int64.maxValue / s < n) ↔
      (0 < s.toInt → n.toInt * s.toInt ≤ Int64.maxValue.toInt) := by
  have hpos : 0 < s ↔ 0 < s.toInt := Int64.lt_iff_toInt_lt
  have hquotient : (Int64.maxValue / s).toInt = Int64.maxValue.toInt / s.toInt := by
    rw [Int64.toInt_div_of_ne_left _ _ (by decide), Int.tdiv_eq_ediv_of_nonneg (by decide)]
  rw [not_and, hpos, Int64.lt_iff_toInt_lt, hquotient, Int.not_lt]
  exact forall_congr' fun h => Int.le_ediv_iff_mul_le h

/-- A product that the test on array lengths lets through does not wrap. -/
theorem toInt_mul_of_not_lt {s n : Int64} (hs : 0 ≤ s.toInt) (hn : 0 ≤ n.toInt)
    (h : ¬ (0 < s ∧ Int64.maxValue / s < n)) : (s * n).toInt = s.toInt * n.toInt := by
  have hbound : s.toInt * n.toInt ≤ Int64.maxValue.toInt := by
    rcases Int.lt_or_eq_of_le hs with hpos | hzero
    · rw [Int.mul_comm]
      exact not_tooLarge_iff.mp h hpos
    · rw [← hzero, Int.zero_mul]
      decide
  have hmax : Int64.maxValue.toInt = 2 ^ 63 - 1 := Int64.toInt_maxValue
  have hnonneg := Int.mul_nonneg hs hn
  rw [Int64.toInt_mul]
  apply Int.bmod_eq_of_le <;> omega

theorem addLengths_hasType (hsize : 0 < t.pointerSize.toInt) {spec : String} {dims : List Int64}
    (hdims : ∀ n ∈ dims, 0 ≤ n.toInt) {ty ty' : Ty} (hty : t.HasType ty)
    (h : addLengths spec ty dims = .ok ty') : t.HasType ty' := by
  induction dims generalizing ty with
  | nil =>
    rw [addLengths] at h
    cases h
    exact hty
  | cons n dims ih =>
    rw [List.forall_mem_cons] at hdims
    rw [addLengths] at h
    split at h
    · cases h
    · next hlt =>
      have hexact := toInt_mul_of_not_lt (size_nonneg_of_hasType hsize hty) hdims.1 hlt
      exact ih hdims.2 (.array hty hdims.1 hexact) h

theorem addStars_hasType {base : Ty} (hbase : t.HasType base) (n : Nat) :
    t.HasType (t.addStars base n) := by
  induction n generalizing base with
  | zero => exact hbase
  | succ n ih => exact ih hbase.pointer

/-- What is looked up is a base type, under its own name. -/
theorem lookup?_cases {name : String} {base : Ty} (h : t.lookup? name = some base) :
    name = base.baseName ∧ (base = .void ∨ ∃ signed rank, base = t.integer signed rank) := by
  obtain ⟨before, after, hnamed, -⟩ := List.lookup_eq_some_iff.mp h
  have hmem : (name, base) ∈ t.named := by
    rw [hnamed]
    simp
  obtain ⟨ty, hty, heq⟩ := List.mem_map.mp hmem
  obtain ⟨rfl, rfl⟩ := Prod.mk.inj heq
  refine ⟨rfl, ?_⟩
  rcases List.mem_cons.mp hty with rfl | hty
  · exact .inl rfl
  · obtain ⟨signed, -, hrank⟩ := List.mem_flatMap.mp hty
    obtain ⟨rank, -, rfl⟩ := List.mem_map.mp hrank
    exact .inr ⟨signed, rank, rfl⟩

theorem lookup?_hasType {name : String} {base : Ty} (h : t.lookup? name = some base) :
    t.HasType base := by
  obtain ⟨-, rfl | ⟨signed, rank, rfl⟩⟩ := lookup?_cases h
  · exact .void
  · exact .integer signed rank

theorem stripLengths_nonneg {spec : String} {rev rest : List Char} {dims : List Int64}
    (h : stripLengths spec rev = .ok (dims, rest)) : ∀ n ∈ dims, 0 ≤ n.toInt := by
  fun_induction stripLengths spec rev generalizing dims rest with
  | case1 => cases h
  | case2 => cases h
  | case3 => cases h
  | case4 inside c before _ n _ hn ih =>
    rw [bind_eq_ok_iff] at h
    obtain ⟨⟨dims', rest'⟩, hstrip, heq⟩ := h
    obtain ⟨rfl, rfl⟩ := Prod.mk.inj (Except.ok.inj heq)
    rw [List.forall_mem_cons]
    refine ⟨?_, ih hstrip⟩
    have hle := mt Int64.lt_iff_toInt_lt.mpr hn
    rw [Int64.toInt_zero] at hle
    omega
  | case5 =>
    obtain ⟨rfl, rfl⟩ := Prod.mk.inj (Except.ok.inj h)
    simp

/-- A spelling denotes a type of its table. -/
theorem parse_hasType (hsize : 0 < t.pointerSize.toInt) {spec : String} {ty : Ty}
    (h : t.parse spec = .ok ty) : t.HasType ty := by
  simp only [parse, ↓guard_eq_ok_iff, bind_eq_ok_iff] at h
  obtain ⟨-, ⟨dims, rev⟩, hstrip, hrest⟩ := h
  dsimp only at hrest
  split at hrest
  · simp [throw_eq_ok_iff] at hrest
  · next base hbase =>
    rw [guard_eq_ok_iff] at hrest
    exact addLengths_hasType hsize (stripLengths_nonneg hstrip)
      (addStars_hasType (lookup?_hasType hbase) _) hrest.2

/-! ## Layout -/

/-- Alignments are powers of two where the pointer size is. -/
theorem alignment_of_hasType (hsize : t.pointerSize = 4 ∨ t.pointerSize = 8) {ty : Ty}
    (h : t.HasType ty) : ty.alignment ∈ ([1, 2, 4, 8] : List Int64) := by
  induction h with
  | void => decide
  | integer signed rank =>
    cases rank with
    | long => rcases hsize with hsize | hsize <;> simp [integer, Ty.alignment, rankSize, hsize]
    | _ => simp [integer, Ty.alignment, rankSize]
  | pointer _ _ => rcases hsize with hsize | hsize <;> simp [pointerTo, Ty.alignment, hsize]
  | array _ _ _ ih => exact ih

theorem pointerSize_pos (hsize : t.pointerSize = 4 ∨ t.pointerSize = 8) :
    0 < t.pointerSize.toInt := by
  rcases hsize with hsize | hsize <;> rw [hsize] <;> decide

theorem alignment_pos_of_hasType (hsize : 0 < t.pointerSize.toInt) {ty : Ty} (h : t.HasType ty) :
    0 < ty.alignment.toInt := by
  induction h with
  | void => decide
  | integer signed rank => exact rankSize_pos hsize rank
  | pointer _ _ => exact hsize
  | array _ _ _ ih => exact ih

/-- Sizes and alignments are natural numbers. -/
theorem toNat_of_hasType (hsize : t.pointerSize = 4 ∨ t.pointerSize = 8) {ty : Ty}
    (h : t.HasType ty) :
    ty.size.toInt = ty.size.toInt.toNat ∧ ty.alignment.toInt = ty.alignment.toInt.toNat ∧
      0 < ty.alignment.toInt.toNat := by
  have hnonneg := size_nonneg_of_hasType (pointerSize_pos hsize) h
  have hpos := alignment_pos_of_hasType (pointerSize_pos hsize) h
  omega

theorem size_of_isPointer {ty : Ty} (h : t.HasType ty) (hty : ty.isPointer) :
    ty.size = t.pointerSize := by
  cases h with
  | pointer _ => rfl
  | _ => simp [Ty.isPointer, integer] at hty

end Table

theorem Ty.size_eq_alignment {ty : Ty} (hty : ty.isScalar = true) : ty.size = ty.alignment := by
  cases ty with
  | integer _ _ _ => rfl
  | pointer _ _ => rfl
  | _ => simp [isScalar, isInteger, isPointer] at hty

end Cflat
