import Cflat.Asm.Width
import Mathlib.Order.Bounds.Basic

/-!
# Rounding up to an alignment

Rounding adds `alignment - 1` and cuts the sum to a multiple of the alignment, in 64-bit
words, for any positive alignment.

* Cutting never wraps: the multiple lies between the word and zero (`toInt_div_mul`).
* The sum may wrap on the way, when `1` is not yet taken off.  It comes back if it is no more
  than the largest word (`toInt_add_sub_one`); otherwise it is negative
  (`toInt_add_sub_one_neg`).
* Without wrapping the result is the least multiple that is not below the number
  (`isLeast_ediv_mul`).  How far it is from the number, and how it grows, follow from that
  alone.
-/

namespace Cflat.Asm

/-! ## Least multiples -/

/-- The multiples of `alignment` that are not below `n`. -/
def multiplesFrom (alignment n : Int) : Set Int :=
  {m | alignment ∣ m ∧ n ≤ m}

section

variable {alignment n m r : Int}

theorem multiplesFrom_subset (alignment : Int) (h : n ≤ m) :
    multiplesFrom alignment m ⊆ multiplesFrom alignment n := by
  rintro k ⟨hdvd, hle⟩
  exact ⟨hdvd, Int.le_trans h hle⟩

theorem isLeast_multiplesFrom_self (h : alignment ∣ n) :
    IsLeast (multiplesFrom alignment n) n :=
  ⟨⟨h, Int.le_refl n⟩, fun _ hk => hk.2⟩

theorem isLeast_ediv_mul (hpos : 0 < alignment) (n : Int) :
    IsLeast (multiplesFrom alignment n) ((n + alignment - 1) / alignment * alignment) := by
  refine ⟨⟨Int.dvd_mul_left _ _, ?_⟩, ?_⟩
  · have hlt := Int.lt_ediv_add_one_mul_self (n + alignment - 1) hpos
    rw [Int.add_mul, Int.one_mul] at hlt
    omega
  · rintro _ ⟨⟨k, rfl⟩, hle⟩
    have hquotient : (n + alignment - 1) / alignment ≤ k := by
      rw [Int.ediv_le_iff_le_mul hpos, Int.mul_comm k]
      omega
    rw [Int.mul_comm alignment k]
    exact Int.mul_le_mul_of_nonneg_right hquotient (Int.le_of_lt hpos)

/-- The multiple before the least one is below `n`. -/
theorem sub_lt_of_isLeast (hpos : 0 < alignment)
    (h : IsLeast (multiplesFrom alignment n) r) : r - n < alignment := by
  by_contra hge
  have hbefore : r - alignment ∈ multiplesFrom alignment n :=
    ⟨Int.dvd_sub h.1.1 (Int.dvd_refl alignment), by omega⟩
  have hle := h.2 hbefore
  omega

end

/-! ## Words -/

theorem tdiv_mul_of_nonneg {x a : Int} (ha : 0 < a) (hx : 0 ≤ x) :
    0 ≤ x.tdiv a * a ∧ x.tdiv a * a ≤ x := by
  rw [Int.tdiv_eq_ediv_of_nonneg hx]
  exact ⟨Int.mul_nonneg (Int.ediv_nonneg hx (Int.le_of_lt ha)) (Int.le_of_lt ha),
    Int.ediv_mul_le x (Int.ne_of_gt ha)⟩

theorem tdiv_mul_of_nonpos {x a : Int} (ha : 0 < a) (hx : x ≤ 0) :
    x ≤ x.tdiv a * a ∧ x.tdiv a * a ≤ 0 := by
  have hneg := tdiv_mul_of_nonneg ha (Int.neg_nonneg_of_nonpos hx)
  rw [Int.neg_tdiv, Int.neg_mul] at hneg
  omega

/-- Cutting a word to a multiple does not wrap, whatever its sign. -/
theorem toInt_div_mul {x a : Int64} (ha : 0 < a.toInt) :
    (x / a * a).toInt = x.toInt.tdiv a.toInt * a.toInt := by
  have hne : a ≠ -1 := by
    rintro rfl
    exact absurd ha (by decide)
  have hlower := x.le_toInt
  have hupper := x.toInt_lt
  rw [Int64.toInt_mul, Int64.toInt_div_of_ne_right x a hne]
  rcases Int.le_total 0 x.toInt with hx | hx
  · have hbounds := tdiv_mul_of_nonneg ha hx
    apply Int.bmod_eq_of_le <;> omega
  · have hbounds := tdiv_mul_of_nonpos ha hx
    apply Int.bmod_eq_of_le <;> omega

/-- `n` can be rounded up in words: the sum that is cut to a multiple is one. -/
structure Roundable (n alignment : Int64) : Prop where
  nonneg : 0 ≤ n
  pos : 1 ≤ alignment
  sum_le : n.toInt + alignment.toInt - 1 ≤ Int64.maxValue.toInt

section

variable {n alignment : Int64}

theorem toInt_add_sub_one (hn : 0 ≤ n.toInt) (ha : 0 < alignment.toInt)
    (hle : n.toInt + alignment.toInt - 1 ≤ Int64.maxValue.toInt) :
    (n + alignment - 1).toInt = n.toInt + alignment.toInt - 1 := by
  rw [Int64.toInt_sub, Int64.toInt_add, Int.bmod_sub_bmod, Int64.toInt_one]
  rw [Int64.toInt_maxValue] at hle
  apply Int.bmod_eq_of_le <;> omega

theorem toInt_add_sub_one_neg
    (hlt : Int64.maxValue.toInt < n.toInt + alignment.toInt - 1) :
    (n + alignment - 1).toInt < 0 := by
  have hn := n.toInt_lt
  have ha := alignment.toInt_lt
  rw [Int64.toInt_sub, Int64.toInt_add, Int.bmod_sub_bmod, Int64.toInt_one]
  rw [Int64.toInt_maxValue] at hlt
  rw [Int.bmod_def]
  omega

theorem roundUp_of_pos (n : Int64) (ha : 0 < alignment.toInt) :
    ∃ r, roundUp n alignment = .ok r ∧
      r.toInt = (n + alignment - 1).toInt.tdiv alignment.toInt * alignment.toInt := by
  have hne : alignment ≠ 0 := by
    rintro rfl
    exact absurd ha (by decide)
  exact ⟨_, if_neg hne, toInt_div_mul ha⟩

theorem exists_roundUp_isLeast (h : Roundable n alignment) :
    ∃ r, roundUp n alignment = .ok r ∧
      IsLeast (multiplesFrom alignment.toInt n.toInt) r.toInt := by
  have hn : 0 ≤ n.toInt := Int64.le_iff_toInt_le.mp h.nonneg
  have ha : 0 < alignment.toInt := Int64.le_iff_toInt_le.mp h.pos
  obtain ⟨r, hr, hvalue⟩ := roundUp_of_pos n ha
  rw [toInt_add_sub_one hn ha h.sum_le, Int.tdiv_eq_ediv_of_nonneg (by omega)] at hvalue
  exact ⟨r, hr, hvalue ▸ isLeast_ediv_mul ha n.toInt⟩

/-- A multiple is rounded to itself unless the sum wraps. -/
theorem roundUp_eq_self_iff (hn : 0 ≤ n) (ha : 1 ≤ alignment)
    (hdvd : alignment.toInt ∣ n.toInt) :
    roundUp n alignment = .ok n ↔ Roundable n alignment := by
  constructor
  · intro hself
    refine ⟨hn, ha, ?_⟩
    by_contra hgt
    have hpos : 0 < alignment.toInt := Int64.le_iff_toInt_le.mp ha
    have hneg := toInt_add_sub_one_neg (Int.not_le.mp hgt)
    obtain ⟨r, hr, hvalue⟩ := roundUp_of_pos n hpos
    obtain rfl : n = r := Except.ok.inj (hself.symm.trans hr)
    have hnonpos := (tdiv_mul_of_nonpos hpos (Int.le_of_lt hneg)).2
    have hle := alignment.toInt_le
    omega
  · intro h
    obtain ⟨r, hr, hleast⟩ := exists_roundUp_isLeast h
    have heq : r.toInt = n.toInt := hleast.unique (isLeast_multiplesFrom_self hdvd)
    rw [hr, Int64.toInt_inj.mp heq]

end

/-- Rounding gives the least multiple that is not below `n`.  It adds less than the alignment,
keeps the order, and changes nothing the second time, exactly if the result can be rounded
again. -/
theorem roundUp_isLeast {n alignment : Int64} (h : Roundable n alignment) :
    ∃ r, roundUp n alignment = .ok r ∧
      IsLeast (multiplesFrom alignment.toInt n.toInt) r.toInt ∧
      r.toInt - n.toInt < alignment.toInt ∧
      (roundUp r alignment = .ok r ↔ Roundable r alignment) ∧
      ∀ m, n ≤ m → Roundable m alignment → ∃ s, roundUp m alignment = .ok s ∧ r ≤ s := by
  obtain ⟨r, hr, hleast⟩ := exists_roundUp_isLeast h
  have hpos : 0 < alignment.toInt := Int64.le_iff_toInt_le.mp h.pos
  have hnonneg : 0 ≤ r := by
    have hn := Int64.le_iff_toInt_le.mp h.nonneg
    exact Int64.le_iff_toInt_le.mpr (Int.le_trans hn hleast.1.2)
  refine ⟨r, hr, hleast, sub_lt_of_isLeast hpos hleast,
    roundUp_eq_self_iff hnonneg h.pos hleast.1.1, ?_⟩
  intro m hle hm
  obtain ⟨s, hs, hleast'⟩ := exists_roundUp_isLeast hm
  have hsubset := multiplesFrom_subset alignment.toInt (Int64.le_iff_toInt_le.mp hle)
  exact ⟨s, hs, Int64.le_iff_toInt_le.mpr (hleast'.mono hleast hsubset)⟩

/-- At the upper end: the sum wraps on the way, and the result cannot be rounded again. -/
theorem roundUp_isLeast_boundary :
    let n : Int64 := 9223372036854775804
    let r : Int64 := 9223372036854775806
    Roundable n 3 ∧ Roundable (n + 1) 3 ∧ roundUp n 3 = .ok r ∧
      IsLeast (multiplesFrom 3 n.toInt) r.toInt ∧ r.toInt - n.toInt < 3 ∧
      roundUp r 3 ≠ .ok r ∧ ∃ s, roundUp (n + 1) 3 = .ok s ∧ r ≤ s := by
  intro n r
  have hn : Roundable n 3 := ⟨by decide, by decide, by decide⟩
  have hsucc : Roundable (n + 1) 3 := ⟨by decide, by decide, by decide⟩
  obtain ⟨r', hr', hleast, hlt, hself, hmono⟩ := roundUp_isLeast hn
  have hr : roundUp n 3 = .ok r := by decide
  obtain rfl : r = r' := Except.ok.inj (hr.symm.trans hr')
  have hagain : ¬ Roundable r 3 := fun h => absurd h.sum_le (by decide)
  exact ⟨hn, hsucc, hr, hleast, hlt, mt hself.mp hagain, hmono (n + 1) (by decide) hsucc⟩

example : roundUp 5 4 = .ok 8 ∧ roundUp 8 4 = .ok 8 ∧ roundUp 0 4 = .ok 0 := by decide

end Cflat.Asm
