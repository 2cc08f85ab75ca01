import Cflat.Proofs.Sizes
import Mathlib.Algebra.BigOperators.Group.List.Basic
import Mathlib.Algebra.Ring.Int.Defs

/-!
# Dimensions of arrays

An array type is an element type, which is no array, with lengths around it.
`Ty.arrays` builds it from these two, `Ty.innermost` and `Ty.lengths` read them off.

The exact size of a type is the product of its lengths and of the size of its
innermost element, in numbers that do not wrap.  Sizes are computed in words, one
dimension at a time; for a type that a spelling denotes the two agree, also in
every type within it.
-/

namespace Cflat

namespace Ty

/-- Arrays around an element type, the first length outermost. -/
def arrays (element : Ty) (dims : List Int64) : Ty :=
  dims.foldr (fun n ty => .array ty n) element

/-- The lengths of an array type, the outermost first. -/
def lengths : Ty → List Int64
  | array element n => n :: element.lengths
  | _ => []

/-- What the dimensions of an array type are around. -/
def innermost : Ty → Ty
  | array element _ => element.innermost
  | ty => ty

theorem innermost_of_not_isArray {ty : Ty} (h : ty.isArray = false) : ty.innermost = ty := by
  cases ty with
  | array element n => cases h
  | _ => rfl

theorem lengths_of_not_isArray {ty : Ty} (h : ty.isArray = false) : ty.lengths = [] := by
  cases ty with
  | array element n => cases h
  | _ => rfl

theorem innermost_arrays {element : Ty} (h : element.isArray = false) (dims : List Int64) :
    (element.arrays dims).innermost = element := by
  induction dims with
  | nil => exact innermost_of_not_isArray h
  | cons n dims ih => exact ih

theorem lengths_arrays {element : Ty} (h : element.isArray = false) (dims : List Int64) :
    (element.arrays dims).lengths = dims := by
  induction dims with
  | nil => exact lengths_of_not_isArray h
  | cons n dims ih => exact congrArg (n :: ·) ih

theorem isArray_innermost (ty : Ty) : ty.innermost.isArray = false := by
  induction ty with
  | array element n ih => exact ih
  | _ => rfl

theorem alignment_innermost (ty : Ty) : ty.innermost.alignment = ty.alignment := by
  induction ty with
  | array element n ih => exact ih
  | _ => rfl

/-- The size in numbers that do not wrap. -/
def exactSize (ty : Ty) : Int :=
  (ty.lengths.map Int64.toInt).prod * ty.innermost.size.toInt

theorem exactSize_array (element : Ty) (n : Int64) :
    (array element n).exactSize = n.toInt * element.exactSize := by
  simp only [exactSize, lengths, innermost, List.map_cons, List.prod_cons, Int.mul_assoc]

theorem exactSize_of_not_isArray {ty : Ty} (h : ty.isArray = false) :
    ty.exactSize = ty.size.toInt := by
  simp [exactSize, lengths_of_not_isArray h, innermost_of_not_isArray h]

/-- `sub` is `ty` or stands within it, as an element or as the target of a pointer. -/
inductive Within (sub : Ty) : Ty → Prop
  | refl : Within sub sub
  | pointer {target : Ty} {bytes : Int64} : Within sub target → Within sub (.pointer target bytes)
  | array {element : Ty} {n : Int64} : Within sub element → Within sub (.array element n)

/-- Size and alignment of a type are what its dimensions and its innermost element
make them. -/
structure LaidOut (ty : Ty) : Prop where
  size_eq : ty.size.toInt = ty.exactSize
  exactSize_nonneg : 0 ≤ ty.exactSize
  exactSize_le : ty.exactSize ≤ Int64.maxValue.toInt
  alignment_eq : ty.alignment = ty.innermost.alignment
  alignment_pos : 1 ≤ ty.alignment.toInt
  alignment_dvd : ty.alignment.toInt ∣ ty.size.toInt

end Ty

namespace Table

variable {t : Table}

theorem HasType.within {sub ty : Ty} (h : t.HasType ty) (hsub : sub.Within ty) :
    t.HasType sub := by
  induction hsub with
  | refl => exact h
  | pointer _ ih =>
    cases h with
    | pointer h => exact ih h
  | array _ ih =>
    cases h with
    | array h => exact ih h

theorem HasType.size_eq_exactSize {ty : Ty} (h : t.HasType ty) : ty.size.toInt = ty.exactSize := by
  induction h with
  | void | integer | pointer => exact (Ty.exactSize_of_not_isArray rfl).symm
  | @array element n _ _ hexact ih =>
    rw [Ty.exactSize_array, ← ih, Int.mul_comm]
    exact hexact

theorem HasType.alignment_dvd_size {ty : Ty} (h : t.HasType ty) :
    ty.alignment.toInt ∣ ty.size.toInt := by
  induction h with
  | void | integer | pointer => exact Int.dvd_refl _
  | array _ _ hexact ih =>
    rw [Ty.size, hexact]
    exact Int.dvd_mul_of_dvd_left ih

theorem HasType.laidOut (hsize : 0 < t.pointerSize.toInt) {ty : Ty} (h : t.HasType ty) :
    ty.LaidOut where
  size_eq := h.size_eq_exactSize
  exactSize_nonneg := h.size_eq_exactSize ▸ size_nonneg_of_hasType hsize h
  exactSize_le := h.size_eq_exactSize ▸ ty.size.toInt_le
  alignment_eq := ty.alignment_innermost.symm
  alignment_pos := alignment_pos_of_hasType hsize h
  alignment_dvd := h.alignment_dvd_size

/-- The type of a spelling is laid out exactly, and so is every type within it: no
size wraps, whatever the lengths are. -/
theorem laidOut_of_parse (hsize : 0 < t.pointerSize) {spec : String} {ty sub : Ty}
    (h : t.parse spec = .ok ty) (hsub : sub.Within ty) : sub.LaidOut := by
  have hpos : 0 < t.pointerSize.toInt := Int64.lt_iff_toInt_lt.mp hsize
  exact ((parse_hasType hpos h).within hsub).laidOut hpos

theorem laidOut_of_parse_boundary :
    let t : Table := ⟨8⟩
    let row : Ty := .array (t.pointerTo (t.integer true .char)) 1152921504606846975
    0 < t.pointerSize ∧ t.parse "char*[0][1152921504606846975]" = .ok (.array row 0) ∧
      row.Within (.array row 0) ∧ row.LaidOut ∧ row.exactSize = 9223372036854775800 := by
  intro t row
  have hread : t.parse "char*[0][1152921504606846975]" = .ok (.array row 0) := by decide +kernel
  have hsub : row.Within (.array row 0) := .array .refl
  exact ⟨by decide, hread, hsub, laidOut_of_parse (by decide) hread hsub, by decide⟩

end Table

end Cflat
