import Cflat.Proofs.Tokens
import Mathlib.Data.List.TakeWhile

/-!
# Operands are unambiguous

The five addressing modes share one text space, and symbols may look like numbers.  That no
text stands for two operands is shown by a reader: `Operand.read?` gives back every operand
from its text, so two operands with one text are the same.

* The first character tells registers, immediates and call targets from the rest.
* Only a reference through a register has a parenthesis; what stands before it is the offset.
* A symbol has no sign in it, so the offset of a direct reference starts at the first sign.
-/

namespace Cflat.Asm

/-! ## Names -/

/-- Letters, digits, `_` and `.`; what lies outside ASCII counts as a letter. -/
def isNameChar (c : Char) : Bool :=
  c.isAlphanum || c = '_' || c = '.' || 0x80 ≤ c.toNat

/-- What registers and symbols may be called; a number will do. -/
structure IsPlainName (s : String) : Prop where
  nonempty : s ≠ ""
  chars : ∀ c ∈ s.toList, isNameChar c

theorem IsPlainName.ne_of_mem {s : String} (hs : IsPlainName s) {c d : Char} (hc : c ∈ s.toList)
    (hd : isNameChar d = false) : c ≠ d := by
  rintro rfl
  simp [hs.chars c hc] at hd

theorem IsPlainName.exists_cons {s : String} (hs : IsPlainName s) :
    ∃ c cs, s.toList = c :: cs ∧ isNameChar c := by
  cases hlist : s.toList with
  | nil => exact absurd (String.toList_eq_nil_iff.mp hlist) hs.nonempty
  | cons c cs => exact ⟨c, cs, rfl, hs.chars c (by simp [hlist])⟩

namespace Operand

/-- The names in an operand are plain. -/
def WellNamed : Operand → Prop
  | register r | indirect r _ | absolute r => IsPlainName r.name
  | direct symbol _ => IsPlainName symbol
  | immediate _ => True

/-! ## Reading -/

/-- An offset that is zero is left out. -/
def readOffset? (cs : List Char) : Option Int64 :=
  if cs.isEmpty then some 0 else Text.readInt64? cs

/-- The signs of an offset. -/
def isSign (c : Char) : Bool :=
  c = '+' || c = '-'

/-- A symbol, and the offset from the first sign on. -/
def readDirect? (cs : List Char) : Option Operand :=
  (readOffset? (cs.dropWhile (!isSign ·))).map
    (direct (String.ofList (cs.takeWhile (!isSign ·))))

/-- A reference to memory.  Through a register it has the offset first, then the register in
parentheses. -/
def readMemory? (cs : List Char) : Option Operand :=
  match cs.dropWhile (· ≠ '(') with
  | '(' :: '%' :: base =>
    (readOffset? (cs.takeWhile (· ≠ '('))).map (indirect ⟨String.ofList base.dropLast⟩)
  | _ => readDirect? cs

/-- The operand that a text spells. -/
def read? : List Char → Option Operand
  | '%' :: name => some (register ⟨String.ofList name⟩)
  | '$' :: value => (Text.readInt64? value).map immediate
  | '*' :: '%' :: name => some (absolute ⟨String.ofList name⟩)
  | cs => readMemory? cs

theorem read?_of_head {c : Char} {cs : List Char} (hregister : c ≠ '%') (himmediate : c ≠ '$')
    (habsolute : c ≠ '*') : read? (c :: cs) = readMemory? (c :: cs) := by
  unfold read?
  split
  · next heq => exact absurd (List.cons.inj heq).1 hregister
  · next heq => exact absurd (List.cons.inj heq).1 himmediate
  · next heq => exact absurd (List.cons.inj heq).1 habsolute
  · rfl

/-! ## References through a register -/

/-- The spelling of an offset in front of a register. -/
def offsetText (offset : Int64) : String :=
  if offset = 0 then "" else toString offset

theorem readOffset?_offsetText (offset : Int64) :
    readOffset? (offsetText offset).toList = some offset := by
  unfold offsetText
  split
  · next hzero => simp [readOffset?, hzero]
  · obtain ⟨c, ds, hlist, -⟩ := Text.exists_toList_toString offset
    have hread := Text.readInt64?_toString offset
    rw [hlist] at hread ⊢
    simpa [readOffset?] using hread

theorem paren_notMem_offsetText (offset : Int64) : '(' ∉ (offsetText offset).toList := by
  unfold offsetText
  split
  · simp
  · exact Text.notMem_toString (by decide) (by decide) offset

theorem toList_render_indirect (base : Register) (offset : Int64) :
    (indirect base offset).render.toList =
      (offsetText offset).toList ++ '(' :: '%' :: (base.name.toList ++ [')']) := by
  unfold render offsetText
  dsimp only
  split
  · simp [Register.render]
  · simp [Register.render]

/-- The text of a reference through a register starts with its offset or a parenthesis. -/
theorem exists_toList_render_indirect (base : Register) (offset : Int64) :
    ∃ c cs, (indirect base offset).render.toList = c :: cs ∧ (c.isDigit ∨ c = '-' ∨ c = '(') := by
  rw [toList_render_indirect]
  unfold offsetText
  split
  · exact ⟨'(', _, rfl, .inr (.inr rfl)⟩
  · obtain ⟨c, ds, hlist, hc⟩ := Text.exists_toList_toString offset
    refine ⟨c, ds ++ '(' :: '%' :: (base.name.toList ++ [')']), by rw [hlist]; rfl, ?_⟩
    rcases hc with hc | hc
    · exact .inl hc
    · exact .inr (.inl hc)

theorem read?_render_indirect (base : Register) (offset : Int64) :
    read? (indirect base offset).render.toList = some (indirect base offset) := by
  have hmemory : readMemory? (indirect base offset).render.toList =
      some (indirect base offset) := by
    have hpos : ∀ c ∈ (offsetText offset).toList, decide (c ≠ '(') = true := by
      intro c hc
      simpa using fun heq : c = '(' => paren_notMem_offsetText offset (heq ▸ hc)
    rw [toList_render_indirect, readMemory?, List.dropWhile_append_of_pos hpos,
      List.takeWhile_append_of_pos hpos]
    simp [readOffset?_offsetText]
  obtain ⟨c, cs, hlist, hc⟩ := exists_toList_render_indirect base offset
  rw [← hmemory, hlist]
  apply read?_of_head
  all_goals
    rintro rfl
    simp at hc

/-! ## Direct references -/

/-- The spelling of an offset behind a symbol. -/
def signedText (offset : Int64) : String :=
  if offset = 0 then "" else if 0 < offset then "+" ++ toString offset else toString offset

theorem toList_render_direct (symbol : String) (offset : Int64) :
    (direct symbol offset).render.toList = symbol.toList ++ (signedText offset).toList := by
  unfold render signedText
  dsimp only
  split
  · simp
  · split
    · simp [toString]
    · simp [toString]

theorem readOffset?_signedText (offset : Int64) :
    readOffset? (signedText offset).toList = some offset := by
  unfold signedText
  split
  · next hzero => simp [readOffset?, hzero]
  · next hne =>
    split
    · next hpos =>
      have hnonneg : 0 ≤ offset.toInt := Int.le_of_lt (Int64.lt_iff_toInt_lt.mp hpos)
      have hread := Text.readInt64?_plus hnonneg
      simpa [readOffset?] using hread
    · have hread := readOffset?_offsetText offset
      rwa [offsetText, if_neg hne] at hread

theorem isSign_head_signedText (offset : Int64) :
    ∀ c ∈ (signedText offset).toList.head?, isSign c = true := by
  unfold signedText
  split
  · simp
  · next hne =>
    split
    · simp [isSign]
    · next hpos =>
      rw [Text.toList_toString_of_neg (Text.toInt_neg hne hpos)]
      simp [isSign]

theorem readDirect?_render {symbol : String} (hs : IsPlainName symbol) (offset : Int64) :
    readDirect? (direct symbol offset).render.toList = some (direct symbol offset) := by
  have hpos : ∀ c ∈ symbol.toList, (!isSign c) = true := by
    intro c hc
    have hplus := hs.ne_of_mem hc (d := '+') (by decide)
    have hminus := hs.ne_of_mem hc (d := '-') (by decide)
    simp [isSign, hplus, hminus]
  have hstop : ∀ hlen : 0 < (signedText offset).toList.length,
      ¬ (!isSign ((signedText offset).toList.get ⟨0, hlen⟩)) = true := by
    intro hlen
    have hsign := isSign_head_signedText offset ((signedText offset).toList.get ⟨0, hlen⟩)
      (by simp [List.head?_eq_getElem?])
    rw [hsign]
    decide
  have htake : (signedText offset).toList.takeWhile (!isSign ·) = [] :=
    List.takeWhile_eq_nil_iff.mpr hstop
  have hdrop : (signedText offset).toList.dropWhile (!isSign ·) = (signedText offset).toList :=
    List.dropWhile_eq_self_iff.mpr hstop
  rw [toList_render_direct, readDirect?, List.dropWhile_append_of_pos hpos,
    List.takeWhile_append_of_pos hpos, htake, hdrop, readOffset?_signedText]
  simp

theorem paren_notMem_render_direct {symbol : String} (hs : IsPlainName symbol) (offset : Int64) :
    '(' ∉ (direct symbol offset).render.toList := by
  rw [toList_render_direct, List.mem_append, not_or]
  refine ⟨fun h => hs.ne_of_mem h (d := '(') (by decide) rfl, ?_⟩
  have hnumber := Text.notMem_toString (c := '(') (by decide) (by decide) offset
  unfold signedText
  split
  · simp
  · split
    · simpa using hnumber
    · exact hnumber

theorem read?_render_direct {symbol : String} (hs : IsPlainName symbol) (offset : Int64) :
    read? (direct symbol offset).render.toList = some (direct symbol offset) := by
  have hmemory : readMemory? (direct symbol offset).render.toList =
      some (direct symbol offset) := by
    have hparen : (direct symbol offset).render.toList.dropWhile (· ≠ '(') = [] := by
      rw [List.dropWhile_eq_nil_iff]
      intro c hc
      simpa using fun heq : c = '(' => paren_notMem_render_direct hs offset (heq ▸ hc)
    rw [readMemory?, hparen]
    exact readDirect?_render hs offset
  obtain ⟨c, cs, hlist, hc⟩ := hs.exists_cons
  rw [← hmemory, toList_render_direct, hlist]
  apply read?_of_head
  all_goals
    rintro rfl
    exact absurd hc (by decide)

/-! ## All modes -/

/-- Every operand is read back from its text. -/
theorem read?_render {x : Operand} (h : x.WellNamed) : read? x.render.toList = some x := by
  cases x with
  | register r => simp [render, Register.render, read?]
  | immediate n =>
    have hlist : (immediate n).render.toList = '$' :: (toString n).toList := by
      simp [render, toString]
    rw [hlist, read?, Text.readInt64?_toString, Option.map_some]
  | direct symbol offset => exact read?_render_direct h offset
  | indirect base offset => exact read?_render_indirect base offset
  | absolute r => simp [render, Register.render, read?]

/-- **Operand syntax is unambiguous.**  Operands with plain names have the same text only if
they are the same, addressing mode and all. -/
theorem render_eq_render_iff {x y : Operand} (hx : x.WellNamed) (hy : y.WellNamed) :
    x.render = y.render ↔ x = y := by
  constructor
  · intro h
    have hread := read?_render hx
    rw [h, read?_render hy, Option.some.injEq] at hread
    exact hread.symm
  · rintro rfl
    rfl

/-- A symbol that is a number, moved as far as possible, against the memory at a register of
the same name. -/
theorem render_eq_render_iff_digits :
    let x := direct "10" Int64.minValue
    let y := indirect ⟨"10"⟩ Int64.minValue
    x.WellNamed ∧ y.WellNamed ∧ x.render ≠ y.render := by
  intro x y
  have hname : IsPlainName "10" := ⟨by decide, by simp; decide⟩
  have hx : x.WellNamed := hname
  have hy : y.WellNamed := hname
  exact ⟨hx, hy, (render_eq_render_iff hx hy).not.mpr (by simp [x, y])⟩

end Operand

end Cflat.Asm
