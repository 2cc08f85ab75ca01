import Cflat.Proofs.Dimensions
import Cflat.Proofs.Tokens
import Cflat.Proofs.Words
import Mathlib.Data.List.Forall2
import Mathlib.Logic.Function.Iterate

/-!
# The grammar of type spellings

A type is spelled by the words of a base type, then stars, then lengths in brackets,
with white space allowed around every token.  `Table.Spells` is this grammar, read
from left to right; `Table.parse` works from the end of the text backwards.

* Numerals: what `Text.readInt64?` reads.
* Base types: the words that name one.
* What is at the end of a text: brackets and stars are stripped exactly as far as the
  grammar goes.
* Lengths that fit: the test on the size of an array.
* The two directions: a text that is read is spelled so, and a text that is spelled so
  is read.
-/

namespace Cflat

open Text

/-! ## Numerals -/

namespace Text

/-- A run of decimal digits. -/
structure IsDigits (ds : List Char) : Prop where
  ne_nil : ds ≠ []
  digits : ∀ c ∈ ds, c.isDigit

/-- An optional sign and decimal digits, and the number that they denote. -/
inductive Numeral : List Char → Int → Prop
  | plain {ds : List Char} : IsDigits ds → Numeral ds (Nat.ofDigitChars 10 ds 0)
  | plus {ds : List Char} : IsDigits ds → Numeral ('+' :: ds) (Nat.ofDigitChars 10 ds 0)
  | minus {ds : List Char} : IsDigits ds → Numeral ('-' :: ds) (-(Nat.ofDigitChars 10 ds 0 : Int))

theorem readDigits?_eq_some_iff {ds : List Char} {k : Nat} :
    readDigits? ds = some k ↔ IsDigits ds ∧ k = Nat.ofDigitChars 10 ds 0 := by
  have hdigits : (!ds.isEmpty && ds.all isDecimalDigit) = true ↔ IsDigits ds := by
    simp only [Bool.and_eq_true, Bool.not_eq_true', List.isEmpty_eq_false_iff, List.all_eq_true,
      isDecimalDigit_eq_isDigit]
    exact ⟨fun h => ⟨h.1, h.2⟩, fun h => ⟨h.ne_nil, h.digits⟩⟩
  simp only [readDigits?, hdigits, Option.ite_none_right_eq_some, Option.some.injEq]
  exact and_congr_right fun _ => eq_comm

theorem int64OfInt?_eq_some_iff {k : Int} {n : Int64} :
    int64OfInt? k = some n ↔ n.toInt = k := by
  constructor
  · intro h
    simp only [int64OfInt?, Option.ite_none_right_eq_some, Option.some.injEq] at h
    obtain ⟨⟨hlo, hhi⟩, rfl⟩ := h
    rw [Int64.toInt_minValue] at hlo
    rw [Int64.toInt_maxValue] at hhi
    exact Int64.toInt_ofInt_of_le hlo (by omega)
  · rintro rfl
    exact int64OfInt?_toInt n

theorem not_isDigits_cons {c : Char} {ds : List Char} (hc : c.isDigit = false) :
    ¬ IsDigits (c :: ds) := by
  intro h
  simp [h.digits c List.mem_cons_self] at hc

theorem numeral_minus_iff {ds : List Char} {k : Int} :
    Numeral ('-' :: ds) k ↔ IsDigits ds ∧ k = -(Nat.ofDigitChars 10 ds 0 : Int) := by
  constructor
  · intro h
    cases h with
    | plain hds => exact absurd hds (not_isDigits_cons (by decide))
    | minus hds => exact ⟨hds, rfl⟩
  · rintro ⟨hds, rfl⟩
    exact .minus hds

theorem numeral_plus_iff {ds : List Char} {k : Int} :
    Numeral ('+' :: ds) k ↔ IsDigits ds ∧ k = Nat.ofDigitChars 10 ds 0 := by
  constructor
  · intro h
    cases h with
    | plain hds => exact absurd hds (not_isDigits_cons (by decide))
    | plus hds => exact ⟨hds, rfl⟩
  · rintro ⟨hds, rfl⟩
    exact .plus hds

theorem numeral_plain_iff {ds : List Char} {k : Int} (hminus : ∀ ds', ds ≠ '-' :: ds')
    (hplus : ∀ ds', ds ≠ '+' :: ds') :
    Numeral ds k ↔ IsDigits ds ∧ k = Nat.ofDigitChars 10 ds 0 := by
  constructor
  · intro h
    cases h with
    | plain hds => exact ⟨hds, rfl⟩
    | plus => exact absurd rfl (hplus _)
    | minus => exact absurd rfl (hminus _)
  · rintro ⟨hds, rfl⟩
    exact .plain hds

/-- Digits are read as the word that `f` makes of their value. -/
theorem bind_readDigits?_eq_some_iff {ds : List Char} {f : Nat → Int} {n : Int64} :
    ((readDigits? ds).bind fun k => int64OfInt? (f k)) = some n ↔
      IsDigits ds ∧ n.toInt = f (Nat.ofDigitChars 10 ds 0) := by
  simp only [Option.bind_eq_some_iff, readDigits?_eq_some_iff, int64OfInt?_eq_some_iff]
  constructor
  · rintro ⟨k, ⟨hds, rfl⟩, hn⟩
    exact ⟨hds, hn⟩
  · rintro ⟨hds, hn⟩
    exact ⟨_, ⟨hds, rfl⟩, hn⟩

/-- A word is read from the numerals that denote it. -/
theorem readInt64?_eq_some_iff {ds : List Char} {n : Int64} :
    readInt64? ds = some n ↔ Numeral ds n.toInt := by
  unfold readInt64?
  split
  · rw [bind_readDigits?_eq_some_iff, numeral_minus_iff]
  · rw [bind_readDigits?_eq_some_iff, numeral_plus_iff]
  · next hminus hplus =>
    rw [bind_readDigits?_eq_some_iff, numeral_plain_iff hminus hplus]

theorem Numeral.forall_mem {ds : List Char} {k : Int} (h : Numeral ds k) :
    ∀ c ∈ ds, c.isDigit ∨ c = '+' ∨ c = '-' := by
  intro c hc
  cases h with
  | plain hds => exact .inl (hds.digits c hc)
  | plus hds =>
    rcases List.mem_cons.mp hc with rfl | hc
    · exact .inr (.inl rfl)
    · exact .inl (hds.digits c hc)
  | minus hds =>
    rcases List.mem_cons.mp hc with rfl | hc
    · exact .inr (.inr rfl)
    · exact .inl (hds.digits c hc)

theorem isBlank_of_isDigit {c : Char} (h : c.isDigit) : isBlank c = false := by
  have hrange : 48 ≤ c.toNat ∧ c.toNat ≤ 57 := by
    simpa [Char.isDigit, UInt32.le_iff_toNat_le] using h
  simp only [isBlank, Bool.or_eq_false_iff, Bool.and_eq_false_iff, decide_eq_false_iff_not,
    beq_eq_false_iff_ne]
  omega

theorem Numeral.isWord {ds : List Char} {k : Int} (h : Numeral ds k) : IsWord ds where
  ne_nil := by
    cases h with
    | plain hds => exact hds.ne_nil
    | plus | minus => exact List.cons_ne_nil _ _
  solid c hc := by
    rcases h.forall_mem c hc with hc | rfl | rfl
    · exact isBlank_of_isDigit hc
    · decide
    · decide

theorem Numeral.bracket_notMem {ds : List Char} {k : Int} (h : Numeral ds k) : '[' ∉ ds := by
  intro hmem
  exact absurd (h.forall_mem '[' hmem) (by decide)

end Text

namespace Table

variable {t : Table}

/-! ## Base types -/

/-- The words that name a base type. -/
inductive IsBase (t : Table) : List String → Ty → Prop
  | void : t.IsBase ["void"] .void
  | signed (rank : Rank) : t.IsBase [rank.spelling] (t.integer true rank)
  | unsigned (rank : Rank) : t.IsBase ["unsigned", rank.spelling] (t.integer false rank)

theorem IsBase.words_baseName {names : List String} {base : Ty} (h : t.IsBase names base) :
    words base.baseName = names := by
  cases h with
  | void => rfl
  | signed rank =>
    change words rank.spelling = [rank.spelling]
    cases rank <;> rfl
  | unsigned rank =>
    change words ("unsigned " ++ rank.spelling) = ["unsigned", rank.spelling]
    cases rank <;> rfl

theorem exists_isBase_of_lookup? {name : String} {base : Ty} (h : t.lookup? name = some base) :
    ∃ names, t.IsBase names base := by
  obtain ⟨-, rfl | ⟨signed, rank, rfl⟩⟩ := lookup?_cases h
  · exact ⟨_, .void⟩
  · cases signed with
    | true => exact ⟨_, .signed rank⟩
    | false => exact ⟨_, .unsigned rank⟩

/-- Words are looked up by joining them with single spaces. -/
theorem lookup?_intercalate_eq_some_iff {ws : List (List Char)} (hws : ∀ w ∈ ws, IsWord w)
    {base : Ty} : t.lookup? (String.intercalate " " (ws.map String.ofList)) = some base ↔
      t.IsBase (ws.map String.ofList) base := by
  constructor
  · intro h
    obtain ⟨names, hbase⟩ := exists_isBase_of_lookup? h
    have htext : base.baseName.toList = [' '].intercalate ws := by
      simp [← (lookup?_cases h).1, String.toList_intercalate, Function.comp_def]
    have hwords : words base.baseName = ws.map String.ofList := by
      rw [words, htext, wordsChars_eq_iff.mpr (hasWords_intercalate hws)]
    rwa [← hwords, hbase.words_baseName]
  · generalize ws.map String.ofList = names
    intro h
    cases h with
    | void => rfl
    | signed rank => cases rank <;> rfl
    | unsigned rank => cases rank <;> rfl

/-! ## What is at the end of a text -/

/-- The numeral in brackets denotes the length of an array. -/
structure IsLength (numeral : List Char) (n : Int64) : Prop where
  numeral : Numeral numeral n.toInt
  nonneg : 0 ≤ n.toInt

/-- The tokens of a length. -/
def bracketed (numeral : List Char) : List (List Char) :=
  [['['], numeral, [']']]

theorem spaced_bracketed_iff {numeral text : List Char} :
    Spaced (bracketed numeral) text ↔
      ∃ before pre post after, IsGap before ∧ IsGap pre ∧ IsGap post ∧ IsGap after ∧
        text = before ++ '[' :: (pre ++ (numeral ++ post)) ++ ']' :: after := by
  constructor
  · rintro (_ | ⟨hbefore, _ | ⟨hpre, _ | ⟨hpost, ⟨hafter⟩⟩⟩⟩)
    exact ⟨_, _, _, _, hbefore, hpre, hpost, hafter, by simp⟩
  · rintro ⟨before, pre, post, after, hbefore, hpre, hpost, hafter, rfl⟩
    have h : Spaced (bracketed numeral) _ :=
      .cons hbefore (.cons hpre (.cons hpost (.nil hafter)))
    simpa using h

theorem stripLengths_of_notMem {spec : String} {rev : List Char} (h : ']' ∉ rev) :
    stripLengths spec rev = .ok ([], rev) := by
  unfold stripLengths
  split
  · exact absurd List.mem_cons_self h
  · rfl

/-- A length in brackets is stripped, with the white space before it. -/
theorem stripLengths_close {spec : String} {inner before : List Char} {n : Int64}
    (hinner : '[' ∉ inner) (hread : readInt64? (trimChars inner) = some n) (hn : 0 ≤ n.toInt) :
    stripLengths spec (']' :: (inner.reverse ++ '[' :: before)) = (do
      let (dims, rest) ← stripLengths spec (before.dropWhile isBlank)
      return (n :: dims, rest)) := by
  have hall : ∀ c ∈ inner.reverse, (c != '[') = true := by
    intro c hc
    rw [bne_iff_ne]
    rintro rfl
    exact hinner (List.mem_reverse.mp hc)
  have htake : (inner.reverse ++ '[' :: before).takeWhile (· != '[') = inner.reverse := by
    rw [List.takeWhile_append_of_pos hall, List.takeWhile_cons_of_neg (by decide), List.append_nil]
  have hdrop : (inner.reverse ++ '[' :: before).dropWhile (· != '[') = '[' :: before := by
    rw [List.dropWhile_append_of_pos hall, List.dropWhile_cons_of_neg (by decide)]
  have hneg : ¬ n < 0 := by
    rw [Int64.lt_iff_toInt_lt, Int64.toInt_zero]
    omega
  rw [stripLengths]
  split
  · next h => simp [hdrop] at h
  · next c before' h =>
    obtain ⟨rfl, rfl⟩ := List.cons.inj (hdrop.symm.trans h)
    rw [htake, List.reverse_reverse, hread]
    exact if_neg hneg

theorem stripLengths_append_bracketed {spec : String} {numeral front last : List Char} {n : Int64}
    (hlength : IsLength numeral n) (hlast : Spaced (bracketed numeral) last) :
    stripLengths spec ((front ++ last).reverse.dropWhile isBlank) = (do
      let (dims, rest) ← stripLengths spec (front.reverse.dropWhile isBlank)
      return (n :: dims, rest)) := by
  obtain ⟨before, pre, post, after, hbefore, hpre, hpost, hafter, rfl⟩ :=
    spaced_bracketed_iff.mp hlast
  have hinner : '[' ∉ pre ++ (numeral ++ post) := by
    simp only [List.mem_append, not_or]
    refine ⟨fun h => ?_, hlength.numeral.bracket_notMem, fun h => ?_⟩
    · exact absurd (hpre '[' h) (by decide)
    · exact absurd (hpost '[' h) (by decide)
  have hread : readInt64? (trimChars (pre ++ (numeral ++ post))) = some n := by
    rw [hlength.numeral.isWord.trimChars_gaps hpre hpost]
    exact readInt64?_eq_some_iff.mpr hlength.numeral
  have hrev : (front ++ (before ++ '[' :: (pre ++ (numeral ++ post)) ++ ']' :: after)).reverse =
      after.reverse ++ ']' :: ((pre ++ (numeral ++ post)).reverse ++
        '[' :: (before.reverse ++ front.reverse)) := by
    simp
  rw [hrev, dropWhile_gap_append (isGap_reverse hafter) (startsSolid_cons (by decide) _),
    stripLengths_close hinner hread hlength.nonneg,
    List.dropWhile_append_of_pos (isGap_reverse hbefore)]

/-- The brackets of `tail` are stripped, and of the text before them only white space.
The numerals come from the last bracket to the first. -/
theorem stripLengths_spaced {spec : String} {numerals : List (List Char)} {dims : List Int64}
    (hdims : List.Forall₂ IsLength numerals dims) {front tail : List Char}
    (hfront : ']' ∉ front) (htail : Spaced (numerals.reverse.flatMap bracketed) tail) :
    stripLengths spec ((front ++ tail).reverse.dropWhile isBlank) =
      .ok (dims, front.reverse.dropWhile isBlank) := by
  induction hdims generalizing tail with
  | nil =>
    rw [dropWhile_reverse_append_gap htail.isGap]
    exact stripLengths_of_notMem (notMem_dropWhile_reverse hfront)
  | cons hlength _ ih =>
    rw [List.reverse_cons, List.flatMap_append, List.flatMap_singleton] at htail
    obtain ⟨tail, last, htail', hlast, rfl⟩ := htail.exists_of_append
    rw [← List.append_assoc, stripLengths_append_bracketed hlength hlast, ih htail']
    rfl

/-- What is stripped in one step is a length in brackets. -/
theorem exists_bracketed {inside before : List Char} {c : Char} {n : Int64}
    (hopen : inside.dropWhile (· != '[') = c :: before)
    (hread : readInt64? (trimChars (inside.takeWhile (· != '[')).reverse) = some n)
    (hn : ¬ n < 0) :
    ∃ numeral last, IsLength numeral n ∧ Spaced (bracketed numeral) last ∧
      (']' :: inside).reverse = (before.dropWhile isBlank).reverse ++ last := by
  obtain ⟨gap, hgap, hbefore⟩ := exists_gap_dropWhile before
  obtain ⟨pre, post, hpre, hpost, hinner⟩ :=
    exists_gaps_trimChars (inside.takeWhile (· != '[')).reverse
  generalize trimChars (inside.takeWhile (· != '[')).reverse = numeral at hread hinner
  have hlength : IsLength numeral n := by
    refine ⟨readInt64?_eq_some_iff.mp hread, ?_⟩
    rw [Int64.lt_iff_toInt_lt, Int64.toInt_zero] at hn
    omega
  have hlast : Spaced (bracketed numeral) _ :=
    spaced_bracketed_iff.mpr ⟨_, pre, post, [], isGap_reverse hgap, hpre, hpost, isGap_nil, rfl⟩
  refine ⟨numeral, _, hlength, hlast, ?_⟩
  have hc : c = '[' := by
    have h := List.head?_dropWhile_not (· != '[') inside
    simpa [hopen] using h
  calc (']' :: inside).reverse
      = (inside.takeWhile (· != '[') ++ inside.dropWhile (· != '[')).reverse ++ [']'] := by
        rw [List.takeWhile_append_dropWhile, List.reverse_cons]
    _ = before.reverse ++ '[' :: (pre ++ (numeral ++ post)) ++ [']'] := by
        rw [hopen, hc, List.reverse_append, hinner]
        simp
    _ = (gap ++ before.dropWhile isBlank).reverse ++
          '[' :: (pre ++ (numeral ++ post)) ++ [']'] := by
        rw [← hbefore]
    _ = _ := by simp

/-- What is stripped are brackets. -/
theorem spaced_of_stripLengths {spec : String} {rev rest : List Char} {dims : List Int64}
    (h : stripLengths spec rev = .ok (dims, rest)) :
    ∃ numerals tail, List.Forall₂ IsLength numerals dims ∧
      Spaced (numerals.reverse.flatMap bracketed) tail ∧ rev.reverse = rest.reverse ++ tail := by
  fun_induction stripLengths spec rev generalizing dims rest with
  | case1 | case2 | case3 => cases h
  | case4 inside c before hopen n hread hn ih =>
    rw [bind_eq_ok_iff] at h
    obtain ⟨⟨dims', rest'⟩, hstrip, heq⟩ := h
    obtain ⟨rfl, rfl⟩ := Prod.mk.inj (Except.ok.inj heq)
    obtain ⟨numerals, tail, hdims, htail, hbefore⟩ := ih hstrip
    obtain ⟨numeral, last, hlength, hlast, hinside⟩ := exists_bracketed hopen hread hn
    refine ⟨numeral :: numerals, tail ++ last, .cons hlength hdims, ?_, ?_⟩
    · rw [List.reverse_cons, List.flatMap_append, List.flatMap_singleton]
      exact htail.append hlast
    · rw [hinside, hbefore, List.append_assoc]
  | case5 =>
    obtain ⟨rfl, rfl⟩ := Prod.mk.inj (Except.ok.inj h)
    exact ⟨[], [], .nil, .nil isGap_nil, by simp⟩

theorem stripStars_of_notMem {rev : List Char} (h : '*' ∉ rev) : stripStars rev = (0, rev) := by
  unfold stripStars
  split
  · exact absurd List.mem_cons_self h
  · rfl

/-- The stars of `tail` are stripped, and of the text before them only white space. -/
theorem stripStars_spaced {stars : Nat} {front tail : List Char} (hfront : '*' ∉ front)
    (htail : Spaced (List.replicate stars ['*']) tail) :
    stripStars ((front ++ tail).reverse.dropWhile isBlank) =
      (stars, front.reverse.dropWhile isBlank) := by
  induction stars generalizing tail with
  | zero =>
    rw [dropWhile_reverse_append_gap htail.isGap]
    exact stripStars_of_notMem (notMem_dropWhile_reverse hfront)
  | succ stars ih =>
    rw [List.replicate_succ'] at htail
    obtain ⟨tail, last, htail', hlast, rfl⟩ := htail.exists_of_append
    obtain ⟨before, after, hbefore, hafter, rfl⟩ := hlast.exists_gaps
    have hrev : (front ++ (tail ++ (before ++ (['*'] ++ after)))).reverse =
        after.reverse ++ '*' :: (before.reverse ++ (front ++ tail).reverse) := by
      simp
    rw [hrev, dropWhile_gap_append (isGap_reverse hafter) (startsSolid_cons (by decide) _),
      stripStars, List.dropWhile_append_of_pos (isGap_reverse hbefore), ih htail']

/-- What is stripped are stars. -/
theorem spaced_of_stripStars {rev rest : List Char} {stars : Nat}
    (h : stripStars rev = (stars, rest)) :
    ∃ tail, Spaced (List.replicate stars ['*']) tail ∧ rev.reverse = rest.reverse ++ tail := by
  fun_induction stripStars rev generalizing stars rest with
  | case1 text n base heq ih =>
    obtain ⟨rfl, rfl⟩ := Prod.mk.inj h
    obtain ⟨tail, htail, hbefore⟩ := ih heq
    obtain ⟨gap, hgap, htext⟩ := exists_gap_dropWhile text
    have hlast : Spaced [['*']] (gap.reverse ++ ['*'] ++ []) :=
      .cons (isGap_reverse hgap) (.nil isGap_nil)
    refine ⟨tail ++ (gap.reverse ++ ['*'] ++ []), ?_, ?_⟩
    · rw [List.replicate_succ']
      exact htail.append hlast
    · rw [htext]
      simp [hbefore]
  | case2 =>
    obtain ⟨rfl, rfl⟩ := Prod.mk.inj h
    exact ⟨[], .nil isGap_nil, by simp⟩

end Table

/-! ## Lengths that fit -/

namespace Ty

/-- No length takes the size of an array beyond a 64-bit word, from the innermost
dimension outwards.  The lengths have the outermost first.  Elements of no size are
never too large. -/
def Fits (element : Ty) : List Int64 → Prop
  | [] => True
  | n :: inner => element.Fits inner ∧ (0 < (element.arrays inner).size.toInt →
      n.toInt * (element.arrays inner).size.toInt ≤ Int64.maxValue.toInt)

theorem arrays_concat (element : Ty) (outer : List Int64) (n : Int64) :
    element.arrays (outer ++ [n]) = (array element n).arrays outer := by
  simp [arrays]

theorem fits_concat_iff {element : Ty} {outer : List Int64} {n : Int64} :
    element.Fits (outer ++ [n]) ↔ (array element n).Fits outer ∧
      (0 < element.size.toInt → n.toInt * element.size.toInt ≤ Int64.maxValue.toInt) := by
  induction outer with
  | nil => exact .rfl
  | cons m outer ih =>
    rw [List.cons_append, Fits, ih, arrays_concat, Fits, and_right_comm]

end Ty

namespace Table

variable {t : Table}

/-- The dimensions come from the innermost outwards. -/
theorem addLengths_eq_ok_iff {spec : String} {element ty : Ty} {dims : List Int64} :
    addLengths spec element dims = .ok ty ↔
      element.Fits dims.reverse ∧ ty = element.arrays dims.reverse := by
  induction dims generalizing element with
  | nil =>
    rw [addLengths, Except.ok.injEq, eq_comm]
    exact (and_iff_right trivial).symm
  | cons n dims ih =>
    rw [List.reverse_cons, Ty.fits_concat_iff, Ty.arrays_concat, addLengths, ← not_tooLarge_iff]
    split
    · next h => simp [h]
    · next h => simp [ih, h]

theorem addStars_eq_iterate (base : Ty) (n : Nat) : t.addStars base n = t.pointerTo^[n] base := by
  induction n generalizing base with
  | zero => rfl
  | succ n ih => exact ih (t.pointerTo base)

theorem isVoid_iterate_iff {base : Ty} {n : Nat} :
    (t.pointerTo^[n] base).isVoid ↔ base = .void ∧ n = 0 := by
  cases n with
  | zero => cases base <;> simp [Ty.isVoid]
  | succ n =>
    rw [Function.iterate_succ_apply']
    simp [Ty.isVoid, pointerTo]

/-- The test on arrays of void. -/
theorem arrayOfVoid_iff {base : Ty} {stars : Nat} {dims : List Int64} :
    ((t.addStars base stars).isVoid && !dims.isEmpty) = true ↔
      ¬ (base = .void → dims ≠ [] → 0 < stars) := by
  rw [addStars_eq_iterate, Bool.and_eq_true, isVoid_iterate_iff]
  simp only [Bool.not_eq_true', List.isEmpty_eq_false_iff, Classical.not_imp, Nat.not_lt,
    Nat.le_zero]
  tauto

/-- The steps of reading: lengths, stars, base type, and the two tests on the type. -/
theorem parse_eq_ok_iff {spec : String} {ty : Ty} :
    t.parse spec = .ok ty ↔ trimChars spec.toList ≠ [] ∧ ∃ dims rev stars rev' base,
      stripLengths spec (trimChars spec.toList).reverse = .ok (dims, rev) ∧
      stripStars rev = (stars, rev') ∧
      t.lookup? (String.intercalate " " ((wordsChars rev'.reverse).map String.ofList)) =
        some base ∧
      (base = .void → dims ≠ [] → 0 < stars) ∧
      (t.pointerTo^[stars] base).Fits dims.reverse ∧
      ty = (t.pointerTo^[stars] base).arrays dims.reverse := by
  simp only [parse, ↓guard_eq_ok_iff, bind_eq_ok_iff, List.isEmpty_iff]
  refine and_congr_right fun _ => ⟨?_, ?_⟩
  · rintro ⟨⟨dims, rev⟩, hlengths, h⟩
    split at h
    · simp [throw_eq_ok_iff] at h
    · next base hbase =>
      rw [guard_eq_ok_iff, arrayOfVoid_iff, not_not, addLengths_eq_ok_iff,
        addStars_eq_iterate] at h
      exact ⟨dims, rev, _, _, base, hlengths, rfl, hbase, h⟩
  · rintro ⟨dims, rev, stars, rev', base, hlengths, hstars, hbase, h⟩
    refine ⟨(dims, rev), hlengths, ?_⟩
    simp only [hstars, hbase]
    rw [guard_eq_ok_iff, arrayOfVoid_iff, not_not, addLengths_eq_ok_iff, addStars_eq_iterate]
    exact h

/-! ## The two directions -/

/-- The grammar of type spellings.  A spelling is the words of a base type, stars, and
lengths in brackets.  It denotes the base type wrapped in as many pointers, and in
arrays of which the leftmost length is the outermost. -/
inductive Spells (t : Table) : List Char → Ty → Prop
  | intro {names : List String} {base : Ty} {stars : Nat} {numerals : List (List Char)}
    {dims : List Int64} {name rest : List Char} (isBase : t.IsBase names base)
    (hasWords : HasWords (names.map String.toList) name)
    (spaced : Spaced (List.replicate stars ['*'] ++ numerals.flatMap bracketed) rest)
    (lengths : List.Forall₂ IsLength numerals dims)
    (void : base = .void → dims ≠ [] → 0 < stars)
    (fits : (t.pointerTo^[stars] base).Fits dims) :
    t.Spells (name ++ rest) ((t.pointerTo^[stars] base).arrays dims)

/-- A text that is read follows the grammar. -/
theorem Spells.of_parse {spec : String} {ty : Ty} (h : t.parse spec = .ok ty) :
    t.Spells spec.toList ty := by
  obtain ⟨-, dims, rev, stars, rev', base, hlengths, hstars, hbase, hvoid, hfits, rfl⟩ :=
    parse_eq_ok_iff.mp h
  obtain ⟨pre, post, hpre, hpost, hspec⟩ := exists_gaps_trimChars spec.toList
  obtain ⟨numerals, brackets, hdims, hbrackets, htrim⟩ := spaced_of_stripLengths hlengths
  obtain ⟨tail, htail, hrev⟩ := spaced_of_stripStars hstars
  have hwords := hasWords_wordsChars rev'.reverse
  have hmap : ((wordsChars rev'.reverse).map String.ofList).map String.toList =
      wordsChars rev'.reverse := by
    simp [Function.comp_def]
  have hsplit : spec.toList = pre ++ rev'.reverse ++ (tail ++ (brackets ++ post)) := by
    rw [List.reverse_reverse, hrev] at htrim
    rw [hspec, htrim]
    simp only [List.append_assoc]
  rw [hsplit]
  refine .intro ((lookup?_intercalate_eq_some_iff hwords.isWord).mp hbase) ?_
    (htail.append (hbrackets.append_gap hpost)) (List.forall₂_reverse_iff.mpr hdims) ?_ hfits
  · rw [hmap]
    exact hwords.gap_append hpre
  · rwa [ne_eq, List.reverse_eq_nil_iff]

theorem IsBase.isAlpha {names : List String} {base : Ty} (h : t.IsBase names base) :
    ∀ w ∈ names.map String.toList, ∀ c ∈ w, c.isAlpha := by
  have hall : (names.all fun w => w.toList.all Char.isAlpha) = true := by
    cases h with
    | void => decide
    | signed rank => cases rank <;> decide
    | unsigned rank => cases rank <;> decide
  simpa using hall

theorem IsBase.forall_mem {names : List String} {base : Ty} (h : t.IsBase names base)
    {text : List Char} (htext : HasWords (names.map String.toList) text) :
    ∀ c ∈ text, isBlank c ∨ c.isAlpha := by
  intro c hc
  rcases htext.spaced.forall_mem c hc with hc | ⟨w, hw, hc⟩
  · exact .inl hc
  · exact .inr (h.isAlpha w hw c hc)

theorem IsBase.exists_cons {names : List String} {base : Ty} (h : t.IsBase names base) :
    ∃ w ws, names.map String.toList = w :: ws := by
  cases h with
  | void => exact ⟨_, _, rfl⟩
  | signed rank => exact ⟨_, _, rfl⟩
  | unsigned rank => exact ⟨_, _, rfl⟩

/-- A text that follows the grammar is read. -/
theorem Spells.parse {spec : String} {ty : Ty} (h : t.Spells spec.toList ty) :
    t.parse spec = .ok ty := by
  generalize htext : spec.toList = text at h
  obtain @⟨names, base, stars, numerals, dims, name, rest, hbase, hwords, hspaced, hdims, hvoid,
    hfits⟩ := h
  obtain ⟨w, ws, hcons⟩ := hbase.exists_cons
  rw [hcons] at hwords
  obtain ⟨gap, body, hgap, rfl, hbody, hsolid, hne⟩ := hwords.exists_gap
  rw [← hcons] at hbody
  obtain ⟨tail, brackets, htail, hbrackets, rfl⟩ := hspaced.exists_of_append
  have hletters := hbase.forall_mem hbody
  have hstar : '*' ∉ body := fun h => absurd (hletters '*' h) (by decide)
  have hclose : ']' ∉ body ++ tail := by
    intro h
    rcases List.mem_append.mp h with h | h
    · exact absurd (hletters ']' h) (by decide)
    · rcases htail.forall_mem ']' h with h | ⟨token, htoken, h⟩
      · exact absurd h (by decide)
      · rw [List.eq_of_mem_replicate htoken] at h
        exact absurd h (by decide)
  have htrim : (trimChars spec.toList).reverse =
      (body ++ tail ++ brackets).reverse.dropWhile isBlank := by
    rw [htext, List.append_assoc, reverse_trimChars_gap_append hgap (hsolid _),
      List.append_assoc]
  have hlookup : t.lookup? (String.intercalate " "
      ((wordsChars (trimEndChars body)).map String.ofList)) = some base := by
    rw [wordsChars_trimEndChars, wordsChars_eq_iff.mpr hbody,
      lookup?_intercalate_eq_some_iff hbody.isWord]
    simpa [Function.comp_def] using hbase
  rw [parse_eq_ok_iff]
  refine ⟨?_, dims.reverse, _, stars, _, base, ?_, stripStars_spaced hstar htail, hlookup, ?_⟩
  · obtain ⟨c, body, rfl⟩ := List.exists_cons_of_ne_nil hne
    rw [htext]
    exact trimChars_ne_nil (by simp) (hsolid [] c rfl)
  · rw [htrim]
    exact stripLengths_spaced (List.forall₂_reverse_iff.mpr hdims) hclose
      (by rwa [List.reverse_reverse])
  · rw [List.reverse_reverse, ne_eq, List.reverse_eq_nil_iff]
    exact ⟨hvoid, hfits, rfl⟩

/-- Reading accepts exactly the spellings of the grammar, and answers the type that
they denote. -/
theorem parse_eq_ok_iff_spells (t : Table) (spec : String) (ty : Ty) :
    t.parse spec = .ok ty ↔ t.Spells spec.toList ty :=
  ⟨Spells.of_parse, Spells.parse⟩

end Table

end Cflat
