import Cflat.Asm.Operand
import Cflat.Asm.Literal
import Cflat.Text.Decimal
import Mathlib.Data.List.Basic

/-!
# Tokens of a listing

How an assembler reads the arguments of a directive, and that it reads back what
was written.

* Numbers: `Text.readInt64?` reads the decimal spelling of every word.
* Strings: `readLiteral?` decodes a literal between its quotes, octal escapes of up
  to three digits included.
* Addresses: `readAddress?` reads a symbol that may be moved by an offset.
-/

namespace Cflat

/-- A list can be cut at the last occurrence of a member in one way only. -/
theorem append_cons_inj_of_notMem_right {α : Type} {a : α} {l₁ l₂ r₁ r₂ : List α}
    (h₁ : a ∉ r₁) (h₂ : a ∉ r₂) (h : l₁ ++ a :: r₁ = l₂ ++ a :: r₂) : l₁ = l₂ ∧ r₁ = r₂ := by
  rw [List.append_eq_append_iff] at h
  rcases h with ⟨c, rfl, hc⟩ | ⟨c, rfl, hc⟩
  · cases c with
    | nil => simpa using hc
    | cons b c =>
      rw [List.cons_append, List.cons.injEq] at hc
      exact absurd (hc.2 ▸ by simp) h₁
  · cases c with
    | nil => simpa [eq_comm] using hc
    | cons b c =>
      rw [List.cons_append, List.cons.injEq] at hc
      exact absurd (hc.2 ▸ by simp) h₂

/-! ## Numbers -/

namespace Text

theorem digitsValue_toDigits (n : Nat) : digitsValue (Nat.toDigits 10 n) = n :=
  (Nat.ofDigitChars_eq_foldl).symm.trans Nat.ofDigitChars_ten_toDigits

theorem isDecimalDigit_eq_isDigit (c : Char) : isDecimalDigit c = c.isDigit := by
  simp only [isDecimalDigit, Char.isDigit, Char.le_def]

theorem readDigits?_toDigits (n : Nat) : readDigits? (Nat.toDigits 10 n) = some n := by
  have hall : (Nat.toDigits 10 n).all isDecimalDigit = true := by
    rw [List.all_eq_true]
    intro c hc
    rw [isDecimalDigit_eq_isDigit]
    exact Nat.isDigit_of_mem_toDigits (by decide) (by decide) hc
  simp [readDigits?, hall, Nat.toDigits_ne_nil, digitsValue_toDigits]

theorem int64OfInt?_toInt (n : Int64) : int64OfInt? n.toInt = some n := by
  have hlo := n.minValue_le_toInt
  have hhi := n.toInt_le
  rw [int64OfInt?, if_pos ⟨hlo, hhi⟩, Int64.ofInt_toInt]

/-- Digits have no sign in front of them. -/
theorem readInt64?_of_isDigit {c : Char} {ds : List Char} (h : c.isDigit) :
    readInt64? (c :: ds) = (readDigits? (c :: ds)).bind fun n => int64OfInt? n := by
  unfold readInt64?
  split
  · next heq =>
    rw [List.cons.injEq] at heq
    simp [heq.1] at h
  · next heq =>
    rw [List.cons.injEq] at heq
    simp [heq.1] at h
  · rfl

theorem readInt64?_toDigits {n : Int64} {k : Nat} (hk : n.toInt = k) :
    readInt64? (Nat.toDigits 10 k) = some n := by
  have hread := readDigits?_toDigits k
  cases hds : Nat.toDigits 10 k with
  | nil => exact absurd hds Nat.toDigits_ne_nil
  | cons c ds =>
    have hc : c.isDigit :=
      Nat.isDigit_of_mem_toDigits (by decide) (by decide) (hds ▸ List.mem_cons_self)
    rw [readInt64?_of_isDigit hc, ← hds, hread, Option.bind_some, ← hk, int64OfInt?_toInt]

theorem toList_toString_of_nonneg {n : Int64} (h : 0 ≤ n.toInt) :
    (toString n).toList = Nat.toDigits 10 n.toInt.toNat := by
  rw [show toString n = toString n.toInt from rfl, Int.toString_eq_repr, Int.repr_eq_if, if_pos h]
  simp [Nat.repr]

theorem toList_toString_of_neg {n : Int64} (h : n.toInt < 0) :
    (toString n).toList = '-' :: Nat.toDigits 10 (-n.toInt).toNat := by
  rw [show toString n = toString n.toInt from rfl, Int.toString_eq_repr, Int.repr_eq_if,
    if_neg (by omega)]
  simp [Nat.repr]

theorem toInt_neg {n : Int64} (hne : n ≠ 0) (hpos : ¬0 < n) : n.toInt < 0 := by
  have hne' : n.toInt ≠ 0 := fun h => hne (Int64.toInt_inj.mp h)
  have hle := Int64.lt_iff_toInt_lt.not.mp hpos
  rw [Int64.toInt_zero] at hle
  omega

theorem notMem_toDigits {c : Char} (hc : c.isDigit = false) (n : Nat) :
    c ∉ Nat.toDigits 10 n := by
  intro h
  rw [Nat.isDigit_of_mem_toDigits (by decide) (by decide) h] at hc
  cases hc

/-- The spelling of a word has only digits and a minus sign. -/
theorem notMem_toString {c : Char} (hdigit : c.isDigit = false) (hminus : c ≠ '-') (n : Int64) :
    c ∉ (toString n).toList := by
  by_cases h : 0 ≤ n.toInt
  · rw [toList_toString_of_nonneg h]
    exact notMem_toDigits hdigit _
  · rw [toList_toString_of_neg (by omega), List.mem_cons, not_or]
    exact ⟨hminus, notMem_toDigits hdigit _⟩

/-- Every word is read back from its decimal spelling. -/
theorem readInt64?_toString (n : Int64) : readInt64? (toString n).toList = some n := by
  by_cases h : 0 ≤ n.toInt
  · rw [toList_toString_of_nonneg h]
    exact readInt64?_toDigits (Int.toNat_of_nonneg h).symm
  · rw [toList_toString_of_neg (by omega), readInt64?, readDigits?_toDigits, Option.bind_some,
      Int.toNat_of_nonneg (by omega), Int.neg_neg, int64OfInt?_toInt]

/-- A positive word may have a plus sign. -/
theorem readInt64?_plus {n : Int64} (h : 0 ≤ n.toInt) :
    readInt64? ('+' :: (toString n).toList) = some n := by
  rw [toList_toString_of_nonneg h, readInt64?, readDigits?_toDigits, Option.bind_some,
    Int.toNat_of_nonneg h, int64OfInt?_toInt]

/-- A word starts with a digit or a minus sign. -/
theorem exists_toList_toString (n : Int64) :
    ∃ c ds, (toString n).toList = c :: ds ∧ (c.isDigit ∨ c = '-') := by
  by_cases h : 0 ≤ n.toInt
  · rw [toList_toString_of_nonneg h]
    cases hds : Nat.toDigits 10 n.toInt.toNat with
    | nil => exact absurd hds Nat.toDigits_ne_nil
    | cons c ds =>
      exact ⟨c, ds, rfl, .inl (Nat.isDigit_of_mem_toDigits (by decide) (by decide)
        (hds ▸ List.mem_cons_self))⟩
  · exact ⟨'-', _, toList_toString_of_neg (by omega), .inr rfl⟩

end Text

/-! ## Strings -/

namespace Asm

/-- The digits of an escaped byte. -/
def isOctalDigit (c : Char) : Bool :=
  '0' ≤ c && c ≤ '7'

/-- The byte with the given octal digits, of which the low eight bits count. -/
def octalByte (ds : List Char) : UInt8 :=
  UInt8.ofNat (ds.foldl (fun n d => 8 * n + (d.toNat - '0'.toNat)) 0)

/-- The byte that a letter after a backslash stands for. -/
def escapedByte? : Char → Option UInt8
  | '"' => some 0x22
  | '\\' => some 0x5c
  | 'b' => some 0x08
  | 't' => some 0x09
  | 'n' => some 0x0a
  | 'f' => some 0x0c
  | 'r' => some 0x0d
  | _ => none

/-- The bytes of a literal after its opening quote.  The closing quote has to be
the end of the text. -/
def readLiteralBody? : List Char → Option (List UInt8)
  | [] => none
  | '"' :: rest => if rest.isEmpty then some [] else none
  | '\\' :: rest =>
    let ds := (rest.take 3).takeWhile isOctalDigit
    if ds.isEmpty then
      match rest with
      | [] => none
      | c :: rest =>
        match escapedByte? c with
        | some b => (readLiteralBody? rest).map (b :: ·)
        | none => none
    else (readLiteralBody? (rest.drop ds.length)).map (octalByte ds :: ·)
  | c :: rest => (readLiteralBody? rest).map (String.utf8EncodeChar c ++ ·)
termination_by cs => cs.length
decreasing_by all_goals simp; try omega

/-- The bytes of a literal in quotes. -/
def readLiteral? : List Char → Option (List UInt8)
  | '"' :: body => readLiteralBody? body
  | _ => none

/-- What a check of each byte shows holds for every byte. -/
@[elab_as_elim]
theorem forall_byte {motive : UInt8 → Prop} (b : UInt8)
    (h : ∀ n : Fin 256, motive (UInt8.ofNat n.val)) : motive b := by
  simpa using h ⟨b.toNat, b.toNat_lt⟩

theorem isOctalDigit_octalDigit (n : Nat) : isOctalDigit (octalDigit n) = true := by
  have hlt : n % 8 < 8 := Nat.mod_lt n (by decide)
  unfold octalDigit
  generalize n % 8 = k at hlt ⊢
  decide +revert

theorem toNat_octalDigit (n : Nat) : (octalDigit n).toNat - '0'.toNat = n % 8 := by
  have hlt : n % 8 < 8 := Nat.mod_lt n (by decide)
  unfold octalDigit
  generalize n % 8 = k at hlt ⊢
  decide +revert

/-- Three digits give the byte they were made of. -/
theorem octalByte_octalDigits (b : UInt8) :
    octalByte [octalDigit (b.toNat / 64), octalDigit (b.toNat / 8), octalDigit b.toNat] = b := by
  have hlt := b.toNat_lt
  simp only [octalByte, List.foldl_cons, List.foldl_nil, toNat_octalDigit]
  have hvalue : 8 * (8 * (8 * 0 + b.toNat / 64 % 8) + b.toNat / 8 % 8) + b.toNat % 8 = b.toNat := by
    omega
  rw [hvalue, UInt8.ofNat_toNat]

/-- A backslash and a letter. -/
theorem readLiteralBody?_escape {c : Char} {b : UInt8} (hc : escapedByte? c = some b)
    (hoctal : isOctalDigit c = false) (rest : List Char) :
    readLiteralBody? ('\\' :: c :: rest) = (readLiteralBody? rest).map (b :: ·) := by
  rw [readLiteralBody?]
  simp [hoctal, hc]

/-- A backslash and three octal digits. -/
theorem readLiteralBody?_octal {c d e : Char} (hc : isOctalDigit c) (hd : isOctalDigit d)
    (he : isOctalDigit e) (rest : List Char) :
    readLiteralBody? ('\\' :: c :: d :: e :: rest) =
      (readLiteralBody? rest).map (octalByte [c, d, e] :: ·) := by
  rw [readLiteralBody?]
  simp [hc, hd, he]

theorem utf8EncodeChar_ofNat_of_lt {n : Nat} (hn : n < 0x80) :
    String.utf8EncodeChar (Char.ofNat n) = [UInt8.ofNat n] := by
  decide +kernel +revert

theorem ofNat_inj_of_lt {m n : Nat} (hm : m < 0x80) (hn : n < 0x80)
    (h : Char.ofNat m = Char.ofNat n) : m = n := by
  have hencoded := congrArg String.utf8EncodeChar h
  rw [utf8EncodeChar_ofNat_of_lt hm, utf8EncodeChar_ofNat_of_lt hn] at hencoded
  have hnat := congrArg UInt8.toNat (List.singleton_inj.mp hencoded)
  rw [UInt8.toNat_ofNat', UInt8.toNat_ofNat'] at hnat
  omega

/-- A printable character stands for itself. -/
theorem readLiteralBody?_printable {n : Nat} (hn : n < 0x80) (hquote : n ≠ 0x22)
    (hback : n ≠ 0x5c) (rest : List Char) :
    readLiteralBody? (Char.ofNat n :: rest) =
      (readLiteralBody? rest).map (UInt8.ofNat n :: ·) := by
  have hquote' : Char.ofNat n ≠ '"' := fun h => hquote (ofNat_inj_of_lt hn (by decide) h)
  have hback' : Char.ofNat n ≠ '\\' := fun h => hback (ofNat_inj_of_lt hn (by decide) h)
  rw [readLiteralBody?]
  · rw [utf8EncodeChar_ofNat_of_lt hn]
    rfl
  · exact hquote'
  · exact hback'

/-- The escape of a byte is read as the byte, whatever comes after it. -/
theorem readLiteralBody?_escapeByte (b : UInt8) (rest : List Char) :
    readLiteralBody? (escapeByte b ++ rest) = (readLiteralBody? rest).map (b :: ·) := by
  have hbyte {k : Nat} (hk : b.toNat = k) : b = UInt8.ofNat k := by
    rw [← hk, UInt8.ofNat_toNat]
  unfold escapeByte
  dsimp only
  split
  · next h => exact readLiteralBody?_escape (by rw [hbyte h]; rfl) (by decide) rest
  split
  · next h => exact readLiteralBody?_escape (by rw [hbyte h]; rfl) (by decide) rest
  split
  · next hquote hback h =>
    have hprint := readLiteralBody?_printable (by omega) hquote hback rest
    rwa [UInt8.ofNat_toNat] at hprint
  split
  · next h => exact readLiteralBody?_escape (by rw [hbyte h]; rfl) (by decide) rest
  split
  · next h => exact readLiteralBody?_escape (by rw [hbyte h]; rfl) (by decide) rest
  split
  · next h => exact readLiteralBody?_escape (by rw [hbyte h]; rfl) (by decide) rest
  split
  · next h => exact readLiteralBody?_escape (by rw [hbyte h]; rfl) (by decide) rest
  split
  · next h => exact readLiteralBody?_escape (by rw [hbyte h]; rfl) (by decide) rest
  · have hoctal := readLiteralBody?_octal (isOctalDigit_octalDigit (b.toNat / 64))
      (isOctalDigit_octalDigit (b.toNat / 8)) (isOctalDigit_octalDigit b.toNat) rest
    rwa [octalByte_octalDigits] at hoctal

/-- A literal is read back as the bytes it was written for. -/
theorem readLiteral?_literalChars (bytes : List UInt8) :
    readLiteral? (literalChars bytes) = some bytes := by
  have hbody : readLiteralBody? (bytes.flatMap escapeByte ++ ['"']) = some bytes := by
    induction bytes with
    | nil =>
      rw [List.flatMap_nil, List.nil_append, readLiteralBody?]
      rfl
    | cons b bytes ih =>
      rw [List.flatMap_cons, List.append_assoc, readLiteralBody?_escapeByte, ih]
      rfl
  rw [literalChars, List.cons_append]
  exact hbody

/-! ## Addresses -/

/-- The characters of symbols. -/
def isSymbolChar (c : Char) : Bool :=
  c.isAlphanum || c = '_' || c = '.' || c = '$'

/-- What an assembler takes for a symbol. -/
structure IsSymbol (s : String) : Prop where
  chars : ∀ c ∈ s.toList, isSymbolChar c
  /-- A number is not a symbol. -/
  head : ∀ c ∈ s.toList.head?, c.isDigit = false
  nonempty : s ≠ ""

/-- A letter or an underscore, then letters, digits and underscores. -/
def IsIdentifier (s : String) : Prop :=
  ∃ c cs, s.toList = c :: cs ∧ (c.isAlpha ∨ c = '_') ∧ ∀ d ∈ cs, d.isAlphanum ∨ d = '_'

/-- Decided on the list: a quantifier over characters would be decided by trying them all. -/
instance (s : String) : Decidable (IsIdentifier s) :=
  match h : s.toList with
  | [] => .isFalse fun ⟨_, _, hs, _⟩ => List.cons_ne_nil _ _ (hs.symm.trans h)
  | c :: cs =>
    decidable_of_iff ((c.isAlpha || c = '_') && cs.all fun d => d.isAlphanum || d = '_')
      (by simp [IsIdentifier, h])

theorem isSymbolChar_of_isDigit {c : Char} (h : c.isDigit) : isSymbolChar c := by
  simp [isSymbolChar, Char.isAlphanum, h]

/-- A text that starts like an identifier and goes on with characters of symbols. -/
theorem isSymbol_of_cons {s : String} {c : Char} {cs : List Char} (hs : s.toList = c :: cs)
    (hc : isSymbolChar c) (hdigit : c.isDigit = false) (hcs : ∀ d ∈ cs, isSymbolChar d) :
    IsSymbol s where
  chars := by
    rw [hs, List.forall_mem_cons]
    exact ⟨hc, hcs⟩
  head := by
    rw [hs]
    rintro d ⟨rfl⟩
    exact hdigit
  nonempty := by
    rintro rfl
    simp at hs

theorem isDigit_of_isAlpha {c : Char} (h : c.isAlpha) : c.isDigit = false := by
  change (decide (c.val ≥ 'A'.val ∧ c.val ≤ 'Z'.val) || c.val ≥ 'a'.val && c.val ≤ 'z'.val) = true
    at h
  by_contra hdigit
  simp only [Char.isDigit, Bool.or_eq_true, Bool.and_eq_true, decide_eq_true_eq,
    Bool.not_eq_false, UInt32.le_iff_toNat_le, ge_iff_le, Char.reduceVal,
    UInt32.reduceToNat] at h hdigit
  omega

theorem IsIdentifier.exists_cons {s : String} (hs : IsIdentifier s) :
    ∃ c cs, s.toList = c :: cs ∧ isSymbolChar c ∧ c.isDigit = false ∧
      ∀ d ∈ cs, isSymbolChar d := by
  obtain ⟨c, cs, hlist, hc, hcs⟩ := hs
  refine ⟨c, cs, hlist, ?_, ?_, fun d hd => ?_⟩
  · rcases hc with hc | rfl
    · simp [isSymbolChar, Char.isAlphanum, hc]
    · decide
  · rcases hc with hc | rfl
    · exact isDigit_of_isAlpha hc
    · decide
  · rcases hcs d hd with hd | rfl
    · simp [isSymbolChar, hd]
    · decide

theorem IsIdentifier.isSymbol {s : String} (hs : IsIdentifier s) : IsSymbol s := by
  obtain ⟨c, cs, hlist, hc, hdigit, hcs⟩ := hs.exists_cons
  exact isSymbol_of_cons hlist hc hdigit hcs

/-- A symbol, and the offset behind it if there is one. -/
def readAddress? (cs : List Char) : Option (String × Int64) :=
  let name := cs.takeWhile isSymbolChar
  if name.isEmpty then none
  else
    match cs.dropWhile isSymbolChar with
    | [] => some (String.ofList name, 0)
    | offset => (Text.readInt64? offset).map (String.ofList name, ·)

theorem render_direct_zero (s : String) : (Operand.direct s 0).render = s := by
  simp [Operand.render]

/-- A text is read up to the first character that cannot be in a symbol. -/
theorem span_symbol {s : String} (hs : IsSymbol s) {rest : List Char}
    (hrest : ∀ c ∈ rest.head?, isSymbolChar c = false) :
    (s.toList ++ rest).takeWhile isSymbolChar = s.toList ∧
      (s.toList ++ rest).dropWhile isSymbolChar = rest := by
  have htake : rest.takeWhile isSymbolChar = [] := by
    cases rest with
    | nil => rfl
    | cons c rest => simp [hrest c rfl]
  have hdrop : rest.dropWhile isSymbolChar = rest := by
    cases rest with
    | nil => rfl
    | cons c rest => simp [hrest c rfl]
  constructor
  · rw [List.takeWhile_append_of_pos hs.chars, htake, List.append_nil]
  · rw [List.dropWhile_append_of_pos hs.chars, hdrop]

theorem readAddress?_symbol {s : String} (hs : IsSymbol s) (rest : List Char)
    (hrest : ∀ c ∈ rest.head?, isSymbolChar c = false) :
    readAddress? (s.toList ++ rest) =
      if rest.isEmpty then some (s, 0) else (Text.readInt64? rest).map (s, ·) := by
  obtain ⟨htake, hdrop⟩ := span_symbol hs hrest
  have hne : s.toList.isEmpty = false := by simpa using hs.nonempty
  simp only [readAddress?, htake, hdrop, hne, Bool.false_eq_true, if_false, String.ofList_toList]
  cases rest <;> rfl

/-- A moved symbol is read back. -/
theorem readAddress?_render {s : String} (hs : IsSymbol s) (offset : Int64) :
    readAddress? (Operand.direct s offset).render.toList = some (s, offset) := by
  unfold Operand.render
  dsimp only
  split
  · next hzero =>
    have hread := readAddress?_symbol hs [] nofun
    simpa [hzero] using hread
  · next hne =>
    split
    · next hpos =>
      have hnonneg : 0 ≤ offset.toInt := Int.le_of_lt (Int64.lt_iff_toInt_lt.mp hpos)
      have hread := readAddress?_symbol hs ('+' :: (toString offset).toList) (by simp; decide)
      rw [Text.readInt64?_plus hnonneg] at hread
      change readAddress? (s ++ "+" ++ toString offset).toList = _
      rw [String.toList_append, String.toList_append, List.append_assoc]
      exact hread
    · next hneg =>
      have hlt := Text.toInt_neg hne hneg
      have hread := readAddress?_symbol hs (toString offset).toList (by
        rw [Text.toList_toString_of_neg hlt]
        simp
        decide)
      rw [Text.readInt64?_toString] at hread
      change readAddress? (s ++ toString offset).toList = _
      rw [String.toList_append, hread, Text.toList_toString_of_neg hlt]
      rfl

end Asm

end Cflat
