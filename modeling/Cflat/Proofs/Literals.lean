import Cflat.Proofs.Tokens

/-!
# Literals are lossless and safe

A literal holds any bytes within printable ASCII characters, and only its two ends are
quotes that end a literal.

* Bytes: those of a text are the bytes of its characters.
* Characters: what the escape of a byte is made of.
* Quotes: a quote is escaped by an odd number of backslashes before it.  The escapes of
  bytes leave an even number behind them, so that the closing quote is not escaped.
-/

namespace Cflat

/-! ## Bytes -/

namespace Text

theorem toList_loop_eq (bytes : ByteArray) (i : Nat) (done : List UInt8) :
    ByteArray.toList.loop bytes i done = done.reverse ++ bytes.data.toList.drop i := by
  fun_induction ByteArray.toList.loop bytes i done with
  | case1 i done hi ih =>
    have hdrop : bytes.data.toList.drop i = bytes.get! i :: bytes.data.toList.drop (i + 1) := by
      have hlength : i < bytes.data.toList.length := hi
      rw [List.drop_eq_getElem_cons hlength]
      simp [ByteArray.get!, hi]
    rw [ih, hdrop, List.reverse_cons, List.append_assoc, List.singleton_append]
  | case2 i done hi =>
    have hlength : bytes.data.toList.length ≤ i := Nat.le_of_not_lt hi
    rw [List.drop_eq_nil_of_le hlength, List.append_nil]

/-- The bytes of a text are those of its characters. -/
theorem toList_toUTF8 (s : String) :
    s.toUTF8.toList = s.toList.flatMap String.utf8EncodeChar := by
  have hbytes : s.toUTF8 = (s.toList.flatMap String.utf8EncodeChar).toByteArray :=
    String.utf8Encode_toList.symm
  rw [ByteArray.toList, toList_loop_eq, hbytes, List.toList_data_toByteArray]
  rfl

end Text

namespace Asm

/-! ## Characters -/

/-- The characters from the space to the tilde. -/
def isPrintable (c : Char) : Bool :=
  0x20 ≤ c.toNat && c.toNat ≤ 0x7e

theorem all_isPrintable_escapeByte (b : UInt8) : (escapeByte b).all isPrintable :=
  forall_byte b (by decide +kernel)

theorem isPrintable_of_mem_literalChars {bytes : List UInt8} {c : Char}
    (hc : c ∈ literalChars bytes) : isPrintable c := by
  simp only [literalChars, List.cons_append, List.mem_cons, List.mem_append, List.mem_flatMap,
    List.not_mem_nil, or_false] at hc
  rcases hc with rfl | ⟨b, -, hc⟩ | rfl
  · decide
  · exact List.all_eq_true.mp (all_isPrintable_escapeByte b) c hc
  · decide

/-- A printable character is one byte, its own code. -/
theorem utf8EncodeChar_of_isPrintable {c : Char} (h : isPrintable c) :
    String.utf8EncodeChar c = [UInt8.ofNat c.toNat] := by
  simp only [isPrintable, Bool.and_eq_true, decide_eq_true_eq] at h
  have hencode := utf8EncodeChar_ofNat_of_lt (n := c.toNat) (by omega)
  rwa [Char.ofNat_toNat] at hencode

theorem range_of_mem_bytes_literal {bytes : List UInt8} {b : UInt8}
    (hb : b ∈ (literal bytes).toUTF8.toList) : 0x20 ≤ b ∧ b ≤ 0x7e := by
  rw [Text.toList_toUTF8, literal, String.toList_ofList, List.mem_flatMap] at hb
  obtain ⟨c, hc, hb⟩ := hb
  have hprintable := isPrintable_of_mem_literalChars hc
  rw [utf8EncodeChar_of_isPrintable hprintable, List.mem_singleton] at hb
  simp only [isPrintable, Bool.and_eq_true, decide_eq_true_eq] at hprintable
  rw [hb, UInt8.le_iff_toNat_le, UInt8.le_iff_toNat_le, UInt8.toNat_ofNat']
  change 0x20 ≤ c.toNat % 256 ∧ c.toNat % 256 ≤ 0x7e
  omega

/-! ## Quotes -/

/-- The number of backslashes at the end of a text. -/
def endBackslashes (text : List Char) : Nat :=
  (text.reverse.takeWhile (· = '\\')).length

/-- A quote that is not escaped: the backslashes right before it, if there are any,
escape each other in pairs. -/
def IsUnescapedQuote (text : List Char) (i : Nat) : Prop :=
  text[i]? = some '"' ∧ endBackslashes (text.take i) % 2 = 0

theorem endBackslashes_concat_backslash (text : List Char) :
    endBackslashes (text ++ ['\\']) = endBackslashes text + 1 := by
  simp [endBackslashes]

theorem endBackslashes_concat_of_ne (text : List Char) {c : Char} (h : c ≠ '\\') :
    endBackslashes (text ++ [c]) = 0 := by
  simp [endBackslashes, h]

theorem quote_notMem_escapeByte_or (b : UInt8) :
    '"' ∉ escapeByte b ∨ escapeByte b = ['\\', '"'] :=
  forall_byte b (by decide +kernel)

theorem getLast?_escapeByte_or (b : UInt8) :
    (escapeByte b).getLast?.any (· ≠ '\\') ∨ escapeByte b = ['\\', '\\'] :=
  forall_byte b (by decide +kernel)

/-- What comes after the escape of a byte is not escaped by it. -/
theorem endBackslashes_append_escapeByte {text : List Char} (h : endBackslashes text % 2 = 0)
    (b : UInt8) : endBackslashes (text ++ escapeByte b) % 2 = 0 := by
  rcases getLast?_escapeByte_or b with hlast | hpair
  · obtain ⟨c, hc, hne⟩ := (Option.any_eq_true ..).mp hlast
    obtain ⟨init, hinit⟩ := List.getLast?_eq_some_iff.mp hc
    rw [hinit, ← List.append_assoc, endBackslashes_concat_of_ne _ (of_decide_eq_true hne)]
  · have hsplit : text ++ ['\\', '\\'] = (text ++ ['\\']) ++ ['\\'] := by simp
    rw [hpair, hsplit, endBackslashes_concat_backslash, endBackslashes_concat_backslash]
    omega

/-- An escape has no quote that ends the literal. -/
theorem not_isUnescapedQuote_escapeByte {text : List Char} (h : endBackslashes text % 2 = 0)
    (b : UInt8) (rest : List Char) {i : Nat} (hlo : text.length ≤ i)
    (hhi : i < text.length + (escapeByte b).length) :
    ¬ IsUnescapedQuote (text ++ (escapeByte b ++ rest)) i := by
  rintro ⟨hquote, heven⟩
  rw [List.getElem?_append_right hlo, List.getElem?_append_left (by omega)] at hquote
  rcases quote_notMem_escapeByte_or b with hnone | hescaped
  · exact hnone (List.mem_of_getElem? hquote)
  · rw [hescaped] at hquote hhi heven
    have hi : i = text.length + 1 := by
      rcases Nat.eq_or_lt_of_le hlo with rfl | hlt
      · simp at hquote
      · simp only [List.length_cons, List.length_nil] at hhi
        omega
    have htake : (text ++ (['\\', '"'] ++ rest)).take i = text ++ ['\\'] := by
      rw [hi, List.take_length_add_append]
      rfl
    rw [htake, endBackslashes_concat_backslash] at heven
    omega

/-- After a text that escapes nothing, the only quote of the escapes of bytes and a
closing quote that is not escaped is the closing one. -/
theorem isUnescapedQuote_body_iff (bytes : List UInt8) {text : List Char} {i : Nat}
    (h : endBackslashes text % 2 = 0) (hi : text.length ≤ i) :
    IsUnescapedQuote (text ++ (bytes.flatMap escapeByte ++ ['"'])) i ↔
      i + 1 = (text ++ (bytes.flatMap escapeByte ++ ['"'])).length := by
  induction bytes generalizing text with
  | nil =>
    rw [List.flatMap_nil, List.nil_append]
    constructor
    · rintro ⟨hquote, -⟩
      obtain ⟨hlt, -⟩ := List.getElem?_eq_some_iff.mp hquote
      rw [List.length_append, List.length_singleton] at hlt ⊢
      omega
    · intro hend
      obtain rfl : i = text.length := by simpa using hend
      exact ⟨List.getElem?_concat_length, by rwa [List.take_left]⟩
  | cons b bytes ih =>
    rw [List.flatMap_cons, List.append_assoc]
    by_cases hhi : i < text.length + (escapeByte b).length
    · have hnot := not_isUnescapedQuote_escapeByte h b (bytes.flatMap escapeByte ++ ['"']) hi hhi
      refine iff_of_false hnot ?_
      simp only [List.length_append, List.length_singleton]
      omega
    · rw [← List.append_assoc]
      exact ih (endBackslashes_append_escapeByte h b) (by rw [List.length_append]; omega)

theorem isUnescapedQuote_literalChars_iff (bytes : List UInt8) (i : Nat) :
    IsUnescapedQuote (literalChars bytes) i ↔ i = 0 ∨ i + 1 = (literalChars bytes).length := by
  have hopen : literalChars bytes = ['"'] ++ (bytes.flatMap escapeByte ++ ['"']) := rfl
  cases i with
  | zero => exact iff_of_true ⟨rfl, rfl⟩ (.inl rfl)
  | succ i =>
    rw [hopen, isUnescapedQuote_body_iff bytes (by decide) (Nat.le_add_left 1 i)]
    simp

/-- A literal is printable, its first and its last character are its only quotes that
are not escaped, and it is read as the bytes it was written for. -/
theorem literal_lossless :
    (∀ bytes : List UInt8,
      (∀ b ∈ (literal bytes).toUTF8.toList, 0x20 ≤ b ∧ b ≤ 0x7e) ∧
      2 ≤ (literal bytes).toList.length ∧
      (∀ i, IsUnescapedQuote (literal bytes).toList i ↔
        i = 0 ∨ i + 1 = (literal bytes).toList.length) ∧
      readLiteral? (literal bytes).toList = some bytes) ∧
    Function.Injective literal := by
  have hread (bytes : List UInt8) : readLiteral? (literal bytes).toList = some bytes := by
    rw [literal, String.toList_ofList, readLiteral?_literalChars]
  refine ⟨fun bytes => ⟨fun b hb => range_of_mem_bytes_literal hb, ?_, fun i => ?_, hread bytes⟩,
    fun bytes others h => ?_⟩
  · simp [literal, literalChars]
  · rw [literal, String.toList_ofList, isUnescapedQuote_literalChars_iff]
  · have hsome := congrArg (readLiteral? ·.toList) h
    simpa only [hread, Option.some.injEq] using hsome

/-- A quote after a backslash, and an octal escape with a digit behind it. -/
theorem literal_lossless_octal :
    0x5c ∈ (literal [0x5c, 0x22, 0x01, 0x37]).toUTF8.toList ∧ (0x5c : UInt8) ≤ 0x7e ∧
      ¬ IsUnescapedQuote (literal [0x5c, 0x22, 0x01, 0x37]).toList 4 ∧
      readLiteral? (literal [0x5c, 0x22, 0x01, 0x37]).toList = some [0x5c, 0x22, 0x01, 0x37] ∧
      literal [0x01, 0x37] ≠ literal [0x0f] := by
  have hmem : 0x5c ∈ (literal [0x5c, 0x22, 0x01, 0x37]).toUTF8.toList := by decide +kernel
  have hlength : (literal [0x5c, 0x22, 0x01, 0x37]).toList.length = 11 := by decide +kernel
  obtain ⟨hrange, -, hquotes, hread⟩ := literal_lossless.1 [0x5c, 0x22, 0x01, 0x37]
  refine ⟨hmem, (hrange _ hmem).2, ?_, hread, literal_lossless.2.ne (by decide)⟩
  rw [hquotes, hlength]
  decide

end Asm

end Cflat
