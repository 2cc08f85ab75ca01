import Cflat.CommandLine.Help
import Cflat.Proofs.Words
import Mathlib.Data.List.Chain

/-!
# Wrapped texts

A text is put on lines word by word, and a line is ended only when the next word does not fit.
Nothing is lost, and there is no way to do with fewer lines.

* Words of texts that are put together.
* `WordLine`: what a line looks like that is being filled.
* `fillLines` takes the words in order and fills every line.
* `length_wrap_le`: no other way to wrap the text has fewer lines.
-/

namespace Cflat.Text

/-! ## Words of texts -/

/-- Texts put together have the words of both, if white space is between them. -/
theorem HasWords.append {text text' : List Char} {ws ws' : List (List Char)}
    (h : HasWords ws text) (h' : HasWords ws' text') (hnext : ∀ c ∈ text'.head?, isBlank c) :
    HasWords (ws ++ ws') (text ++ text') := by
  induction h with
  | nil hgap => exact h'.gap_append hgap
  | @cons _ _ _ text hgap hw hnext' _ ih =>
    rw [List.append_assoc, List.cons_append]
    refine .cons hgap hw ?_ ih
    cases text with
    | nil => exact hnext
    | cons c text => exact hnext'

theorem isWord_of_mem_words {text w : String} (h : w ∈ words text) : IsWord w.toList := by
  obtain ⟨cs, hcs, rfl⟩ := List.mem_map.mp h
  rw [String.toList_ofList]
  exact (hasWords_wordsChars text.toList).isWord cs hcs

theorem HasWords.mem {text w : List Char} {ws : List (List Char)} (h : HasWords ws text)
    (hw : w ∈ ws) {c : Char} (hc : c ∈ w) : c ∈ text := by
  induction h with
  | nil => cases hw
  | cons _ _ _ _ ih =>
    rcases List.mem_cons.mp hw with rfl | hw
    · simp [hc]
    · simp [ih hw]

/-- A word is made of characters of the text. -/
theorem mem_of_mem_words {text w : String} (h : w ∈ words text) {c : Char} (hc : c ∈ w.toList) :
    c ∈ text.toList := by
  obtain ⟨cs, hcs, rfl⟩ := List.mem_map.mp h
  rw [String.toList_ofList] at hc
  exact (hasWords_wordsChars text.toList).mem hcs hc

theorem words_eq_iff {text : String} {ws : List String} :
    words text = ws ↔ HasWords (ws.map String.toList) text.toList := by
  rw [← wordsChars_eq_iff, words]
  constructor
  · rintro rfl
    simp
  · intro h
    rw [h]
    simp

theorem words_word {w : String} (h : IsWord w.toList) : words w = [w] := by
  rw [words_eq_iff]
  have hword : HasWords [w.toList] ([] ++ w.toList ++ []) :=
    .cons isGap_nil h (by simp) (.nil isGap_nil)
  simpa using hword

theorem words_append_word (line : String) {w : String} (h : IsWord w.toList) :
    words (line ++ " " ++ w) = words line ++ [w] := by
  have hspace : IsGap [' '] := List.forall_mem_singleton.mpr (by decide)
  have hline : HasWords ((words line).map String.toList) line.toList := words_eq_iff.mp rfl
  have hword : HasWords [w.toList] (' ' :: w.toList) :=
    (words_eq_iff.mp (words_word h)).gap_append hspace
  rw [words_eq_iff]
  simpa using hline.append hword (by simp; decide)

end Cflat.Text

namespace Cflat.CommandLine

open Text (words IsWord)

variable {width : Nat}

/-! ## Lines -/

theorem utf8ByteSize_append_word (line w : String) :
    (line ++ " " ++ w).utf8ByteSize = line.utf8ByteSize + 1 + w.utf8ByteSize := by
  rw [String.utf8ByteSize_append, String.utf8ByteSize_append]
  rfl

/-- A line of words with single spaces between them.  If it does not fit, it is one word. -/
structure WordLine (width : Nat) (line : String) : Prop where
  words_ne_nil : words line ≠ []
  spaced : line = " ".intercalate (words line)
  fits : width < line.utf8ByteSize → ∃ w, words line = [w]

theorem wordLine_word {w : String} (hw : IsWord w.toList) : WordLine width w := by
  have hwords := Text.words_word hw
  exact ⟨by simp [hwords], by simp [hwords], fun _ => ⟨w, hwords⟩⟩

theorem WordLine.extend {line w : String} (h : WordLine width line) (hw : IsWord w.toList)
    (hroom : line.utf8ByteSize + 1 + w.utf8ByteSize ≤ width) :
    WordLine width (line ++ " " ++ w) := by
  have hwords := Text.words_append_word line hw
  refine ⟨by simp [hwords], ?_, fun hwide => ?_⟩
  · rw [hwords, String.intercalate_append_of_ne_nil h.words_ne_nil (by simp), ← h.spaced,
      String.intercalate_singleton]
  · rw [utf8ByteSize_append_word] at hwide
    omega

/-! ## Filling lines -/

section Fill

variable {line : String} {ws : List String}

/-- The words stay, in their order. -/
theorem flatMap_words_fillLines (hws : ∀ w ∈ ws, IsWord w.toList) :
    (fillLines width line ws).flatMap words = words line ++ ws := by
  induction ws generalizing line with
  | nil => simp [fillLines]
  | cons w ws ih =>
    rw [List.forall_mem_cons] at hws
    rw [fillLines]
    split
    · rw [ih hws.2, Text.words_append_word line hws.1]
      simp
    · rw [List.flatMap_cons, ih hws.2, Text.words_word hws.1]
      simp

theorem wordLine_of_mem_fillLines (hline : WordLine width line) (hws : ∀ w ∈ ws, IsWord w.toList) :
    ∀ l ∈ fillLines width line ws, WordLine width l := by
  induction ws generalizing line with
  | nil =>
    intro l hl
    rw [fillLines, List.mem_singleton] at hl
    exact hl ▸ hline
  | cons w ws ih =>
    rw [List.forall_mem_cons] at hws
    rw [fillLines]
    split
    · next hroom => exact ih (hline.extend hws.1 hroom) hws.2
    · exact List.forall_mem_cons.mpr ⟨hline, ih (wordLine_word hws.1) hws.2⟩

/-- The first word of the next line does not fit on a line. -/
def IsFull (width : Nat) (line next : String) : Prop :=
  ∀ w ∈ (words next).head?, width < line.utf8ByteSize + 1 + w.utf8ByteSize

/-- The line that is being filled keeps its first word. -/
theorem head?_words_of_head?_fillLines (hline : words line ≠ [])
    (hws : ∀ w ∈ ws, IsWord w.toList) :
    ∀ l ∈ (fillLines width line ws).head?, (words l).head? = (words line).head? := by
  induction ws generalizing line with
  | nil => simp [fillLines]
  | cons w ws ih =>
    rw [List.forall_mem_cons] at hws
    have hwords := Text.words_append_word line hws.1
    rw [fillLines]
    split
    · intro l hl
      rw [ih (by simp [hwords]) hws.2 l hl, hwords, List.head?_append]
      cases hhead : (words line).head? with
      | none => exact absurd (List.head?_eq_none_iff.mp hhead) hline
      | some v => rfl
    · simp

theorem isChain_fillLines (hline : words line ≠ []) (hws : ∀ w ∈ ws, IsWord w.toList) :
    (fillLines width line ws).IsChain (IsFull width) := by
  induction ws generalizing line with
  | nil => exact .singleton line
  | cons w ws ih =>
    rw [List.forall_mem_cons] at hws
    have hword := Text.words_word hws.1
    rw [fillLines]
    split
    · exact ih (by simp [Text.words_append_word line hws.1]) hws.2
    · next hfull =>
      refine (ih (by simp [hword]) hws.2).cons fun next hnext v hv => ?_
      rw [head?_words_of_head?_fillLines (by simp [hword]) hws.2 next hnext, hword] at hv
      obtain rfl : w = v := by simpa using hv
      omega

/-! ## The fewest lines -/

/-- A longer line at the start never saves a line, and costs one at most. -/
theorem length_fillLines_le (ws : List String) (line line' : String) :
    (line.utf8ByteSize ≤ line'.utf8ByteSize →
      (fillLines width line ws).length ≤ (fillLines width line' ws).length) ∧
      (fillLines width line ws).length ≤ (fillLines width line' ws).length + 1 := by
  induction ws generalizing line line' with
  | nil => simp [fillLines]
  | cons w ws ih =>
    have hboth := ih (line ++ " " ++ w) (line' ++ " " ++ w)
    have hfirst := ih (line ++ " " ++ w) w
    have hsecond := ih w (line' ++ " " ++ w)
    have hneither := ih w w
    simp only [utf8ByteSize_append_word] at hboth hfirst hsecond
    by_cases hline : line.utf8ByteSize + 1 + w.utf8ByteSize ≤ width
    · by_cases hline' : line'.utf8ByteSize + 1 + w.utf8ByteSize ≤ width
      · simp only [fillLines, if_pos hline, if_pos hline']
        omega
      · simp only [fillLines, if_pos hline, if_neg hline', List.length_cons]
        omega
    · by_cases hline' : line'.utf8ByteSize + 1 + w.utf8ByteSize ≤ width
      · simp only [fillLines, if_neg hline, if_pos hline', List.length_cons]
        omega
      · simp only [fillLines, if_neg hline, if_neg hline', List.length_cons]
        omega

theorem utf8ByteSize_le_intercalate (us : List String) :
    line.utf8ByteSize ≤ (" ".intercalate (line :: us)).utf8ByteSize := by
  have hjoin : " ".intercalate ((line ++ "") :: us) = line ++ " ".intercalate ("" :: us) :=
    String.intercalate_cons_append
  rw [String.append_empty] at hjoin
  rw [hjoin, String.utf8ByteSize_append]
  omega

/-- A line that fits is filled to its end. -/
theorem fillLines_append (us rest : List String)
    (h : (" ".intercalate (line :: us)).utf8ByteSize ≤ width) :
    fillLines width line (us ++ rest) = fillLines width (" ".intercalate (line :: us)) rest := by
  induction us generalizing line with
  | nil => simp
  | cons u us ih =>
    have hjoin : " ".intercalate (line :: u :: us) =
        " ".intercalate ((line ++ " " ++ u) :: us) := rfl
    rw [hjoin] at h ⊢
    have hroom : line.utf8ByteSize + 1 + u.utf8ByteSize ≤ width := by
      rw [← utf8ByteSize_append_word]
      exact (utf8ByteSize_le_intercalate us).trans h
    rw [List.cons_append, fillLines, if_pos hroom, ih h]

end Fill

/-- Words put on lines from the start. -/
def fillWords (width : Nat) : List String → List String
  | [] => []
  | w :: ws => fillLines width w ws

theorem length_fillWords_le {line : String} (hspaced : line = " ".intercalate (words line))
    (hfits : width < line.utf8ByteSize → ∃ w, words line = [w]) (rest : List String) :
    (fillWords width (words line ++ rest)).length ≤ (fillWords width rest).length + 1 := by
  cases hwords : words line with
  | nil => simp
  | cons w us =>
    have hfilled : fillLines width w (us ++ rest) = fillLines width line rest := by
      rw [hwords] at hspaced
      by_cases hwide : width < line.utf8ByteSize
      · obtain ⟨v, hv⟩ := hfits hwide
        obtain ⟨rfl, rfl⟩ : w = v ∧ us = [] := by simpa [hwords] using hv
        rw [String.intercalate_singleton] at hspaced
        rw [hspaced]
        rfl
      · rw [hspaced] at hwide
        rw [fillLines_append us rest (by omega), ← hspaced]
    rw [List.cons_append, fillWords, hfilled]
    cases rest with
    | nil => simp [fillLines, fillWords]
    | cons v vs =>
      have hbroken : (fillLines width (line ++ " " ++ v) vs).length ≤
          (fillLines width v vs).length + 1 := (length_fillLines_le vs _ _).2
      rw [fillLines, fillWords]
      split
      · exact hbroken
      · simp

theorem length_fillWords_flatMap_le {lines : List String}
    (hspaced : ∀ line ∈ lines, line = " ".intercalate (words line))
    (hfits : ∀ line ∈ lines, width < line.utf8ByteSize → ∃ w, words line = [w]) :
    (fillWords width (lines.flatMap words)).length ≤ lines.length := by
  induction lines with
  | nil => simp [fillWords]
  | cons line lines ih =>
    rw [List.forall_mem_cons] at hspaced hfits
    have hfirst := length_fillWords_le hspaced.1 hfits.1 (lines.flatMap words)
    have hrest := ih hspaced.2 hfits.2
    rw [List.flatMap_cons, List.length_cons]
    omega

/-! ## Wrapping -/

/-- A way to put a text on lines: its words in order, with single spaces between those on one
line.  A line that is too long is a single word. -/
structure IsWrapping (text : String) (width : Nat) (lines : List String) : Prop where
  words : lines.flatMap Text.words = Text.words text
  spaced : ∀ line ∈ lines, line = " ".intercalate (Text.words line)
  fits : ∀ line ∈ lines, width < line.utf8ByteSize → ∃ w, Text.words line = [w]

theorem wrap_eq (text : String) {width : Int64} (h : 0 < width) :
    wrap text width = fillWords width.toNatClampNeg (words text) := by
  have hpositive : ¬width ≤ 0 := Int64.not_le.mpr h
  unfold wrap
  cases words text with
  | nil => rfl
  | cons w ws => exact if_neg hpositive

theorem isWrapping_wrap (text : String) {width : Int64} (h : 0 < width) :
    IsWrapping text width.toNatClampNeg (wrap text width) ∧
      ∀ line ∈ wrap text width, words line ≠ [] := by
  rw [wrap_eq text h]
  have hwords : ∀ w ∈ words text, IsWord w.toList := fun _ => Text.isWord_of_mem_words
  cases htext : words text with
  | nil =>
    rw [fillWords]
    exact ⟨⟨by simp [htext], by simp, by simp⟩, by simp⟩
  | cons w ws =>
    rw [htext, List.forall_mem_cons] at hwords
    have hlines : ∀ line ∈ fillWords width.toNatClampNeg (w :: ws),
        WordLine width.toNatClampNeg line :=
      wordLine_of_mem_fillLines (wordLine_word hwords.1) hwords.2
    refine ⟨⟨?_, fun line hline => (hlines line hline).spaced,
      fun line hline => (hlines line hline).fits⟩,
      fun line hline => (hlines line hline).words_ne_nil⟩
    rw [fillWords, flatMap_words_fillLines hwords.2, Text.words_word hwords.1, htext]
    rfl

theorem isChain_wrap (text : String) {width : Int64} (h : 0 < width) :
    (wrap text width).IsChain (IsFull width.toNatClampNeg) := by
  rw [wrap_eq text h]
  have hwords : ∀ w ∈ words text, IsWord w.toList := fun _ => Text.isWord_of_mem_words
  cases htext : words text with
  | nil => exact .nil
  | cons w ws =>
    rw [htext, List.forall_mem_cons] at hwords
    exact isChain_fillLines (by simp [Text.words_word hwords.1]) hwords.2

theorem length_wrap_le {text : String} {width : Int64} (h : 0 < width) {lines : List String}
    (hlines : IsWrapping text width.toNatClampNeg lines) :
    (wrap text width).length ≤ lines.length := by
  rw [wrap_eq text h, ← hlines.words]
  exact length_fillWords_flatMap_le hlines.spaced hlines.fits

/-- **Texts are wrapped greedily.**  The lines hold the words of the text in order, none of them
could take the first word of the next line, and there is no way to wrap the text in fewer. -/
theorem wrap_greedy (text : String) (width : Int64) (h : 0 < width) :
    IsWrapping text width.toNatClampNeg (wrap text width) ∧
      (∀ line ∈ wrap text width, words line ≠ []) ∧
      (wrap text width).IsChain (IsFull width.toNatClampNeg) ∧
      ∀ lines, IsWrapping text width.toNatClampNeg lines →
        (wrap text width).length ≤ lines.length := by
  obtain ⟨hwrapping, hfilled⟩ := isWrapping_wrap text h
  exact ⟨hwrapping, hfilled, isChain_wrap text h, fun _ => length_wrap_le h⟩

/-- A word that is too long stands by itself, and nine columns are enough for two short ones. -/
theorem wrap_greedy_longWord :
    let text := " one two  extraordinary four "
    0 < (9 : Int64) ∧ IsWrapping text 9 ["one", "two", "extraordinary", "four"] ∧
      wrap text 9 = ["one two", "extraordinary", "four"] ∧
      (wrap text 9).length ≤ ["one", "two", "extraordinary", "four"].length := by
  intro text
  have hwrap : wrap text 9 = ["one two", "extraordinary", "four"] := by decide +kernel
  have hlines : IsWrapping text 9 ["one", "two", "extraordinary", "four"] := by
    have hwords : ∀ line ∈ ["one", "two", "extraordinary", "four"], words line = [line] := by
      decide +kernel
    exact ⟨by decide +kernel, by decide +kernel, fun line hline _ => ⟨line, hwords line hline⟩⟩
  exact ⟨by decide, hlines, hwrap, (wrap_greedy text 9 (by decide)).2.2.2 _ hlines⟩

end Cflat.CommandLine
