import Cflat.Text.Blank
import Mathlib.Data.List.TakeWhile

/-!
# Texts with white space

Where white space may stand in a text, and what is left without it.

* Gaps: white space that is dropped at an end of a text.
* Tokens: `Spaced` relates a text to its tokens when white space is allowed around each
  of them and needed nowhere.
* Words: `HasWords` relates a text to its words, which white space has to separate, and
  `wordsChars` computes exactly these words.
-/

namespace Cflat.Text

/-! ## Gaps -/

/-- White space, possibly none. -/
def IsGap (cs : List Char) : Prop :=
  ∀ c ∈ cs, isBlank c

/-- A text that has no white space at its start. -/
def StartsSolid (cs : List Char) : Prop :=
  ∀ c ∈ cs.head?, isBlank c = false

theorem isGap_nil : IsGap [] := by
  simp [IsGap]

theorem isGap_append {as bs : List Char} (ha : IsGap as) (hb : IsGap bs) : IsGap (as ++ bs) := by
  intro c hc
  rcases List.mem_append.mp hc with hc | hc
  · exact ha c hc
  · exact hb c hc

theorem isGap_reverse {cs : List Char} (h : IsGap cs) : IsGap cs.reverse := by
  intro c hc
  exact h c (List.mem_reverse.mp hc)

theorem isGap_takeWhile (cs : List Char) : IsGap (cs.takeWhile isBlank) :=
  fun _ hc => List.mem_takeWhile_imp hc

theorem startsSolid_cons {c : Char} (hc : isBlank c = false) (cs : List Char) :
    StartsSolid (c :: cs) := by
  rintro d ⟨rfl⟩
  exact hc

theorem dropWhile_of_startsSolid {cs : List Char} (h : StartsSolid cs) :
    cs.dropWhile isBlank = cs := by
  cases cs with
  | nil => rfl
  | cons c cs => simp [h c rfl]

theorem dropWhile_gap_append {gap cs : List Char} (hgap : IsGap gap) (hcs : StartsSolid cs) :
    (gap ++ cs).dropWhile isBlank = cs := by
  rw [List.dropWhile_append_of_pos hgap, dropWhile_of_startsSolid hcs]

/-- From the end, white space at the end is dropped first. -/
theorem dropWhile_reverse_append_gap {gap : List Char} (hgap : IsGap gap) (cs : List Char) :
    (cs ++ gap).reverse.dropWhile isBlank = cs.reverse.dropWhile isBlank := by
  rw [List.reverse_append, List.dropWhile_append_of_pos (isGap_reverse hgap)]

theorem notMem_dropWhile_reverse {c : Char} {cs : List Char} (h : c ∉ cs) :
    c ∉ cs.reverse.dropWhile isBlank := by
  intro hmem
  exact h (List.mem_reverse.mp ((List.dropWhile_sublist _).mem hmem))

/-- What is dropped at the start of a text is a gap. -/
theorem exists_gap_dropWhile (cs : List Char) :
    ∃ gap, IsGap gap ∧ cs = gap ++ cs.dropWhile isBlank :=
  ⟨_, isGap_takeWhile cs, List.takeWhile_append_dropWhile.symm⟩

theorem exists_gap_trimEndChars (cs : List Char) :
    ∃ gap, IsGap gap ∧ cs = trimEndChars cs ++ gap := by
  obtain ⟨gap, hgap, hrev⟩ := exists_gap_dropWhile cs.reverse
  refine ⟨gap.reverse, isGap_reverse hgap, ?_⟩
  rw [trimEndChars, ← List.reverse_append, ← hrev, List.reverse_reverse]

/-- What trimming drops are gaps. -/
theorem exists_gaps_trimChars (cs : List Char) :
    ∃ pre post, IsGap pre ∧ IsGap post ∧ cs = pre ++ (trimChars cs ++ post) := by
  obtain ⟨pre, hpre, hcs⟩ := exists_gap_dropWhile cs
  obtain ⟨post, hpost, hrest⟩ := exists_gap_trimEndChars (cs.dropWhile isBlank)
  exact ⟨pre, post, hpre, hpost, hcs.trans (congrArg (pre ++ ·) hrest)⟩

theorem trimChars_ne_nil {cs : List Char} {c : Char} (hmem : c ∈ cs) (hc : isBlank c = false) :
    trimChars cs ≠ [] := by
  intro hnil
  obtain ⟨pre, post, hpre, hpost, hcs⟩ := exists_gaps_trimChars cs
  rw [hnil, List.nil_append] at hcs
  have hblank := isGap_append hpre hpost c (hcs ▸ hmem)
  rw [hc] at hblank
  cases hblank

/-- From the end, a trimmed text starts where the white space ends. -/
theorem reverse_trimChars_gap_append {gap cs : List Char} (hgap : IsGap gap)
    (hcs : StartsSolid cs) : (trimChars (gap ++ cs)).reverse = cs.reverse.dropWhile isBlank := by
  rw [trimChars, dropWhile_gap_append hgap hcs, trimEndChars, List.reverse_reverse]

/-! ## Tokens -/

/-- The text is made of the given tokens in order, with white space allowed around
each of them. -/
inductive Spaced : List (List Char) → List Char → Prop
  | nil {gap : List Char} : IsGap gap → Spaced [] gap
  | cons {gap token : List Char} {tokens : List (List Char)} {text : List Char} :
    IsGap gap → Spaced tokens text → Spaced (token :: tokens) (gap ++ token ++ text)

namespace Spaced

theorem gap_append {gap text : List Char} {tokens : List (List Char)} (hgap : IsGap gap)
    (h : Spaced tokens text) : Spaced tokens (gap ++ text) := by
  cases h with
  | nil hgap' => exact .nil (isGap_append hgap hgap')
  | cons hgap' htext =>
    rw [List.append_assoc, ← List.append_assoc, ← List.append_assoc]
    exact .cons (isGap_append hgap hgap') htext

theorem append {tokens tokens' : List (List Char)} {text text' : List Char}
    (h : Spaced tokens text) (h' : Spaced tokens' text') :
    Spaced (tokens ++ tokens') (text ++ text') := by
  induction h with
  | nil hgap => exact h'.gap_append hgap
  | cons hgap _ ih =>
    rw [List.append_assoc]
    exact .cons hgap ih

theorem append_gap {gap text : List Char} {tokens : List (List Char)} (h : Spaced tokens text)
    (hgap : IsGap gap) : Spaced tokens (text ++ gap) := by
  have h' := h.append (.nil hgap)
  rwa [List.append_nil] at h'

theorem exists_of_append {tokens tokens' : List (List Char)} {text : List Char}
    (h : Spaced (tokens ++ tokens') text) :
    ∃ front back, Spaced tokens front ∧ Spaced tokens' back ∧ text = front ++ back := by
  induction tokens generalizing text with
  | nil => exact ⟨[], text, .nil isGap_nil, h, rfl⟩
  | cons token tokens ih =>
    cases h with
    | @cons gap _ _ text hgap htext =>
      obtain ⟨front, back, hfront, hback, rfl⟩ := ih htext
      exact ⟨gap ++ token ++ front, back, .cons hgap hfront, hback, by simp⟩

theorem isGap {text : List Char} (h : Spaced [] text) : IsGap text := by
  cases h with
  | nil hgap => exact hgap

theorem exists_gaps {token text : List Char} (h : Spaced [token] text) :
    ∃ before after, IsGap before ∧ IsGap after ∧ text = before ++ (token ++ after) := by
  cases h with
  | cons hbefore h => exact ⟨_, _, hbefore, h.isGap, List.append_assoc ..⟩

theorem forall_mem {tokens : List (List Char)} {text : List Char} (h : Spaced tokens text) :
    ∀ c ∈ text, isBlank c ∨ ∃ token ∈ tokens, c ∈ token := by
  induction h with
  | nil hgap => exact fun c hc => .inl (hgap c hc)
  | cons hgap _ ih =>
    intro c hc
    simp only [List.mem_append] at hc
    rcases hc with (hc | hc) | hc
    · exact .inl (hgap c hc)
    · exact .inr ⟨_, List.mem_cons_self, hc⟩
    · exact (ih c hc).imp id fun ⟨v, hv, hmem⟩ => ⟨v, List.mem_cons_of_mem _ hv, hmem⟩

/-- Tokens that follow each other without white space. -/
theorem flatten (tokens : List (List Char)) : Spaced tokens tokens.flatten := by
  induction tokens with
  | nil => exact .nil isGap_nil
  | cons token tokens ih => exact .cons isGap_nil ih

end Spaced

/-! ## Words -/

/-- A text without white space. -/
structure IsWord (w : List Char) : Prop where
  ne_nil : w ≠ []
  solid : ∀ c ∈ w, isBlank c = false

/-- The text has the given words: each of them is followed by white space or by the
end of the text. -/
inductive HasWords : List (List Char) → List Char → Prop
  | nil {gap : List Char} : IsGap gap → HasWords [] gap
  | cons {gap w : List Char} {ws : List (List Char)} {text : List Char} :
    IsGap gap → IsWord w → (∀ c ∈ text.head?, isBlank c) → HasWords ws text →
      HasWords (w :: ws) (gap ++ w ++ text)

theorem IsWord.startsSolid_append {w : List Char} (hw : IsWord w) (text : List Char) :
    StartsSolid (w ++ text) := by
  cases w with
  | nil => exact absurd rfl hw.ne_nil
  | cons c w => exact startsSolid_cons (hw.solid c List.mem_cons_self) _

theorem IsWord.reverse {w : List Char} (hw : IsWord w) : IsWord w.reverse where
  ne_nil := by simpa using hw.ne_nil
  solid c hc := hw.solid c (List.mem_reverse.mp hc)

/-- Trimming leaves the word between two gaps. -/
theorem IsWord.trimChars_gaps {w pre post : List Char} (hw : IsWord w) (hpre : IsGap pre)
    (hpost : IsGap post) : trimChars (pre ++ (w ++ post)) = w := by
  have hend : StartsSolid w.reverse := by simpa using hw.reverse.startsSolid_append []
  rw [← List.reverse_inj, reverse_trimChars_gap_append hpre (hw.startsSolid_append post),
    List.reverse_append, dropWhile_gap_append (isGap_reverse hpost) hend]

theorem HasWords.spaced {text : List Char} {ws : List (List Char)} (h : HasWords ws text) :
    Spaced ws text := by
  induction h with
  | nil hgap => exact .nil hgap
  | cons hgap _ _ _ ih => exact .cons hgap ih

theorem HasWords.isWord {text : List Char} {ws : List (List Char)} (h : HasWords ws text) :
    ∀ w ∈ ws, IsWord w := by
  induction h with
  | nil => simp
  | cons _ hw _ _ ih => exact List.forall_mem_cons.mpr ⟨hw, ih⟩

theorem HasWords.gap_append {gap text : List Char} {ws : List (List Char)} (hgap : IsGap gap)
    (h : HasWords ws text) : HasWords ws (gap ++ text) := by
  cases h with
  | nil hgap' => exact .nil (isGap_append hgap hgap')
  | cons hgap' hw hnext htext =>
    rw [List.append_assoc, ← List.append_assoc, ← List.append_assoc]
    exact .cons (isGap_append hgap hgap') hw hnext htext

theorem HasWords.append_gap {gap text : List Char} {ws : List (List Char)} (hgap : IsGap gap)
    (h : HasWords ws text) : HasWords ws (text ++ gap) := by
  induction h with
  | nil hgap' => exact .nil (isGap_append hgap' hgap)
  | @cons _ _ _ text hgap' hw hnext _ ih =>
    rw [List.append_assoc]
    refine .cons hgap' hw ?_ ih
    cases text with
    | nil => exact fun c hc => hgap c (List.mem_of_mem_head? hc)
    | cons d text => exact hnext

/-- White space in front of the first word can be taken off. -/
theorem HasWords.exists_gap {w text : List Char} {ws : List (List Char)}
    (h : HasWords (w :: ws) text) :
    ∃ gap body, IsGap gap ∧ text = gap ++ body ∧ HasWords (w :: ws) body ∧
      (∀ rest, StartsSolid (body ++ rest)) ∧ body ≠ [] := by
  cases h with
  | @cons gap _ _ text hgap hw hnext htext =>
    refine ⟨gap, w ++ text, hgap, List.append_assoc .., .cons isGap_nil hw hnext htext, ?_, ?_⟩
    · intro rest
      rw [List.append_assoc]
      exact hw.startsSolid_append _
    · simp [hw.ne_nil]

/-- A character in front of the first word joins it. -/
theorem HasWords.cons_word {c : Char} {w text : List Char} {ws : List (List Char)}
    (hc : isBlank c = false) (hsolid : StartsSolid text) (h : HasWords (w :: ws) text) :
    HasWords ((c :: w) :: ws) (c :: text) := by
  cases h with
  | @cons gap _ _ text hgap hw hnext htext =>
    cases gap with
    | cons d gap => exact absurd (hgap d List.mem_cons_self) (by simp [hsolid d rfl])
    | nil =>
      have hword : IsWord (c :: w) :=
        ⟨List.cons_ne_nil c w, List.forall_mem_cons.mpr ⟨hc, hw.solid⟩⟩
      exact .cons isGap_nil hword hnext htext

theorem hasWords_wordsChars (cs : List Char) : HasWords (wordsChars cs) cs := by
  fun_induction wordsChars cs with
  | case1 => exact .nil isGap_nil
  | case2 c cs hc ih => exact ih.gap_append (List.forall_mem_singleton.mpr hc)
  | case3 c hc =>
    have hword : IsWord [c] := ⟨by simp, by simpa using hc⟩
    exact .cons isGap_nil hword (by simp) (.nil isGap_nil)
  | case4 c hc d cs hd ih =>
    have hword : IsWord [c] := ⟨by simp, by simpa using hc⟩
    exact .cons isGap_nil hword (by simpa using hd) ih
  | case5 c hc d cs hd hnil ih =>
    rw [hnil] at ih
    exact absurd (ih.spaced.isGap d List.mem_cons_self) hd
  | case6 c hc d cs hd w ws hcons ih =>
    rw [hcons] at ih ⊢
    exact ih.cons_word (by simpa using hc) (startsSolid_cons (by simpa using hd) cs)

theorem wordsChars_cons_of_isBlank {c : Char} (hc : isBlank c) (cs : List Char) :
    wordsChars (c :: cs) = wordsChars cs := by
  rw [wordsChars.eq_def]
  exact if_pos hc

/-- A character in front of white space or of the end is a word of its own. -/
theorem wordsChars_cons_of_next {c : Char} {text : List Char} (hc : isBlank c = false)
    (hnext : ∀ d ∈ text.head?, isBlank d) : wordsChars (c :: text) = [c] :: wordsChars text := by
  rw [wordsChars.eq_def]
  cases text with
  | nil => exact if_neg (Bool.eq_false_iff.mp hc)
  | cons d text => exact (if_neg (Bool.eq_false_iff.mp hc)).trans (if_pos (hnext d rfl))

/-- In front of a word a character joins it. -/
theorem wordsChars_cons_of_word {c d : Char} {text w : List Char} {ws : List (List Char)}
    (hc : isBlank c = false) (hd : isBlank d = false) (hword : wordsChars (d :: text) = w :: ws) :
    wordsChars (c :: d :: text) = (c :: w) :: ws := by
  rw [wordsChars.eq_def]
  simp only [hc, hd, hword, Bool.false_eq_true, if_false]

theorem wordsChars_gap_append {gap : List Char} (hgap : IsGap gap) (cs : List Char) :
    wordsChars (gap ++ cs) = wordsChars cs := by
  induction gap with
  | nil => rfl
  | cons c gap ih =>
    rw [List.cons_append, wordsChars_cons_of_isBlank (hgap c List.mem_cons_self)]
    exact ih fun d hd => hgap d (List.mem_cons_of_mem c hd)

theorem wordsChars_word_append {w text : List Char} (hw : IsWord w)
    (hnext : ∀ c ∈ text.head?, isBlank c) : wordsChars (w ++ text) = w :: wordsChars text := by
  obtain ⟨hne, hsolid⟩ := hw
  induction w with
  | nil => exact absurd rfl hne
  | cons c w ih =>
    rw [List.forall_mem_cons] at hsolid
    cases w with
    | nil => exact wordsChars_cons_of_next hsolid.1 hnext
    | cons d w =>
      have hrest := ih (List.cons_ne_nil d w) hsolid.2
      exact wordsChars_cons_of_word hsolid.1 (hsolid.2 d List.mem_cons_self) hrest

/-- The words of a text are those that white space separates. -/
theorem wordsChars_eq_iff {cs : List Char} {ws : List (List Char)} :
    wordsChars cs = ws ↔ HasWords ws cs := by
  constructor
  · rintro rfl
    exact hasWords_wordsChars cs
  · intro h
    induction h with
    | nil hgap =>
      have h := wordsChars_gap_append hgap []
      rwa [List.append_nil] at h
    | cons hgap hw hnext _ ih =>
      rw [List.append_assoc, wordsChars_gap_append hgap, wordsChars_word_append hw hnext, ih]

theorem wordsChars_trimEndChars (cs : List Char) :
    wordsChars (trimEndChars cs) = wordsChars cs := by
  obtain ⟨gap, hgap, hcs⟩ := exists_gap_trimEndChars cs
  have h := (hasWords_wordsChars (trimEndChars cs)).append_gap hgap
  rw [← hcs] at h
  exact (wordsChars_eq_iff.mpr h).symm

/-- Words that are joined by single spaces. -/
theorem hasWords_intercalate {ws : List (List Char)} (h : ∀ w ∈ ws, IsWord w) :
    HasWords ws ([' '].intercalate ws) := by
  induction ws with
  | nil => exact .nil isGap_nil
  | cons w ws ih =>
    rw [List.forall_mem_cons] at h
    cases ws with
    | nil =>
      have hword : HasWords [w] ([] ++ w ++ []) := .cons isGap_nil h.1 (by simp) (.nil isGap_nil)
      simpa using hword
    | cons v ws =>
      have hspace : IsGap [' '] := List.forall_mem_singleton.mpr (by decide)
      rw [List.intercalate_cons_cons, List.append_assoc]
      exact .cons isGap_nil h.1 (by simp; decide) ((ih h.2).gap_append hspace)

end Cflat.Text
