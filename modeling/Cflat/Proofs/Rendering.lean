import Cflat.Asm.Listing
import Cflat.Proofs.Accepts

/-!
# The text of a listing

An element has a text unless it is a comment indented further than a text can be long.
`Element.text` and `Listing.text` are the texts without that limit; what is rendered is
the text wherever `Element.Fits` holds.
-/

namespace Cflat.Asm

namespace Element

/-- Every line but a comment fits; a comment does if its indentation can be addressed. -/
def Fits : Element → Prop
  | comment _ indent => 2 * indent ≤ addressableBytes
  | _ => True

/-- The text of an element, however far it is indented. -/
def text : Element → String
  | comment text indent => "\t" ++ String.join (List.replicate indent.toNat "  ") ++ "# " ++ text
  | label name => name ++ ":"
  | directive d => d.render
  | instruction mnemonic suffix operands =>
    "\t" ++ mnemonic ++ suffix ++
      (if operands.isEmpty then ""
        else "\t" ++ String.intercalate ", " (operands.map Operand.render))

theorem indentation_accepts :
    Accepts indentation (2 * · ≤ addressableBytes)
      fun indent => String.join (List.replicate indent.toNat "  ") := by
  intro indent blanks
  have haddressable : addressableBytes ≤ Int64.maxValue.toInt := by decide
  unfold indentation
  by_cases hoverflow : Int64.maxValue.toInt < 2 * indent
  · simp only [if_pos hoverflow, reduceCtorEq, false_iff, not_and]
    omega
  · by_cases hrange : addressableBytes < 2 * indent
    · simp only [if_neg hoverflow, if_pos hrange, reduceCtorEq, false_iff, not_and]
      omega
    · simp only [if_neg hoverflow, if_neg hrange, Except.ok.injEq, eq_comm (a := blanks)]
      exact ⟨fun h => ⟨by omega, h⟩, And.right⟩

theorem render_accepts : Accepts render Fits text := by
  intro e s
  cases e with
  | comment t indent =>
    simp only [render, bind_eq_ok_iff, pure_eq_ok_iff, indentation_accepts indent]
    constructor
    · rintro ⟨blanks, ⟨hfits, rfl⟩, rfl⟩
      exact ⟨hfits, rfl⟩
    · rintro ⟨hfits, rfl⟩
      exact ⟨_, ⟨hfits, rfl⟩, rfl⟩
  | label name => exact pure_eq_ok_iff.trans (iff_of_eq (true_and _)).symm
  | directive d => exact pure_eq_ok_iff.trans (iff_of_eq (true_and _)).symm
  | instruction mnemonic suffix operands => exact pure_eq_ok_iff.trans (iff_of_eq (true_and _)).symm

theorem render_of_fits {e : Element} (h : e.Fits) : e.render = .ok e.text :=
  (render_accepts e e.text).mpr ⟨h, rfl⟩

theorem line_accepts : Accepts line Fits fun e => e.text ++ "\n" := by
  intro e s
  simp only [line, bind_eq_ok_iff, pure_eq_ok_iff, render_accepts e]
  constructor
  · rintro ⟨t, ⟨hfits, rfl⟩, rfl⟩
    exact ⟨hfits, rfl⟩
  · rintro ⟨hfits, rfl⟩
    exact ⟨_, ⟨hfits, rfl⟩, rfl⟩

theorem line_eq_error_iff {e : Element} {f : Fault} : e.line = .error f ↔ e.render = .error f := by
  simp only [line, bind_eq_error_iff, pure_eq_error_iff, and_false, exists_false, or_false]

end Element

namespace Listing

/-- The text of a listing, however far its comments are indented. -/
def text (l : Listing) : String :=
  String.join (l.map fun e => e.text ++ "\n")

theorem render_accepts : Accepts render (fun l => ∀ e ∈ l, e.Fits) text := by
  intro l s
  simp only [render, bind_eq_ok_iff, pure_eq_ok_iff, Element.line_accepts.mapM l]
  constructor
  · rintro ⟨lines, ⟨hfits, rfl⟩, rfl⟩
    exact ⟨hfits, rfl⟩
  · rintro ⟨hfits, rfl⟩
    exact ⟨_, ⟨hfits, rfl⟩, rfl⟩

theorem render_of_fits {l : Listing} (h : ∀ e ∈ l, e.Fits) : l.render = .ok l.text :=
  (render_accepts l l.text).mpr ⟨h, rfl⟩

/-- A listing has a text exactly when each of its comments has one. -/
theorem exists_render_iff (l : Listing) :
    (∃ s, l.render = .ok s) ↔
      ∀ text indent, .comment text indent ∈ l → 2 * indent ≤ Element.addressableBytes := by
  constructor
  · rintro ⟨s, hs⟩ text indent hmem
    exact ((render_accepts l s).mp hs).1 _ hmem
  · intro h
    refine ⟨l.text, render_of_fits fun e he => ?_⟩
    cases e with
    | comment text indent => exact h text indent he
    | label name => trivial
    | directive d => trivial
    | instruction mnemonic suffix operands => trivial

/-- The fault of a listing is that of its first element that has one. -/
theorem exists_first_of_render {l : Listing} {f : Fault} (h : l.render = .error f) :
    ∃ front e back, l = front ++ e :: back ∧ (∀ e' ∈ front, e'.Fits) ∧ e.render = .error f := by
  simp only [render, bind_eq_error_iff, pure_eq_error_iff, and_false, exists_false, or_false] at h
  induction l with
  | nil => cases h
  | cons e l ih =>
    rw [List.mapM_cons, bind_eq_error_iff] at h
    rcases h with h | ⟨line, hline, h⟩
    · exact ⟨[], e, l, rfl, by simp, Element.line_eq_error_iff.mp h⟩
    · simp only [bind_eq_error_iff, pure_eq_error_iff, and_false, exists_false, or_false] at h
      obtain ⟨front, e', back, rfl, hfront, he'⟩ := ih h
      have he : e.Fits := ((Element.line_accepts e line).mp hline).1
      exact ⟨e :: front, e', back, rfl, List.forall_mem_cons.mpr ⟨he, hfront⟩, he'⟩

theorem text_append (l l' : Listing) : text (l ++ l') = l.text ++ l'.text := by
  rw [text, List.map_append, String.join_append]
  rfl

theorem render_append (l l' : Listing) :
    Listing.render (l ++ l') = do
      let front ← l.render
      let back ← l'.render
      return front ++ back := by
  simp only [render, List.mapM_append, bind_assoc, pure_bind, String.join_append]

end Listing

end Cflat.Asm
