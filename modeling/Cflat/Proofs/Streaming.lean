import Cflat.Asm.Writer
import Cflat.Proofs.Literals
import Cflat.Proofs.Rendering

/-!
# Writing a listing and rendering it

A listing that is written line by line arrives as the text that `Listing.render` gives,
as far as the writer takes it.  Where a line has no text, the lines before it have arrived.

* Bytes of a listing, line by line.
* Writers.  `Writer.Limited` says what a single write does to a writer that takes a
  number of bytes in total, or any number of them.
* Runs.  What holds of one write holds of all lines together, whether the text fits or
  the writer has to stop in it.
-/

namespace Cflat.Asm

variable {σ ε : Type}

/-! ## Bytes of a listing -/

/-- The bytes of the line of an element. -/
def Element.bytes (e : Element) : List UInt8 :=
  (e.text ++ "\n").toUTF8.toList

theorem Element.bytes_ne_nil (e : Element) : e.bytes ≠ [] := by
  have hend : e.bytes = e.text.toList.flatMap String.utf8EncodeChar ++ ['\n'.toUInt8] := by
    rw [bytes, Text.toList_toUTF8, String.toList_append, List.flatMap_append]
    rfl
  rw [hend]
  simp

namespace Listing

/-- The bytes of the text of a listing. -/
def bytes (l : Listing) : List UInt8 :=
  l.text.toUTF8.toList

theorem bytes_nil : bytes [] = [] := by
  rw [bytes, Text.toList_toUTF8]
  rfl

theorem bytes_cons (e : Element) (l : Listing) : bytes (e :: l) = e.bytes ++ l.bytes := by
  have htext : text (e :: l) = (e.text ++ "\n") ++ l.text := by
    rw [text, List.map_cons, String.join_cons]
    rfl
  rw [bytes, Text.toList_toUTF8, htext, String.toList_append, List.flatMap_append, Element.bytes,
    bytes, Text.toList_toUTF8, Text.toList_toUTF8]

end Listing

/-! ## Writers -/

/-- The writer takes bytes as long as there is room for them.

`taken` are the bytes that it has taken, and `room` is the number of bytes that it will
still take, `none` if it takes any number.  A write that fits is taken whole.  Of any
other the writer takes what there is room for, and fails with `e`.  It may do as it
likes with a write of no bytes. -/
structure Writer.Limited (w : Writer σ ε) (taken : σ → List UInt8) (room : σ → Option Nat)
    (e : ε) : Prop where
  whole : ∀ s bytes, bytes ≠ [] → (∀ n ∈ room s, bytes.length ≤ n) →
    ∃ s', w.write s bytes = (⟨bytes.length, none⟩, s') ∧ taken s' = taken s ++ bytes ∧
      room s' = (room s).map (· - bytes.length)
  short : ∀ s bytes n, room s = some n → n < bytes.length →
    ∃ s', w.write s bytes = (⟨n, some e⟩, s') ∧ taken s' = taken s ++ bytes.take n

/-- A sink with a limit has room for what is left of it. -/
theorem limited_sink (limit : Option Nat) :
    (sink limit).Limited id (fun accepted => limit.map (· - accepted.length)) .full := by
  cases limit with
  | none =>
    refine ⟨fun s bytes _ _ => ⟨s ++ bytes, rfl, rfl, rfl⟩, fun s bytes n hn _ => ?_⟩
    cases hn
  | some limit =>
    refine ⟨fun s bytes _ hroom => ?_, fun s bytes n hn hlt => ?_⟩
    · have hfits : bytes.length ≤ limit - s.length := hroom _ rfl
      have htake : bytes.take (limit - s.length) = bytes := List.take_of_length_le hfits
      have hleft : limit - (s ++ bytes).length = limit - s.length - bytes.length := by
        rw [List.length_append]
        omega
      refine ⟨s ++ bytes, ?_, rfl, congrArg some hleft⟩
      simp only [sink, htake, Nat.lt_irrefl, if_false]
    · obtain rfl : limit - s.length = n := Option.some.inj hn
      refine ⟨s ++ bytes.take (limit - s.length), ?_, rfl⟩
      have hlength : (bytes.take (limit - s.length)).length = limit - s.length := by
        rw [List.length_take]
        omega
      simp only [sink, hlength, hlt, if_true]

/-! ## Runs -/

namespace Listing

section

variable {w : Writer σ ε} {total n : Nat} {e : Element} {l : Listing} {s s' : σ}

theorem writeFrom_cons_of_taken (he : e.Fits) (h : w.write s e.bytes = (⟨n, none⟩, s')) :
    writeFrom w total (e :: l) s = writeFrom w (total + n) l s' := by
  rw [Element.bytes] at h
  rw [writeFrom, (Element.line_accepts e _).mpr ⟨he, rfl⟩]
  simp only [h]

theorem writeFrom_cons_of_failed {err : ε} (he : e.Fits)
    (h : w.write s e.bytes = (⟨n, some err⟩, s')) :
    writeFrom w total (e :: l) s = (.ok ⟨total + n, some err⟩, s') := by
  rw [Element.bytes] at h
  rw [writeFrom, (Element.line_accepts e _).mpr ⟨he, rfl⟩]
  simp only [h]

theorem writeFrom_cons_of_error {f : Fault} (he : e.render = .error f) :
    writeFrom w total (e :: l) s = (.error f, s) := by
  rw [writeFrom, Element.line_eq_error_iff.mpr he]

end

variable {w : Writer σ ε} {taken : σ → List UInt8} {room : σ → Option Nat} {err : ε}

/-- Lines for which there is room are written whole, and the rest follows. -/
theorem writeFrom_append_of_room (h : w.Limited taken room err) {l : Listing}
    (hl : ∀ e ∈ l, e.Fits) (rest : Listing) (total : Nat) {s : σ}
    (hroom : ∀ n ∈ room s, l.bytes.length ≤ n) :
    ∃ s', writeFrom w total (l ++ rest) s = rest.writeFrom w (total + l.bytes.length) s' ∧
      taken s' = taken s ++ l.bytes := by
  induction l generalizing total s with
  | nil => exact ⟨s, by simp [bytes_nil], by simp [bytes_nil]⟩
  | cons e l ih =>
    rw [List.forall_mem_cons] at hl
    have hlength : (bytes (e :: l)).length = e.bytes.length + (bytes l).length := by
      rw [bytes_cons, List.length_append]
    obtain ⟨s₁, hwrite, htaken₁, hroom₁⟩ := h.whole s e.bytes e.bytes_ne_nil fun n hn => by
      have := hroom n hn
      omega
    obtain ⟨s₂, hrest, htaken₂⟩ := @ih hl.2 (total + e.bytes.length) s₁ fun n hn => by
      rw [hroom₁, Option.mem_def, Option.map_eq_some_iff] at hn
      obtain ⟨m, hm, rfl⟩ := hn
      have := hroom m hm
      omega
    refine ⟨s₂, ?_, ?_⟩
    · rw [List.cons_append, writeFrom_cons_of_taken hl.1 hwrite, hrest, hlength, Nat.add_assoc]
    · rw [htaken₂, htaken₁, bytes_cons, List.append_assoc]

/-- Lines for which there is no room are cut where the room ends, on the end of a line or
inside of one, and nothing follows. -/
theorem writeFrom_append_of_lt (h : w.Limited taken room err) {l : Listing}
    (hl : ∀ e ∈ l, e.Fits) (rest : Listing) (total : Nat) {s : σ} {n : Nat}
    (hroom : room s = some n) (hlt : n < l.bytes.length) :
    ∃ s', writeFrom w total (l ++ rest) s = (.ok ⟨total + n, some err⟩, s') ∧
      taken s' = taken s ++ l.bytes.take n := by
  induction l generalizing total s n with
  | nil =>
    rw [bytes_nil] at hlt
    cases hlt
  | cons e l ih =>
    rw [List.forall_mem_cons] at hl
    rw [bytes_cons, List.length_append] at hlt
    by_cases hfirst : n < e.bytes.length
    · obtain ⟨s₁, hwrite, htaken⟩ := h.short s e.bytes n hroom hfirst
      refine ⟨s₁, writeFrom_cons_of_failed hl.1 hwrite, ?_⟩
      rw [htaken, bytes_cons, List.take_append_of_le_length (by omega)]
    · obtain ⟨s₁, hwrite, htaken₁, hroom₁⟩ := h.whole s e.bytes e.bytes_ne_nil fun m hm => by
        cases hroom.symm.trans hm
        omega
      rw [hroom, Option.map_some] at hroom₁
      obtain ⟨s₂, hrest, htaken₂⟩ := ih hl.2 (total + e.bytes.length) hroom₁ (by omega)
      refine ⟨s₂, ?_, ?_⟩
      · rw [List.cons_append, writeFrom_cons_of_taken hl.1 hwrite, hrest]
        congr 3
        omega
      · rw [htaken₂, htaken₁, bytes_cons, List.take_append, List.append_assoc,
          List.take_of_length_le (show e.bytes.length ≤ n by omega)]

/-- A listing with a text, written to a writer with room for `n` bytes or without a limit. -/
theorem writeTo_of_render (h : w.Limited taken room err) {l : Listing} {text : String}
    (hrender : l.render = .ok text) (s : σ) :
    let bytes := text.toUTF8.toList
    (∀ n, room s = some n → ∃ s',
      l.writeTo w s = (.ok ⟨min n bytes.length, if n < bytes.length then some err else none⟩, s') ∧
        taken s' = taken s ++ bytes.take (min n bytes.length)) ∧
    (room s = none → ∃ s', l.writeTo w s = (.ok ⟨bytes.length, none⟩, s') ∧
      taken s' = taken s ++ bytes) := by
  obtain ⟨hl, rfl⟩ := (render_accepts l text).mp hrender
  show (∀ n, room s = some n → ∃ s',
      l.writeTo w s = (.ok ⟨min n l.bytes.length, if n < l.bytes.length then some err else none⟩,
        s') ∧ taken s' = taken s ++ l.bytes.take (min n l.bytes.length)) ∧
    (room s = none → ∃ s', l.writeTo w s = (.ok ⟨l.bytes.length, none⟩, s') ∧
      taken s' = taken s ++ l.bytes)
  have hwhole (hroom : ∀ n ∈ room s, l.bytes.length ≤ n) :
      ∃ s', l.writeTo w s = (.ok ⟨l.bytes.length, none⟩, s') ∧ taken s' = taken s ++ l.bytes := by
    obtain ⟨s', hwrite, htaken⟩ := writeFrom_append_of_room h hl [] 0 hroom
    rw [List.append_nil, Nat.zero_add] at hwrite
    exact ⟨s', hwrite, htaken⟩
  refine ⟨fun n hroom => ?_, fun hroom => ?_⟩
  · by_cases hlt : n < l.bytes.length
    · obtain ⟨s', hwrite, htaken⟩ := writeFrom_append_of_lt h hl [] 0 hroom hlt
      rw [List.append_nil, Nat.zero_add] at hwrite
      rw [if_pos hlt, Nat.min_eq_left (by omega)]
      exact ⟨s', hwrite, htaken⟩
    · rw [if_neg hlt, Nat.min_eq_right (by omega), List.take_length]
      refine hwhole fun m hm => ?_
      cases hroom.symm.trans hm
      omega
  · refine hwhole fun m hm => ?_
    cases hroom.symm.trans hm

/-- A listing without a text arrives up to its first line that has none, unless the writer
fails before that. -/
theorem writeTo_of_fault (h : w.Limited taken room err) {front back : Listing} {e : Element}
    {f : Fault} {text : String} (hfront : front.render = .ok text) (he : e.render = .error f)
    (s : σ) :
    let bytes := text.toUTF8.toList
    (∀ n, room s = some n → n < bytes.length → ∃ s',
      Listing.writeTo (front ++ e :: back) w s = (.ok ⟨n, some err⟩, s') ∧
        taken s' = taken s ++ bytes.take n) ∧
    ((∀ n, room s = some n → bytes.length ≤ n) → ∃ s',
      Listing.writeTo (front ++ e :: back) w s = (.error f, s') ∧
        taken s' = taken s ++ bytes) := by
  obtain ⟨hfits, rfl⟩ := (render_accepts front text).mp hfront
  refine ⟨fun n hroom hlt => ?_, fun hroom => ?_⟩
  · obtain ⟨s', hwrite, htaken⟩ := writeFrom_append_of_lt h hfits (e :: back) 0 hroom hlt
    rw [Nat.zero_add] at hwrite
    exact ⟨s', hwrite, htaken⟩
  · obtain ⟨s', hwrite, htaken⟩ := writeFrom_append_of_room h hfits (e :: back) 0 hroom
    rw [writeFrom_cons_of_error he] at hwrite
    exact ⟨s', hwrite, htaken⟩

/-- Writing a listing is rendering it.

A listing has a text exactly when no comment is indented further than can be addressed.
A writer with room for `n` bytes gets the first `n` bytes of the text, or all of them if
there are no more than that; the count is that of the bytes it got, and its failure comes
back exactly when the text is longer.  A writer without a limit gets the whole text.

Both end in the fault of the first line that has one.  The writer has got the lines before
it then, unless it failed in them.

The text of two listings in a row is made of their texts. -/
theorem writeTo_eq_render (h : w.Limited taken room err) (l l' : Listing) (s : σ) :
    (∀ text, l.render = .ok text →
      let bytes := text.toUTF8.toList
      (∀ n, room s = some n → ∃ s',
        l.writeTo w s =
            (.ok ⟨min n bytes.length, if n < bytes.length then some err else none⟩, s') ∧
          taken s' = taken s ++ bytes.take (min n bytes.length)) ∧
      (room s = none → ∃ s', l.writeTo w s = (.ok ⟨bytes.length, none⟩, s') ∧
        taken s' = taken s ++ bytes)) ∧
    (∀ f, l.render = .error f → ∃ front e back text,
      l = front ++ e :: back ∧ Listing.render front = .ok text ∧ e.render = .error f ∧
      let bytes := text.toUTF8.toList
      (∀ n, room s = some n → n < bytes.length → ∃ s', l.writeTo w s = (.ok ⟨n, some err⟩, s') ∧
        taken s' = taken s ++ bytes.take n) ∧
      ((∀ n, room s = some n → bytes.length ≤ n) → ∃ s', l.writeTo w s = (.error f, s') ∧
        taken s' = taken s ++ bytes)) ∧
    ((∃ text, l.render = .ok text) ↔
      ∀ text indent, .comment text indent ∈ l → 2 * indent ≤ Element.addressableBytes) ∧
    (Listing.render (l ++ l') = do
      let front ← l.render
      let back ← l'.render
      return front ++ back) := by
  refine ⟨fun text hrender => writeTo_of_render h hrender s, fun f hfault => ?_,
    exists_render_iff l, render_append l l'⟩
  obtain ⟨front, e, back, rfl, hfits, he⟩ := exists_first_of_render hfault
  have hfront := render_of_fits hfits
  exact ⟨front, e, back, Listing.text front, rfl, hfront, he, writeTo_of_fault h hfront he s⟩

/-- Lines of each kind; the comment has an indent below zero. -/
def assorted : Listing :=
  [.label "f", .comment "né" (-2), .directive (.size "f" 4),
    .instruction "mov" "l" [.immediate 7, .register ⟨"eax"⟩]]

/-- The cut is inside a line, and there inside a character.  A comment that is indented too
far leaves the lines before it. -/
theorem writeTo_eq_render_assorted :
    assorted.render = .ok "f:\n\t# né\n\t.size\tf,4\n\tmovl\t$7, %eax\n" ∧
      assorted.writeTo (sink (some 8)) [] =
        (.ok ⟨8, some .full⟩, [102, 58, 10, 9, 35, 32, 110, 195]) ∧
      (assorted.writeTo (sink none) []).1 = .ok ⟨36, none⟩ ∧
      Listing.writeTo [.label "f", .comment "a" (1 <<< 62)] (sink none) [] =
        (.error .lengthOverflow, [102, 58, 10]) := by
  have hrender : assorted.render = .ok "f:\n\t# né\n\t.size\tf,4\n\tmovl\t$7, %eax\n" := by
    decide +kernel
  have hlength : "f:\n\t# né\n\t.size\tf,4\n\tmovl\t$7, %eax\n".toUTF8.toList.length = 36 := by
    decide +kernel
  have hcut : "f:\n\t# né\n\t.size\tf,4\n\tmovl\t$7, %eax\n".toUTF8.toList.take 8 =
      [102, 58, 10, 9, 35, 32, 110, 195] := by
    decide +kernel
  obtain ⟨s, hwrite, htaken⟩ :=
    ((writeTo_eq_render (limited_sink (some 8)) assorted [] []).1 _ hrender).1 8 rfl
  obtain ⟨s', hwhole, -⟩ :=
    ((writeTo_eq_render (limited_sink none) assorted [] []).1 _ hrender).2 rfl
  rw [hlength] at hwrite hwhole htaken
  have hs : s = [102, 58, 10, 9, 35, 32, 110, 195] := htaken.trans hcut
  rw [hwrite, hwhole, hs]
  refine ⟨hrender, rfl, rfl, ?_⟩
  decide +kernel

end Listing

end Cflat.Asm
