import Cflat.Proofs.Wrapping

/-!
# The columns of a page

The entries of a page are printed one below the other, each with its usage text in the same
column and on lines that are no longer than the page is wide.  The widths are taken from the
flags and groups before anything is printed.

* Texts of printable ASCII characters, which have as many bytes as characters.
* Layouts: the left column is as wide as every label that was looked at.
* `LinesUp`: how an entry should look, and when it does.
* Pages: `Shows` relates a page to the entries on it.
* `pages_lineUp`: a group without a type of its own is the one thing that can spoil a page.
-/

namespace Cflat.CommandLine

open Text (words spaces padRight IsWord)

/-! ## Plain texts -/

/-- A text of printable ASCII characters. -/
def isAscii (s : String) : Bool :=
  s.toList.all fun c => ' ' ≤ c && c ≤ '~'

@[simp] theorem isAscii_append (s t : String) : isAscii (s ++ t) = (isAscii s && isAscii t) := by
  simp [isAscii]

theorem isAscii_iff {s : String} : isAscii s = true ↔ ∀ c ∈ s.toList, ' ' ≤ c ∧ c ≤ '~' := by
  simp [isAscii]

@[simp] theorem isAscii_spaces (n : Nat) : isAscii (spaces n) = true := by
  rw [isAscii_iff, spaces, String.toList_ofList]
  intro c hc
  rw [List.eq_of_mem_replicate hc]
  decide

theorem newline_notMem_of_isAscii {s : String} (h : isAscii s = true) : '\n' ∉ s.toList := by
  intro hmem
  have hspace := (isAscii_iff.mp h '\n' hmem).1
  revert hspace
  decide

/-- Such a text has as many bytes as characters. -/
theorem utf8ByteSize_of_isAscii {s : String} (h : isAscii s = true) :
    s.utf8ByteSize = s.length := by
  have hchars : ∀ cs : List Char, (∀ c ∈ cs, ' ' ≤ c ∧ c ≤ '~') →
      (String.ofList cs).utf8ByteSize = cs.length := by
    intro cs hcs
    induction cs with
    | nil => rfl
    | cons c cs ih =>
      rw [List.forall_mem_cons] at hcs
      have htilde : '~'.val ≤ 127 := by decide
      have hc : c.utf8Size = 1 :=
        Char.utf8Size_eq_one_iff.mpr (UInt32.le_trans hcs.1.2 htilde)
      rw [String.ofList_cons, String.utf8ByteSize_append, String.utf8ByteSize_singleton, hc,
        ih hcs.2, List.length_cons, Nat.add_comm]
  have hsize := hchars s.toList (isAscii_iff.mp h)
  rwa [String.ofList_toList, String.length_toList] at hsize

@[simp] theorem utf8ByteSize_spaces (n : Nat) : (spaces n).utf8ByteSize = n := by
  rw [utf8ByteSize_of_isAscii (isAscii_spaces n)]
  simp [spaces]

theorem spaces_append (m n : Nat) : spaces m ++ spaces n = spaces (m + n) := by
  simp [spaces, ← String.ofList_append]

theorem isAscii_intercalate {ws : List String} (h : ∀ w ∈ ws, isAscii w = true) :
    isAscii (" ".intercalate ws) = true := by
  induction ws with
  | nil => rfl
  | cons w ws ih =>
    rw [List.forall_mem_cons] at h
    cases ws with
    | nil => simpa using h.1
    | cons v ws =>
      rw [String.intercalate_cons_cons]
      simp [h.1, ih h.2]
      decide

theorem isAscii_of_mem_words {text w : String} (h : isAscii text = true) (hw : w ∈ words text) :
    isAscii w = true :=
  isAscii_iff.mpr fun c hc => isAscii_iff.mp h c (Text.mem_of_mem_words hw hc)

/-! ## Layouts -/

/-- An entry of a page: the label of a flag or switch, its usage and an annotation. -/
structure Item where
  left : String
  usage : String
  right : String

/-- All columns of the entry are plain. -/
structure Item.IsPlain (x : Item) : Prop where
  left : isAscii x.left = true
  usage : isAscii x.usage = true
  right : isAscii x.right = true

namespace Layout

theorem le_leftWidth_foldl {α : Type} {f : Layout → α → Layout}
    (hmono : ∀ l a, l.leftWidth ≤ (f l a).leftWidth) {n : Nat} {xs : List α} {l : Layout}
    (h : n ≤ l.leftWidth ∨ ∃ a ∈ xs, ∀ l, n ≤ (f l a).leftWidth) :
    n ≤ (xs.foldl f l).leftWidth := by
  induction xs generalizing l with
  | nil => simpa using h
  | cons x xs ih =>
    rw [List.foldl_cons]
    apply ih
    rcases h with h | ⟨a, ha, h⟩
    · exact .inl (h.trans (hmono l x))
    · rcases List.mem_cons.mp ha with rfl | ha
      · exact .inl (h l)
      · exact .inr ⟨a, ha, h⟩

theorem width_foldl {α : Type} {f : Layout → α → Layout} (h : ∀ l a, (f l a).width = l.width)
    (xs : List α) (l : Layout) : (xs.foldl f l).width = l.width := by
  induction xs generalizing l with
  | nil => rfl
  | cons x xs ih => exact (ih (f l x)).trans (h l x)

theorem leftWidth_le_grow (l : Layout) (left usage : String) :
    l.leftWidth ≤ (l.grow left usage).leftWidth :=
  Nat.le_max_left ..

theorem le_leftWidth_grow (l : Layout) (left usage : String) :
    left.utf8ByteSize ≤ (l.grow left usage).leftWidth :=
  Nat.le_max_right ..

theorem leftWidth_le_growGroup (l : Layout) (g : Group) :
    l.leftWidth ≤ (l.growGroup g).leftWidth :=
  le_leftWidth_foldl (fun l _ => (l.leftWidth_le_grow _ _).trans (leftWidth_le_grow _ _ _))
    (.inl (Nat.le_refl _))

theorem width_growGroup (l : Layout) (g : Group) : (l.growGroup g).width = l.width := by
  unfold growGroup
  rw [width_foldl]
  exact fun _ _ => rfl

theorem width_ofFlags (fs : FlagSet) (width : Int64) : (ofFlags fs width).width = width := by
  unfold ofFlags
  rw [width_foldl width_growGroup, width_foldl]
  exact fun _ _ => rfl

/-- The left column has room for the options. -/
theorem signature_le_leftWidth {fs : FlagSet} {f : Flag} (h : f ∈ fs.optionFlags)
    (width : Int64) : f.signature.utf8ByteSize ≤ (ofFlags fs width).leftWidth := by
  refine le_leftWidth_foldl leftWidth_le_growGroup (.inl ?_)
  exact le_leftWidth_foldl (fun l _ => l.leftWidth_le_grow _ _)
    (.inr ⟨f, h, fun l => l.le_leftWidth_grow _ _⟩)

/-- It has room for the members of the groups, and for a heading with the type of the group. -/
theorem entry_le_leftWidth {fs : FlagSet} {g : Group} {e : GroupEntry} (hg : g ∈ fs.groups)
    (he : e ∈ g.entries) (width : Int64) :
    e.name.utf8ByteSize ≤ (ofFlags fs width).leftWidth ∧
      ("-" ++ e.lead ++ "no-<" ++ g.type ++ ">").utf8ByteSize ≤ (ofFlags fs width).leftWidth := by
  have hgroup {n : Nat} (h : ∀ l : Layout,
      n ≤ ((l.grow e.name e.usage).grow ("-" ++ e.lead ++ "no-<" ++ g.type ++ ">") "").leftWidth) :
      n ≤ (ofFlags fs width).leftWidth := by
    refine le_leftWidth_foldl leftWidth_le_growGroup (.inr ⟨g, hg, fun l => ?_⟩)
    exact le_leftWidth_foldl
      (fun l _ => (l.leftWidth_le_grow _ _).trans (leftWidth_le_grow _ _ _)) (.inr ⟨e, he, h⟩)
  exact ⟨hgroup fun l => (l.le_leftWidth_grow _ _).trans (leftWidth_le_grow _ _ _),
    hgroup fun l => le_leftWidth_grow _ _ _⟩

/-- What the other columns leave of a page, as a number. -/
def spare (l : Layout) (x : Item) : Int :=
  l.width.toInt - 8 - l.leftWidth - 3 - x.right.utf8ByteSize

/-- The page has room for the longest word of the usage text, and for ten bytes. -/
def HasRoom (l : Layout) (x : Item) : Prop :=
  10 ≤ l.spare x ∧ ∀ w ∈ words x.usage, (w.utf8ByteSize : Int) ≤ l.spare x

theorem toInt_sub_of_le {a b : Int64} {n : Nat} (hb : b.toInt = n) (h : n ≤ a.toInt) :
    (a - b).toInt = a.toInt - n := by
  have ha := a.toInt_lt
  rw [Int64.toInt_sub, hb]
  apply Int.bmod_eq_of_le <;> omega

theorem toInt_max_of_le {a b : Int64} (h : b.toInt ≤ a.toInt) : (max a b).toInt = a.toInt := by
  have hmax : max a b = if a ≤ b then b else a := rfl
  rw [hmax]
  split
  · next hle =>
    have hle' := Int64.le_iff_toInt_le.mp hle
    omega
  · rfl

/-- Where there is room nothing wraps around. -/
theorem toInt_room {l : Layout} {x : Item} (h : 10 ≤ l.spare x) :
    (l.room x.right).toInt = l.spare x := by
  unfold spare at h ⊢
  have hwidth := l.width.toInt_lt
  have hleft : (Int64.ofNat l.leftWidth).toInt = l.leftWidth :=
    Int64.toInt_ofNat_of_lt (by omega)
  have hright : (Int64.ofNat x.right.utf8ByteSize).toInt = x.right.utf8ByteSize :=
    Int64.toInt_ofNat_of_lt (by omega)
  have hindent : (l.width - 8).toInt = l.width.toInt - 8 :=
    toInt_sub_of_le (n := 8) rfl (by omega)
  have hlabel : (l.width - 8 - .ofNat l.leftWidth).toInt = l.width.toInt - 8 - l.leftWidth := by
    rw [toInt_sub_of_le hleft (by omega), hindent]
  have hgaps : (l.width - 8 - .ofNat l.leftWidth - 3).toInt =
      l.width.toInt - 8 - l.leftWidth - 3 := by
    rw [toInt_sub_of_le (n := 3) rfl (by omega), hlabel]
    rfl
  have hspare : (l.width - 8 - .ofNat l.leftWidth - 3 - .ofNat x.right.utf8ByteSize).toInt =
      l.width.toInt - 8 - l.leftWidth - 3 - x.right.utf8ByteSize := by
    rw [toInt_sub_of_le hright (by omega), hgaps]
  have hten : (10 : Int64).toInt = 10 := rfl
  rw [room, toInt_max_of_le (by omega), hspare]

end Layout

/-! ## Entries -/

/-- How an entry should look.  It is printed on lines no longer than the page is wide; its usage
text is all there, and each line of it starts, with a word, in the same column. -/
def LinesUp (l : Layout) (x : Item) : Prop :=
  ∃ (texts : List String) (gap margin : Nat),
    let column := 8 + l.leftWidth + 1
    let lines := (spaces 8 ++ x.left ++ spaces gap ++ texts.headD "" ++ spaces margin ++ x.right) ::
      texts.tail.map (spaces column ++ ·)
    l.entry x.left x.usage x.right = String.join (lines.map (· ++ "\n")) ∧
      (∀ line ∈ lines, '\n' ∉ line.toList ∧ (line.utf8ByteSize : Int) ≤ l.width.toInt) ∧
      8 + x.left.utf8ByteSize + gap = column ∧
      texts.flatMap words = words x.usage ∧
      ∀ text ∈ texts, words text ≠ [] ∧ text = " ".intercalate (words text)

/-- The space between the usage text on the first line and the annotation. -/
def Layout.margin (l : Layout) (x : Item) : Nat :=
  if x.right = "" then 0
  else min l.usageWidth (l.room x.right).toNatClampNeg -
    ((wrap x.usage (l.room x.right)).headD "").length + 2

theorem padRight_append_space (width : Nat) (s : String) :
    padRight width s ++ " " = s ++ spaces (width - s.length + 1) := by
  rw [padRight, String.append_assoc, ← spaces_append]
  rfl

/-- An entry line by line. -/
theorem entry_eq (l : Layout) (x : Item) :
    l.entry x.left x.usage x.right = String.join (((spaces 8 ++ x.left ++
      spaces (l.leftWidth - x.left.length + 1) ++ (wrap x.usage (l.room x.right)).headD "" ++
        spaces (l.margin x) ++ x.right) :: (wrap x.usage (l.room x.right)).tail.map
          (spaces (8 + l.leftWidth + 1) ++ ·)).map (· ++ "\n")) := by
  have hmiddle (first : String) (m : Nat) :
      (if x.right = "" then first else padRight m first ++ "  " ++ x.right) =
        first ++ spaces (if x.right = "" then 0 else m - first.length + 2) ++ x.right := by
    by_cases hright : x.right = ""
    · simp [hright, spaces]
    · rw [if_neg hright, if_neg hright, padRight, ← spaces_append, ← String.append_assoc]
      rfl
  have hlabel : indent 2 ++ padRight l.leftWidth x.left ++ " " =
      spaces 8 ++ x.left ++ spaces (l.leftWidth - x.left.length + 1) := by
    rw [String.append_assoc, padRight_append_space, ← String.append_assoc]
    rfl
  have hnext (line : String) : indent 2 ++ spaces (l.leftWidth + 1) ++ line ++ "\n" =
      spaces (8 + l.leftWidth + 1) ++ line ++ "\n" := by
    rw [indent, spaces_append, Nat.add_assoc]
  unfold Layout.entry
  dsimp only
  rw [hmiddle, hlabel, List.map_cons, String.join_cons, List.map_map]
  simp only [hnext, ← String.append_assoc]
  rfl

section Entry

variable {l : Layout} {x : Item}

theorem room_pos (hroom : l.HasRoom x) : 0 < l.room x.right := by
  have hten := hroom.1
  rw [Int64.lt_iff_toInt_lt, Layout.toInt_room hten, Int64.toInt_zero]
  omega

theorem cast_room (hroom : l.HasRoom x) :
    ((l.room x.right).toNatClampNeg : Int) = l.spare x := by
  rw [Int64.cast_toNatClampNeg _ (Int64.le_of_lt (room_pos hroom)), Layout.toInt_room hroom.1]

/-- Where the page has room every line of the usage text keeps to its column. -/
theorem utf8ByteSize_le_of_mem_wrap (hroom : l.HasRoom x) {text : String}
    (h : text ∈ wrap x.usage (l.room x.right)) : (text.utf8ByteSize : Int) ≤ l.spare x := by
  have hcolumn := cast_room hroom
  obtain ⟨hwrapping, -⟩ := isWrapping_wrap x.usage (room_pos hroom)
  by_cases hwide : (l.room x.right).toNatClampNeg < text.utf8ByteSize
  · obtain ⟨w, hw⟩ := hwrapping.fits text h hwide
    have hspaced := hwrapping.spaced text h
    rw [hw, String.intercalate_singleton] at hspaced
    have hmem : w ∈ words x.usage := by
      rw [← hwrapping.words]
      exact List.mem_flatMap.mpr ⟨text, h, by simp [hw]⟩
    rw [hspaced]
    exact hroom.2 w hmem
  · omega

theorem isAscii_of_mem_wrap (hroom : l.HasRoom x) (hascii : isAscii x.usage = true) {text : String}
    (h : text ∈ wrap x.usage (l.room x.right)) : isAscii text = true := by
  obtain ⟨hwrapping, -⟩ := isWrapping_wrap x.usage (room_pos hroom)
  rw [hwrapping.spaced text h]
  refine isAscii_intercalate fun w hw => isAscii_of_mem_words hascii ?_
  rw [← hwrapping.words]
  exact List.mem_flatMap.mpr ⟨text, h, hw⟩

theorem first_of_wrap (hroom : l.HasRoom x) (hascii : isAscii x.usage = true) :
    isAscii ((wrap x.usage (l.room x.right)).headD "") = true ∧
      (((wrap x.usage (l.room x.right)).headD "").utf8ByteSize : Int) ≤ l.spare x := by
  have hten := hroom.1
  cases hwrap : wrap x.usage (l.room x.right) with
  | nil => exact ⟨rfl, by simp; omega⟩
  | cons first rest =>
    have hmem : first ∈ wrap x.usage (l.room x.right) := by simp [hwrap]
    exact ⟨isAscii_of_mem_wrap hroom hascii hmem, utf8ByteSize_le_of_mem_wrap hroom hmem⟩

/-- The annotation starts at most two bytes after the usage column ends. -/
theorem margin_le (hroom : l.HasRoom x) (hascii : isAscii x.usage = true) :
    (((wrap x.usage (l.room x.right)).headD "").utf8ByteSize + l.margin x : Int) ≤
      l.spare x + 2 := by
  obtain ⟨hfirst, hsize⟩ := first_of_wrap hroom hascii
  have hlength := utf8ByteSize_of_isAscii hfirst
  have hcolumn := cast_room hroom
  unfold Layout.margin
  split <;> omega

/-- A label that fits the left column has its entry line up. -/
theorem linesUp_of_fits (hplain : x.IsPlain) (hroom : l.HasRoom x)
    (hfits : x.left.utf8ByteSize ≤ l.leftWidth) : LinesUp l x := by
  obtain ⟨hleft, husage, hright⟩ := hplain
  obtain ⟨hwrapping, hne⟩ := isWrapping_wrap x.usage (room_pos hroom)
  have hlength := utf8ByteSize_of_isAscii hleft
  have hspare : l.spare x = l.width.toInt - 8 - l.leftWidth - 3 - x.right.utf8ByteSize := rfl
  refine ⟨wrap x.usage (l.room x.right), _, _, entry_eq l x, ?_, by omega, hwrapping.words,
    fun text htext => ⟨hne text htext, hwrapping.spaced text htext⟩⟩
  rw [List.forall_mem_cons]
  constructor
  · obtain ⟨hfirst, -⟩ := first_of_wrap hroom husage
    have hmargin := margin_le hroom husage
    refine ⟨newline_notMem_of_isAscii ?_, ?_⟩
    · simp only [isAscii_append, isAscii_spaces, hleft, hfirst, hright, Bool.and_self]
    · simp only [String.utf8ByteSize_append, utf8ByteSize_spaces]
      omega
  · intro line hline
    obtain ⟨text, htext, rfl⟩ := List.mem_map.mp hline
    have hmem := List.mem_of_mem_tail htext
    have hsize := utf8ByteSize_le_of_mem_wrap hroom hmem
    refine ⟨newline_notMem_of_isAscii ?_, ?_⟩
    · simp [isAscii_of_mem_wrap hroom husage hmem]
    · rw [String.utf8ByteSize_append, utf8ByteSize_spaces]
      omega

/-- A line of words starts with one. -/
theorem exists_solid_of_spaced {text : String} (hne : words text ≠ [])
    (hspaced : text = " ".intercalate (words text)) :
    ∃ c cs, text.toList = c :: cs ∧ Text.isBlank c = false := by
  cases hwords : words text with
  | nil => exact absurd hwords hne
  | cons w ws =>
    have hmem : w ∈ words text := by simp [hwords]
    have hw : IsWord w.toList := Text.isWord_of_mem_words hmem
    have hjoin : text = w ++ " ".intercalate ("" :: ws) := by
      rw [hspaced, hwords, ← String.intercalate_cons_append, String.append_empty]
    cases hchars : w.toList with
    | nil => exact absurd hchars hw.ne_nil
    | cons c cs =>
      refine ⟨c, cs ++ (" ".intercalate ("" :: ws)).toList, ?_, hw.solid c (by simp [hchars])⟩
      rw [hjoin, String.toList_append, hchars, List.cons_append]

/-- A usage text starts with a word, so a label that is too long moves it. -/
theorem fits_of_linesUp (hleft : isAscii x.left = true) (hwords : words x.usage ≠ [])
    (h : LinesUp l x) : x.left.utf8ByteSize ≤ l.leftWidth := by
  obtain ⟨texts, gap, margin, hentry, -, hcolumn, htexts, hsolid⟩ := h
  by_contra hlong
  have hlength := utf8ByteSize_of_isAscii hleft
  obtain rfl : gap = 0 := by omega
  cases texts with
  | nil => exact hwords htexts.symm
  | cons text texts =>
    obtain ⟨hne, hspaced⟩ := hsolid text List.mem_cons_self
    obtain ⟨c, cs, hchars, hc⟩ := exists_solid_of_spaced hne hspaced
    rw [entry_eq, List.map_cons, List.map_cons, String.join_cons, String.join_cons] at hentry
    simp only [String.append_assoc, String.append_right_inj] at hentry
    have hheads := congrArg (fun s => s.toList.head?) hentry
    simp [spaces, List.replicate_succ, hchars] at hheads
    rw [← hheads] at hc
    revert hc
    decide

end Entry

/-! ## Pages -/

/-- The entry of a flag. -/
def Flag.item (f : Flag) : Item :=
  ⟨f.signature, f.usage, f.annotation⟩

/-- The entry of a switch in a group. -/
def GroupEntry.item (e : GroupEntry) (fs : FlagSet) : Item :=
  ⟨e.name, e.usage, App.entryState fs e⟩

namespace Group

/-- What the switches of a group are called on a page. -/
def word (g : Group) : String :=
  if g.type = "" then "flag" else g.type

/-- The two entries that head a group, with the lead of its first switch. -/
def onHeading (g : Group) (lead : String) : Item :=
  ⟨"-" ++ lead ++ "<" ++ g.word ++ ">", "Enable a specific " ++ g.word, ""⟩

/-- The second of the two entries. -/
def offHeading (g : Group) (lead : String) : Item :=
  ⟨"-" ++ lead ++ "no-<" ++ g.word ++ ">", "Disable a specific " ++ g.word, ""⟩

/-- The entries of a group: the headings, then the switches by name. -/
def items (g : Group) (fs : FlagSet) : List Item :=
  match g.entries with
  | [] => []
  | e :: _ => g.onHeading e.lead :: g.offHeading e.lead ::
    (g.entries.mergeSort fun a b => a.name ≤ b.name).map (·.item fs)

theorem left_offHeading {g : Group} (h : g.type = "") (lead : String) :
    (g.offHeading lead).left = "-" ++ lead ++ "no-<flag>" := by
  rw [offHeading, word, if_pos h, String.append_assoc, String.append_assoc]
  rfl

/-- The headings take the lead of the first switch. -/
theorem mem_items_iff {g : Group} {fs : FlagSet} {x : Item} :
    x ∈ g.items fs ↔
      (∃ e ∈ g.entries.head?, x = g.onHeading e.lead ∨ x = g.offHeading e.lead) ∨
        ∃ e ∈ g.entries, x = e.item fs := by
  unfold items
  cases g.entries with
  | nil => simp
  | cons e rest => simp [or_assoc, eq_comm]

end Group

/-- The entries of the short usage page. -/
def App.usageItems (a : App) : List Item :=
  a.flags.optionFlags.map Flag.item

/-- The entries of the full help page. -/
def App.helpItems (a : App) : List Item :=
  a.usageItems ++
    (a.flags.groups.mergeSort fun g h => g.name ≤ h.name).flatMap (·.items a.flags)

/-- A text that is empty or ends a line. -/
def EndsLine (s : String) : Prop :=
  ∀ c ∈ s.toList.getLast?, c = '\n'

theorem endsLine_empty : EndsLine "" := by
  simp [EndsLine]

theorem endsLine_append {t : String} (ht : t.toList.getLast? = some '\n') (s : String) :
    EndsLine (s ++ t) := by
  intro c hc
  rw [String.toList_append, List.getLast?_append, ht] at hc
  exact (Option.some.inj hc).symm

theorem endsLine_ite {p : Prop} [Decidable p] {s : String} (hs : EndsLine s) :
    EndsLine (if p then "" else s) := by
  split
  · exact endsLine_empty
  · exact hs

theorem EndsLine.append {s t : String} (hs : EndsLine s) (ht : EndsLine t) :
    EndsLine (s ++ t) := by
  cases hlast : t.toList.getLast? with
  | none =>
    have hnil : t.toList = [] := List.getLast?_eq_none_iff.mp hlast
    intro c hc
    rw [String.toList_append, hnil, List.append_nil] at hc
    exact hs c hc
  | some d =>
    rw [ht d hlast] at hlast
    exact endsLine_append hlast s

theorem endsLine_join {α : Type} {f : α → String} (h : ∀ a, EndsLine (f a)) (as : List α) :
    EndsLine (String.join (as.map f)) := by
  induction as with
  | nil => exact endsLine_empty
  | cons a as ih =>
    rw [List.map_cons, String.join_cons]
    exact (h a).append ih

/-- The page has the given entries in order, each on lines of its own, and other text between
them. -/
inductive Shows (l : Layout) : List Item → String → Prop
  | nil {text : String} : EndsLine text → Shows l [] text
  | cons {text rest : String} {x : Item} {items : List Item} : EndsLine text →
    Shows l items rest → Shows l (x :: items) (text ++ l.entry x.left x.usage x.right ++ rest)

namespace Shows

variable {l : Layout} {items items' : List Item} {page page' : String}

theorem text_append {text : String} (htext : EndsLine text) (h : Shows l items page) :
    Shows l items (text ++ page) := by
  cases h with
  | nil hpage => exact .nil (htext.append hpage)
  | cons hfirst hrest =>
    rw [← String.append_assoc, ← String.append_assoc]
    exact .cons (htext.append hfirst) hrest

theorem append (h : Shows l items page) (h' : Shows l items' page') :
    Shows l (items ++ items') (page ++ page') := by
  induction h with
  | nil htext => exact h'.text_append htext
  | cons htext _ ih =>
    rw [String.append_assoc]
    exact .cons htext ih

theorem entry (l : Layout) (x : Item) : Shows l [x] (l.entry x.left x.usage x.right) := by
  have h : Shows l [x] ("" ++ l.entry x.left x.usage x.right ++ "") :=
    .cons endsLine_empty (.nil endsLine_empty)
  rwa [String.append_empty, String.empty_append] at h

theorem join {α : Type} {as : List α} {f : α → List Item} {g : α → String}
    (h : ∀ a, Shows l (f a) (g a)) : Shows l (as.flatMap f) (String.join (as.map g)) := by
  induction as with
  | nil => exact .nil endsLine_empty
  | cons a as ih =>
    rw [List.flatMap_cons, List.map_cons, String.join_cons]
    exact (h a).append ih

theorem entries (l : Layout) (items : List Item) :
    Shows l items (String.join (items.map fun x => l.entry x.left x.usage x.right)) := by
  have h : Shows l (items.flatMap ([·])) _ := join (entry l)
  rwa [List.flatMap_singleton'] at h

end Shows

theorem shows_optionsBlock (a : App) (l : Layout) : Shows l a.usageItems (a.optionsBlock l) := by
  unfold App.optionsBlock App.usageItems
  dsimp only
  split
  · next hnone =>
    rw [List.isEmpty_iff.mp hnone]
    exact .nil endsLine_empty
  · have hentries := Shows.entries l (a.flags.optionFlags.map Flag.item)
    rw [List.map_map] at hentries
    exact hentries.text_append (endsLine_append (by decide) _)

theorem shows_groupBlock (fs : FlagSet) (l : Layout) (g : Group) :
    Shows l (g.items fs) (App.groupBlock fs l g) := by
  unfold App.groupBlock Group.items
  cases g.entries with
  | nil => exact .nil endsLine_empty
  | cons e rest =>
    have htitle : Shows l [] ("\n" ++ indent 1 ++ g.name ++ "\n") :=
      .nil (endsLine_append (by decide) _)
    have hheader : Shows l [] (if g.header = "" then "" else indent 1 ++ g.header ++ "\n") :=
      .nil (endsLine_ite (endsLine_append (by decide) _))
    have hmembers := Shows.entries l
      (((e :: rest).mergeSort fun a b => a.name ≤ b.name).map (·.item fs))
    rw [List.map_map] at hmembers
    exact (((htitle.append (.entry l (g.onHeading e.lead))).append
      (.entry l (g.offHeading e.lead))).append hheader).append hmembers

theorem shows_usage (a : App) (width : Int64) :
    Shows (.ofFlags a.flags width) a.usageItems (a.usage width) := by
  have htitle : EndsLine ("Usage: " ++ a.name ++ " " ++ a.synopsis ++ "\n") :=
    endsLine_append (by decide) _
  have hhint : EndsLine
      ("\nRun '" ++ (a.name ++ " --help' for all available options and flags.\n")) := by
    rw [← String.append_assoc]
    exact endsLine_append (by decide) _
  have hpage := ((shows_optionsBlock a (.ofFlags a.flags width)).text_append htitle).append
    (.nil hhint)
  rw [List.append_nil] at hpage
  unfold App.usage
  rwa [String.append_assoc, String.append_assoc]

theorem shows_help (a : App) (year : Nat) (width : Int64) :
    Shows (.ofFlags a.flags width) a.helpItems (a.help year width) := by
  have hgroups : Shows (.ofFlags a.flags width)
      ((a.flags.groups.mergeSort fun g h => g.name ≤ h.name).flatMap (·.items a.flags))
      (String.join ((a.flags.groups.mergeSort fun g h => g.name ≤ h.name).map
        (App.groupBlock a.flags (.ofFlags a.flags width)))) :=
    .join (shows_groupBlock a.flags _)
  have hline (s : String) : EndsLine (s ++ "\n") := endsLine_append (by decide) s
  have hdescription : EndsLine ("\n" ++ indent 1 ++ "Description\n" ++
      String.join ((wrap a.description (width - 8)).map fun line => indent 2 ++ line ++ "\n")) :=
    (endsLine_append (by decide) _).append (endsLine_join (fun line => hline _) _)
  unfold App.help
  refine .append (.text_append ?_ (shows_optionsBlock a _)) hgroups
  refine .append (.append (.append (.append (hline "") ?_) ?_) ?_) (endsLine_ite hdescription)
  · exact endsLine_ite (endsLine_append (by decide) _)
  · exact endsLine_ite (hline _)
  · exact endsLine_ite (hline _)

/-! ## The entries of a page -/

/-- The texts that are shown of a flag set are plain. -/
structure FlagSet.IsPlain (fs : FlagSet) : Prop where
  flags : ∀ f ∈ fs.flags, [f.name, f.shorthand, f.usage, f.defaultText, f.expected].all isAscii
  groups : ∀ g ∈ fs.groups, [g.name, g.type, g.header].all isAscii
  entries : ∀ g ∈ fs.groups, ∀ e ∈ g.entries, [e.name, e.lead, e.usage].all isAscii

theorem isAscii_ite {p : Prop} [Decidable p] {s t : String} (hs : isAscii s = true)
    (ht : isAscii t = true) : isAscii (if p then s else t) = true := by
  split
  · exact hs
  · exact ht

theorem isAscii_between {s : String} (h : isAscii s = true) {before after : String}
    (hliterals : (isAscii before && isAscii after) = true) :
    isAscii (before ++ s ++ after) = true := by
  rw [Bool.and_eq_true] at hliterals
  rw [isAscii_append, isAscii_append, h, hliterals.1, hliterals.2]
  rfl

theorem isPlain_item {f : Flag}
    (h : [f.name, f.shorthand, f.usage, f.defaultText, f.expected].all isAscii) :
    f.item.IsPlain := by
  simp only [List.all_cons, List.all_nil, Bool.and_true, Bool.and_eq_true] at h
  obtain ⟨hname, hshort, husage, hdefault, hexpected⟩ := h
  have hannotation : isAscii f.annotation = true :=
    isAscii_ite rfl (isAscii_between hdefault (by decide))
  have harg : isAscii (if f.value.isSwitch || f.expected = "" then ""
      else " <" ++ f.expected ++ ">") = true :=
    isAscii_ite rfl (isAscii_between hexpected (by decide))
  have hsignature : isAscii f.signature = true := by
    unfold Flag.signature
    dsimp only
    rw [isAscii_append, isAscii_append, isAscii_append, harg, hname, isAscii_ite rfl]
    · rfl
    · rw [isAscii_append, isAscii_append, isAscii_append, harg, hshort]
      rfl
  exact ⟨hsignature, husage, hannotation⟩

theorem isPlain_of_mem_items {fs : FlagSet} {g : Group} (hplain : fs.IsPlain)
    (hg : g ∈ fs.groups) {x : Item} (hx : x ∈ g.items fs) : x.IsPlain := by
  have hgroup := hplain.groups g hg
  have hentries := hplain.entries g hg
  simp only [List.all_cons, List.all_nil, Bool.and_true, Bool.and_eq_true] at hgroup hentries
  have hword : isAscii g.word = true := isAscii_ite (by decide) hgroup.2.1
  rcases Group.mem_items_iff.mp hx with ⟨e, he, hx⟩ | ⟨e, he, rfl⟩
  · have hlead := (hentries e (List.mem_of_mem_head? he)).2.1
    have hlabel (text : String) (htext : isAscii text = true) :
        isAscii ("-" ++ e.lead ++ text ++ g.word ++ ">") = true := by
      simp only [isAscii_append, hlead, htext, hword]
      decide
    have husage (text : String) (htext : isAscii text = true) :
        isAscii (text ++ g.word) = true := by
      rw [isAscii_append, htext, hword]
      rfl
    rcases hx with rfl | rfl
    · exact ⟨hlabel "<" (by decide), husage "Enable a specific " (by decide), rfl⟩
    · exact ⟨hlabel "no-<" (by decide), husage "Disable a specific " (by decide), rfl⟩
  · obtain ⟨hname, -, husage⟩ := hentries e he
    exact ⟨hname, husage, isAscii_ite (by decide) (by decide)⟩

theorem mem_helpItems_iff {a : App} {x : Item} :
    x ∈ a.helpItems ↔ x ∈ a.usageItems ∨ ∃ g ∈ a.flags.groups, x ∈ g.items a.flags := by
  simp [App.helpItems]

theorem isPlain_of_mem_helpItems {a : App} (hplain : a.flags.IsPlain) {x : Item}
    (hx : x ∈ a.helpItems) : x.IsPlain := by
  rcases mem_helpItems_iff.mp hx with hx | ⟨g, hg, hx⟩
  · obtain ⟨f, hf, rfl⟩ := List.mem_map.mp hx
    have hmem : f ∈ a.flags.flags := by
      rw [FlagSet.optionFlags, List.mem_mergeSort] at hf
      exact List.mem_of_mem_filter hf
    exact isPlain_item (hplain.flags f hmem)
  · exact isPlain_of_mem_items hplain hg hx

/-- The left column has room for the headings of the groups without a type, which are shown with
a word that was not looked at. -/
def HeadingsFit (fs : FlagSet) (l : Layout) : Prop :=
  ∀ g ∈ fs.groups, g.type = "" → ∀ e ∈ g.entries.head?,
    ("-" ++ e.lead ++ "no-<flag>").utf8ByteSize ≤ l.leftWidth

theorem offHeading_le_leftWidth {fs : FlagSet} {width : Int64}
    (hfit : HeadingsFit fs (.ofFlags fs width)) {g : Group} (hg : g ∈ fs.groups) {e : GroupEntry}
    (he : e ∈ g.entries.head?) :
    (g.offHeading e.lead).left.utf8ByteSize ≤ (Layout.ofFlags fs width).leftWidth := by
  by_cases htype : g.type = ""
  · have h := hfit g hg htype e he
    rwa [Group.left_offHeading htype]
  · rw [Group.offHeading, Group.word, if_neg htype]
    exact (Layout.entry_le_leftWidth hg (List.mem_of_mem_head? he) width).2

/-- All other labels fit anyway. -/
theorem left_le_leftWidth {a : App} {width : Int64}
    (hfit : HeadingsFit a.flags (.ofFlags a.flags width)) {x : Item} (hx : x ∈ a.helpItems) :
    x.left.utf8ByteSize ≤ (Layout.ofFlags a.flags width).leftWidth := by
  rcases mem_helpItems_iff.mp hx with hx | ⟨g, hg, hx⟩
  · obtain ⟨f, hf, rfl⟩ := List.mem_map.mp hx
    exact Layout.signature_le_leftWidth hf width
  · rcases Group.mem_items_iff.mp hx with ⟨e, he, hx⟩ | ⟨e, he, rfl⟩
    · have hoff := offHeading_le_leftWidth hfit hg he
      rcases hx with rfl | rfl
      · refine Nat.le_trans ?_ hoff
        have hbracket : "<".utf8ByteSize ≤ "no-<".utf8ByteSize := by decide
        simp only [Group.onHeading, Group.offHeading, String.utf8ByteSize_append]
        omega
      · exact hoff
    · exact (Layout.entry_le_leftWidth hg he width).1

theorem headingsFit_of_linesUp {a : App} {width : Int64} (hplain : a.flags.IsPlain)
    (h : ∀ x ∈ a.helpItems, LinesUp (.ofFlags a.flags width) x) :
    HeadingsFit a.flags (.ofFlags a.flags width) := by
  intro g hg htype e he
  have hmem : g.offHeading e.lead ∈ a.helpItems :=
    mem_helpItems_iff.mpr (.inr ⟨g, hg, Group.mem_items_iff.mpr (.inl ⟨e, he, .inr rfl⟩)⟩)
  have hleft := (isPlain_of_mem_helpItems hplain hmem).left
  have hwords : words (g.offHeading e.lead).usage ≠ [] := by
    have husage : (g.offHeading e.lead).usage = "Disable a specific flag" := by
      rw [Group.offHeading, Group.word, if_pos htype]
      rfl
    rw [husage]
    decide
  have hfits := fits_of_linesUp hleft hwords (h _ hmem)
  rwa [Group.left_offHeading htype] at hfits

/-- Where the texts are plain and the page has room, the entries of the usage page line up, and
those of the help page do if and only if the headings of the groups without a type fit. -/
theorem pages_lineUp (a : App) (year : Nat) (width : Int64) (hplain : a.flags.IsPlain)
    (hroom : ∀ x ∈ a.helpItems, (Layout.ofFlags a.flags width).HasRoom x) :
    (Layout.ofFlags a.flags width).width = width ∧
      Shows (.ofFlags a.flags width) a.usageItems (a.usage width) ∧
      (∀ x ∈ a.usageItems, LinesUp (.ofFlags a.flags width) x) ∧
      Shows (.ofFlags a.flags width) a.helpItems (a.help year width) ∧
      ((∀ x ∈ a.helpItems, LinesUp (.ofFlags a.flags width) x) ↔
        HeadingsFit a.flags (.ofFlags a.flags width)) := by
  refine ⟨Layout.width_ofFlags a.flags width, shows_usage a width, ?_, shows_help a year width,
    headingsFit_of_linesUp hplain, ?_⟩
  · intro x hx
    have hmem : x ∈ a.helpItems := mem_helpItems_iff.mpr (.inl hx)
    obtain ⟨f, hf, rfl⟩ := List.mem_map.mp hx
    exact linesUp_of_fits (isPlain_of_mem_helpItems hplain hmem) (hroom _ hmem)
      (Layout.signature_le_leftWidth hf width)
  · intro hfit x hx
    exact linesUp_of_fits (isPlain_of_mem_helpItems hplain hx) (hroom x hx)
      (left_le_leftWidth hfit hx)

/-- A group of one switch that does not say what its switches are called. -/
def untypedGroup : Group :=
  ⟨"Warnings", "", "", [⟨"a", "W", "Check a", some false, none⟩]⟩

/-- An option with a long label. -/
def outputFlag : Flag :=
  .make "output" "o" "Write the listing to this file" (.text "a.s") "file"

/-- The headings of the group fit where the label of an option is long enough. -/
theorem pages_lineUp_wideOption :
    let fs := ((FlagSet.define {} outputFlag).1.addGroup untypedGroup).1
    let a : App := { name := "t", flags := fs }
    let l := Layout.ofFlags fs 60
    fs.IsPlain ∧ (∀ x ∈ a.helpItems, l.HasRoom x) ∧ HeadingsFit fs l ∧
      ∀ x ∈ a.helpItems, LinesUp l x := by
  intro fs a l
  have hplain : fs.IsPlain := ⟨by decide +kernel, by decide +kernel, by decide +kernel⟩
  have hroom : ∀ x ∈ a.helpItems, l.HasRoom x := by
    unfold Layout.HasRoom
    decide +kernel
  have hfit : HeadingsFit fs l := by
    unfold HeadingsFit
    decide +kernel
  exact ⟨hplain, hroom, hfit, (pages_lineUp a 2026 60 hplain hroom).2.2.2.2.mpr hfit⟩

/-- Without the option the page does not line up. -/
theorem not_linesUp_untypedGroup :
    let fs := (FlagSet.addGroup {} untypedGroup).1
    let a : App := { name := "t", flags := fs }
    let l := Layout.ofFlags fs 80
    fs.IsPlain ∧ (∀ x ∈ a.helpItems, l.HasRoom x) ∧ ¬ ∀ x ∈ a.helpItems, LinesUp l x := by
  intro fs a l
  have hplain : fs.IsPlain := ⟨by decide +kernel, by decide +kernel, by decide +kernel⟩
  have hroom : ∀ x ∈ a.helpItems, l.HasRoom x := by
    unfold Layout.HasRoom
    decide +kernel
  have hunfit : ¬ HeadingsFit fs l := by
    unfold HeadingsFit
    decide +kernel
  exact ⟨hplain, hroom, fun h => hunfit (headingsFit_of_linesUp (a := a) hplain h)⟩

end Cflat.CommandLine
