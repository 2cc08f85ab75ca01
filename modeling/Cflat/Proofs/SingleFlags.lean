import Cflat.Proofs.Switches

/-!
# Single flags one after the other

A single flag changes the options at once, and a text that is no flag changes nothing.  So
after any texts whatever, each entry is as the last flag for it says.

* `Spells`: the texts that are flags, and what they say.
* `applyFlag_cases`: these texts do what they say, and any other text is refused and does
  nothing.
* `isOn_applyEach_iff`: the last flag for an entry decides.
-/

namespace Cflat.Options

/-- What a single flag is about: one entry, or all warnings. -/
inductive Subject
  | entry (e : Entry)
  | allWarnings
  deriving DecidableEq

namespace Subject

/-- The letter of a flag. -/
def letter : Subject → String
  | entry e => e.letter
  | allWarnings => "W"

/-- The name in a flag. -/
def name : Subject → String
  | entry e => e.name
  | allWarnings => "all"

/-- The entries that a flag turns on or off. -/
def Covers : Subject → Entry → Prop
  | entry e, e' => e' = e
  | allWarnings, e => ∃ w, e = .warning w

instance (x : Subject) (e : Entry) : Decidable (x.Covers e) :=
  match x, e with
  | entry e, e' => inferInstanceAs (Decidable (e' = e))
  | allWarnings, .warning w => .isTrue ⟨w, rfl⟩
  | allWarnings, .feature _ => .isFalse fun ⟨_, h⟩ => Entry.noConfusion h

end Subject

/-- The text is a flag that turns its subject on or off.  The dash in front may be missing. -/
def Spells (flag : String) (x : Subject) (on : Bool) : Prop :=
  ∃ dash ∈ ["", "-"], flag = dash ++ x.letter ++ (if on then "" else "no-") ++ x.name

/-- The text is a flag that turns the entry on or off, by itself or with others. -/
def Sets (flag : String) (e : Entry) (on : Bool) : Prop :=
  ∃ x : Subject, Spells flag x on ∧ x.Covers e

/-- Turn a subject on or off. -/
def assign (o : Options) : Subject → Bool → Options
  | .entry e => o.set e
  | .allWarnings => o.setAllWarnings

theorem setAllWarnings_eq_switched (o : Options) (on : Bool) :
    o.setAllWarnings on =
      o.switched fun e => if Subject.allWarnings.Covers e then on else o.isOn e := by
  have hwarning (w : Warning) : (o.setAllWarnings on).warning w = on := by
    cases w <;> rfl
  have hboard : (o.setAllWarnings on).warnings =
      o.warnings.switched (o.setAllWarnings on).warning := rfl
  have hall : o.setAllWarnings on = { o with warnings := (o.setAllWarnings on).warnings } := rfl
  rw [hall, hboard, funext hwarning]
  simp only [switched, Subject.Covers]
  rfl

/-- A flag turns the entries that it covers on or off and changes nothing else. -/
theorem assign_eq_switched (o : Options) (x : Subject) (on : Bool) :
    o.assign x on = o.switched fun e => if x.Covers e then on else o.isOn e := by
  cases x with
  | entry e => exact o.set_eq_switched e on
  | allWarnings => exact o.setAllWarnings_eq_switched on

theorem isOn_assign (o : Options) (x : Subject) (on : Bool) (e : Entry) :
    (o.assign x on).isOn e = if x.Covers e then on else o.isOn e := by
  rw [assign_eq_switched, isOn_switched]

/-! ## The texts that are flags -/

/-- What `switchName` takes apart. -/
theorem eq_append_of_switchName {cs : List Char} {on : Bool} {name : String}
    (h : switchName cs = (on, name)) :
    String.ofList cs = (if on then "" else "no-") ++ name := by
  unfold switchName at h
  cases hdrop : ['n', 'o', '-'].isPrefixOf? cs with
  | none =>
    rw [hdrop] at h
    obtain ⟨rfl, rfl⟩ := Prod.mk.inj h
    simp
  | some rest =>
    rw [hdrop] at h
    obtain ⟨rfl, rfl⟩ := Prod.mk.inj h
    rw [← List.isPrefixOf?_eq_some_iff_append_eq.mp hdrop]
    apply String.toList_inj.mp
    simp

theorem switchName_name (x : Subject) (on : Bool) :
    switchName ((if on then "" else "no-") ++ x.name).toList = (on, x.name) := by
  cases x with
  | entry e =>
    have htail := switchName_tail ⟨e, on⟩
    unfold Switch.tail at htail
    cases on <;> simpa [Subject.name] using htail
  | allWarnings => cases on <;> decide

/-- A dash in front of the letter is dropped. -/
theorem applyFlag_append (o : Options) {dash : String} (hdash : dash ∈ ["", "-"])
    (rest : String) (on : Bool) (name : String) (h : switchName rest.toList = (on, name)) :
    o.applyFlag (dash ++ "W" ++ rest) = o.applyWarning on name ∧
      o.applyFlag (dash ++ "F" ++ rest) = o.applyFeature on name := by
  simp only [List.mem_cons, List.not_mem_nil, or_false] at hdash
  rcases hdash with rfl | rfl <;> simp [applyFlag, List.isPrefixOf?, h]

theorem applyFlag_of_spells (o : Options) {flag : String} {x : Subject} {on : Bool}
    (h : Spells flag x on) : o.applyFlag flag = (o.assign x on, .ok ()) := by
  obtain ⟨dash, hdash, rfl⟩ := h
  rw [String.append_assoc]
  obtain ⟨hwarning, hfeature⟩ := o.applyFlag_append hdash _ on x.name (switchName_name x on)
  match x with
  | .entry (.warning w) => exact hwarning.trans (o.applyWarning_name on w)
  | .entry (.feature f) => exact hfeature.trans (o.applyFeature_name on f)
  | .allWarnings => exact hwarning

/-- A name that is refused changes nothing. -/
theorem applyWarning_cases (o : Options) (on : Bool) (name : String) :
    (∃ x : Subject, x.letter = "W" ∧ x.name = name) ∨
      o.applyWarning on name = (o, .error (.unknownWarning name)) := by
  unfold applyWarning
  by_cases hall : name = "all"
  · exact .inl ⟨.allWarnings, rfl, hall.symm⟩
  · rw [if_neg hall]
    cases hfind : o.warnings.ofName? name with
    | none => exact .inr rfl
    | some w =>
      exact .inl ⟨.entry (.warning w), rfl, (o.warnings.ofName?_eq_some_iff name w).mp hfind⟩

theorem applyFeature_cases (o : Options) (on : Bool) (name : String) :
    (∃ x : Subject, x.letter = "F" ∧ x.name = name) ∨
      o.applyFeature on name = (o, .error (.unknownFeature name)) := by
  unfold applyFeature
  cases hfind : o.features.ofName? name with
  | none => exact .inr rfl
  | some f =>
    exact .inl ⟨.entry (.feature f), rfl, (o.features.ofName?_eq_some_iff name f).mp hfind⟩

theorem exists_dash (flag : String) : ∃ dash ∈ ["", "-"],
    flag = dash ++ String.ofList ((['-'].isPrefixOf? flag.toList).getD flag.toList) := by
  cases hdrop : ['-'].isPrefixOf? flag.toList with
  | none => exact ⟨"", by simp, by simp⟩
  | some rest =>
    refine ⟨"-", by simp, ?_⟩
    apply String.toList_inj.mp
    simpa using (List.isPrefixOf?_eq_some_iff_append_eq.mp hdrop).symm

theorem spells_of_rest {flag dash : String} (hdash : dash ∈ ["", "-"]) {c : Char}
    {rest : List Char} (hflag : flag = dash ++ String.ofList (c :: rest)) {x : Subject}
    (hletter : x.letter = String.ofList [c]) (hname : x.name = (switchName rest).2) :
    Spells flag x (switchName rest).1 := by
  refine ⟨dash, hdash, ?_⟩
  have hrest : String.ofList rest = (if (switchName rest).1 then "" else "no-") ++ x.name := by
    rw [hname]
    exact eq_append_of_switchName rfl
  rw [hflag, hletter, String.append_assoc, ← hrest, String.append_assoc, ← String.ofList_append]
  rfl

/-- A text is a flag and does what it says, or it is refused and does nothing. -/
theorem applyFlag_cases (o : Options) (flag : String) :
    (∃ x on, Spells flag x on ∧ o.applyFlag flag = (o.assign x on, .ok ())) ∨
      ∃ e, o.applyFlag flag = (o, .error e) := by
  by_cases hspells : ∃ x on, Spells flag x on
  · obtain ⟨x, on, h⟩ := hspells
    exact .inl ⟨x, on, h, o.applyFlag_of_spells h⟩
  obtain ⟨dash, hdash, hflag⟩ := exists_dash flag
  right
  unfold applyFlag
  dsimp only
  split
  · next rest hrest =>
    obtain ⟨x, hletter, hname⟩ | hrefused :=
      o.applyWarning_cases (switchName rest).1 (switchName rest).2
    · exact absurd ⟨x, _, spells_of_rest hdash (hrest ▸ hflag) hletter hname⟩ hspells
    · exact ⟨_, hrefused⟩
  · next rest hrest =>
    obtain ⟨x, hletter, hname⟩ | hrefused :=
      o.applyFeature_cases (switchName rest).1 (switchName rest).2
    · exact absurd ⟨x, _, spells_of_rest hdash (hrest ▸ hflag) hletter hname⟩ hspells
    · exact ⟨_, hrefused⟩
  · exact ⟨_, rfl⟩

theorem applyFlag_eq_ok_iff (o : Options) (flag : String) :
    (o.applyFlag flag).2 = .ok () ↔ ∃ x on, Spells flag x on := by
  constructor
  · intro h
    obtain ⟨x, on, hspells, -⟩ | ⟨e, hrefused⟩ := o.applyFlag_cases flag
    · exact ⟨x, on, hspells⟩
    · rw [hrefused] at h
      cases h
  · rintro ⟨x, on, hspells⟩
    rw [o.applyFlag_of_spells hspells]

/-- A text that is refused leaves the options as they are. -/
theorem fst_applyFlag_of_error {o : Options} {flag : String} {e : FlagError}
    (h : (o.applyFlag flag).2 = .error e) : (o.applyFlag flag).1 = o := by
  obtain ⟨x, on, -, haccepted⟩ | ⟨e', hrefused⟩ := o.applyFlag_cases flag
  · rw [haccepted] at h
    cases h
  · rw [hrefused]

/-! ## Texts one after the other -/

/-- The options after a text, which may have been refused. -/
def heed (o : Options) (flag : String) : Options :=
  (o.applyFlag flag).1

/-- The options after some texts in order. -/
def applyEach (o : Options) (flags : List String) : Options :=
  flags.foldl heed o

theorem heed_cases (o : Options) (flag : String) :
    (∃ x on, Spells flag x on ∧ o.heed flag = o.assign x on) ∨
      ((¬∃ x on, Spells flag x on) ∧ o.heed flag = o) := by
  obtain ⟨x, on, hspells, haccepted⟩ | ⟨e, hrefused⟩ := o.applyFlag_cases flag
  · exact .inl ⟨x, on, hspells, by rw [heed, haccepted]⟩
  · refine .inr ⟨fun hspells => ?_, by rw [heed, hrefused]⟩
    have haccepted := (o.applyFlag_eq_ok_iff flag).mpr hspells
    rw [hrefused] at haccepted
    cases haccepted

/-- A flag says one thing about an entry. -/
theorem isOn_heed_of_sets {flag : String} {e : Entry} {on : Bool} (h : Sets flag e on)
    (o : Options) : (o.heed flag).isOn e = on := by
  obtain ⟨x, hspells, hcovers⟩ := h
  rw [heed, o.applyFlag_of_spells hspells, isOn_assign, if_pos hcovers]

/-- What a flag does not speak of stays as it is. -/
theorem isOn_heed_of_not_sets {flag : String} {e : Entry} (h : ∀ on, ¬Sets flag e on)
    (o : Options) : (o.heed flag).isOn e = o.isOn e := by
  obtain ⟨x, on, hspells, hheed⟩ | ⟨-, hheed⟩ := o.heed_cases flag
  · rw [hheed, isOn_assign, if_neg fun hcovers => h on ⟨x, hspells, hcovers⟩]
  · rw [hheed]

/-- All that texts can do is to turn entries on or off. -/
theorem applyEach_eq_switched (o : Options) (flags : List String) :
    o.applyEach flags = o.switched (o.applyEach flags).isOn := by
  refine foldl_eq_switched (fun o flag => ?_) o flags
  obtain ⟨x, on, -, hheed⟩ | ⟨-, hheed⟩ := o.heed_cases flag
  · rw [hheed, assign_eq_switched, isOn_switched]
  · rw [hheed, switched_isOn]

/-- The last of the flags for an entry turns it on or off. -/
def LastSets (flags : List String) (e : Entry) (on : Bool) : Prop :=
  ∃ before flag after, flags = before ++ flag :: after ∧ Sets flag e on ∧
    ∀ later ∈ after, ∀ on', ¬Sets later e on'

theorem isOn_applyEach_of_not_sets {flags : List String} {e : Entry}
    (h : ∀ flag ∈ flags, ∀ on, ¬Sets flag e on) (o : Options) :
    (o.applyEach flags).isOn e = o.isOn e := by
  induction flags generalizing o with
  | nil => rfl
  | cons flag rest ih =>
    rw [List.forall_mem_cons] at h
    exact (ih h.2 (o.heed flag)).trans (isOn_heed_of_not_sets h.1 o)

theorem isOn_applyEach_of_lastSets {flags : List String} {e : Entry} {on : Bool}
    (h : LastSets flags e on) (o : Options) : (o.applyEach flags).isOn e = on := by
  obtain ⟨before, flag, after, rfl, hsets, hafter⟩ := h
  rw [applyEach, List.foldl_append, List.foldl_cons]
  exact (isOn_applyEach_of_not_sets hafter _).trans (isOn_heed_of_sets hsets _)

theorem exists_lastSets_or (flags : List String) (e : Entry) :
    (∃ on, LastSets flags e on) ∨ ∀ flag ∈ flags, ∀ on, ¬Sets flag e on := by
  induction flags with
  | nil => exact .inr (by simp)
  | cons flag rest ih =>
    obtain ⟨on, before, last, after, rfl, hlast⟩ | hrest := ih
    · exact .inl ⟨on, flag :: before, last, after, rfl, hlast⟩
    · by_cases hflag : ∃ on, Sets flag e on
      · obtain ⟨on, hsets⟩ := hflag
        exact .inl ⟨on, [], flag, rest, rfl, hsets, hrest⟩
      · exact .inr (List.forall_mem_cons.mpr ⟨not_exists.mp hflag, hrest⟩)

/-- The last flag for an entry decides, and without one the entry stays as it was. -/
theorem isOn_applyEach_iff (o : Options) (flags : List String) (e : Entry) (on : Bool) :
    (o.applyEach flags).isOn e = on ↔
      LastSets flags e on ∨ ((∀ flag ∈ flags, ∀ on', ¬Sets flag e on') ∧ o.isOn e = on) := by
  constructor
  · intro hon
    obtain ⟨on', hlast⟩ | hnone := exists_lastSets_or flags e
    · rw [isOn_applyEach_of_lastSets hlast] at hon
      exact .inl (hon ▸ hlast)
    · rw [isOn_applyEach_of_not_sets hnone] at hon
      exact .inr ⟨hnone, hon⟩
  · rintro (hlast | ⟨hnone, hon⟩)
    · exact isOn_applyEach_of_lastSets hlast o
    · exact (isOn_applyEach_of_not_sets hnone o).trans hon

/-- **Single flags, the last one wins.**  A text is accepted if it is a letter, perhaps `no-`,
and a known name, perhaps behind one dash; any other text leaves the options as they are.
After all of them a warning or a feature is as the last flag for it says, or as it is by
default, and nothing else is changed. -/
theorem lastFlag_decides (flags : List String) :
    (∀ (o : Options) flag, (o.applyFlag flag).2 = .ok () ↔ ∃ x on, Spells flag x on) ∧
      (∀ (o : Options) flag e, (o.applyFlag flag).2 = .error e → (o.applyFlag flag).1 = o) ∧
      (∀ e on, (({} : Options).applyEach flags).isOn e = on ↔
        LastSets flags e on ∨
          ((∀ flag ∈ flags, ∀ on', ¬Sets flag e on') ∧ e.onByDefault = on)) ∧
      ({} : Options).applyEach flags =
        ({} : Options).switched (({} : Options).applyEach flags).isOn := by
  refine ⟨applyFlag_eq_ok_iff, fun o flag e => fst_applyFlag_of_error, fun e on => ?_,
    applyEach_eq_switched {} flags⟩
  have hdefault : ({} : Options).isOn e = e.onByDefault := by cases e <;> rfl
  rw [isOn_applyEach_iff, hdefault]

/-- All warnings are turned on and one of them off again, without a dash.  Two dashes are one
too many. -/
theorem lastFlag_decides_assorted :
    let flags := ["-Fno-gnu-stack", "-Wall", "Wno-common", "--Wcommon"]
    (¬∃ x on, Spells "--Wcommon" x on) ∧
      (∀ o : Options, (o.applyFlag "--Wcommon").1 = o) ∧
      (({} : Options).applyEach flags).isOn (.warning .common) = false := by
  intro flags
  obtain ⟨haccepted, hrefused, hlast, -⟩ := lastFlag_decides flags
  have hdashes (o : Options) : (o.applyFlag "--Wcommon").2 = .error (.unrecognized "--Wcommon") :=
    rfl
  have hnone : ¬∃ x on, Spells "--Wcommon" x on := by
    rw [← haccepted {}, hdashes]
    simp
  have hcommon : Sets "Wno-common" (.warning .common) false :=
    ⟨.entry (.warning .common), ⟨"", by simp, rfl⟩, rfl⟩
  refine ⟨hnone, fun o => hrefused o _ _ (hdashes o), ?_⟩
  refine (hlast _ _).mpr (.inl ⟨["-Fno-gnu-stack", "-Wall"], _, ["--Wcommon"], rfl, hcommon, ?_⟩)
  rintro later hlater on ⟨x, hspells, -⟩
  rw [List.mem_singleton.mp hlater] at hspells
  exact hnone ⟨x, on, hspells⟩

end Cflat.Options
