import Cflat.Build.Settings
import Cflat.Proofs.FlagSpellings

/-!
# Switches and single flags

The options can be set in two ways.  A command line has a pair of switches for each warning
and each feature, which are looked at when all of it is parsed; a single flag changes the
options at once.  The first way lets the negative switch win, the second the last flag.

* `addSwitches_of_fresh`, `stateAfter_switches`: the switches are defined and parsed.
* `Options.switched`: the options that differ in their entries and in nothing else.
* `isOn_ofSwitches_turnOn`: what the switches say.
* `isOn_foldl_set`: the last flag for an entry decides.
* `switches_agree`: the two ways agree unless an entry is turned both on and off.
-/

namespace Cflat.Options

open CommandLine (Flag FlagSet WellNamed IsPlain)

/-- What a switch turns on or off. -/
inductive Entry
  | warning (w : Warning)
  | feature (f : Feature)
  deriving DecidableEq

namespace Entry

/-- The letter of the flags for an entry. -/
def letter : Entry → String
  | warning _ => "W"
  | feature _ => "F"

/-- The name of an entry in a flag. -/
def name : Entry → String
  | warning w => w.name
  | feature f => f.name

/-- Whether an entry is on before any flag. -/
def onByDefault : Entry → Bool
  | warning w => w.onByDefault
  | feature f => f.onByDefault

end Entry

/-- What is known of an entry. -/
def infoOf (o : Options) : Entry → Info
  | .warning w => o.warnings.info w
  | .feature f => o.features.info f

/-- Whether an entry is on. -/
def isOn (o : Options) (e : Entry) : Bool :=
  (o.infoOf e).enabled

/-- Turn an entry on or off. -/
def set (o : Options) : Entry → Bool → Options
  | .warning w => o.setWarning w
  | .feature f => o.setFeature f

/-- The options with each entry on or off as `on` says.  Everything else, down to the name
and the description of the entry itself, is as it was. -/
def switched (o : Options) (on : Entry → Bool) : Options :=
  { o with
    features := o.features.switched fun f => on (.feature f)
    warnings := o.warnings.switched fun w => on (.warning w) }

section Switched

variable (o : Options)

@[simp]
theorem isOn_switched (on : Entry → Bool) : (o.switched on).isOn = on := by
  funext e
  cases e <;> rfl

@[simp]
theorem switched_switched (on on' : Entry → Bool) :
    (o.switched on).switched on' = o.switched on' :=
  rfl

@[simp]
theorem switched_isOn : o.switched o.isOn = o :=
  rfl

theorem set_eq_switched (e : Entry) (on : Bool) :
    o.set e on = o.switched fun e' => if e' = e then on else o.isOn e' := by
  cases e with
  | warning w =>
    have hwarning (w' : Warning) : (if w' = w then on else o.warning w') =
        if Entry.warning w' = .warning w then on else o.isOn (.warning w') := by
      simp only [Entry.warning.injEq]
      rfl
    change { o with warnings := o.warnings.switched _ } = _
    simp only [switched, reduceCtorEq, if_false]
    exact congrArg (fun on => { o with warnings := o.warnings.switched on }) (funext hwarning)
  | feature f =>
    have hfeature (f' : Feature) : (if f' = f then on else o.feature f') =
        if Entry.feature f' = .feature f then on else o.isOn (.feature f') := by
      simp only [Entry.feature.injEq]
      rfl
    change { o with features := o.features.switched _ } = _
    simp only [switched, reduceCtorEq, if_false]
    exact congrArg (fun on => { o with features := o.features.switched on }) (funext hfeature)

theorem isOn_set (e e' : Entry) (on : Bool) :
    (o.set e on).isOn e' = if e' = e then on else o.isOn e' := by
  rw [set_eq_switched, isOn_switched]

end Switched

/-- Steps that only turn entries on or off do so all together. -/
theorem foldl_eq_switched {α : Type} {f : Options → α → Options}
    (hstep : ∀ o a, f o a = o.switched (f o a).isOn) (o : Options) (as : List α) :
    as.foldl f o = o.switched (as.foldl f o).isOn := by
  induction as generalizing o with
  | nil => exact o.switched_isOn.symm
  | cons a as ih =>
    have hrest := ih (f o a)
    rw [hstep o a, switched_switched, ← hstep o a] at hrest
    exact hrest

/-- One of the two switches of an entry. -/
structure Switch where
  entry : Entry
  on : Bool
  deriving DecidableEq

namespace Switch

/-- The long name of the flag behind a switch. -/
def flagName (s : Switch) : String :=
  if s.on then s.entry.letter ++ s.entry.name else s.entry.letter ++ "no-" ++ s.entry.name

/-- The switch as it is written: `-Wname`, `-Wno-name`, `-Fname` or `-Fno-name`. -/
def argument (s : Switch) : String :=
  "-" ++ s.flagName

/-- The flag behind a switch. -/
def flag (o : Options) (s : Switch) : Flag :=
  Flag.make s.flagName ""
    (if s.on then (o.infoOf s.entry).description else "Disable '" ++ s.entry.name ++ "'")
    (.switch (s.on && o.isOn s.entry)) ""

/-- The switches of all warnings. -/
def warnings : List Switch :=
  Warning.all.flatMap fun w => [⟨.warning w, true⟩, ⟨.warning w, false⟩]

/-- The switches of all features. -/
def features : List Switch :=
  Feature.all.flatMap fun f => [⟨.feature f, true⟩, ⟨.feature f, false⟩]

theorem mem_all (s : Switch) : s ∈ warnings ++ features := by
  obtain ⟨e | e, on⟩ := s <;> cases e <;> cases on <;> decide

theorem nodup_flagNames : ((warnings ++ features).map flagName).Nodup := by
  decide +kernel

theorem flagName_injective {s s' : Switch} (h : s.flagName = s'.flagName) : s = s' :=
  List.inj_on_of_nodup_map nodup_flagNames s.mem_all s'.mem_all h

theorem flagName_ne_empty (s : Switch) : s.flagName ≠ "" := by
  have hall : ∀ s ∈ warnings ++ features, s.flagName ≠ "" := by decide +kernel
  exact hall s s.mem_all

theorem isPlain_flagName (s : Switch) : IsPlain s.flagName := by
  have hall : ∀ s ∈ warnings ++ features,
      '=' ∉ s.flagName.toList ∧ s.flagName.toList.head? ≠ some '-' := by decide +kernel
  exact ⟨(hall s s.mem_all).1, (hall s s.mem_all).2⟩

end Switch

/-! ## Defining the switches -/

section Define

variable {o : Options} {fs : FlagSet}

theorem names_flags (o : Options) (ss : List Switch) :
    (ss.map (Switch.flag o)).map Flag.name = ss.map Switch.flagName := by
  rw [List.map_map]
  rfl

theorem wellNamed_flags (o : Options) {ss : List Switch} (h : (ss.map Switch.flagName).Nodup) :
    WellNamed (ss.map (Switch.flag o)) where
  nodup := by
    rw [names_flags]
    exact h
  ne_empty f hf := by
    obtain ⟨s, -, rfl⟩ := List.mem_map.mp hf
    exact s.flagName_ne_empty

theorem flags_warningEntry (o : Options) (w : Warning) :
    (o.warningEntry w).flags =
      [Switch.flag o ⟨.warning w, true⟩, Switch.flag o ⟨.warning w, false⟩] := by
  simp [warningEntry, CommandLine.GroupEntry.flags, CommandLine.GroupEntry.onName,
    CommandLine.GroupEntry.offName, Switch.flag, Switch.flagName, Entry.letter, Entry.name,
    o.warnings.name_info, isOn, infoOf, warning]

theorem flags_featureEntry (o : Options) (f : Feature) :
    (o.featureEntry f).flags =
      [Switch.flag o ⟨.feature f, true⟩, Switch.flag o ⟨.feature f, false⟩] := by
  simp [featureEntry, CommandLine.GroupEntry.flags, CommandLine.GroupEntry.onName,
    CommandLine.GroupEntry.offName, Switch.flag, Switch.flagName, Entry.letter, Entry.name,
    o.features.name_info, isOn, infoOf, feature]

theorem flags_warningGroup (o : Options) :
    o.warningGroup.entries.flatMap (·.flags) = Switch.warnings.map (Switch.flag o) := by
  simp only [warningGroup, Switch.warnings, List.flatMap_map, List.map_flatMap,
    flags_warningEntry, List.map_cons, List.map_nil]

theorem flags_featureGroup (o : Options) :
    o.featureGroup.entries.flatMap (·.flags) = Switch.features.map (Switch.flag o) := by
  simp only [featureGroup, Switch.features, List.flatMap_map, List.map_flatMap,
    flags_featureEntry, List.map_cons, List.map_nil]

theorem addGroup_of_switches {g : CommandLine.Group} {ss : List Switch}
    (hflags : g.entries.flatMap (·.flags) = ss.map (Switch.flag o))
    (hnodup : (ss.map Switch.flagName).Nodup) (hfree : ∀ s ∈ ss, fs.find? s.flagName = none) :
    fs.addGroup g = ({ fs with
      flags := fs.flags ++ ss.map (Switch.flag o)
      groups := fs.groups ++ [g] }, .ok ()) := by
  rw [← hflags]
  apply FlagSet.addGroup_of_fresh
  · rw [hflags]
    exact wellNamed_flags o hnodup
  · intro f hf
    obtain ⟨s, -, rfl⟩ := List.mem_map.mp (hflags ▸ hf)
    rfl
  · intro f hf
    obtain ⟨s, hs, rfl⟩ := List.mem_map.mp (hflags ▸ hf)
    exact hfree s hs

/-- The switches can be defined where their names are free. -/
theorem addSwitches_of_fresh (o : Options) (hfree : ∀ s : Switch, fs.find? s.flagName = none) :
    o.addSwitches fs = ({ fs with
      flags := fs.flags ++ (Switch.warnings ++ Switch.features).map (Switch.flag o)
      groups := fs.groups ++ [o.warningGroup] ++ [o.featureGroup] }, .ok ()) := by
  obtain ⟨hwarnings, hfeatures, hdisjoint⟩ :=
    List.nodup_append.mp (List.map_append ▸ Switch.nodup_flagNames)
  rw [addSwitches, addGroup_of_switches o.flags_warningGroup hwarnings fun s _ => hfree s]
  dsimp only
  rw [addGroup_of_switches o.flags_featureGroup hfeatures]
  · simp
  · intro s hs
    rw [FlagSet.find?_eq_none_iff, List.map_append, List.mem_append, not_or, names_flags]
    refine ⟨FlagSet.find?_eq_none_iff.mp (hfree s), fun hmem => ?_⟩
    exact hdisjoint _ hmem _ (List.mem_map_of_mem hs) rfl

/-- Every switch is then found as it was defined. -/
theorem exists_addSwitches (o : Options) (hfree : ∀ s : Switch, fs.find? s.flagName = none) :
    ∃ defined, o.addSwitches fs = (defined, .ok ()) ∧
      ∀ s : Switch, defined.find? s.flagName = some (s.flag o) := by
  refine ⟨_, addSwitches_of_fresh o hfree, fun s => ?_⟩
  have hnamed := wellNamed_flags o Switch.nodup_flagNames
  have hfound := hnamed.find? (List.mem_map_of_mem s.mem_all)
  have hnone : fs.flags.find? (·.name = s.flagName) = none := hfree s
  rw [FlagSet.find?, List.find?_append, hnone, Option.none_or]
  exact hfound

end Define

/-! ## Parsing the switches -/

section Parse

variable {fs : FlagSet}

/-- Turn on the flags behind some switches. -/
def turnOn (fs : FlagSet) (ss : List Switch) : FlagSet :=
  ss.foldl (fun fs s => fs.setValue s.flagName (.switch true)) fs

theorem isOn_setValue {name : String} (h : (fs.find? name).isSome) (other : String) :
    (fs.setValue other (.switch true)).isOn name = (fs.isOn name || decide (other = name)) := by
  obtain ⟨f, hf⟩ := Option.isSome_iff_exists.mp h
  unfold FlagSet.isOn
  rw [FlagSet.find?_setValue]
  by_cases hname : other = name
  · simp [hname, hf]
  · simp [hname]

theorem isOn_turnOn {s : Switch} (h : (fs.find? s.flagName).isSome) (ss : List Switch) :
    (turnOn fs ss).isOn s.flagName = (fs.isOn s.flagName || decide (s ∈ ss)) := by
  induction ss generalizing fs with
  | nil => simp [turnOn]
  | cons s' rest ih =>
    have hkept : ((fs.setValue s'.flagName (.switch true)).find? s.flagName).isSome := by
      rw [FlagSet.find?_setValue]
      split <;> simpa using h
    have hsame : s'.flagName = s.flagName ↔ s = s' :=
      ⟨fun heq => Switch.flagName_injective heq.symm, fun heq => heq ▸ rfl⟩
    have hrest := ih hkept
    rw [isOn_setValue h] at hrest
    simpa [turnOn, hsame, Bool.or_assoc] using hrest

/-- Switches are parsed one after the other. -/
theorem stateAfter_switches
    (hfs : ∀ s : Switch, ∃ f, fs.find? s.flagName = some f ∧ f.value.isSwitch = true)
    (ss : List Switch) :
    fs.stateAfter (ss.map Switch.argument) = { set := turnOn { fs with args := [] } ss } := by
  induction ss using List.reverseRecOn with
  | nil => rfl
  | append_singleton ss s ih =>
    obtain ⟨f, hfind, hswitch⟩ := hfs s
    have hname : f.name = s.flagName := FlagSet.name_of_find? hfind
    rw [← hname] at hfind
    have hxs : fs.Completes (ss.map Switch.argument) := by
      rw [FlagSet.completes_iff, ih]
    have hgives : fs.Gives f.name "" [s.argument] := by
      apply FlagSet.gives_of_mem_switchSpellings hfind _ _ hswitch
      · simp [FlagSet.switchSpellings, Switch.argument, hname]
      · rw [hname]
        exact s.flagName_ne_empty
      · rw [hname]
        exact s.isPlain_flagName
    have hset : (fs.parse (ss.map Switch.argument)).1 = turnOn { fs with args := [] } ss := by
      rw [FlagSet.parse_eq, ih]
    rw [List.map_append, List.map_singleton,
      FlagSet.stateAfter_of_gives_switch hfind hswitch hxs hgives, hset, hname]
    simp [turnOn]

theorem parse_switches
    (hfs : ∀ s : Switch, ∃ f, fs.find? s.flagName = some f ∧ f.value.isSwitch = true)
    (ss : List Switch) :
    fs.parse (ss.map Switch.argument) = (turnOn { fs with args := [] } ss, .ok ()) := by
  rw [FlagSet.parse_eq, stateAfter_switches hfs]
  rfl

end Parse

theorem ofSwitches_eq_switched (o : Options) (fs : FlagSet) :
    o.ofSwitches fs = o.switched fun e =>
      fs.isOn (Switch.flagName ⟨e, true⟩) && !fs.isOn (Switch.flagName ⟨e, false⟩) := by
  simp [ofSwitches, switched, switchState, warningEntry, featureEntry,
    CommandLine.GroupEntry.onName, CommandLine.GroupEntry.offName, Switch.flagName, Entry.letter,
    Entry.name, o.warnings.name_info, o.features.name_info]

/-- What the switches say: an entry is on if it was or its positive switch is given, and its
negative switch is not. -/
theorem isOn_ofSwitches_turnOn (o : Options) {fs : FlagSet}
    (hfs : ∀ s : Switch, fs.find? s.flagName = some (s.flag o)) (ss : List Switch) (e : Entry) :
    (o.ofSwitches (turnOn fs ss)).isOn e = true ↔
      (o.isOn e = true ∨ ⟨e, true⟩ ∈ ss) ∧ ⟨e, false⟩ ∉ ss := by
  have hstate (s : Switch) : (turnOn fs ss).isOn s.flagName =
      ((s.on && o.isOn s.entry) || decide (s ∈ ss)) := by
    rw [isOn_turnOn (by rw [hfs s]; rfl)]
    simp [FlagSet.isOn, hfs s, Switch.flag, Flag.make]
  rw [ofSwitches_eq_switched, isOn_switched, hstate, hstate]
  simp

/-! ## Single flags -/

/-- The part of a switch after its letter. -/
def Switch.tail (s : Switch) : String :=
  if s.on then s.entry.name else "no-" ++ s.entry.name

theorem switchName_tail (s : Switch) : switchName s.tail.toList = (s.on, s.entry.name) := by
  have hall : ∀ s ∈ Switch.warnings ++ Switch.features,
      switchName s.tail.toList = (s.on, s.entry.name) := by decide +kernel
  exact hall s s.mem_all

theorem argument_eq (s : Switch) : s.argument = "-" ++ s.entry.letter ++ s.tail := by
  unfold Switch.argument Switch.flagName Switch.tail
  split <;> simp [String.append_assoc]

theorem applyWarning_name (o : Options) (on : Bool) (w : Warning) :
    o.applyWarning on w.name = (o.setWarning w on, .ok ()) := by
  have hname : w.name ≠ "all" := by cases w <;> decide
  rw [applyWarning, if_neg hname, (o.warnings.ofName?_eq_some_iff w.name w).mpr rfl]

theorem applyFeature_name (o : Options) (on : Bool) (f : Feature) :
    o.applyFeature on f.name = (o.setFeature f on, .ok ()) := by
  rw [applyFeature, (o.features.ofName?_eq_some_iff f.name f).mpr rfl]

theorem applyFlag_argument (o : Options) (s : Switch) :
    o.applyFlag s.argument = (o.set s.entry s.on, .ok ()) := by
  have htail := switchName_tail s
  rw [argument_eq]
  obtain ⟨e, on⟩ := s
  cases e with
  | warning w =>
    have happly : o.applyFlag ("-" ++ "W" ++ Switch.tail ⟨.warning w, on⟩) =
        o.applyWarning on w.name := by
      simp [applyFlag, List.isPrefixOf?, htail, Entry.name]
    exact happly.trans (o.applyWarning_name on w)
  | feature f =>
    have happly : o.applyFlag ("-" ++ "F" ++ Switch.tail ⟨.feature f, on⟩) =
        o.applyFeature on f.name := by
      simp [applyFlag, List.isPrefixOf?, htail, Entry.name]
    exact happly.trans (o.applyFeature_name on f)

theorem applyFlags_arguments (o : Options) (ss : List Switch) :
    o.applyFlags (ss.map Switch.argument) =
      (ss.foldl (fun o s => o.set s.entry s.on) o, .ok ()) := by
  induction ss generalizing o with
  | nil => rfl
  | cons s rest ih =>
    rw [List.map_cons, applyFlags, applyFlag_argument]
    exact ih _

/-- The last flag for an entry decides. -/
theorem isOn_foldl_set (o : Options) (ss : List Switch) (e : Entry) :
    (ss.foldl (fun o s => o.set s.entry s.on) o).isOn e =
      ((ss.reverse.find? (·.entry = e)).map Switch.on).getD (o.isOn e) := by
  induction ss generalizing o with
  | nil => rfl
  | cons s rest ih =>
    rw [List.foldl_cons, ih, isOn_set, List.reverse_cons, List.find?_append]
    cases rest.reverse.find? (·.entry = e) with
    | some s' => rfl
    | none =>
      by_cases hentry : s.entry = e
      · simp [hentry]
      · simp [hentry, Ne.symm hentry]

/-- Where no entry is turned both on and off, the order of the flags does not matter. -/
theorem isOn_foldl_set_of_consistent (o : Options) {ss : List Switch} {e : Entry}
    (h : ¬(⟨e, true⟩ ∈ ss ∧ ⟨e, false⟩ ∈ ss)) :
    (ss.foldl (fun o s => o.set s.entry s.on) o).isOn e = true ↔
      (o.isOn e = true ∨ ⟨e, true⟩ ∈ ss) ∧ ⟨e, false⟩ ∉ ss := by
  rw [isOn_foldl_set]
  cases hlast : ss.reverse.find? (·.entry = e) with
  | none =>
    have hnot (on : Bool) : ⟨e, on⟩ ∉ ss := by
      intro hmem
      simpa using List.find?_eq_none.mp hlast ⟨e, on⟩ (List.mem_reverse.mpr hmem)
    simp [hnot]
  | some s =>
    have hmem : s ∈ ss := List.mem_reverse.mp (List.mem_of_find?_eq_some hlast)
    have hentry : s.entry = e := by simpa using List.find?_some hlast
    obtain ⟨entry, on⟩ := s
    subst hentry
    cases on with
    | true =>
      have hoff : ⟨entry, false⟩ ∉ ss := fun hoff => h ⟨hmem, hoff⟩
      simp [hmem, hoff]
    | false => simp [hmem]

theorem foldl_set_eq_switched (o : Options) (ss : List Switch) :
    ss.foldl (fun o s => o.set s.entry s.on) o =
      o.switched (ss.foldl (fun o s => o.set s.entry s.on) o).isOn := by
  refine foldl_eq_switched (fun o s => ?_) o ss
  rw [set_eq_switched, isOn_switched]

/-! ## The two ways -/

theorem applyFlags_eq_ofSwitches (o : Options) {fs : FlagSet}
    (hfs : ∀ s : Switch, fs.find? s.flagName = some (s.flag o)) {ss : List Switch}
    (h : ∀ e, ¬(⟨e, true⟩ ∈ ss ∧ ⟨e, false⟩ ∈ ss)) :
    o.applyFlags (ss.map Switch.argument) = (o.ofSwitches (turnOn fs ss), .ok ()) := by
  have hentries : (ss.foldl (fun o s => o.set s.entry s.on) o).isOn =
      (o.ofSwitches (turnOn fs ss)).isOn := by
    funext e
    rw [Bool.eq_iff_iff, isOn_foldl_set_of_consistent o (h e), isOn_ofSwitches_turnOn o hfs]
  rw [applyFlags_arguments, foldl_set_eq_switched, hentries, ofSwitches_eq_switched,
    isOn_switched]

/-- **The two ways to set the options.**  On a command line of switches, whatever their order,
an entry ends up on if it is on by default or its positive switch is given, and its negative
switch is not.  If no entry has both switches given, applying them one by one as flags gives
the same options. -/
theorem switches_agree (fs : FlagSet) (hfree : ∀ s : Switch, fs.find? s.flagName = none)
    (ss : List Switch) :
    ∃ defined parsed : FlagSet,
      ({} : Options).addSwitches fs = (defined, .ok ()) ∧
      defined.parse (ss.map Switch.argument) = (parsed, .ok ()) ∧
      (∀ e, (({} : Options).ofSwitches parsed).isOn e = true ↔
        (e.onByDefault = true ∨ ⟨e, true⟩ ∈ ss) ∧ ⟨e, false⟩ ∉ ss) ∧
      ((∀ e, ¬(⟨e, true⟩ ∈ ss ∧ ⟨e, false⟩ ∈ ss)) →
        ({} : Options).applyFlags (ss.map Switch.argument) =
          (({} : Options).ofSwitches parsed, .ok ())) := by
  have hdefault (e : Entry) : ({} : Options).isOn e = e.onByDefault := by cases e <;> rfl
  obtain ⟨defined, hdefined, hfound⟩ := exists_addSwitches {} hfree
  have hstart (s : Switch) :
      ({ defined with args := [] } : FlagSet).find? s.flagName = some (s.flag {}) := hfound s
  refine ⟨defined, _, hdefined, parse_switches (fun s => ⟨_, hfound s, rfl⟩) ss, fun e => ?_, ?_⟩
  · rw [← hdefault]
    exact isOn_ofSwitches_turnOn {} hstart ss e
  · exact applyFlags_eq_ofSwitches {} hstart

/-- The compiler's own flags leave the names of the switches free.  Here a warning that is on
by default is turned off twice, and a feature on. -/
theorem switches_agree_compiler :
    let fs := (({} : FlagSet).defineAll Build.ownFlags).1
    let ss : List Switch :=
      [⟨.warning .extra, false⟩, ⟨.feature .pic, true⟩, ⟨.warning .extra, false⟩]
    (∀ s : Switch, fs.find? s.flagName = none) ∧
      (∀ e, ¬(⟨e, true⟩ ∈ ss ∧ ⟨e, false⟩ ∈ ss)) ∧
      ∃ defined parsed : FlagSet,
        ({} : Options).addSwitches fs = (defined, .ok ()) ∧
        defined.parse (ss.map Switch.argument) = (parsed, .ok ()) ∧
        (({} : Options).ofSwitches parsed).isOn (.warning .extra) = false ∧
        ({} : Options).applyFlags (ss.map Switch.argument) =
          (({} : Options).ofSwitches parsed, .ok ()) := by
  intro fs ss
  have hall : ∀ s ∈ Switch.warnings ++ Switch.features, fs.find? s.flagName = none ∧
      ¬(⟨s.entry, true⟩ ∈ ss ∧ ⟨s.entry, false⟩ ∈ ss) := by
    decide +kernel
  have hfree (s : Switch) : fs.find? s.flagName = none := (hall s s.mem_all).1
  have hconsistent (e : Entry) : ¬(⟨e, true⟩ ∈ ss ∧ ⟨e, false⟩ ∈ ss) :=
    (hall ⟨e, true⟩ (Switch.mem_all _)).2
  obtain ⟨defined, parsed, hdefined, hparsed, hon, hflags⟩ := switches_agree fs hfree ss
  refine ⟨hfree, hconsistent, defined, parsed, hdefined, hparsed, ?_, hflags hconsistent⟩
  have hextra := hon (.warning .extra)
  simpa [ss] using hextra

end Cflat.Options
