import Cflat.Proofs.Registration

/-!
# Shorthands after any registrations

A flag set has two tables, the flags and the shorthands, and a definition checks each of them
right before it is changed.  A definition that is refused for its name changes nothing; one
whose shorthand is taken has entered the flag by then, and leaves it there without its
shorthand.

* Definitions.  `define_outcomes`: a definition is refused, enters its flag, or half enters it.
* The tables.  `Indexed`: a shorthand stands for the first flag that was entered with it.  Every
  registration keeps this, failed ones included.
* `registerAll_consistent`: all flags are the ones that their shorthands stand for exactly if no
  definition failed for its shorthand.
-/

namespace Cflat.CommandLine

namespace FlagSet

/-! ## Definitions -/

/-- The set with a flag entered under its long name only. -/
def enter (fs : FlagSet) (f : Flag) : FlagSet :=
  { fs with flags := fs.flags ++ [f] }

/-- The set with a flag entered in both tables. -/
def enterFully (fs : FlagSet) (f : Flag) : FlagSet :=
  { fs.enter f with
    shorthands :=
      if f.shorthand = "" then fs.shorthands else fs.shorthands ++ [(f.shorthand, f.name)] }

/-- What a definition can do: it is refused and changes nothing, it enters a new flag without
its shorthand, which is taken, or it enters the flag. -/
theorem define_outcomes (fs : FlagSet) (f : Flag) :
    (∃ err, (∀ s, err ≠ .shorthandRedefined s) ∧ fs.define f = (fs, .error err)) ∨
      (fs.find? f.name = none ∧ f.shorthand ≠ "" ∧ (fs.shorthands.lookup f.shorthand).isSome ∧
        fs.define f = (fs.enter f, .error (.shorthandRedefined f.shorthand))) ∨
      ((f.shorthand ≠ "" → fs.shorthands.lookup f.shorthand = none) ∧
        fs.define f = (fs.enterFully f, .ok ())) := by
  unfold define
  split
  · exact .inl ⟨.emptyName, by simp, rfl⟩
  · split
    · exact .inl ⟨.redefined f.name, by simp, rfl⟩
    · next hfree =>
      dsimp only
      split
      · next hnone =>
        exact .inr (.inr ⟨absurd hnone, by simp [enterFully, enter, hnone]⟩)
      · next hshort =>
        split
        · next htaken => exact .inr (.inl ⟨by simpa using hfree, hshort, htaken, rfl⟩)
        · next htaken =>
          have hunused : fs.shorthands.lookup f.shorthand = none :=
            Option.not_isSome_iff_eq_none.mp htaken
          exact .inr (.inr ⟨fun _ => hunused, by simp [enterFully, enter, hshort]⟩)

/-- A definition that fails leaves the set as it was unless its shorthand was taken. -/
theorem define_unchanged_iff {fs : FlagSet} {f : Flag} {err : DefinitionError}
    (h : (fs.define f).2 = .error err) :
    (fs.define f).1 = fs ↔ ∀ s, err ≠ .shorthandRedefined s := by
  obtain ⟨err', hother, hdefine⟩ | ⟨-, -, -, hdefine⟩ | ⟨-, hdefine⟩ := fs.define_outcomes f
  · rw [hdefine] at h ⊢
    cases h
    exact iff_of_true rfl hother
  · rw [hdefine] at h ⊢
    cases h
    refine iff_of_false (fun hsame => ?_) (fun hother => hother _ rfl)
    simpa [enter] using congrArg (·.flags.length) hsame
  · rw [hdefine] at h
    cases h

/-! ## The tables -/

/-- The flags are well named, and the table of shorthands holds for each shorthand the name of
the first flag that was entered with it. -/
structure Indexed (fs : FlagSet) : Prop where
  wellNamed : WellNamed fs.flags
  lookup : ∀ s, s ≠ "" →
    fs.shorthands.lookup s = (fs.flags.find? (·.shorthand = s)).map Flag.name

/-- Each flag that has a shorthand is the one that its shorthand stands for. -/
def Resolved (fs : FlagSet) : Prop :=
  ∀ f ∈ fs.flags, f.shorthand ≠ "" → fs.ofShorthand? f.shorthand = some f

variable {fs : FlagSet}

theorem Indexed.ofShorthand? (h : fs.Indexed) {s : String} (hs : s ≠ "") :
    fs.ofShorthand? s = fs.flags.find? (·.shorthand = s) := by
  rw [FlagSet.ofShorthand?, h.lookup s hs]
  cases hfind : fs.flags.find? (·.shorthand = s) with
  | none => rfl
  | some f =>
    rw [Option.map_some, Option.bind_some]
    exact h.wellNamed.find? (List.mem_of_find?_eq_some hfind)

theorem lookup_concat (table : List (String × String)) (shorthand name s : String) :
    (table ++ [(shorthand, name)]).lookup s =
      (table.lookup s).or (if shorthand = s then some name else none) := by
  rw [List.lookup_append]
  by_cases h : shorthand = s
  · simp [h]
  · have hne : (s == shorthand) = false := by simpa using Ne.symm h
    simp [h, List.lookup_cons, hne]

theorem find?_shorthand_concat (flags : List Flag) (f : Flag) (s : String) :
    (flags ++ [f]).find? (·.shorthand = s) =
      (flags.find? (·.shorthand = s)).or (if f.shorthand = s then some f else none) := by
  rw [List.find?_append, List.find?_singleton]
  simp

theorem Indexed.define (h : fs.Indexed) (f : Flag) : (fs.define f).1.Indexed := by
  refine ⟨wellNamed_define h.wellNamed f, fun s hs => ?_⟩
  obtain ⟨err, -, hdefine⟩ | ⟨-, -, htaken, hdefine⟩ | ⟨hfree, hdefine⟩ := fs.define_outcomes f
  · rw [hdefine]
    exact h.lookup s hs
  · rw [hdefine]
    change fs.shorthands.lookup s = ((fs.flags ++ [f]).find? (·.shorthand = s)).map Flag.name
    rw [find?_shorthand_concat, h.lookup s hs]
    by_cases hsame : f.shorthand = s
    · rw [hsame, h.lookup s hs, Option.isSome_map] at htaken
      rw [Option.or_of_isSome htaken]
    · rw [if_neg hsame, Option.or_none]
  · rw [hdefine]
    change (if f.shorthand = "" then fs.shorthands
      else fs.shorthands ++ [(f.shorthand, f.name)]).lookup s =
        ((fs.flags ++ [f]).find? (·.shorthand = s)).map Flag.name
    rw [find?_shorthand_concat, Option.map_or, ← h.lookup s hs]
    by_cases hnone : f.shorthand = ""
    · have hne : f.shorthand ≠ s := fun heq => hs (heq.symm.trans hnone)
      rw [if_pos hnone, if_neg hne, Option.map_none, Option.or_none]
    · rw [if_neg hnone, lookup_concat]
      by_cases hsame : f.shorthand = s
      · rw [if_pos hsame, if_pos hsame, Option.map_some]
      · rw [if_neg hsame, if_neg hsame, Option.map_none]

/-- Shorthands stand for their flags after a definition exactly if they did before and the
definition did not fail for its shorthand. -/
theorem Indexed.resolved_define_iff (h : fs.Indexed) (f : Flag) :
    (fs.define f).1.Resolved ↔
      fs.Resolved ∧ ∀ s, (fs.define f).2 ≠ .error (.shorthandRedefined s) := by
  have hafter := h.define f
  obtain ⟨err, hother, hdefine⟩ | ⟨hnew, hshort, htaken, hdefine⟩ | ⟨hfree, hdefine⟩ :=
    fs.define_outcomes f
  · rw [hdefine]
    refine (and_iff_left fun s herr => ?_).symm
    exact hother s (Except.error.inj herr)
  · rw [hdefine] at hafter ⊢
    refine iff_of_false (fun hresolved => ?_) (fun hboth => hboth.2 _ rfl)
    have hself := hresolved f (by simp [enter]) hshort
    rw [h.lookup _ hshort, Option.isSome_map] at htaken
    obtain ⟨g, hg⟩ := Option.isSome_iff_exists.mp htaken
    rw [hafter.ofShorthand? hshort, enter, find?_shorthand_concat, hg, Option.some_or,
      Option.some.injEq] at hself
    exact find?_eq_none_iff.mp hnew
      (hself ▸ List.mem_map_of_mem (List.mem_of_find?_eq_some hg))
  · rw [hdefine] at hafter ⊢
    have hold : ∀ g ∈ fs.flags, g.shorthand ≠ "" →
        (fs.enterFully f).ofShorthand? g.shorthand = fs.ofShorthand? g.shorthand := by
      intro g hg hshort
      have hsome : (fs.flags.find? (·.shorthand = g.shorthand)).isSome := by
        simpa using ⟨g, hg, rfl⟩
      rw [hafter.ofShorthand? hshort, h.ofShorthand? hshort, enterFully, enter,
        find?_shorthand_concat, Option.or_of_isSome hsome]
    constructor
    · intro hresolved
      refine ⟨fun g hg hshort => ?_, by simp⟩
      rw [← hold g hg hshort]
      exact hresolved g (List.mem_append_left [f] hg) hshort
    · rintro ⟨hresolved, -⟩ g hg hshort
      obtain hg | hg := List.mem_append.mp hg
      · rw [hold g hg hshort]
        exact hresolved g hg hshort
      · cases List.mem_singleton.mp hg
        have hunused := hfree hshort
        rw [h.lookup _ hshort, Option.map_eq_none_iff] at hunused
        rw [hafter.ofShorthand? hshort, enterFully, enter, find?_shorthand_concat, hunused,
          Option.none_or, if_pos rfl]

theorem Indexed.defineAll (h : fs.Indexed) (flags : List Flag) :
    (fs.defineAll flags).1.Indexed :=
  defineAll_keeps (fun _ f hfs => hfs.define f) h flags

theorem Indexed.resolved_defineAll_iff (h : fs.Indexed) (flags : List Flag) :
    (fs.defineAll flags).1.Resolved ↔
      fs.Resolved ∧ ∀ s, (fs.defineAll flags).2 ≠ .error (.shorthandRedefined s) := by
  induction flags generalizing fs with
  | nil => simp [FlagSet.defineAll]
  | cons f rest ih =>
    have hafter := h.define f
    have hstep := h.resolved_define_iff f
    unfold FlagSet.defineAll
    split
    · next fs' hok =>
      rw [hok] at hafter hstep
      rw [ih hafter, hstep]
      simp
    · next fs' err hfailed =>
      rw [hfailed] at hstep
      exact hstep

end FlagSet

/-! ## Registrations -/

/-- A request to define something: a flag or a group of switches. -/
inductive Registration
  | flag (f : Flag)
  | group (g : Group)
  deriving DecidableEq, Repr

namespace FlagSet

/-- Make one registration. -/
def register (fs : FlagSet) : Registration → FlagSet × Except DefinitionError Unit
  | .flag f => fs.define f
  | .group g => fs.addGroup g

/-- Make registrations one after the other, whether they fail or not; gives their results as
well. -/
def registerAll (fs : FlagSet) :
    List Registration → FlagSet × List (Except DefinitionError Unit)
  | [] => (fs, [])
  | r :: rest =>
    let after := (fs.register r).1.registerAll rest
    (after.1, (fs.register r).2 :: after.2)

variable {fs : FlagSet}

/-- Listing a group does not touch the tables. -/
theorem Indexed.withGroups (h : fs.Indexed) (groups : List Group) :
    ({ fs with groups } : FlagSet).Indexed :=
  ⟨h.wellNamed, h.lookup⟩

theorem addGroup_eq (fs : FlagSet) (g : Group) :
    ∃ groups, fs.addGroup g =
      ({ (fs.defineAll (g.entries.flatMap (·.flags))).1 with groups },
        (fs.defineAll (g.entries.flatMap (·.flags))).2) := by
  unfold addGroup
  split
  · next fs' hok => exact ⟨fs'.groups ++ [g], by rw [hok]⟩
  · next fs' err hfailed => exact ⟨fs'.groups, by rw [hfailed]⟩

theorem Indexed.register (h : fs.Indexed) (r : Registration) : (fs.register r).1.Indexed := by
  cases r with
  | flag f => exact h.define f
  | group g =>
    obtain ⟨groups, hgroup⟩ := fs.addGroup_eq g
    rw [FlagSet.register, hgroup]
    exact (h.defineAll _).withGroups groups

/-- The step: a registration keeps the shorthands in order unless it fails for one. -/
theorem Indexed.resolved_register_iff (h : fs.Indexed) (r : Registration) :
    (fs.register r).1.Resolved ↔
      fs.Resolved ∧ ∀ s, (fs.register r).2 ≠ .error (.shorthandRedefined s) := by
  cases r with
  | flag f => exact h.resolved_define_iff f
  | group g =>
    obtain ⟨groups, hgroup⟩ := fs.addGroup_eq g
    rw [FlagSet.register, hgroup]
    exact h.resolved_defineAll_iff _

theorem Indexed.registerAll (h : fs.Indexed) (rs : List Registration) :
    (fs.registerAll rs).1.Indexed := by
  induction rs generalizing fs with
  | nil => exact h
  | cons r rest ih => exact ih (h.register r)

theorem Indexed.resolved_registerAll_iff (h : fs.Indexed) (rs : List Registration) :
    (fs.registerAll rs).1.Resolved ↔
      fs.Resolved ∧ ∀ s, .error (.shorthandRedefined s) ∉ (fs.registerAll rs).2 := by
  induction rs generalizing fs with
  | nil => simp [FlagSet.registerAll]
  | cons r rest ih =>
    have hrest := (ih (h.register r)).trans (and_congr_left' (h.resolved_register_iff r))
    simp only [FlagSet.registerAll, List.mem_cons, not_or, forall_and]
    rw [hrest, and_assoc]
    exact and_congr_right' (and_congr_left' (forall_congr' fun s => ne_comm))

theorem indexed_empty : Indexed {} where
  wellNamed := ⟨List.nodup_nil, by simp⟩
  lookup := by simp

theorem resolved_empty : Resolved {} := by
  simp [Resolved]

/-- **Registration.**  After any registrations, failed ones included, every flag is stored under
its own name, and a shorthand stands for the first flag that was entered with it.  All flags are
the ones that their shorthands stand for exactly if no definition failed because its shorthand
was taken; such a definition is also the only one that fails and changes the tables. -/
theorem registerAll_consistent (rs : List Registration) :
    let fs := (registerAll {} rs).1
    (∀ f ∈ fs.flags, fs.find? f.name = some f) ∧
      (∀ s, s ≠ "" → fs.ofShorthand? s = fs.flags.find? (·.shorthand = s)) ∧
      ((∀ f ∈ fs.flags, f.shorthand ≠ "" → fs.ofShorthand? f.shorthand = some f) ↔
        ∀ s, .error (.shorthandRedefined s) ∉ (registerAll {} rs).2) ∧
      ∀ f err, (fs.define f).2 = .error err →
        ((fs.define f).1 = fs ↔ ∀ s, err ≠ .shorthandRedefined s) := by
  intro fs
  have hindexed : fs.Indexed := indexed_empty.registerAll rs
  have hresolved := indexed_empty.resolved_registerAll_iff rs
  exact ⟨fun f hf => hindexed.wellNamed.find? hf, fun s hs => hindexed.ofShorthand? hs,
    hresolved.trans (and_iff_right resolved_empty), fun f err h => define_unchanged_iff h⟩

/-- A name that is taken, an empty name, and a group that defines a switch twice. -/
def refusedRegistrations : List Registration :=
  [.flag (.make "output" "o" "" (.text "") "file"), .flag (.make "output" "p" "" (.text "") ""),
    .flag (.make "" "q" "" (.switch false) ""), .flag (.make "quiet" "q" "" (.switch false) ""),
    .group ⟨"Warnings", "", "", [⟨"extra", "W", "", some true, none⟩,
      ⟨"extra", "W", "", some true, none⟩]⟩]

theorem registerAll_consistent_refused :
    let fs := (registerAll {} refusedRegistrations).1
    let again := Flag.make "quiet" "v" "" (.switch true) ""
    (∀ f ∈ fs.flags, f.shorthand ≠ "" → fs.ofShorthand? f.shorthand = some f) ∧
      (fs.define again).2 = .error (.redefined "quiet") ∧ (fs.define again).1 = fs := by
  intro fs again
  obtain ⟨-, -, hresolved, hunchanged⟩ := registerAll_consistent refusedRegistrations
  have hresults : (registerAll {} refusedRegistrations).2 =
      [.ok (), .error (.redefined "output"), .error .emptyName, .ok (),
        .error (.redefined "Wextra")] := by
    decide +kernel
  have hagain : (fs.define again).2 = .error (.redefined "quiet") := by decide +kernel
  exact ⟨hresolved.mpr (by simp [hresults]), hagain, (hunchanged again _ hagain).mpr (by simp)⟩

/-- A definition whose shorthand is taken fails and yet enters its flag, and the shorthand stands
for another one. -/
theorem define_taken_shorthand :
    let first := Flag.make "a" "x" "" (.text "") ""
    let second := Flag.make "b" "x" "" (.text "") ""
    let fs := (registerAll {} [.flag first]).1
    (fs.define second).2 = .error (.shorthandRedefined "x") ∧ (fs.define second).1 ≠ fs ∧
      (fs.define second).1.find? "b" = some second ∧
      (fs.define second).1.ofShorthand? second.shorthand = some first := by
  decide +kernel

end FlagSet

end Cflat.CommandLine
