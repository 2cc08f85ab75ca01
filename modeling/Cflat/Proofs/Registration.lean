import Cflat.Proofs.Parsing
import Mathlib.Data.List.Nodup

/-!
# Flag sets as they come about

A flag set starts empty.  Flags and groups are defined in it, some of them in vain, and
command lines are parsed; none of this leaves a flag without a name or two flags of one name.

* `Reachable`: the flag sets there are.
* `Reachable.wellNamed`: every flag of such a set is found by its name, which is not empty.
* `defineAll_of_fresh`, `addGroup_of_fresh`: flags whose names are free can be defined.
-/

namespace Cflat.CommandLine

/-- Flags that have names, no two of them the same. -/
structure WellNamed (flags : List Flag) : Prop where
  nodup : (flags.map Flag.name).Nodup
  ne_empty : ∀ f ∈ flags, f.name ≠ ""

namespace WellNamed

variable {flags : List Flag}

/-- Well-named flags are found by their names. -/
theorem find? (h : WellNamed flags) {f : Flag} (hf : f ∈ flags) :
    flags.find? (·.name = f.name) = some f := by
  cases hfind : flags.find? (·.name = f.name) with
  | none => simpa using List.find?_eq_none.mp hfind f hf
  | some g =>
    have hname : g.name = f.name := by simpa using List.find?_some hfind
    rw [List.inj_on_of_nodup_map h.nodup (List.mem_of_find?_eq_some hfind) hf hname]

theorem concat (h : WellNamed flags) {f : Flag} (hne : f.name ≠ "")
    (hfree : f.name ∉ flags.map Flag.name) : WellNamed (flags ++ [f]) where
  nodup := by
    rw [List.map_append, List.nodup_append]
    refine ⟨h.nodup, by simp, fun name hname other hother => ?_⟩
    rintro rfl
    rw [List.map_singleton, List.mem_singleton] at hother
    exact hfree (hother ▸ hname)
  ne_empty g hg := by
    obtain hg | hg := List.mem_append.mp hg
    · exact h.ne_empty g hg
    · rw [List.mem_singleton.mp hg]
      exact hne

theorem of_names (h : WellNamed flags) {flags' : List Flag}
    (hnames : flags'.map Flag.name = flags.map Flag.name) : WellNamed flags' where
  nodup := hnames ▸ h.nodup
  ne_empty f hf := by
    obtain ⟨g, hg, hname⟩ := List.mem_map.mp (hnames ▸ List.mem_map_of_mem hf)
    exact hname ▸ h.ne_empty g hg

end WellNamed

namespace FlagSet

variable {fs : FlagSet} {name : String} {f : Flag}

/-! ## Finding flags -/

theorem find?_eq_none_iff : fs.find? name = none ↔ name ∉ fs.flags.map Flag.name := by
  simp [find?]

theorem name_of_find? (h : fs.find? name = some f) : f.name = name := by
  simpa using List.find?_some h

theorem find?_name_of_ofShorthand? {shorthand : String} (h : fs.ofShorthand? shorthand = some f) :
    fs.find? f.name = some f := by
  obtain ⟨name, -, hfind⟩ := Option.bind_eq_some_iff.mp h
  rw [name_of_find? hfind, hfind]

/-! ## Definitions -/

/-- A definition enters the flag under a name that was free, or leaves the flags as they
were. -/
theorem define_cases (fs : FlagSet) (f : Flag) :
    (fs.define f).1.flags = fs.flags ∨
      (f.name ≠ "" ∧ fs.find? f.name = none ∧ (fs.define f).1.flags = fs.flags ++ [f]) := by
  unfold define
  split
  · exact .inl rfl
  · next hne =>
    split
    · exact .inl rfl
    · next hfree =>
      have hnone : fs.find? f.name = none := by simpa using hfree
      dsimp only
      split
      · exact .inr ⟨hne, hnone, rfl⟩
      · split
        · exact .inr ⟨hne, hnone, rfl⟩
        · exact .inr ⟨hne, hnone, rfl⟩

theorem wellNamed_define (h : WellNamed fs.flags) (f : Flag) :
    WellNamed (fs.define f).1.flags := by
  obtain hkept | ⟨hne, hfree, hentered⟩ := fs.define_cases f
  · rw [hkept]
    exact h
  · rw [hentered]
    exact h.concat hne (find?_eq_none_iff.mp hfree)

/-- What every definition keeps, a run of definitions keeps. -/
theorem defineAll_keeps {P : FlagSet → Prop} (hdefine : ∀ fs f, P fs → P (fs.define f).1)
    (h : P fs) (flags : List Flag) : P (fs.defineAll flags).1 := by
  induction flags generalizing fs with
  | nil => exact h
  | cons f rest ih =>
    have hstep := hdefine fs f h
    unfold defineAll
    split
    · next hok => exact ih (by simpa [hok] using hstep)
    · next hfailed => simpa [hfailed] using hstep

theorem wellNamed_addGroup (h : WellNamed fs.flags) (g : Group) :
    WellNamed (fs.addGroup g).1.flags := by
  have hall : WellNamed (fs.defineAll (g.entries.flatMap (·.flags))).1.flags :=
    defineAll_keeps (P := fun fs => WellNamed fs.flags) (fun _ f hfs => wellNamed_define hfs f) h _
  unfold addGroup
  split
  · next hok => simpa [hok] using hall
  · next hfailed => simpa [hfailed] using hall

/-- Flags without a shorthand whose names are free are entered one after the other. -/
theorem defineAll_of_fresh {flags : List Flag} (h : WellNamed flags)
    (hshort : ∀ f ∈ flags, f.shorthand = "") (hfree : ∀ f ∈ flags, fs.find? f.name = none) :
    fs.defineAll flags = ({ fs with flags := fs.flags ++ flags }, .ok ()) := by
  induction flags generalizing fs with
  | nil => simp [defineAll]
  | cons f rest ih =>
    have hne : f.name ≠ "" := h.ne_empty f List.mem_cons_self
    have hdefine : fs.define f = ({ fs with flags := fs.flags ++ [f] }, .ok ()) := by
      simp [define, hne, hshort f List.mem_cons_self, hfree f List.mem_cons_self]
    obtain ⟨hnotin, hnodup⟩ := List.nodup_cons.mp h.nodup
    have hrest : WellNamed rest := ⟨hnodup, fun g hg => h.ne_empty g (List.mem_cons_of_mem f hg)⟩
    have hfree' : ∀ g ∈ rest,
        ({ fs with flags := fs.flags ++ [f] } : FlagSet).find? g.name = none := by
      intro g hg
      have hg' := find?_eq_none_iff.mp (hfree g (List.mem_cons_of_mem f hg))
      have hne' : g.name ≠ f.name := fun heq => hnotin (heq ▸ List.mem_map_of_mem hg)
      rw [find?_eq_none_iff, List.map_append, List.mem_append, not_or]
      exact ⟨hg', by simpa using hne'⟩
    rw [defineAll, hdefine]
    dsimp only
    rw [ih hrest (fun g hg => hshort g (List.mem_cons_of_mem f hg)) hfree']
    simp

theorem addGroup_of_fresh {g : Group} (h : WellNamed (g.entries.flatMap (·.flags)))
    (hshort : ∀ f ∈ g.entries.flatMap (·.flags), f.shorthand = "")
    (hfree : ∀ f ∈ g.entries.flatMap (·.flags), fs.find? f.name = none) :
    fs.addGroup g = ({ fs with
      flags := fs.flags ++ g.entries.flatMap (·.flags)
      groups := fs.groups ++ [g] }, .ok ()) := by
  rw [addGroup, defineAll_of_fresh h hshort hfree]

/-! ## Parsing -/

theorem wellNamed_setValue (h : WellNamed fs.flags) (name : String) (v : Value) :
    WellNamed (fs.setValue name v).flags := by
  apply h.of_names
  unfold setValue
  rw [List.map_map]
  refine List.map_congr_left fun f _ => ?_
  rw [Function.comp_apply]
  split <;> rfl

theorem wellNamed_parse (h : WellNamed fs.flags) (arguments : List String) :
    WellNamed (fs.parse arguments).1.flags := by
  refine keeps_parse (P := fun fs => WellNamed fs.flags) ?_ ?_ h arguments
  · intro _ name _ _ v _ _ hfs
    exact wellNamed_setValue hfs name v
  · intro _ _ hfs
    exact hfs

/-! ## The flag sets there are -/

/-- Flag sets come about by definitions and command lines.  A definition that fails counts as
well: what it leaves can be used. -/
inductive Reachable : FlagSet → Prop
  | empty : Reachable {}
  | define {fs : FlagSet} (h : Reachable fs) (f : Flag) : Reachable (fs.define f).1
  | addGroup {fs : FlagSet} (h : Reachable fs) (g : Group) : Reachable (fs.addGroup g).1
  | parse {fs : FlagSet} (h : Reachable fs) (arguments : List String) :
    Reachable (fs.parse arguments).1

namespace Reachable

variable {fs : FlagSet}

theorem wellNamed (h : fs.Reachable) : WellNamed fs.flags := by
  induction h with
  | empty => exact ⟨List.nodup_nil, by simp⟩
  | define _ f ih => exact wellNamed_define ih f
  | addGroup _ g ih => exact wellNamed_addGroup ih g
  | parse _ arguments ih => exact wellNamed_parse ih arguments

theorem find?_of_mem (h : fs.Reachable) {f : Flag} (hf : f ∈ fs.flags) :
    fs.find? f.name = some f :=
  h.wellNamed.find? hf

theorem defineAll (h : fs.Reachable) (flags : List Flag) :
    (fs.defineAll flags).1.Reachable :=
  defineAll_keeps (fun _ f hfs => hfs.define f) h flags

end Reachable

end FlagSet

end Cflat.CommandLine
