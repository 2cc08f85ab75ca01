import Mathlib.Data.List.Induction
import Cflat.Proofs.Accepts
import Cflat.Proofs.Tests

/-!
# Golden listings after an update

An update puts the listing of every unit in place of its golden one.  The golden path keeps
only the stem of a unit, so an update may write one golden listing for several units, and it
may write over the units themselves.  Where it does neither, the next check passes.

* Writing: what a test leaves alone.
* Runs: what is kept by every test is kept by the run.
* Checks change nothing that a test reads; an update changes the golden listings only, and
  each of them is the listing of a unit.
* The check after an update, where units share a golden listing and where one is its own.
-/

namespace Cflat.Golden

/-! ## Writing -/

theorem sameDirs_applyWrites (files : FileTree) (written : List (String × String)) :
    files.SameDirs (applyWrites files written) := by
  induction written generalizing files with
  | nil => exact .refl files
  | cons w written ih =>
    cases hwrite : files.write w.1 w.2 with
    | error e => simpa [applyWrites, hwrite, Except.toOption] using ih files
    | ok files' =>
      have hrest : files.SameDirs (applyWrites files' written) :=
        (FileTree.sameDirs_of_write hwrite).trans (ih files')
      simpa [applyWrites, hwrite, Except.toOption] using hrest

theorem text?_applyWrites {files : FileTree} {written : List (String × String)} {path : String}
    (h : ∀ w ∈ written, files.Apart w.1 path) :
    (applyWrites files written).text? path = files.text? path := by
  induction written generalizing files with
  | nil => rfl
  | cons w written ih =>
    have hrest : ∀ w ∈ written, files.Apart w.1 path := fun w hw => h w (List.mem_cons_of_mem _ hw)
    cases hwrite : files.write w.1 w.2 with
    | error e => simpa [applyWrites, hwrite, Except.toOption] using ih hrest
    | ok files' =>
      have hdirs := FileTree.sameDirs_of_write hwrite
      have hrest' : ∀ w ∈ written, files'.Apart w.1 path := by
        intro w hw l
        rw [hdirs.locate_eq, hdirs.locate_eq]
        exact hrest w hw l
      have hthen := (ih hrest').trans
        (FileTree.text?_write_of_apart hwrite (h w List.mem_cons_self))
      simpa [applyWrites, hwrite, Except.toOption] using hthen

namespace Suite

variable {s : Suite} {compile : Compiler} {files : FileTree} {unit : String}

/-- A test makes no directory and removes none. -/
theorem sameDirs_test (s : Suite) (compile : Compiler) (files : FileTree) (unit : String) :
    files.SameDirs (s.test compile files unit).files := by
  cases hplan : s.plan files unit with
  | settled r =>
    rw [test_of_settled hplan]
    exact .refl files
  | compile want key =>
    have hafter : files.SameDirs (s.afterCompile compile files unit) :=
      sameDirs_applyWrites files _
    cases hlisting : s.compiledListing? compile files unit with
    | none =>
      obtain ⟨message, htest⟩ := test_of_unlisted hplan hlisting
      rw [htest]
      exact hafter
    | some got =>
      rw [test_of_listed hplan hlisting]
      refine hafter.trans ?_
      unfold judge
      dsimp only
      split
      · split
        · next files' hwrite => exact FileTree.sameDirs_of_write hwrite
        · exact .refl _
      · split <;> exact .refl _

/-- A check leaves everything alone that the compiler does not write. -/
theorem text?_test_of_check (hupdate : s.update = false) {path : String}
    (h : ∀ w ∈ (compile files (s.command unit)).written, files.Apart w.1 path) :
    (s.test compile files unit).files.text? path = files.text? path := by
  cases hplan : s.plan files unit with
  | settled r => rw [test_of_settled hplan]
  | compile want key =>
    have hafter : (s.afterCompile compile files unit).text? path = files.text? path :=
      text?_applyWrites h
    cases hlisting : s.compiledListing? compile files unit with
    | none =>
      obtain ⟨message, htest⟩ := test_of_unlisted hplan hlisting
      rw [htest]
      exact hafter
    | some got =>
      obtain ⟨message, diff, hjudge⟩ := judge_of_check hupdate (s.afterCompile compile files unit)
        unit want got (compiled unit key (compile files (s.command unit)))
      rw [test_of_listed hplan hlisting, hjudge]
      exact hafter

/-- An update that passes puts the listing where the golden path leads. -/
theorem text?_test_of_update (hupdate : s.update = true)
    (hpass : (s.test compile files unit).result.status = .pass) {path : String}
    (h : ∀ w ∈ (compile files (s.command unit)).written, files.Apart w.1 path) :
    (s.test compile files unit).files.text? path =
      if files.locate path = files.locate (s.goldenPath unit) then
        s.compiledListing? compile files unit
      else files.text? path := by
  obtain ⟨got, hlisting, hwrite⟩ := exists_write_of_update hupdate hpass
  have hafter : files.SameDirs (s.afterCompile compile files unit) := sameDirs_applyWrites files _
  rw [FileTree.text?_write hwrite, hafter.locate_eq, hafter.locate_eq, hlisting]
  split
  · rfl
  · exact text?_applyWrites h

theorem exists_locate_of_update (hupdate : s.update = true)
    (hpass : (s.test compile files unit).result.status = .pass) :
    ∃ l, files.locate (s.goldenPath unit) = some l := by
  obtain ⟨got, -, hwrite⟩ := exists_write_of_update hupdate hpass
  obtain ⟨l, hl, -⟩ := FileTree.node?_write hwrite
  have hafter : files.SameDirs (s.afterCompile compile files unit) := sameDirs_applyWrites files _
  exact ⟨l, (hafter.locate_eq _).symm.trans hl⟩

/-- The last test of a run works on the files that the others left. -/
theorem testAll_concat (s : Suite) (compile : Compiler) (files : FileTree) (before : List String)
    (unit : String) :
    (s.testAll compile files (before ++ [unit])).2 =
      (s.test compile (s.testAll compile files before).2 unit).files := by
  induction before generalizing files with
  | nil => rfl
  | cons first before ih => exact ih (s.test compile files first).files

theorem mem_testAll (s : Suite) (compile : Compiler) (files : FileTree) (before after : List String)
    (unit : String) :
    s.test compile (s.testAll compile files before).2 unit ∈
      (s.testAll compile files (before ++ unit :: after)).1 := by
  induction before generalizing files with
  | nil => exact List.mem_cons_self
  | cons first before ih =>
    exact List.mem_cons_of_mem _ (ih (s.test compile files first).files)

end Suite

/-! ## Runs -/

namespace Run

variable {r : Run} {f : Behaviour} {unit path : String} {now : FileTree}

/-- What holds at first and is kept by every test holds all the time. -/
theorem holds_of_step {P : List String → FileTree → Prop} (hstart : P [] r.files)
    (hstep : ∀ before unit now, r.Begins unit now → P before now →
      P (before ++ [unit]) (r.suite.test r.bench.compile now unit).files)
    {before : List String} (hbefore : before <+: r.units) :
    P before (r.suite.testAll r.bench.compile r.files before).2 := by
  induction before using List.reverseRecOn with
  | nil => exact hstart
  | append_singleton before unit ih =>
    obtain ⟨after, hunits⟩ := hbefore
    rw [List.append_assoc, List.singleton_append] at hunits
    rw [Suite.testAll_concat]
    exact hstep before unit _ ⟨before, after, hunits.symm, rfl⟩ (ih ⟨_, hunits⟩)

theorem Begins.mem (h : r.Begins unit now) : unit ∈ r.units := by
  obtain ⟨before, after, hunits, -⟩ := h
  simp [hunits]

theorem exists_begins (h : unit ∈ r.units) : ∃ now, r.Begins unit now := by
  obtain ⟨before, after, hunits⟩ := List.append_of_mem h
  exact ⟨_, before, after, hunits, rfl⟩

theorem Begins.mem_tested (h : r.Begins unit now) :
    r.suite.test r.bench.compile now unit ∈ r.tested.1 := by
  obtain ⟨before, after, hunits, rfl⟩ := h
  rw [tested, hunits]
  exact r.suite.mem_testAll r.bench.compile r.files before after unit

theorem sameDirs_testAll (r : Run) {before : List String} (hbefore : before <+: r.units) :
    r.files.SameDirs (r.suite.testAll r.bench.compile r.files before).2 :=
  holds_of_step (P := fun _ now => r.files.SameDirs now) (.refl r.files)
    (fun _ unit now _ hdirs => hdirs.trans (r.suite.sameDirs_test r.bench.compile now unit)) hbefore

theorem Begins.sameDirs (h : r.Begins unit now) : r.files.SameDirs now := by
  obtain ⟨before, after, hunits, rfl⟩ := h
  exact r.sameDirs_testAll ⟨_, hunits.symm⟩

/-- The directory for the listings under test. -/
def scratch (r : Run) : Location :=
  FileTree.locationOf r.bench.scratch

/-- The paths that the tests of a run read. -/
inductive Reads (r : Run) : String → Prop
  | unit {unit : String} : unit ∈ r.units → Reads r unit
  | golden {unit : String} : unit ∈ r.units → Reads r (r.suite.goldenPath unit)
  | compiler : Reads r r.settings.compiler

theorem reads_of_input (h : path ∈ r.units ∨ path = r.settings.compiler) : r.Reads path := by
  rcases h with hunit | rfl
  · exact .unit hunit
  · exact .compiler

theorem forall_reads_iff {P : String → Prop} :
    (∀ path, r.Reads path → P path) ↔
      (∀ unit ∈ r.units, P unit ∧ P (goldenPath r.settings.goldenDir unit)) ∧
        P r.settings.compiler := by
  constructor
  · intro h
    refine ⟨fun unit hunit => ⟨h unit (.unit hunit), ?_⟩, h _ .compiler⟩
    rw [← r.suite_goldenPath]
    exact h _ (.golden hunit)
  · rintro ⟨hunits, hcompiler⟩ path hreads
    cases hreads with
    | unit hunit => exact (hunits _ hunit).1
    | golden hunit =>
      rw [r.suite_goldenPath]
      exact (hunits _ hunit).2
    | compiler => exact hcompiler

/-- The compiler does what `f` says it does, and writes nothing but its listing.  The listings
go to the scratch directory, and what the tests read is elsewhere. -/
structure Contained (f : Behaviour) (r : Run) : Prop where
  listing : ∀ unit now, r.Begins unit now → r.suite.compiledListing? r.bench.compile now unit =
    f (now.text? r.settings.compiler) r.suite.args unit (now.text? unit)
  written : ∀ unit now, r.Begins unit now →
    ∀ w ∈ (r.bench.compile now (r.suite.command unit)).written, w.1 = r.suite.listingPath unit
  inside : ∀ unit ∈ r.units, ∀ l, r.files.locate (r.suite.listingPath unit) = some l →
    r.scratch <+: l
  outside : ∀ path, r.Reads path → ∀ l, r.files.locate path = some l →
    (r.files.remove r.scratch).locate path = some l ∧ ¬ r.scratch <+: l

theorem Contained.apart (h : r.Contained f) (hbegins : r.Begins unit now) (hreads : r.Reads path) :
    ∀ w ∈ (r.bench.compile now (r.suite.command unit)).written, now.Apart w.1 path := by
  intro w hw l hl hpath
  rw [h.written unit now hbegins w hw, hbegins.sameDirs.locate_eq] at hl
  rw [hbegins.sameDirs.locate_eq] at hpath
  exact (h.outside path hreads l hpath).2 (h.inside unit hbegins.mem l hl)

/-- What the tests read is there after the run as it was after the last test, unless the
report is written over it. -/
theorem Contained.text?_outcome (h : r.Contained f) (hreads : r.Reads path)
    (hreport : r.files.Apart r.reportPath path) :
    r.outcome.files.text? path = r.tested.2.text? path := by
  have hdirs : r.files.SameDirs r.tested.2 := r.sameDirs_testAll (List.prefix_refl _)
  have hapart : r.tested.2.Apart r.reportPath path := by
    intro l
    rw [hdirs.locate_eq, hdirs.locate_eq]
    exact hreport l
  have hsaved : r.files.SameDirs r.saved.files ∧
      r.saved.files.text? path = r.tested.2.text? path := by
    rw [saved, Report.save]
    split
    · next files' hwrite =>
      exact ⟨hdirs.trans (FileTree.sameDirs_of_write hwrite),
        FileTree.text?_write_of_apart hwrite hapart⟩
    · exact ⟨hdirs, rfl⟩
  rw [files_outcome]
  split
  · exact hsaved.2
  · exact (hsaved.1.text?_remove (h.outside path hreads)).trans hsaved.2

/-- A check leaves alone what the tests read. -/
theorem Contained.text?_of_check (h : r.Contained f) (hcheck : r.settings.update = false)
    (hbegins : r.Begins unit now) (hreads : r.Reads path) :
    now.text? path = r.files.text? path := by
  obtain ⟨before, after, hunits, rfl⟩ := hbegins
  refine holds_of_step (P := fun _ now => now.text? path = r.files.text? path) rfl ?_
    ⟨_, hunits.symm⟩
  intro before unit now hbegins hnow
  rw [Suite.text?_test_of_check (r.suite_update.trans hcheck) (h.apart hbegins hreads), hnow]

/-! ## Updates -/

/-- What the compiler makes of a unit of the run. -/
def intended (r : Run) (f : Behaviour) (unit : String) : Option String :=
  f (r.files.text? r.settings.compiler) r.suite.args unit (r.files.text? unit)

/-- The golden listings and the report are written over nothing else that the run reads. -/
structure Separate (r : Run) : Prop where
  golden : ∀ unit ∈ r.units, ∀ path, path ∈ r.units ∨ path = r.settings.compiler →
    r.files.Apart (r.suite.goldenPath unit) path
  report : ∀ path, r.Reads path → r.files.Apart r.reportPath path

/-- The files in the middle of an update, with the units in `before` done.  The golden listing of
each is the listing of one that has the same golden path. -/
structure Updated (f : Behaviour) (r : Run) (before : List String) (now : FileTree) : Prop where
  done : ∀ unit ∈ before, unit ∈ r.units
  inputs : ∀ path, path ∈ r.units ∨ path = r.settings.compiler →
    now.text? path = r.files.text? path
  golden : ∀ unit ∈ before, ∃ unit' ∈ before,
    r.files.locate (r.suite.goldenPath unit') = r.files.locate (r.suite.goldenPath unit) ∧
      now.text? (r.suite.goldenPath unit) = r.intended f unit'

/-- Only what the tests read matters. -/
theorem Updated.congr {now' : FileTree} (h : r.Updated f r.units now)
    (hsame : ∀ path, r.Reads path → now'.text? path = now.text? path) :
    r.Updated f r.units now' := by
  refine ⟨h.done, fun path hpath => ?_, fun unit hunit => ?_⟩
  · rw [hsame path (reads_of_input hpath), h.inputs path hpath]
  · rw [hsame _ (.golden hunit)]
    exact h.golden unit hunit

theorem Updated.compiledListing? {before : List String} (h : r.Updated f before now)
    (hcontained : r.Contained f) (hbegins : r.Begins unit now) :
    r.suite.compiledListing? r.bench.compile now unit = r.intended f unit := by
  rw [hcontained.listing unit now hbegins, intended, h.inputs _ (.inr rfl),
    h.inputs unit (.inl hbegins.mem)]

/-- One test of an update. -/
theorem Updated.test {before : List String} (h : r.Updated f before now)
    (hcontained : r.Contained f) (hseparate : r.Separate) (hupdate : r.settings.update = true)
    (hbegins : r.Begins unit now)
    (hpass : (r.suite.test r.bench.compile now unit).result.status = .pass) :
    r.Updated f (before ++ [unit]) (r.suite.test r.bench.compile now unit).files := by
  have hsuite := r.suite_update.trans hupdate
  obtain ⟨l, hl⟩ := Suite.exists_locate_of_update hsuite hpass
  rw [hbegins.sameDirs.locate_eq] at hl
  have htext {path : String} (hreads : r.Reads path) :
      (r.suite.test r.bench.compile now unit).files.text? path =
        if r.files.locate path = some l then r.intended f unit else now.text? path := by
    rw [Suite.text?_test_of_update hsuite hpass (hcontained.apart hbegins hreads),
      h.compiledListing? hcontained hbegins, hbegins.sameDirs.locate_eq,
      hbegins.sameDirs.locate_eq, hl]
  have hdone : ∀ u ∈ before ++ [unit], u ∈ r.units := by
    simpa [or_imp, forall_and] using ⟨h.done, hbegins.mem⟩
  refine ⟨hdone, fun path hpath => ?_, fun u hu => ?_⟩
  · rw [htext (reads_of_input hpath), if_neg (hseparate.golden unit hbegins.mem path hpath l hl),
      h.inputs path hpath]
  · rw [htext (.golden (hdone u hu))]
    by_cases hshared : r.files.locate (r.suite.goldenPath u) = some l
    · exact ⟨unit, by simp, hl.trans hshared.symm, if_pos hshared⟩
    · have hu' : u ∈ before := by
        rcases List.mem_append.mp hu with hu | hu
        · exact hu
        · exact absurd (List.mem_singleton.mp hu ▸ hl) hshared
      obtain ⟨v, hv, hlocate, hgolden⟩ := h.golden u hu'
      exact ⟨v, List.mem_append_left _ hv, hlocate, (if_neg hshared).trans hgolden⟩

section

variable (hcontained : r.Contained f) (hseparate : r.Separate) (hupdate : r.settings.update = true)

include hcontained hseparate hupdate

/-- If every test passes that finds the files updated so far, they are updated all the time. -/
theorem updated_of_step
    (hstep : ∀ before unit now, r.Begins unit now → r.Updated f before now →
      (r.suite.test r.bench.compile now unit).result.status = .pass)
    {before : List String} (hbefore : before <+: r.units) :
    r.Updated f before (r.suite.testAll r.bench.compile r.files before).2 := by
  refine holds_of_step ⟨by simp, fun _ _ => rfl, by simp⟩ ?_ hbefore
  intro before unit now hbegins h
  exact h.test hcontained hseparate hupdate hbegins (hstep before unit now hbegins h)

/-- Every test of an update passes if every unit has a listing and a place for the golden one. -/
theorem pass_of_writable (hlisted : ∀ unit ∈ r.units, (r.intended f unit).isSome)
    (hwritable : ∀ unit ∈ r.units, (r.files.writable (r.suite.goldenPath unit)).isOk) :
    ∀ t ∈ r.tested.1, t.result.status = .pass := by
  have hstep (before : List String) (unit : String) (now : FileTree)
      (hbegins : r.Begins unit now) (h : r.Updated f before now) :
      (r.suite.test r.bench.compile now unit).result.status = .pass := by
    obtain ⟨got, hgot⟩ := Option.isSome_iff_exists.mp (hlisted unit hbegins.mem)
    obtain ⟨l, hl⟩ := exists_eq_ok_of_isOk (hwritable unit hbegins.mem)
    have hafter : r.files.SameDirs (r.suite.afterCompile r.bench.compile now unit) :=
      hbegins.sameDirs.trans (sameDirs_applyWrites now _)
    have hwrite : (r.suite.afterCompile r.bench.compile now unit).write (r.suite.goldenPath unit)
        got = .ok ((r.suite.afterCompile r.bench.compile now unit).setNode l (.file got)) := by
      rw [FileTree.write, hafter.writable hl]
    exact (Suite.test_of_update (r.suite_update.trans hupdate)
      ((h.compiledListing? hcontained hbegins).trans hgot) hwrite).1
  intro t ht
  obtain ⟨unit, now, ⟨before, after, hunits, hnow⟩, htest⟩ := exists_begins_of_mem ht
  have hupdated := updated_of_step hcontained hseparate hupdate hstep ⟨_, hunits.symm⟩
  rw [htest]
  exact hstep before unit now ⟨before, after, hunits, hnow⟩ (hnow ▸ hupdated)

variable (hpass : ∀ t ∈ r.tested.1, t.result.status = .pass)

include hpass

theorem updated_testAll {before : List String} (hbefore : before <+: r.units) :
    r.Updated f before (r.suite.testAll r.bench.compile r.files before).2 :=
  updated_of_step hcontained hseparate hupdate
    (fun _ _ _ hbegins _ => hpass _ hbegins.mem_tested) hbefore

/-- What an update leaves in which every test passes. -/
theorem updated_outcome : r.Updated f r.units r.outcome.files :=
  (updated_testAll hcontained hseparate hupdate hpass (List.prefix_refl _)).congr
    fun path hreads => hcontained.text?_outcome hreads (hseparate.report path hreads)

theorem exists_intended (hunit : unit ∈ r.units) : ∃ got, r.intended f unit = some got := by
  obtain ⟨before, after, hunits⟩ := List.append_of_mem hunit
  have hbegins : r.Begins unit _ := ⟨before, after, hunits, rfl⟩
  have hupdated := updated_testAll hcontained hseparate hupdate hpass ⟨_, hunits.symm⟩
  obtain ⟨got, hgot, -⟩ := Suite.exists_write_of_update (r.suite_update.trans hupdate)
    (hpass _ hbegins.mem_tested)
  exact ⟨got, (hupdated.compiledListing? hcontained hbegins).symm.trans hgot⟩

end

/-! ## The check after an update -/

/-- The second run checks what the first has updated, with the same compiler and arguments.
The units may come in another order. -/
structure Rechecks (r' r : Run) : Prop where
  update : r.settings.update = true
  check : r'.settings.update = false
  goldenDir : r'.settings.goldenDir = r.settings.goldenDir
  compiler : r'.settings.compiler = r.settings.compiler
  args : r'.settings.args = r.settings.args
  units : r'.units.Perm r.units
  files : ∀ path, r.Reads path → r'.files.text? path = r.outcome.files.text? path
  diff : ∀ want got, r'.bench.diff want got = "" ↔ want = got

/-- Units with the same golden listing have the same listing. -/
def Agrees (f : Behaviour) (r : Run) : Prop :=
  ∀ unit ∈ r.units, ∀ unit' ∈ r.units,
    r.files.locate (r.suite.goldenPath unit) = r.files.locate (r.suite.goldenPath unit') →
      r.intended f unit = r.intended f unit'

variable {r' : Run}

/-- The check compiles what the update has compiled. -/
theorem Rechecks.intended_eq (h : r'.Rechecks r) (hupdated : r.Updated f r.units r'.files)
    (hunit : unit ∈ r.units) : r'.intended f unit = r.intended f unit := by
  rw [intended, intended, h.compiler, r'.suite_args, r.suite_args, h.args,
    hupdated.inputs _ (.inr rfl), hupdated.inputs unit (.inl hunit)]

/-- A test of the check finds some listing as the golden one and compares its own with it. -/
theorem Rechecks.pass_iff (h : r'.Rechecks r) (hcontained : r.Contained f)
    (hcontained' : r'.Contained f) (hseparate : r.Separate)
    (hpass : ∀ t ∈ r.tested.1, t.result.status = .pass) (hbegins : r'.Begins unit now) :
    ∃ want, r'.files.text? (r.suite.goldenPath unit) = some want ∧
      ((r'.suite.test r'.bench.compile now unit).result.status = .pass ↔
        r'.suite.reused? now unit want ≠ none ∨ r.intended f unit = some want) := by
  have hupdated := (updated_outcome hcontained hseparate h.update hpass).congr h.files
  have hunit : unit ∈ r.units := h.units.mem_iff.mp hbegins.mem
  have hpath : r'.suite.goldenPath unit = r.suite.goldenPath unit := by
    rw [r'.suite_goldenPath, r.suite_goldenPath, h.goldenDir]
  obtain ⟨v, hv, -, hgolden⟩ := hupdated.golden unit hunit
  obtain ⟨want, hwant⟩ := exists_intended hcontained hseparate h.update hpass hv
  obtain ⟨got, hgot⟩ := exists_intended hcontained hseparate h.update hpass hunit
  have hkept {path : String} (hreads : r'.Reads path) : now.text? path = r'.files.text? path :=
    hcontained'.text?_of_check h.check hbegins hreads
  have hlisting : r'.suite.compiledListing? r'.bench.compile now unit = some got := by
    rw [hcontained'.listing unit now hbegins, hkept .compiler, hkept (.unit hbegins.mem), ← hgot,
      ← h.intended_eq hupdated hunit]
    rfl
  have hnow : now.text? (r'.suite.goldenPath unit) = some want := by
    rw [hkept (.golden hbegins.mem), hpath, hgolden, hwant]
  refine ⟨want, hgolden.trans hwant, ?_⟩
  rw [Suite.pass_iff (r'.suite_update.trans h.check) hnow hlisting, r'.suite_diff, h.diff, hgot,
    Option.some.injEq, eq_comm (a := want)]

/-- Golden paths that lead to the same location are read alike by the check. -/
theorem Rechecks.text?_golden_congr (h : r'.Rechecks r) (hcontained : r.Contained f)
    (hseparate : r.Separate) {unit' : String} (hunit : unit ∈ r.units) (hunit' : unit' ∈ r.units)
    (hshared : r.files.locate (r.suite.goldenPath unit) =
      r.files.locate (r.suite.goldenPath unit')) :
    r'.files.text? (r.suite.goldenPath unit) = r'.files.text? (r.suite.goldenPath unit') := by
  have htext {unit : String} (hunit : unit ∈ r.units) :
      r'.files.text? (r.suite.goldenPath unit) = r.tested.2.text? (r.suite.goldenPath unit) := by
    have hreads : r.Reads (r.suite.goldenPath unit) := .golden hunit
    rw [h.files _ hreads, hcontained.text?_outcome hreads (hseparate.report _ hreads)]
  have hdirs : r.files.SameDirs r.tested.2 := r.sameDirs_testAll (List.prefix_refl _)
  rw [htext hunit, htext hunit']
  apply FileTree.text?_congr
  rw [hdirs.locate_eq, hdirs.locate_eq, hshared]

end Run

/-- After an update in which every test passes, a check passes if the units that share a golden
listing have the same listing; and only then, if the compiler is run for every test. -/
theorem check_after_update {f : Behaviour} {r r' : Run} (hrechecks : r'.Rechecks r)
    (hcontained : r.Contained f) (hcontained' : r'.Contained f) (hseparate : r.Separate)
    (hpass : ∀ t ∈ r.tested.1, t.result.status = .pass) :
    (r.Agrees f → ∀ t ∈ r'.tested.1, t.result.status = .pass) ∧
      (r'.settings.cached = false → (∀ t ∈ r'.tested.1, t.result.status = .pass) →
        r.Agrees f) := by
  refine ⟨fun hagrees t ht => ?_, fun hcached hpass' unit hunit unit' hunit' hshared => ?_⟩
  · obtain ⟨unit, now, hbegins, htest⟩ := Run.exists_begins_of_mem ht
    have hunit : unit ∈ r.units := hrechecks.units.mem_iff.mp hbegins.mem
    obtain ⟨want, hfound, hiff⟩ := hrechecks.pass_iff hcontained hcontained' hseparate hpass hbegins
    obtain ⟨v, hv, hshared, hgolden⟩ := ((Run.updated_outcome hcontained hseparate
      hrechecks.update hpass).congr hrechecks.files).golden unit hunit
    rw [htest]
    refine hiff.mpr (.inr ?_)
    rw [← hagrees v hv unit hunit hshared, ← hgolden, hfound]
  · have hgolden {unit : String} (hunit : unit ∈ r.units) :
        r.intended f unit = r'.files.text? (r.suite.goldenPath unit) := by
      obtain ⟨now, hbegins⟩ := Run.exists_begins (hrechecks.units.mem_iff.mpr hunit)
      obtain ⟨want, hfound, hiff⟩ :=
        hrechecks.pass_iff hcontained hcontained' hseparate hpass hbegins
      have hfresh : r'.suite.reused? now unit want = none := by
        rw [Suite.reused?, Suite.keyFor, r'.suite_cached, hcached]
        rfl
      rw [hfound]
      exact (hiff.mp (hpass' _ hbegins.mem_tested)).resolve_left fun hne => hne hfresh
    rw [hgolden hunit, hgolden hunit']
    exact hrechecks.text?_golden_congr hcontained hseparate hunit hunit' hshared

/-! ## A shared golden listing, and a lost unit -/

theorem contained_copying {r : Run} (hcompile : r.bench.compile = copyist)
    (hlisting : ∀ unit ∈ r.units, r.files.writable
      (Path.join [r.bench.scratch, r.bench.digest.hash unit ++ ".s"]) =
        .ok (r.scratch ++ [r.bench.digest.hash unit ++ ".s"]))
    (houtside : ∀ path, r.Reads path →
      ((r.files.remove r.scratch).locate path).any fun l => !r.scratch.isPrefixOf l) :
    r.Contained copying := by
  simp only [← r.suite_listingPath] at hlisting
  refine ⟨fun unit now hbegins => ?_, fun unit now hbegins w hw => ?_, fun unit hunit l hl => ?_,
    fun path hreads l hl => ?_⟩
  · rw [hcompile]
    exact compiledListing?_copyist (hbegins.sameDirs.writable (hlisting unit hbegins.mem)) _
  · rw [hcompile] at hw
    exact written_copyist hw
  · rw [(FileTree.writable_eq_ok_iff.mp (hlisting unit hunit)).2.1] at hl
    exact Option.some.inj hl ▸ List.prefix_append _ _
  · have hpath := houtside path hreads
    cases hlocate : (r.files.remove r.scratch).locate path with
    | none => simp [hlocate] at hpath
    | some l' =>
      rw [(r.files.dirsWithin_of_remove r.scratch).locate hlocate] at hl
      obtain rfl : l' = l := Option.some.inj hl
      refine ⟨rfl, fun hbelow => ?_⟩
      simp [hlocate, List.isPrefixOf_iff_prefix.mpr hbelow] at hpath

theorem separate_of_ne {r : Run} (hgolden : ∀ unit ∈ r.units,
      (∀ path ∈ r.units, r.files.locate (goldenPath r.settings.goldenDir unit) ≠
        r.files.locate path) ∧
        r.files.locate (goldenPath r.settings.goldenDir unit) ≠ r.files.locate r.settings.compiler)
    (hreport : ∀ path, r.Reads path → r.files.locate r.reportPath ≠ r.files.locate path) :
    r.Separate := by
  simp only [← r.suite_goldenPath] at hgolden
  refine ⟨fun unit hunit path hpath => FileTree.apart_of_ne ?_,
    fun path hreads => FileTree.apart_of_ne (hreport path hreads)⟩
  rcases hpath with hpath | rfl
  · exact (hgolden unit hunit).1 path hpath
  · exact (hgolden unit hunit).2

/-- An update of two units that have one golden listing. -/
def sharingUpdate : Run :=
  copyRun { goldenDir := "g", update := true }
    [("a/u.json", "x"), ("b/u.json", "x"), ("cbc", "cbc"), ("g/", "")]
    ["/w/a/u.json", "/w/b/u.json"]

/-- The check, with the units in the other order. -/
def sharingCheck : Run :=
  copyRun { goldenDir := "g" }
    [("a/u.json", "x"), ("b/u.json", "x"), ("cbc", "cbc"), ("g/u.s", "# x")]
    ["/w/b/u.json", "/w/a/u.json"]

theorem separate_sharing : sharingUpdate.Contained copying ∧ sharingCheck.Contained copying ∧
    sharingUpdate.Separate := by
  refine ⟨contained_copying rfl ?_ (Run.forall_reads_iff.mpr ?_),
    contained_copying rfl ?_ (Run.forall_reads_iff.mpr ?_),
    separate_of_ne ?_ (Run.forall_reads_iff.mpr ?_)⟩ <;> decide +kernel

/-- The two units have the same listing, and the check finds it. -/
theorem intended_sharing : ∀ unit ∈ sharingUpdate.units,
    sharingUpdate.intended copying unit = some "# x" ∧
      sharingCheck.files.text? (goldenPath sharingUpdate.settings.goldenDir unit) =
        some "# x" := by
  decide +kernel

theorem pass_sharingUpdate : ∀ t ∈ sharingUpdate.tested.1, t.result.status = .pass := by
  obtain ⟨hcontained, -, hseparate⟩ := separate_sharing
  refine Run.pass_of_writable hcontained hseparate rfl (fun unit hunit => ?_) ?_
  · rw [(intended_sharing unit hunit).1]
    rfl
  · simp only [sharingUpdate.suite_goldenPath]
    decide +kernel

theorem rechecks_sharingCheck : sharingCheck.Rechecks sharingUpdate := by
  obtain ⟨hcontained, -, hseparate⟩ := separate_sharing
  have hupdated := Run.updated_outcome hcontained hseparate rfl pass_sharingUpdate
  have hinputs : (∀ path ∈ sharingUpdate.units, sharingCheck.files.text? path =
      sharingUpdate.files.text? path) ∧ sharingCheck.files.text? sharingUpdate.settings.compiler =
        sharingUpdate.files.text? sharingUpdate.settings.compiler := by decide +kernel
  refine ⟨rfl, rfl, rfl, rfl, rfl, .swap _ _ _, ?_, diff_workbench_eq_empty_iff⟩
  intro path hreads
  cases hreads with
  | unit hunit => rw [hupdated.inputs _ (.inl hunit), hinputs.1 _ hunit]
  | compiler => rw [hupdated.inputs _ (.inr rfl), hinputs.2]
  | golden hunit =>
    obtain ⟨v, hv, -, hleft⟩ := hupdated.golden _ hunit
    rw [hleft, (intended_sharing v hv).1, sharingUpdate.suite_goldenPath,
      (intended_sharing _ hunit).2]

/-- Two units that share a golden listing, and have the same listing. -/
theorem check_after_update_sharing :
    (∀ t ∈ sharingUpdate.tested.1, t.result.status = .pass) ∧
      ∀ t ∈ sharingCheck.tested.1, t.result.status = .pass := by
  obtain ⟨hcontained, hcontained', hseparate⟩ := separate_sharing
  have hcheck := check_after_update rechecks_sharingCheck hcontained hcontained' hseparate
    pass_sharingUpdate
  refine ⟨pass_sharingUpdate, hcheck.1 ?_⟩
  intro unit hunit unit' hunit' _
  rw [(intended_sharing unit hunit).1, (intended_sharing unit' hunit').1]

/-- An update of a unit that has the name of its own golden listing. -/
def overwritingUpdate : Run :=
  copyRun { update := true } [("u.s", "x"), ("cbc", "cbc")] ["/w/u.s"]

/-- The check of what is left. -/
def overwrittenCheck : Run :=
  copyRun {} [("u.s", "# x"), ("cbc", "cbc")] ["/w/u.s"]

/-- The unit is lost in the update, and the check compiles the golden listing. -/
theorem check_fails_after_overwriting :
    overwrittenCheck.Rechecks overwritingUpdate ∧ overwritingUpdate.Contained copying ∧
      overwrittenCheck.Contained copying ∧
      (∀ t ∈ overwritingUpdate.tested.1, t.result.status = .pass) ∧
      ∀ t ∈ overwrittenCheck.tested.1, t.result.status = .fail := by
  refine ⟨⟨rfl, rfl, rfl, rfl, rfl, .refl _, Run.forall_reads_iff.mpr ?_,
      diff_workbench_eq_empty_iff⟩,
    contained_copying rfl ?_ (Run.forall_reads_iff.mpr ?_),
    contained_copying rfl ?_ (Run.forall_reads_iff.mpr ?_), ?_, ?_⟩ <;> decide +kernel

end Cflat.Golden
