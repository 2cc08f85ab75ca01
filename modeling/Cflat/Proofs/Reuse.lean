import Cflat.Proofs.Tests
import Mathlib.Data.Set.Function

/-!
# Reused results

A result is reused when its key comes up again.  The key is made from the unit, the golden
listing, the compiler and the arguments, so as long as no two of the texts that are hashed
have the same hash, the compiler would make of the unit what it made then.

* Keys: two tests with the same key have the same inputs.
* Reports: what is found in a report was entered by a test.
* Runs: in a `Steady` run every result that can be reused is `Earned`.
* Histories: `Reached` lists the ways in which files come about from runs that share a
  report, and the report of such files holds earned results only.
-/

namespace Cflat.Golden

/-! ## Keys -/

/-- What the result of a test depends on, the path of the unit apart. -/
structure Inputs where
  unit : String
  golden : String
  compiler : String
  args : List String

theorem Digest.nul_notMem_hash (d : Digest) (text : String) : '\x00' ∉ (d.hash text).toList :=
  d.notMem_hash (by decide) text

/-- A list of texts without a NUL can be read off the texts joined by NULs. -/
theorem intercalate_nul_inj {l l' : List String} (hl : ∀ s ∈ l, '\x00' ∉ s.toList)
    (hl' : ∀ s ∈ l', '\x00' ∉ s.toList) (hne : l ≠ []) (hne' : l' ≠ [])
    (h : String.intercalate "\x00" l = String.intercalate "\x00" l') : l = l' := by
  have hsplit {l : List String} (hl : ∀ s ∈ l, '\x00' ∉ s.toList) (hne : l ≠ []) :
      List.splitOn '\x00' (String.intercalate "\x00" l).toList = l.map String.toList := by
    rw [String.toList_intercalate]
    exact List.splitOn_intercalate '\x00' (by simpa using hl) (by simpa using hne)
  have hlists := (hsplit hl hne).symm.trans ((congrArg _ (congrArg _ h)).trans (hsplit hl' hne'))
  exact (List.map_inj_right fun _ _ => String.toList_inj.mp).mp hlists

namespace Inputs

/-- The text that the key is the hash of. -/
def joined (i : Inputs) (d : Digest) : String :=
  String.intercalate "\x00" (d.hash (i.unit ++ "\x00") :: d.hash i.golden ::
    d.hash (i.compiler ++ "\x00") :: i.args)

/-- The key of a test with these inputs. -/
def key (i : Inputs) (d : Digest) : String :=
  d.hash (i.joined d)

/-- The texts that are hashed for a test. -/
def texts (i : Inputs) (d : Digest) : List String :=
  [i.unit ++ "\x00", i.golden, i.compiler ++ "\x00", i.joined d]

/-- Where hashes do not collide, the key tells the inputs. -/
theorem key_inj {d : Digest} {hashed : Set String} (hinj : hashed.InjOn d.hash) {i j : Inputs}
    (hi : ∀ x ∈ i.texts d, x ∈ hashed) (hj : ∀ x ∈ j.texts d, x ∈ hashed)
    (hargs : ∀ a ∈ i.args, '\x00' ∉ a.toList) (hargs' : ∀ a ∈ j.args, '\x00' ∉ a.toList)
    (h : i.key d = j.key d) : i = j := by
  have hjoined : i.joined d = j.joined d :=
    hinj (hi _ (by simp [texts])) (hj _ (by simp [texts])) h
  have hparts := intercalate_nul_inj (by simpa [d.nul_notMem_hash] using hargs)
    (by simpa [d.nul_notMem_hash] using hargs') (by simp) (by simp) hjoined
  simp only [List.cons.injEq] at hparts
  obtain ⟨hunit, hgolden, hcompiler, hargs⟩ := hparts
  have hunit := hinj (hi _ (by simp [texts])) (hj _ (by simp [texts])) hunit
  have hgolden := hinj (hi _ (by simp [texts])) (hj _ (by simp [texts])) hgolden
  have hcompiler := hinj (hi _ (by simp [texts])) (hj _ (by simp [texts])) hcompiler
  cases i
  cases j
  simp_all

end Inputs

/-! ## Reports -/

namespace Report

theorem result?_insert (p : Report) (file file' : String) (r : Option Result) :
    (p.insert file r).result? file' = if file' = file then r else p.result? file' := by
  have hkept := FileTree.lookup_filter_kept (fun name => decide (name ≠ file)) file' p
  rw [result?, insert, List.lookup_append, hkept, List.lookup_cons, List.lookup_nil]
  by_cases hfile : file' = file
  · subst hfile
    simp
  · rw [beq_false_of_ne hfile, if_neg hfile, if_pos (by simpa using hfile), Option.or_none]
    rfl

/-- A result of a report is the last one that was entered for its file. -/
theorem mem_of_result?_addAll {p : Report} {results : List Result} {file : String} {r : Result}
    (h : (p.addAll results).result? file = some r) :
    (r ∈ results ∧ r.file = file) ∨ p.result? file = some r := by
  induction results generalizing p with
  | nil => exact .inr h
  | cons x results ih =>
    rcases ih h with ⟨hmem, hfile⟩ | hrest
    · exact .inl ⟨List.mem_cons_of_mem x hmem, hfile⟩
    · rw [result?_insert] at hrest
      split at hrest
      · next hfile =>
        obtain rfl : x = r := by simpa using hrest
        exact .inl ⟨List.mem_cons_self, hfile.symm⟩
      · exact .inr hrest

theorem mem_of_result?_ofResults {results : List Result} {file : String} {r : Result}
    (h : (ofResults results).result? file = some r) : r ∈ results ∧ r.file = file := by
  rcases mem_of_result?_addAll h with hmem | hnil
  · exact hmem
  · simp [result?] at hnil

theorem load_eq (files : FileTree) (path : String) :
    (load files path).1 = ((files.text? path).bind parse?).getD [] := by
  rw [load, FileTree.text?]
  cases files.read path with
  | error e => rfl
  | ok text =>
    dsimp only [Except.toOption, Option.bind_some]
    cases parse? text <;> rfl

end Report

/-! ## Runs -/

namespace Run

/-- A run that nothing interferes with.  Texts are hashed with `d`, the compiler does what `f`
says it does, it stays as it was at the beginning, and the texts that are hashed belong to
`hashed`.  Of a run that updates the golden listings none of this is asked: its results have no
key. -/
structure Steady (d : Digest) (f : Behaviour) (hashed : Set String) (r : Run) : Prop where
  digest : r.bench.digest = d
  diff : ∀ want got, r.bench.diff want got = "" ↔ want = got
  args : ∀ a ∈ r.suite.args, '\x00' ∉ a.toList
  compiler : r.settings.update = false → ∀ unit now, r.Begins unit now →
    now.text? r.settings.compiler = r.files.text? r.settings.compiler
  listing : r.settings.update = false → ∀ unit now, r.Begins unit now →
    r.suite.compiledListing? r.bench.compile now unit =
      f (now.text? r.settings.compiler) r.suite.args unit (now.text? unit)
  hashed : r.settings.update = false → ∀ unit now, r.Begins unit now →
    ∀ text golden binary, now.text? unit = some text →
      now.text? (r.suite.goldenPath unit) = some golden →
      now.text? r.settings.compiler = some binary →
      ∀ x ∈ Inputs.texts ⟨text, golden, binary, r.suite.args⟩ d, x ∈ hashed

end Run

/-- A result that a test could reuse was earned by a compiler run on the inputs that the key
stands for. -/
structure Earned (d : Digest) (f : Behaviour) (hashed : Set String) (file : String)
    (x : Result) : Prop where
  named : x.file = file
  inputs : x.status = .pass → x.key ≠ "" → ∃ i : Inputs, i.key d = x.key ∧
    (∀ y ∈ i.texts d, y ∈ hashed) ∧ (∀ a ∈ i.args, '\x00' ∉ a.toList) ∧
    f (some i.compiler) i.args file (some i.unit) = some i.golden

/-- A report in which every result is earned. -/
def Report.Sound (d : Digest) (f : Behaviour) (hashed : Set String) (p : Report) : Prop :=
  ∀ file x, p.result? file = some x → Earned d f hashed file x

namespace Run

variable {d : Digest} {f : Behaviour} {hashed : Set String} {r : Run}

/-- The key of a test is that of its inputs. -/
theorem exists_inputs (hsteady : r.Steady d f hashed) (hupdate : r.settings.update = false)
    {unit : String} {now : FileTree} (hbegins : r.Begins unit now) {golden key : String}
    (hgolden : now.text? (r.suite.goldenPath unit) = some golden)
    (hkey : r.suite.keyFor now unit golden = some key) :
    ∃ i : Inputs, i.key d = key ∧ i.golden = golden ∧ (∀ y ∈ i.texts d, y ∈ hashed) ∧
      (∀ a ∈ i.args, '\x00' ∉ a.toList) ∧
      r.suite.compiledListing? r.bench.compile now unit =
        f (some i.compiler) i.args unit (some i.unit) := by
  unfold Suite.keyFor at hkey
  split at hkey
  · next hcached =>
    rw [r.suite_cached, Bool.and_eq_true, Option.isSome_iff_exists] at hcached
    obtain ⟨-, binary, hbinary⟩ := hcached
    have hhash := r.suite_compilerHash hbinary
    rw [Suite.key?_eq, Option.map_eq_some_iff] at hkey
    obtain ⟨text, htext, rfl⟩ := hkey
    have hnow : now.text? r.settings.compiler = some binary :=
      (hsteady.compiler hupdate unit now hbegins).trans hbinary
    refine ⟨⟨text, golden, binary, r.suite.args⟩, ?_, rfl, ?_, hsteady.args, ?_⟩
    · rw [Inputs.key, Inputs.joined, cacheKey, hhash, r.suite_digest, hsteady.digest]
    · exact hsteady.hashed hupdate unit now hbegins text golden binary htext hgolden hnow
    · rw [hsteady.listing hupdate unit now hbegins, hnow, htext]
  · cases hkey

/-- A test in a steady run earns its result, or it copies one that was earned before. -/
theorem earned_test (hsteady : r.Steady d f hashed)
    (hprevious : r.suite.previous.Sound d f hashed)
    {unit : String} {now : FileTree} (hbegins : r.Begins unit now) :
    Earned d f hashed unit (r.suite.test r.bench.compile now unit).result := by
  cases hupdate : r.settings.update with
  | true =>
    obtain ⟨want, hplan⟩ := Suite.plan_of_update (r.suite_update.trans hupdate)
    obtain ⟨hfile, hkey, -⟩ := Suite.result_of_compile hplan
    exact ⟨hfile, fun _ hne => absurd hkey hne⟩
  | false =>
    have hsuite := r.suite_update.trans hupdate
    cases hgolden : now.text? (r.suite.goldenPath unit) with
    | none =>
      obtain ⟨message, hplan⟩ := Suite.plan_of_missing hsuite hgolden
      rw [Suite.test_of_settled hplan]
      exact ⟨rfl, fun hpass => nomatch hpass⟩
    | some golden =>
      cases hreused : r.suite.reused? now unit golden with
      | some x =>
        obtain ⟨key, -, hx⟩ := Option.bind_eq_some_iff.mp hreused
        obtain ⟨hfound, -, -⟩ := Suite.reusable?_eq_some_iff.mp hx
        have hearned := hprevious unit x hfound
        rw [Suite.test_of_settled (Suite.plan_of_reused hsuite hgolden hreused)]
        exact ⟨hearned.named, hearned.inputs⟩
      | none =>
        cases hlisting : r.suite.compiledListing? r.bench.compile now unit with
        | none =>
          obtain ⟨message, htest⟩ :=
            Suite.test_of_unlisted (Suite.plan_of_fresh hsuite hgolden hreused) hlisting
          rw [htest]
          exact ⟨rfl, fun hpass => nomatch hpass⟩
        | some got =>
          obtain ⟨message, diff, htest⟩ := Suite.test_of_fresh hsuite hgolden hreused hlisting
          rw [htest]
          refine ⟨rfl, fun hpass hkey => ?_⟩
          have hsame : golden = got := by
            by_contra hne
            have hdiff : r.suite.diff golden got ≠ "" := by
              rw [r.suite_diff]
              exact fun hdiff => hne ((hsteady.diff golden got).mp hdiff)
            simp [hdiff] at hpass
          cases hkeyFor : r.suite.keyFor now unit golden with
          | none =>
            rw [hkeyFor] at hkey
            exact absurd rfl hkey
          | some key =>
            obtain ⟨i, hi, higolden, htexts, hargs, hf⟩ :=
              exists_inputs hsteady hupdate hbegins hgolden hkeyFor
            rw [hlisting, ← hsame, ← higolden] at hf
            exact ⟨i, hi, htexts, hargs, hf.symm⟩

/-- Everything in the report of a steady run is earned. -/
theorem sound_report (hsteady : r.Steady d f hashed)
    (hprevious : r.suite.previous.Sound d f hashed) : r.report.Sound d f hashed := by
  intro file x hx
  obtain ⟨hmem, hfile⟩ := Report.mem_of_result?_ofResults hx
  rw [sortResults, (List.mergeSort_perm _ _).mem_iff, List.mem_map] at hmem
  obtain ⟨t, ht, hresult⟩ := hmem
  obtain ⟨unit, now, hbegins, htest⟩ := exists_begins_of_mem ht
  have hearned := earned_test hsteady hprevious hbegins
  rw [← htest, hresult] at hearned
  rw [← hfile, hearned.named]
  exact hearned

/-- After a run the report file holds the report of the run, or there is none. -/
theorem text?_reportPath_outcome (r : Run) {text : String}
    (h : r.outcome.files.text? r.reportPath = some text) :
    text = r.report.render := by
  have hsaved : r.saved.files.text? r.reportPath = some text := by
    rw [files_outcome] at h
    split at h
    · exact h
    · exact FileTree.text?_of_remove h
  rw [saved, Report.save] at hsaved
  split at hsaved
  · next files' hwrite =>
    rw [FileTree.text?_write hwrite, if_pos rfl] at hsaved
    exact (Option.some.inj hsaved).symm
  · next e hwrite =>
    obtain ⟨l, hl⟩ := FileTree.exists_writable_of_text? hsaved
    rw [FileTree.write, hl] at hwrite
    cases hwrite

end Run

/-! ## Histories -/

/-- A report that is read back as it was written. -/
def Report.RoundTrips (p : Report) : Prop :=
  ∀ file, ((Report.parse? p.render).getD []).result? file = p.result? file

/-- The files that come about from runs that share the report file at `path`.  At first there
is none.  Between runs anything may change but the report, which may go; a run leaves its
own report. -/
inductive Reached (d : Digest) (f : Behaviour) (hashed : Set String) (path : String) :
    FileTree → Prop
  | absent {files : FileTree} : files.text? path = none → Reached d f hashed path files
  | changed {files files' : FileTree} : Reached d f hashed path files →
    (∀ text, files'.text? path = some text → files.text? path = some text) →
    Reached d f hashed path files'
  | tested {r : Run} : Reached d f hashed path r.files → r.reportPath = path →
    r.Steady d f hashed → r.report.RoundTrips → Reached d f hashed path r.outcome.files

theorem sound_load_of_text?_eq_none {d : Digest} {f : Behaviour} {hashed : Set String}
    {files : FileTree} {path : String} (h : files.text? path = none) :
    (Report.load files path).1.Sound d f hashed := by
  intro file x hx
  rw [Report.load_eq, h] at hx
  simp [Report.result?] at hx

theorem Reached.sound {d : Digest} {f : Behaviour} {hashed : Set String} {path : String}
    {files : FileTree} (h : Reached d f hashed path files) :
    (Report.load files path).1.Sound d f hashed := by
  induction h with
  | absent hnone => exact sound_load_of_text?_eq_none hnone
  | @changed files files' _ hkept ih =>
    cases htext : files'.text? path with
    | none => exact sound_load_of_text?_eq_none htext
    | some text =>
      rw [Report.load_eq, hkept text htext] at ih
      rw [Report.load_eq, htext]
      exact ih
  | @tested r _ hpath hsteady hround ih =>
    subst hpath
    cases htext : r.outcome.files.text? r.reportPath with
    | none => exact sound_load_of_text?_eq_none htext
    | some text =>
      intro file x hx
      rw [Report.load_eq, htext, r.text?_reportPath_outcome htext, Option.bind_some,
        hround] at hx
      exact Run.sound_report hsteady (r.suite_previous ▸ ih) file x hx

/-- Whenever a test reuses a result, it would pass if the compiler were run instead. -/
theorem test_passes_of_reused {d : Digest} {f : Behaviour} {hashed : Set String} {path : String}
    (hinj : hashed.InjOn d.hash) {r : Run}
    (hreached : Reached d f hashed path r.files) (hpath : r.reportPath = path)
    (hsteady : r.Steady d f hashed) {unit : String} {now : FileTree} (hbegins : r.Begins unit now)
    (hcached : (r.suite.test r.bench.compile now unit).result.cached = true) :
    (r.suite.uncached.test r.bench.compile now unit).command = some (r.suite.command unit) ∧
      (r.suite.uncached.test r.bench.compile now unit).result.status = .pass := by
  obtain ⟨hsuite, golden, x, hgolden, hreused⟩ := Suite.exists_reused_of_cached hcached
  have hupdate : r.settings.update = false := r.suite_update.symm.trans hsuite
  obtain ⟨key, hkey, hx⟩ := Option.bind_eq_some_iff.mp hreused
  obtain ⟨hfound, hpass, hxkey⟩ := Suite.reusable?_eq_some_iff.mp hx
  obtain ⟨i, hi, higolden, htexts, hargs, hlisting⟩ :=
    Run.exists_inputs hsteady hupdate hbegins hgolden hkey
  have hearned : Earned d f hashed unit x := by
    refine hreached.sound unit x ?_
    rw [← hpath, ← r.suite_previous]
    exact hfound
  obtain ⟨j, hj, htexts', hargs', hf⟩ := hearned.inputs hpass (by
    rw [hxkey, ← hi]
    exact d.hash_ne_empty (i.joined d))
  obtain rfl : i = j := Inputs.key_inj hinj htexts htexts' hargs hargs' (by rw [hi, hj, hxkey])
  rw [hf, higolden] at hlisting
  obtain ⟨hcommand, hstatus⟩ := Suite.test_uncached hsuite hgolden hlisting
  refine ⟨hcommand, hstatus.trans (if_pos ?_)⟩
  rw [r.suite_diff]
  exact (hsteady.diff golden golden).mpr rfl

/-! ## A run and the next one -/

/-- A unit, its listing and a compiler. -/
def sampleInputs : Inputs where
  unit := "x"
  golden := "# x"
  compiler := "cbc"
  args := []

/-- A run with reuse on the unit of the sample, with some more files. -/
def sampleRun (more : List (String × String)) : Run :=
  copyRun { cached := true } ([("u.json", sampleInputs.unit), ("u.s", sampleInputs.golden),
    ("cbc", sampleInputs.compiler)] ++ more) ["/w/u.json"]

/-- The result of the first run. -/
def sampleResult : Result where
  file := "/w/u.json"
  status := .pass
  message := "listing matches"
  key := sampleInputs.key Xxh64.digest

/-- The report of the first run. -/
def sampleReport : Report :=
  [("/w/u.json", some sampleResult)]

theorem parse?_sampleReport : Report.parse? sampleReport.render = some sampleReport := by
  decide +kernel

theorem Run.eq_of_begins {r : Run} {unit unit' : String} {now : FileTree} (h : r.units = [unit])
    (hbegins : r.Begins unit' now) : unit' = unit ∧ now = r.files := by
  obtain ⟨before, after, hunits, hnow⟩ := hbegins
  rw [h] at hunits
  cases before with
  | nil =>
    rw [List.nil_append, List.cons.injEq] at hunits
    exact ⟨hunits.1.symm, hnow⟩
  | cons first before => simp at hunits

/-- The files of a run on the sample, with a place for the listing. -/
structure Sampled (files : FileTree) : Prop where
  unit : files.text? "/w/u.json" = some sampleInputs.unit
  golden : files.text? (goldenPath "" "/w/u.json") = some sampleInputs.golden
  compiler : files.text? "./cbc" = some sampleInputs.compiler
  listing : files.writable (Path.join ["/tmp/t", Xxh64.digest.hash "/w/u.json" ++ ".s"]) =
    .ok ["tmp", "t", Xxh64.digest.hash "/w/u.json" ++ ".s"]

theorem steady_sampleRun {more : List (String × String)} (h : Sampled (sampleRun more).files) :
    (sampleRun more).Steady Xxh64.digest copying
      {x | x ∈ sampleInputs.texts Xxh64.digest} := by
  have hargs : (sampleRun more).suite.args = [] := (sampleRun more).suite_args
  have hpath := (sampleRun more).suite_goldenPath "/w/u.json"
  have hwritable : (sampleRun more).files.writable
      ((sampleRun more).suite.listingPath "/w/u.json") =
        .ok ["tmp", "t", Xxh64.digest.hash "/w/u.json" ++ ".s"] := by
    rw [(sampleRun more).suite_listingPath]
    exact h.listing
  refine ⟨rfl, diff_workbench_eq_empty_iff, by simp [hargs], ?_, ?_, ?_⟩
  · rintro - unit now hbegins
    rw [(Run.eq_of_begins rfl hbegins).2]
  · rintro - unit now hbegins
    obtain ⟨rfl, rfl⟩ := Run.eq_of_begins rfl hbegins
    exact compiledListing?_copyist hwritable _
  · rintro - unit now hbegins text golden binary htext hwant hbinary
    obtain ⟨rfl, rfl⟩ := Run.eq_of_begins rfl hbegins
    rw [hpath] at hwant
    obtain rfl := Option.some.inj (h.unit.symm.trans htext)
    obtain rfl := Option.some.inj (h.golden.symm.trans hwant)
    obtain rfl := Option.some.inj (h.compiler.symm.trans hbinary)
    rw [hargs]
    exact fun x hx => hx

theorem injOn_hash_sampleInputs :
    Set.InjOn Xxh64.digest.hash {x | x ∈ sampleInputs.texts Xxh64.digest} := by
  have hall : (sampleInputs.texts Xxh64.digest).all (fun x =>
      (sampleInputs.texts Xxh64.digest).all fun y =>
        decide (Xxh64.digest.hash x = Xxh64.digest.hash y → x = y)) = true := by decide +kernel
  intro x hx y hy hxy
  simp only [List.all_eq_true, decide_eq_true_eq] at hall
  exact hall x hx y hy hxy

/-- The run that finds no report. -/
def firstRun : Run :=
  sampleRun []

/-- The run that finds the report of the first. -/
def secondRun : Run :=
  sampleRun [(".test_results.json", sampleReport.render)]

theorem sampled_runs : Sampled firstRun.files ∧ Sampled secondRun.files := by
  refine ⟨⟨?_, ?_, ?_, ?_⟩, ⟨?_, ?_, ?_, ?_⟩⟩ <;> decide +kernel

theorem text?_report_secondRun :
    secondRun.files.text? ".test_results.json" = some sampleReport.render := by
  decide +kernel

theorem reached_secondRun : Reached Xxh64.digest copying
    {x | x ∈ sampleInputs.texts Xxh64.digest} ".test_results.json" secondRun.files := by
  have hreport : firstRun.report = sampleReport := by decide +kernel
  have hround : firstRun.report.RoundTrips := by
    intro file
    rw [hreport, parse?_sampleReport, Option.getD_some]
  have habsent : firstRun.files.text? ".test_results.json" = none := by decide +kernel
  have hleft : firstRun.outcome.files.text? ".test_results.json" = some sampleReport.render := by
    decide +kernel
  refine .changed (.tested (.absent habsent) rfl (steady_sampleRun sampled_runs.1) hround) ?_
  intro text htext
  rw [hleft, ← text?_report_secondRun, htext]

theorem reused?_secondRun : secondRun.suite.reused? secondRun.files "/w/u.json"
    sampleInputs.golden = some sampleResult := by
  have hcompiler : secondRun.files.text? secondRun.settings.compiler =
      some sampleInputs.compiler := sampled_runs.2.compiler
  have hkey : secondRun.suite.keyFor secondRun.files "/w/u.json" sampleInputs.golden =
      some (sampleInputs.key Xxh64.digest) := by
    rw [Suite.keyFor, secondRun.suite_cached, hcompiler, Suite.key?_eq, sampled_runs.2.unit,
      secondRun.suite_compilerHash hcompiler, secondRun.suite_args]
    rfl
  have hprevious : secondRun.suite.previous = sampleReport := by
    have hpath : secondRun.reportPath = ".test_results.json" := rfl
    rw [secondRun.suite_previous, Report.load_eq, hpath, text?_report_secondRun,
      Option.bind_some, parse?_sampleReport, Option.getD_some]
  refine Option.bind_eq_some_iff.mpr ⟨_, hkey, Suite.reusable?_eq_some_iff.mpr ⟨?_, rfl, rfl⟩⟩
  rw [hprevious]
  rfl

/-- The second run reuses the result of the first, and would pass without. -/
theorem test_passes_of_reused_secondRun :
    (secondRun.suite.test secondRun.bench.compile secondRun.files "/w/u.json").result.cached =
        true ∧
      (secondRun.suite.uncached.test secondRun.bench.compile secondRun.files
        "/w/u.json").result.status = .pass := by
  have hgolden : secondRun.files.text? (secondRun.suite.goldenPath "/w/u.json") =
      some sampleInputs.golden := by
    rw [secondRun.suite_goldenPath]
    exact sampled_runs.2.golden
  have hcached : (secondRun.suite.test secondRun.bench.compile secondRun.files
      "/w/u.json").result.cached = true := by
    rw [Suite.test_of_settled (Suite.plan_of_reused (secondRun.suite_update.trans rfl) hgolden
      reused?_secondRun)]
  have hbegins : secondRun.Begins "/w/u.json" secondRun.files := ⟨[], [], rfl, rfl⟩
  have hpasses := test_passes_of_reused injOn_hash_sampleInputs reached_secondRun rfl
    (steady_sampleRun sampled_runs.2) hbegins hcached
  exact ⟨hcached, hpasses.2⟩

end Cflat.Golden
