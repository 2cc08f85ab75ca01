import Cflat.Golden.Run
import Cflat.Proofs.Locations
import Cflat.Xxh64

/-!
# What a test does

One test of a suite, told by what it finds and what the compiler makes of the unit.

* Keys: what goes into the key of a test.
* Planning, with the golden listing there or not.
* Compiling: `compiledListing?` is all that a test sees of the compiler.
* The suite of a run, and its tests one after the other.
* `copyist`, a compiler to run tests with.
-/

namespace Cflat.Golden

/-! ## Keys -/

/-- Whatever is no hexadecimal digit is in no hash. -/
theorem Digest.notMem_hash (d : Digest) {c : Char} (hc : ∀ k < 16, c ≠ Nat.digitChar k)
    (text : String) : c ∉ (d.hash text).toList := by
  intro hmem
  obtain ⟨k, hk, hdigit⟩ := d.exists_digit text c hmem
  exact hc k hk hdigit

theorem toOption_hashFiles (d : Digest) (files : FileTree) (path : String) :
    (hashFiles d files [path]).toOption =
      (files.text? path).map fun text => d.hash (text ++ "\x00") := by
  cases hread : files.read path with
  | error e => simp [hashFiles, FileTree.text?, hread, bind, Except.bind, Except.toOption]
  | ok text =>
    simp [hashFiles, FileTree.text?, hread, bind, Except.bind, pure, Except.pure, Except.toOption]

namespace Suite

variable {s : Suite} {compile : Compiler} {files : FileTree} {unit : String}

theorem key?_eq (s : Suite) (files : FileTree) (unit want : String) :
    s.key? files unit want = (files.text? unit).map fun text =>
      cacheKey s.digest (s.digest.hash (text ++ "\x00")) (s.digest.hash want) s.compilerHash
        s.args := by
  rw [key?, toOption_hashFiles, Option.map_map]
  rfl

/-! ## Planning -/

theorem plan_of_update (h : s.update = true) :
    ∃ want, s.plan files unit = .compile want "" := by
  delta plan
  dsimp only
  rw [h]
  cases files.read (s.goldenPath unit) with
  | error e => exact ⟨"", rfl⟩
  | ok want => exact ⟨want, rfl⟩

/-- Without a golden listing a test is skipped. -/
theorem plan_of_missing (hupdate : s.update = false)
    (h : files.text? (s.goldenPath unit) = none) :
    ∃ message, s.plan files unit = .settled { file := unit, status := .skip, message } := by
  rw [FileTree.text?] at h
  delta plan
  dsimp only
  rw [hupdate]
  cases hread : files.read (s.goldenPath unit) with
  | error e => exact ⟨_, rfl⟩
  | ok want => simp [hread, Except.toOption] at h

/-- The key of a test, if results are reused. -/
def keyFor (s : Suite) (files : FileTree) (unit want : String) : Option String :=
  if s.cached then s.key? files unit want else none

/-- The earlier result that a test reuses. -/
def reused? (s : Suite) (files : FileTree) (unit want : String) : Option Result :=
  (s.keyFor files unit want).bind (s.reusable? unit)

theorem plan_of_reused (hupdate : s.update = false) {want : String}
    (hgolden : files.text? (s.goldenPath unit) = some want) {r : Result}
    (h : s.reused? files unit want = some r) :
    s.plan files unit = .settled { r with cached := true } := by
  obtain ⟨key, hkey, hr⟩ := Option.bind_eq_some_iff.mp h
  rw [FileTree.text?] at hgolden
  rw [keyFor] at hkey
  cases hread : files.read (s.goldenPath unit) with
  | error e => simp [hread, Except.toOption] at hgolden
  | ok text =>
    obtain rfl : text = want := by simpa [hread, Except.toOption] using hgolden
    delta plan
    dsimp only
    rw [hupdate, hread]
    dsimp only
    rw [hkey]
    dsimp only
    rw [hr]

theorem plan_of_fresh (hupdate : s.update = false) {want : String}
    (hgolden : files.text? (s.goldenPath unit) = some want)
    (h : s.reused? files unit want = none) :
    s.plan files unit = .compile want ((s.keyFor files unit want).getD "") := by
  rw [FileTree.text?] at hgolden
  rw [reused?, keyFor] at h
  rw [keyFor]
  cases hread : files.read (s.goldenPath unit) with
  | error e => simp [hread, Except.toOption] at hgolden
  | ok text =>
    obtain rfl : text = want := by simpa [hread, Except.toOption] using hgolden
    delta plan
    dsimp only
    rw [hupdate, hread]
    dsimp only
    cases hkey : if s.cached then s.key? files unit text else none with
    | none => rfl
    | some key =>
      rw [hkey, Option.bind_some] at h
      dsimp only
      rw [h]
      rfl

/-! ## Compiling -/

/-- The files after the compiler was run on a unit. -/
def afterCompile (s : Suite) (compile : Compiler) (files : FileTree) (unit : String) : FileTree :=
  applyWrites files (compile files (s.command unit)).written

/-- The listing of a unit, if the compiler exits with 0 and leaves one. -/
def compiledListing? (s : Suite) (compile : Compiler) (files : FileTree) (unit : String) :
    Option String :=
  (s.listing (s.afterCompile compile files unit) unit
    (compile files (s.command unit)).reply).toOption

/-- A compiler that succeeds has its listing taken. -/
theorem compiledListing?_of_exited {stderr : String}
    (h : (compile files (s.command unit)).reply = .exited 0 stderr) :
    s.compiledListing? compile files unit =
      (s.afterCompile compile files unit).text? (s.listingPath unit) := by
  rw [compiledListing?, h, FileTree.text?, listing, if_neg (by simp)]
  cases (s.afterCompile compile files unit).read (s.listingPath unit) <;> rfl

theorem test_of_settled {r : Result} (h : s.plan files unit = .settled r) :
    s.test compile files unit = ⟨r, files, none⟩ := by
  delta test
  rw [h]

/-- A unit without a listing is an error. -/
theorem test_of_unlisted {want key : String} (h : s.plan files unit = .compile want key)
    (hnone : s.compiledListing? compile files unit = none) :
    ∃ message, s.test compile files unit =
      ⟨{ compiled unit key (compile files (s.command unit)) with message },
        s.afterCompile compile files unit, some (s.command unit)⟩ := by
  rw [compiledListing?] at hnone
  delta test
  rw [h]
  dsimp only
  rw [← afterCompile]
  cases hlisting : s.listing (s.afterCompile compile files unit) unit
      (compile files (s.command unit)).reply with
  | error message => exact ⟨message, rfl⟩
  | ok got => simp [hlisting, Except.toOption] at hnone

/-- A listing is judged. -/
theorem test_of_listed {want key got : String} (h : s.plan files unit = .compile want key)
    (hsome : s.compiledListing? compile files unit = some got) :
    s.test compile files unit =
      ⟨(s.judge (s.afterCompile compile files unit) unit want got
          (compiled unit key (compile files (s.command unit)))).1,
        (s.judge (s.afterCompile compile files unit) unit want got
          (compiled unit key (compile files (s.command unit)))).2, some (s.command unit)⟩ := by
  rw [compiledListing?] at hsome
  delta test
  rw [h]
  dsimp only
  rw [← afterCompile]
  cases hlisting : s.listing (s.afterCompile compile files unit) unit
      (compile files (s.command unit)).reply with
  | error message => simp [hlisting, Except.toOption] at hsome
  | ok text =>
    obtain rfl : text = got := by simpa [hlisting, Except.toOption] using hsome
    rfl

/-- Judging sets the status, the message and the difference. -/
theorem exists_judge_eq (s : Suite) (files : FileTree) (unit want got : String) (r : Result) :
    ∃ status message diff,
      (s.judge files unit want got r).1 = { r with status, message, diff } := by
  unfold judge
  dsimp only
  split
  · split <;> exact ⟨_, _, _, rfl⟩
  · split <;> exact ⟨_, _, _, rfl⟩

/-- The part of a result that does not depend on the compiler. -/
theorem result_of_compile {want key : String} (h : s.plan files unit = .compile want key) :
    (s.test compile files unit).result.file = unit ∧
      (s.test compile files unit).result.key = key ∧
      (s.test compile files unit).result.cached = false := by
  cases hlisting : s.compiledListing? compile files unit with
  | none =>
    obtain ⟨message, htest⟩ := test_of_unlisted h hlisting
    rw [htest]
    exact ⟨rfl, rfl, rfl⟩
  | some got =>
    obtain ⟨status, message, diff, hjudge⟩ := s.exists_judge_eq (s.afterCompile compile files unit)
      unit want got (compiled unit key (compile files (s.command unit)))
    rw [test_of_listed h hlisting, hjudge]
    exact ⟨rfl, rfl, rfl⟩

/-- A listing passes a check if it does not differ from the golden one. -/
theorem judge_of_check (hupdate : s.update = false) (files : FileTree) (unit want got : String)
    (r : Result) :
    ∃ message diff, s.judge files unit want got r =
      ({ r with status := if s.diff want got = "" then .pass else .fail, message, diff },
        files) := by
  rw [judge, hupdate]
  by_cases hdiff : s.diff want got = ""
  · exact ⟨"listing matches", r.diff, by simp [hdiff]⟩
  · exact ⟨"listing differs from " ++ s.goldenPath unit, s.diff want got, by simp [hdiff]⟩

/-- A test that updates passes if the listing can be put in place of the golden one. -/
theorem test_of_update (hupdate : s.update = true) {got : String} {files' : FileTree}
    (hlisting : s.compiledListing? compile files unit = some got)
    (hwrite : (s.afterCompile compile files unit).write (s.goldenPath unit) got = .ok files') :
    (s.test compile files unit).result.status = .pass ∧
      (s.test compile files unit).files = files' := by
  obtain ⟨want, hplan⟩ : ∃ want, s.plan files unit = .compile want "" := plan_of_update hupdate
  rw [test_of_listed hplan hlisting, judge, if_pos hupdate, hwrite]
  exact ⟨rfl, rfl⟩

theorem exists_write_of_update (hupdate : s.update = true)
    (hpass : (s.test compile files unit).result.status = .pass) :
    ∃ got, s.compiledListing? compile files unit = some got ∧
      (s.afterCompile compile files unit).write (s.goldenPath unit) got =
        .ok (s.test compile files unit).files := by
  obtain ⟨want, hplan⟩ : ∃ want, s.plan files unit = .compile want "" := plan_of_update hupdate
  cases hlisting : s.compiledListing? compile files unit with
  | none =>
    obtain ⟨message, htest⟩ := test_of_unlisted hplan hlisting
    rw [htest] at hpass
    cases hpass
  | some got =>
    refine ⟨got, rfl, ?_⟩
    cases hwrite : (s.afterCompile compile files unit).write (s.goldenPath unit) got with
    | ok files' => rw [(test_of_update hupdate hlisting hwrite).2]
    | error e =>
      rw [test_of_listed hplan hlisting, judge, if_pos hupdate, hwrite] at hpass
      cases hpass

/-- The suite that runs the compiler for every test. -/
def uncached (s : Suite) : Suite :=
  { s with cached := false }

/-- A check that reuses nothing compares the listing. -/
theorem test_of_fresh (hupdate : s.update = false) {want got : String}
    (hgolden : files.text? (s.goldenPath unit) = some want)
    (hreused : s.reused? files unit want = none)
    (hlisting : s.compiledListing? compile files unit = some got) :
    ∃ message diff, s.test compile files unit =
      ⟨{ compiled unit ((s.keyFor files unit want).getD "") (compile files (s.command unit)) with
          status := if s.diff want got = "" then .pass else .fail
          message
          diff }, s.afterCompile compile files unit, some (s.command unit)⟩ := by
  obtain ⟨message, diff, hjudge⟩ := judge_of_check hupdate (s.afterCompile compile files unit)
    unit want got
    (compiled unit ((s.keyFor files unit want).getD "") (compile files (s.command unit)))
  refine ⟨message, diff, ?_⟩
  rw [test_of_listed (plan_of_fresh hupdate hgolden hreused) hlisting, hjudge]

theorem test_uncached (hupdate : s.update = false) {want got : String}
    (hgolden : files.text? (s.goldenPath unit) = some want)
    (hlisting : s.compiledListing? compile files unit = some got) :
    (s.uncached.test compile files unit).command = some (s.command unit) ∧
      (s.uncached.test compile files unit).result.status =
        if s.diff want got = "" then .pass else .fail := by
  obtain ⟨message, diff, htest⟩ :=
    test_of_fresh (s := s.uncached) hupdate hgolden rfl hlisting
  rw [htest]
  exact ⟨rfl, rfl⟩

theorem reusable?_eq_some_iff {key : String} {r : Result} :
    s.reusable? unit key = some r ↔
      s.previous.result? unit = some r ∧ r.status = .pass ∧ r.key = key := by
  simp [reusable?]

/-- A check passes by an earlier result, or because the listing is the golden one. -/
theorem pass_iff (hupdate : s.update = false) {want got : String}
    (hgolden : files.text? (s.goldenPath unit) = some want)
    (hlisting : s.compiledListing? compile files unit = some got) :
    (s.test compile files unit).result.status = .pass ↔
      s.reused? files unit want ≠ none ∨ s.diff want got = "" := by
  cases hreused : s.reused? files unit want with
  | none =>
    obtain ⟨message, diff, htest⟩ := test_of_fresh hupdate hgolden hreused hlisting
    rw [htest]
    simp
  | some r =>
    obtain ⟨key, -, hr⟩ := Option.bind_eq_some_iff.mp hreused
    rw [test_of_settled (plan_of_reused hupdate hgolden hreused)]
    simp [(reusable?_eq_some_iff.mp hr).2.1]

/-- Only a reused result is marked as such. -/
theorem exists_reused_of_cached (h : (s.test compile files unit).result.cached = true) :
    s.update = false ∧ ∃ want r, files.text? (s.goldenPath unit) = some want ∧
      s.reused? files unit want = some r := by
  have hplan (want key : String) : s.plan files unit ≠ .compile want key := fun hplan => by
    simp [(result_of_compile hplan).2.2] at h
  cases hupdate : s.update with
  | true =>
    obtain ⟨want, hcompile⟩ : ∃ want, s.plan files unit = .compile want "" :=
      plan_of_update hupdate
    exact absurd hcompile (hplan want "")
  | false =>
    refine ⟨rfl, ?_⟩
    cases hgolden : files.text? (s.goldenPath unit) with
    | none =>
      obtain ⟨message, hskip⟩ := plan_of_missing hupdate hgolden
      simp [test_of_settled hskip] at h
    | some want =>
      cases hreused : s.reused? files unit want with
      | none => exact absurd (plan_of_fresh hupdate hgolden hreused) (hplan _ _)
      | some r => exact ⟨want, r, rfl, hreused⟩

end Suite

/-! ## Runs -/

namespace Suite

/-- Every result of a run belongs to one of its tests, at its time. -/
theorem exists_of_mem_testAll {s : Suite} {compile : Compiler} {files : FileTree}
    {units : List String} {t : Tested} (h : t ∈ (s.testAll compile files units).1) :
    ∃ before unit after, units = before ++ unit :: after ∧
      t = s.test compile (s.testAll compile files before).2 unit := by
  induction units generalizing files with
  | nil => simp [testAll] at h
  | cons unit units ih =>
    rw [testAll, List.mem_cons] at h
    rcases h with rfl | h
    · exact ⟨[], unit, units, rfl, rfl⟩
    · obtain ⟨before, unit', after, rfl, ht⟩ := ih h
      exact ⟨unit :: before, unit', after, rfl, ht⟩

end Suite

/-- One run of the test runner on some units. -/
structure Run where
  bench : Bench
  settings : Settings
  files : FileTree
  units : List String

namespace Run

/-- How the run ends. -/
def outcome (r : Run) : Outcome :=
  runUnits r.bench r.settings r.files r.units

/-- The suite of the run. -/
def suite (r : Run) : Suite :=
  (suiteOf r.bench r.settings r.files).1

/-- The tests, and the files after them. -/
def tested (r : Run) : List Tested × FileTree :=
  r.suite.testAll r.bench.compile r.files r.units

/-- The path of the report that the run reads and writes. -/
def reportPath (r : Run) : String :=
  Report.pathIn r.settings.goldenDir r.settings.output

/-- The report that the run writes. -/
def report (r : Run) : Report :=
  Report.ofResults (sortResults (r.tested.1.map (·.result)))

/-- What saving the report did. -/
def saved (r : Run) : Report.Saved :=
  r.report.save r.tested.2 r.reportPath

theorem files_outcome (r : Run) :
    r.outcome.files = if r.report.anyFailure then r.saved.files
      else r.saved.files.remove (FileTree.locationOf r.bench.scratch) :=
  rfl

/-- The run comes to the test of a unit with the files `now`. -/
def Begins (r : Run) (unit : String) (now : FileTree) : Prop :=
  ∃ before after, r.units = before ++ unit :: after ∧
    now = (r.suite.testAll r.bench.compile r.files before).2

theorem exists_begins_of_mem {r : Run} {t : Tested} (h : t ∈ r.tested.1) :
    ∃ unit now, r.Begins unit now ∧ t = r.suite.test r.bench.compile now unit := by
  obtain ⟨before, unit, after, hunits, ht⟩ := Suite.exists_of_mem_testAll h
  exact ⟨unit, _, ⟨before, after, hunits, rfl⟩, ht⟩

/-- The suite of a run.  Results are reused only under the hash of the compiler. -/
theorem suite_eq (r : Run) : r.suite =
    { goldenDir := r.settings.goldenDir
      update := r.settings.update
      cached := r.settings.cached && (r.files.text? r.settings.compiler).isSome
      digest := r.bench.digest
      compiler := r.settings.compiler
      compilerHash := ((r.files.text? r.settings.compiler).map fun binary =>
        r.bench.digest.hash (binary ++ "\x00")).getD ""
      args := Text.words r.settings.args
      scratch := r.bench.scratch
      previous := (Report.load r.files r.reportPath).1
      diff := r.bench.diff } := by
  have hhash := toOption_hashFiles r.bench.digest r.files r.settings.compiler
  have hsome := congrArg Option.isSome hhash
  rw [Option.isSome_map] at hsome
  rw [← hhash, ← hsome]
  unfold suite suiteOf
  cases hashFiles r.bench.digest r.files [r.settings.compiler] with
  | error e =>
    rw [Except.toOption, Option.isSome_none, Bool.and_false]
    rfl
  | ok hash =>
    rw [Except.toOption, Option.isSome_some, Bool.and_true]
    rfl

theorem suite_update (r : Run) : r.suite.update = r.settings.update := by
  rw [suite_eq]

theorem suite_goldenPath (r : Run) (unit : String) :
    r.suite.goldenPath unit = goldenPath r.settings.goldenDir unit := by
  rw [suite_eq]
  rfl

theorem suite_listingPath (r : Run) (unit : String) :
    r.suite.listingPath unit = Path.join [r.bench.scratch, r.bench.digest.hash unit ++ ".s"] := by
  rw [suite_eq]
  rfl

theorem suite_digest (r : Run) : r.suite.digest = r.bench.digest := by
  rw [suite_eq]

theorem suite_args (r : Run) : r.suite.args = Text.words r.settings.args := by
  rw [suite_eq]

theorem suite_diff (r : Run) : r.suite.diff = r.bench.diff := by
  rw [suite_eq]

theorem suite_previous (r : Run) : r.suite.previous = (Report.load r.files r.reportPath).1 := by
  rw [suite_eq]

theorem suite_cached (r : Run) : r.suite.cached =
    (r.settings.cached && (r.files.text? r.settings.compiler).isSome) := by
  rw [suite_eq]

theorem suite_compilerHash (r : Run) {binary : String}
    (h : r.files.text? r.settings.compiler = some binary) :
    r.suite.compilerHash = r.bench.digest.hash (binary ++ "\x00") := by
  rw [suite_eq, h]
  rfl

end Run

/-- What a compiler makes of a unit: its listing, if it succeeds, from the text of the
compiler, the extra arguments, the path of the unit and its text. -/
abbrev Behaviour := Option String → List String → String → Option String → Option String

/-! ## A small compiler -/

/-- A compiler whose listing is the unit behind a comment sign. -/
def copyist : Compiler := fun files c =>
  match c.args with
  | "-S" :: "-q" :: "-o" :: out :: rest =>
    match files.read (rest.getLast?.getD "") with
    | .ok text => { reply := .exited 0 "", written := [(out, "# " ++ text)] }
    | .error e => { reply := .exited 1 e.message }
  | _ => { reply := .exited 2 "" }

/-- What `copyist` makes of a unit. -/
def copying : Behaviour := fun _ _ _ text =>
  text.map ("# " ++ ·)

/-- The listing does not depend on anything but the text of the unit. -/
theorem compiledListing?_copyist {s : Suite} {files : FileTree} {unit : String} {l : Location}
    (h : files.writable (s.listingPath unit) = .ok l) (binary : Option String) :
    s.compiledListing? copyist files unit = copying binary s.args unit (files.text? unit) := by
  cases hread : files.read unit with
  | error e =>
    have hreply : (copyist files (s.command unit)).reply = .exited 1 e.message := by
      simp [copyist, Suite.command, hread]
    simp [Suite.compiledListing?, Suite.listing, hreply, copying, FileTree.text?, hread,
      Except.toOption]
  | ok text =>
    have hcompile : copyist files (s.command unit) =
        { reply := .exited 0 "", written := [(s.listingPath unit, "# " ++ text)] } := by
      simp [copyist, Suite.command, hread]
    have hwrite : files.write (s.listingPath unit) ("# " ++ text) =
        .ok (files.setNode l (.file ("# " ++ text))) := by rw [FileTree.write, h]
    have hafter : s.afterCompile copyist files unit = files.setNode l (.file ("# " ++ text)) := by
      simp [Suite.afterCompile, hcompile, applyWrites, hwrite, Except.toOption]
    have hunit : files.text? unit = some text := by rw [FileTree.text?, hread]; rfl
    rw [Suite.compiledListing?_of_exited (congrArg (·.reply) hcompile), hafter,
      FileTree.text?_write hwrite, if_pos rfl, hunit]
    rfl

theorem written_copyist {s : Suite} {files : FileTree} {unit : String} {w : String × String}
    (h : w ∈ (copyist files (s.command unit)).written) : w.1 = s.listingPath unit := by
  cases hread : files.read unit with
  | error e => simp [copyist, Suite.command, hread] at h
  | ok text =>
    simp only [copyist, Suite.command, List.cons_append, List.nil_append, List.getLast?_append,
      List.getLast?_singleton, Option.some_or, Option.getD_some, hread, List.mem_singleton] at h
    rw [h]

/-- A bench for `copyist`. -/
def workbench : Bench where
  scratch := "/tmp/t"
  compile := copyist
  digest := Xxh64.digest
  diff := fun want got => if want = got then "" else "-" ++ want ++ "+" ++ got

theorem diff_workbench_eq_empty_iff (want got : String) :
    workbench.diff want got = "" ↔ want = got := by
  by_cases h : want = got <;> simp [workbench, h]

/-- A run with `copyist` in a directory with the given files. -/
def copyRun (settings : Settings) (entries : List (String × String)) (units : List String) :
    Run where
  bench := workbench
  settings
  files := (FileTree.ofFiles ["w"] entries).makeDirs ["tmp", "t"]
  units

end Cflat.Golden
