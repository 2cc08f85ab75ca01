import Cflat.Proofs.Updates
import Mathlib.Algebra.Ring.Nat
import Mathlib.Data.List.Nodup

/-!
# Checks at the same time

The tests of a check are jobs that share the files.  A job reads the golden listing and the
unit, starts the compiler, waits while that writes the listing, and reads and compares it.
The jobs take turns in any order, a bounded number of them at a time.  What a job finds is
what it finds alone, since the other jobs write their own listings and nothing else.

* Jobs: `advance` is one turn of a job.
* Pools: `Step` is one turn of some job, and `Reaches` any number of them.
* One after the other: a whole test is made of the turns of its job (`reaches_test`), so the
  tests in a row are one way to take turns.
* Fresh directories: the listings go where nothing else leads (`Fresh.private_prepare`).
* Tracks: a job that is `OnTrack` knows what it would know alone.  Its own turns keep it there,
  and so do the turns of the others.
* Runs: every turn takes some `weight` off a pool, so every run ends.
* `checks_independent`: every run gives the results of the tests alone.
-/

namespace Cflat.Golden

/-! ## Jobs -/

/-- How far a job is. -/
inductive Phase
  /-- There was no place for it yet. -/
  | waiting
  | admitted
  /-- The golden listing was read, if there is one. -/
  | opened (golden : Option String)
  | planned (want key : String)
  /-- The compiler is running.  Some files are still to be written. -/
  | compiling (want key : String) (c : Compilation) (pending : List (String × String))
  /-- The listing was read, or something went wrong. -/
  | listed (want key : String) (c : Compilation) (got : Except String String)
  | finished (r : Result)

namespace Phase

/-- The result of a job that is done. -/
def result? : Phase → Option Result
  | finished r => some r
  | _ => none

/-- A job that is running takes up a place. -/
def isRunning : Phase → Bool
  | waiting | finished _ => false
  | _ => true

theorem result?_eq_some_iff {phase : Phase} {r : Result} :
    phase.result? = some r ↔ phase = finished r := by
  cases phase <;> simp [result?]

theorem result?_of_isRunning {phase : Phase} (h : phase.isRunning = true) :
    phase.result? = none := by
  cases phase with
  | finished r => cases h
  | _ => rfl

/-- What a job does when it has its plan. -/
def ofPlan : Plan → Phase
  | .settled r => finished r
  | .compile want key => planned want key

end Phase

namespace Suite

/-- The plan of a check, from the golden listing. -/
def planFrom (s : Suite) (now : FileTree) (unit : String) : Option String → Plan
  | none =>
    .settled
      { file := unit, status := .skip, message := "no golden listing at " ++ s.goldenPath unit }
  | some want =>
    match s.reused? now unit want with
    | some r => .settled { r with cached := true }
    | none => .compile want ((s.keyFor now unit want).getD "")

/-- What becomes of a listing, or of what went wrong. -/
def verdict (s : Suite) (now : FileTree) (unit want key : String) (c : Compilation) :
    Except String String → Result × FileTree
  | .error message => ({ compiled unit key c with message }, now)
  | .ok got => s.judge now unit want got (compiled unit key c)

/-- One turn of a job: where it stands then, and the files.  The compiler takes the time
`elapsed` if it is started. -/
def advance (s : Suite) (compile : Compiler) (elapsed : Int64) (unit : String) (now : FileTree) :
    Phase → Phase × FileTree
  | .waiting => (.admitted, now)
  | .admitted => (.opened (now.text? (s.goldenPath unit)), now)
  | .opened golden => (.ofPlan (s.planFrom now unit golden), now)
  | .planned want key =>
    let c := { compile now (s.command unit) with elapsed }
    (.compiling want key c c.written, now)
  | .compiling want key c (w :: pending) =>
    (.compiling want key c pending, applyWrites now [w])
  | .compiling want key c [] => (.listed want key c (s.listing now unit c.reply), now)
  | .listed want key c got =>
    let v := s.verdict now unit want key c got
    (.finished v.1, v.2)
  | .finished r => (.finished r, now)

variable {s : Suite} {compile : Compiler} {files now now' : FileTree} {unit : String}

theorem planFrom_eq (hcheck : s.update = false) :
    s.planFrom now unit (now.text? (s.goldenPath unit)) = s.plan now unit := by
  cases hgolden : now.text? (s.goldenPath unit) with
  | none =>
    rw [FileTree.text?] at hgolden
    delta plan
    dsimp only
    rw [hcheck]
    cases hread : now.read (s.goldenPath unit) with
    | error e => rfl
    | ok want => simp [hread, Except.toOption] at hgolden
  | some want =>
    rw [planFrom]
    cases hreused : s.reused? now unit want with
    | none => rw [plan_of_fresh hcheck hgolden hreused]
    | some r => rw [plan_of_reused hcheck hgolden hreused]

/-- A plan depends on the text of the unit besides the golden listing. -/
theorem planFrom_congr (h : now'.text? unit = now.text? unit) (golden : Option String) :
    s.planFrom now' unit golden = s.planFrom now unit golden := by
  have hkey (want : String) : s.keyFor now' unit want = s.keyFor now unit want := by
    rw [keyFor, keyFor, key?_eq, key?_eq, h]
  cases golden with
  | none => rfl
  | some want => rw [planFrom, planFrom, reused?, reused?, hkey]

theorem listing_congr (h : now'.read (s.listingPath unit) = now.read (s.listingPath unit))
    (reply : Reply) : s.listing now' unit reply = s.listing now unit reply := by
  cases reply with
  | notRun reason stderr => rfl
  | exited code stderr => rw [listing, listing, h]

/-- The verdict on the listing that the compiler leaves. -/
def conclude (s : Suite) (compile : Compiler) (files : FileTree) (unit want key : String) :
    Result × FileTree :=
  s.verdict (s.afterCompile compile files unit) unit want key (compile files (s.command unit))
    (s.listing (s.afterCompile compile files unit) unit (compile files (s.command unit)).reply)

theorem test_of_compile {want key : String} (h : s.plan files unit = .compile want key) :
    s.test compile files unit =
      ⟨(s.conclude compile files unit want key).1, (s.conclude compile files unit want key).2,
        some (s.command unit)⟩ := by
  delta test
  rw [h]
  dsimp only
  rw [← afterCompile, conclude]
  cases s.listing (s.afterCompile compile files unit) unit
      (compile files (s.command unit)).reply <;> rfl

end Suite

/-- A result without the time that it took. -/
def Result.untimed (r : Result) : Result :=
  { r with duration := 0 }

theorem Result.file_untimed (r : Result) : r.untimed.file = r.file :=
  rfl

namespace Suite

variable {s : Suite} {compile : Compiler} {files now now' : FileTree} {unit : String}

theorem untimed_compiled {c c' : Compilation} (h : c.reply = c'.reply) (unit key : String) :
    (compiled unit key c).untimed = (compiled unit key c').untimed := by
  rw [compiled, compiled, h]
  rfl

/-- The verdict of a check depends on the reply and the listing, the time apart. -/
theorem untimed_verdict (hcheck : s.update = false) {c c' : Compilation}
    (h : c.reply = c'.reply) (want key : String) (got : Except String String) :
    (s.verdict now unit want key c got).1.untimed =
      (s.verdict now' unit want key c' got).1.untimed := by
  have hcompiled := untimed_compiled h unit key
  simp only [Result.untimed, Result.mk.injEq] at hcompiled
  cases got with
  | error message => simp [verdict, Result.untimed, hcompiled]
  | ok got =>
    rw [verdict, verdict, judge, judge, hcheck]
    by_cases hdiff : s.diff want got = "" <;> simp [hdiff, Result.untimed, hcompiled]

end Suite

/-! ## Pools -/

/-- The test of one unit, as far as it is. -/
structure Job where
  unit : String
  phase : Phase

/-- A job that has not begun. -/
def Job.waiting (unit : String) : Job :=
  ⟨unit, .waiting⟩

/-- The jobs of a check and the files they share. -/
structure Pool where
  files : FileTree
  jobs : List Job

namespace Pool

/-- The pool before the first turn. -/
def start (files : FileTree) (units : List String) : Pool :=
  ⟨files, units.map .waiting⟩

/-- How many places are taken. -/
def running (p : Pool) : Nat :=
  p.jobs.countP (·.phase.isRunning)

/-- The results so far, in the order of the jobs. -/
def results (p : Pool) : List Result :=
  p.jobs.filterMap (·.phase.result?)

/-- A pool in which every job is done. -/
def Done (p : Pool) : Prop :=
  ∀ job ∈ p.jobs, job.phase.result?.isSome

end Pool

/-- One job has a turn.  A job that waits has one if a place is free. -/
inductive Step (s : Suite) (compile : Compiler) (slots : Nat) : Pool → Pool → Prop
  | turn {now : FileTree} {before after : List Job} {job : Job} (elapsed : Int64) :
    job.phase.result? = none →
    (job.phase = .waiting → (Pool.mk now (before ++ job :: after)).running < slots) →
    Step s compile slots ⟨now, before ++ job :: after⟩
      ⟨(s.advance compile elapsed job.unit now job.phase).2,
        before ++ ⟨job.unit, (s.advance compile elapsed job.unit now job.phase).1⟩ :: after⟩

/-- The pool after some number of turns. -/
inductive Reaches (s : Suite) (compile : Compiler) (slots : Nat) (p : Pool) : Nat → Pool → Prop
  | start : Reaches s compile slots p 0 p
  | step {n : Nat} {p' p'' : Pool} : Reaches s compile slots p n p' →
    Step s compile slots p' p'' → Reaches s compile slots p (n + 1) p''

/-- As long as a job is not done there is one that can have a turn. -/
theorem exists_step {s : Suite} {compile : Compiler} {slots : Nat} (hslots : 0 < slots) {p : Pool}
    (h : ¬ p.Done) : ∃ p', Step s compile slots p p' := by
  obtain ⟨now, jobs⟩ := p
  by_cases hidle : (Pool.mk now jobs).running = 0
  · obtain ⟨job, hjob, hopen⟩ : ∃ job ∈ jobs, job.phase.result? = none := by
      simpa [Pool.Done] using h
    obtain ⟨before, after, rfl⟩ := List.append_of_mem hjob
    exact ⟨_, .turn 0 hopen fun _ => hidle ▸ hslots⟩
  · obtain ⟨job, hjob, hrunning⟩ : ∃ job ∈ jobs, job.phase.isRunning := by
      simpa [Pool.running, List.countP_eq_zero] using hidle
    obtain ⟨before, after, rfl⟩ := List.append_of_mem hjob
    have hadmitted : job.phase ≠ .waiting := by
      intro hwaiting
      simp [hwaiting, Phase.isRunning] at hrunning
    exact ⟨_, .turn 0 (Phase.result?_of_isRunning hrunning)
      fun hwaiting => absurd hwaiting hadmitted⟩

/-! ## One after the other -/

section

variable {s : Suite} {compile : Compiler} {slots : Nat} {p : Pool} {now : FileTree}
  {before after : List Job} {unit : String} {phase : Phase}

/-- A job that is running can have a turn. -/
theorem reaches_turn (elapsed : Int64) (hrunning : phase.isRunning = true)
    (h : ∃ n, Reaches s compile slots p n ⟨now, before ++ ⟨unit, phase⟩ :: after⟩) :
    ∃ n, Reaches s compile slots p n ⟨(s.advance compile elapsed unit now phase).2,
      before ++ ⟨unit, (s.advance compile elapsed unit now phase).1⟩ :: after⟩ := by
  obtain ⟨n, hn⟩ := h
  have hadmitted : phase ≠ .waiting := by
    rintro rfl
    cases hrunning
  exact ⟨n + 1, hn.step (.turn elapsed (Phase.result?_of_isRunning hrunning)
    fun hwaiting => absurd hwaiting hadmitted)⟩

/-- The compiler can write all its files without a turn of another job. -/
theorem reaches_writes {want key : String} {c : Compilation} {pending : List (String × String)}
    (h : ∃ n, Reaches s compile slots p n
      ⟨now, before ++ ⟨unit, .compiling want key c pending⟩ :: after⟩) :
    ∃ n, Reaches s compile slots p n
      ⟨applyWrites now pending, before ++ ⟨unit, .compiling want key c []⟩ :: after⟩ := by
  induction pending generalizing now with
  | nil => exact h
  | cons w pending ih => exact ih (reaches_turn 0 rfl h)

/-- A test is made of the turns of its job. -/
theorem reaches_test (hcheck : s.update = false)
    (h : ∃ n, Reaches s compile slots p n ⟨now, before ++ ⟨unit, .waiting⟩ :: after⟩)
    (hfree : (Pool.mk now (before ++ ⟨unit, .waiting⟩ :: after)).running < slots) :
    ∃ n, Reaches s compile slots p n ⟨(s.test compile now unit).files,
      before ++ ⟨unit, .finished (s.test compile now unit).result⟩ :: after⟩ := by
  obtain ⟨n, hn⟩ := h
  have hadmitted : ∃ n, Reaches s compile slots p n ⟨now, before ++ ⟨unit, .admitted⟩ :: after⟩ :=
    ⟨n + 1, hn.step (.turn 0 rfl fun _ => hfree)⟩
  have hplanned := reaches_turn 0 rfl (reaches_turn 0 rfl hadmitted)
  simp only [Suite.advance, Suite.planFrom_eq hcheck] at hplanned
  cases hplan : s.plan now unit with
  | settled r =>
    rw [hplan] at hplanned
    rw [Suite.test_of_settled hplan]
    exact hplanned
  | compile want key =>
    rw [hplan] at hplanned
    have hstarted := reaches_turn (compile now (s.command unit)).elapsed rfl hplanned
    have hfinished := reaches_turn 0 rfl (reaches_turn 0 rfl (reaches_writes hstarted))
    rw [Suite.test_of_compile hplan]
    exact hfinished

/-- The tests one after the other are one way in which the jobs can take turns. -/
theorem reaches_testAll (hcheck : s.update = false) (hslots : 0 < slots) {units : List String}
    (hbefore : ∀ job ∈ before, job.phase.result?.isSome)
    (h : ∃ n, Reaches s compile slots p n ⟨now, before ++ units.map .waiting⟩) :
    ∃ n p', Reaches s compile slots p n p' ∧ p'.Done ∧
      p'.files = (s.testAll compile now units).2 ∧
      p'.results = before.filterMap (·.phase.result?) ++
        (s.testAll compile now units).1.map (·.result) := by
  induction units generalizing now before with
  | nil =>
    obtain ⟨n, hn⟩ := h
    exact ⟨n, _, hn, by simpa [Pool.Done] using hbefore, rfl, by simp [Pool.results, Suite.testAll]⟩
  | cons unit units ih =>
    have hidle : (Pool.mk now (before ++ (unit :: units).map .waiting)).running = 0 := by
      refine List.countP_eq_zero.mpr fun job hjob => ?_
      rcases List.mem_append.mp hjob with hjob | hjob
      · intro hrunning
        have hdone := hbefore job hjob
        simp [Phase.result?_of_isRunning hrunning] at hdone
      · obtain ⟨unit', -, rfl⟩ := List.mem_map.mp hjob
        simp [Job.waiting, Phase.isRunning]
    have htest := reaches_test hcheck h (hidle ▸ hslots)
    rw [List.append_cons] at htest
    obtain ⟨n, p', hn, hdone, hfiles, hresults⟩ :=
      ih (by simpa [or_imp, forall_and, Phase.result?] using hbefore) htest
    refine ⟨n, p', hn, hdone, hfiles, ?_⟩
    rw [hresults]
    simp [Suite.testAll, Phase.result?]

end

/-! ## Fresh directories -/

namespace Suite

/-- The files that the job of a unit reads, its own listing apart. -/
def inputs (s : Suite) (unit : String) : List String :=
  [unit, s.goldenPath unit, s.compiler]

/-- Where the scratch directory is. -/
def scratchLocation (s : Suite) : Location :=
  FileTree.locationOf s.scratch

/-- The files once the scratch directory is made. -/
def prepare (s : Suite) (start : FileTree) : FileTree :=
  start.makeDirs s.scratchLocation

/-- The scratch directory is new.  Nothing was in its place, so the units, which are files, are
not in it.  The compiler and the directory of the golden listings are told by the settings, and
these name nothing that there is only since the directory was made. -/
structure Fresh (s : Suite) (start : FileTree) (units : List String) : Prop where
  rooted : Path.isAbsolute s.scratch = true
  absent : start.node? s.scratchLocation = none
  found : ∀ unit ∈ units, (s.prepare start).isFile unit = true
  compiler : ∀ l, (s.prepare start).locate s.compiler = some l →
    start.locate s.compiler = some l
  golden : s.goldenDir ≠ "" → ∀ unit ∈ units, ∀ l,
    (s.prepare start).locate (s.goldenPath unit) = some l →
      start.locate (s.goldenPath unit) = some l

variable {s : Suite} {start : FileTree} {units : List String} {unit : String}

theorem isName_listing (s : Suite) (unit : String) :
    Path.IsName (s.digest.hash unit ++ ".s") := by
  have hdigits : '/' ∉ (s.digest.hash unit).toList := s.digest.notMem_hash (by decide) unit
  refine Path.isName_of_getLast? (c := 's') ?_ ?_ (by decide)
  · simpa using hdigits
  · simp

/-- The listings are in the scratch directory. -/
theorem dropLast_of_locate_listing {files : FileTree} {l : Location}
    (hrooted : Path.isAbsolute s.scratch = true)
    (h : files.locate (s.listingPath unit) = some l) : l.dropLast = s.scratchLocation := by
  have hname := s.isName_listing unit
  have hscratch : s.scratch ≠ "" := by
    intro hempty
    simp [hempty, Path.isAbsolute] at hrooted
  have hroute : files.route []
      (Path.cleanParts true (Path.parts s.scratch) ++ [s.digest.hash unit ++ ".s"]) = some l := by
    have hstart : files.start (s.listingPath unit) = [] :=
      FileTree.start_of_isAbsolute ((Path.isAbsolute_join hscratch hname).trans hrooted)
    have hparts := FileTree.route_of_locate h
    rw [hstart, listingPath, Path.parts_join hscratch hname, hrooted] at hparts
    exact hparts
  have hnames : ∀ part ∈ Path.cleanParts true (Path.parts s.scratch) ++
      [s.digest.hash unit ++ ".s"], Path.IsName part := by
    intro part hpart
    rcases List.mem_append.mp hpart with hpart | hpart
    · exact Path.isName_of_mem_cleanParts hpart
    · rwa [List.mem_singleton.mp hpart]
  rw [FileTree.route_names (fun part hpart => (hnames part hpart).proper) hroute,
    List.nil_append, List.dropLast_concat]
  rfl

theorem Fresh.scratchLocation_ne_nil (h : s.Fresh start units) : s.scratchLocation ≠ [] := by
  intro hroot
  have habsent := h.absent
  rw [hroot] at habsent
  cases habsent

/-- There is nothing in the scratch directory at first. -/
theorem Fresh.node?_eq_none (h : s.Fresh start units) {l : Location}
    (hl : l.dropLast = s.scratchLocation) : (s.prepare start).node? l = none := by
  have hne : l ≠ [] := by
    rintro rfl
    exact h.scratchLocation_ne_nil hl.symm
  have hbelow : ¬ l <+: s.scratchLocation := by
    intro hprefix
    have hlength := hprefix.length_le
    have hpos := List.length_pos_iff.mpr hne
    rw [← hl, List.length_dropLast] at hlength
    omega
  rw [prepare, start.node?_makeDirs hbelow]
  by_contra hnode
  have hdir := FileTree.node?_dropLast hnode
  rw [hl, h.absent] at hdir
  cases hdir

/-- What was found before the directory was made is not in it. -/
theorem Fresh.dropLast_ne (h : s.Fresh start units) {path : String} {l : Location}
    (hl : start.locate path = some l) : l.dropLast ≠ s.scratchLocation := by
  intro hscratch
  have hdir := FileTree.node?_dropLast_of_locate hl
  rw [hscratch, h.absent] at hdir
  cases hdir

/-- The units are not in the scratch directory. -/
theorem Fresh.exists_unit (h : s.Fresh start units) (hunit : unit ∈ units) :
    ∃ l text, (s.prepare start).locate unit = some l ∧
      (s.prepare start).node? l = some (.file text) ∧ l.dropLast ≠ s.scratchLocation := by
  obtain ⟨text, -, htext⟩ := FileTree.exists_text?_of_isFile (h.found unit hunit)
  obtain ⟨l, hl, hfile⟩ := FileTree.text?_eq_some_iff.mp htext
  refine ⟨l, text, hl, hfile, fun hscratch => ?_⟩
  rw [h.node?_eq_none hscratch] at hfile
  cases hfile

theorem isName_golden {files : FileTree} (h : files.isFile unit = true) :
    Path.IsName (Path.dropEnding (Path.base unit) (Path.extension unit) ++ ".s") := by
  obtain ⟨text, hfind, -⟩ := FileTree.exists_text?_of_isFile h
  exact Path.isName_base_append (FileTree.not_onlySlashes_of_find hfind) (by decide) (by decide)
    (show 's' ≠ '.' by decide)

/-- A golden listing beside its unit is not in the scratch directory. -/
theorem Fresh.dropLast_ne_of_beside (h : s.Fresh start units) (hunit : unit ∈ units)
    (hbeside : s.goldenDir = "") {l : Location}
    (hl : (s.prepare start).locate (s.goldenPath unit) = some l) :
    l.dropLast ≠ s.scratchLocation := by
  obtain ⟨place, text, hplace, hfile, hne⟩ := h.exists_unit hunit
  have hname := isName_golden (h.found unit hunit)
  rw [goldenPath, Golden.goldenPath, hbeside, if_pos rfl] at hl
  rw [FileTree.dropLast_of_sibling hplace (by simp [hfile]) hname hl]
  exact hne

/-- The listings go where no job reads anything else. -/
def Private (s : Suite) (files : FileTree) (units : List String) : Prop :=
  ∀ unit ∈ units, ∀ path ∈ s.inputs unit, ∀ unit', files.Apart (s.listingPath unit') path

theorem Fresh.private_prepare (h : s.Fresh start units) : s.Private (s.prepare start) units := by
  intro unit hunit path hpath unit' l hl hsame
  have hscratch := dropLast_of_locate_listing h.rooted hl
  simp only [inputs, List.mem_cons, List.not_mem_nil, or_false] at hpath
  rcases hpath with rfl | rfl | rfl
  · obtain ⟨place, text, hplace, -, hne⟩ := h.exists_unit hunit
    rw [hplace] at hsame
    exact hne (Option.some.inj hsame ▸ hscratch)
  · by_cases hbeside : s.goldenDir = ""
    · exact h.dropLast_ne_of_beside hunit hbeside hsame hscratch
    · exact h.dropLast_ne (h.golden hbeside unit hunit l hsame) hscratch
  · exact h.dropLast_ne (h.compiler l hsame) hscratch

end Suite

/-! ## Tracks -/

namespace Suite

/-- Jobs that cannot get in each other's way.  The names of the units have different hashes.
The compiler writes nothing but its listing, and what it does depends on its own text and that
of the unit. -/
structure Isolated (s : Suite) (compile : Compiler) (files : FileTree) (units : List String) :
    Prop where
  digest : ∀ unit ∈ units, ∀ unit' ∈ units, s.digest.hash unit = s.digest.hash unit' → unit = unit'
  written : ∀ unit ∈ units, ∀ w ∈ (compile files (s.command unit)).written,
    w.1 = s.listingPath unit
  compiled : ∀ unit ∈ units, ∀ now : FileTree, files.SameDirs now →
    now.text? s.compiler = files.text? s.compiler → now.text? unit = files.text? unit →
      (compile now (s.command unit)).reply = (compile files (s.command unit)).reply ∧
        (compile now (s.command unit)).written = (compile files (s.command unit)).written

/-- The job of the unit cannot tell the files apart. -/
structure Alike (s : Suite) (unit : String) (files now : FileTree) : Prop where
  listing : now.read (s.listingPath unit) = files.read (s.listingPath unit)
  inputs : ∀ path ∈ s.inputs unit, now.text? path = files.text? path

/-- The job of the unit is as far as it would be alone, with what it would have found. -/
def OnTrack (s : Suite) (compile : Compiler) (files now : FileTree) (unit : String) :
    Phase → Prop
  | .waiting | .admitted => s.Alike unit files now
  | .opened golden => golden = files.text? (s.goldenPath unit) ∧ s.Alike unit files now
  | .planned want key => s.plan files unit = .compile want key ∧ s.Alike unit files now
  | .compiling want key c pending =>
    s.plan files unit = .compile want key ∧
      c.reply = (compile files (s.command unit)).reply ∧
      ∃ done, (compile files (s.command unit)).written = done ++ pending ∧
        now.read (s.listingPath unit) = (applyWrites files done).read (s.listingPath unit)
  | .listed want key c got =>
    s.plan files unit = .compile want key ∧
      c.reply = (compile files (s.command unit)).reply ∧
      got = s.listing (s.afterCompile compile files unit) unit c.reply
  | .finished r => r.untimed = (s.test compile files unit).result.untimed

variable {s : Suite} {compile : Compiler} {files now now' : FileTree} {units : List String}
  {unit unit' : String} {phase : Phase}

theorem Alike.trans (h : s.Alike unit files now) (h' : s.Alike unit now now') :
    s.Alike unit files now' :=
  ⟨h'.listing.trans h.listing, fun path hpath => (h'.inputs path hpath).trans (h.inputs path hpath)⟩

theorem Isolated.compiled_of_alike (h : s.Isolated compile files units) (hunit : unit ∈ units)
    (hdirs : files.SameDirs now) (halike : s.Alike unit files now) :
    (compile now (s.command unit)).reply = (compile files (s.command unit)).reply ∧
      (compile now (s.command unit)).written = (compile files (s.command unit)).written :=
  h.compiled unit hunit now hdirs (halike.inputs _ (by simp [inputs]))
    (halike.inputs _ (by simp [inputs]))

/-- What the other jobs do is of no concern as long as the job cannot tell. -/
theorem OnTrack.congr (h : s.OnTrack compile files now unit phase)
    (halike : s.Alike unit now now') : s.OnTrack compile files now' unit phase := by
  cases phase with
  | waiting => exact Alike.trans h halike
  | admitted => exact Alike.trans h halike
  | opened golden => exact ⟨h.1, h.2.trans halike⟩
  | planned want key => exact ⟨h.1, h.2.trans halike⟩
  | compiling want key c pending =>
    obtain ⟨hplan, hreply, done, hwritten, hread⟩ := h
    exact ⟨hplan, hreply, done, hwritten, halike.listing.trans hread⟩
  | listed want key c got => exact h
  | finished r => exact h

theorem applyWrites_singleton (now : FileTree) (path text : String) :
    applyWrites now [(path, text)] = (now.write path text).toOption.getD now :=
  rfl

/-- Writing the listing of one unit makes no difference to the job of another. -/
theorem Isolated.alike_write (h : s.Isolated compile files units)
    (hprivate : s.Private files units) (hunit : unit ∈ units) (hunit' : unit' ∈ units)
    (hne : unit ≠ unit') (hdirs : files.SameDirs now) (text : String) :
    s.Alike unit' now (applyWrites now [(s.listingPath unit, text)]) := by
  rw [applyWrites_singleton]
  cases hwrite : now.write (s.listingPath unit) text with
  | error e => exact ⟨rfl, fun _ _ => rfl⟩
  | ok now' =>
    refine ⟨?_, fun path hpath => ?_⟩
    · have hnames : s.digest.hash unit ++ ".s" ≠ s.digest.hash unit' ++ ".s" := fun heq =>
        hne (h.digest unit hunit unit' hunit' (by simpa using heq))
      rw [listingPath] at hwrite ⊢
      exact FileTree.read_write_of_ne (s.isName_listing unit) (s.isName_listing unit') hnames
        hwrite
    · refine FileTree.text?_write_of_apart hwrite fun l => ?_
      rw [hdirs.locate_eq, hdirs.locate_eq]
      exact hprivate unit' hunit' path hpath unit l

/-- A turn changes nothing but the listing of the unit. -/
theorem files_advance (hcheck : s.update = false) (h : s.Isolated compile files units)
    (hunit : unit ∈ units) (hphase : s.OnTrack compile files now unit phase) (elapsed : Int64) :
    (s.advance compile elapsed unit now phase).2 = now ∨ ∃ text,
      (s.advance compile elapsed unit now phase).2 =
        applyWrites now [(s.listingPath unit, text)] := by
  cases phase with
  | compiling want key c pending =>
    cases pending with
    | nil => exact .inl rfl
    | cons w pending =>
      obtain ⟨-, -, done, hwritten, -⟩ := hphase
      have hw : w.1 = s.listingPath unit := h.written unit hunit w (by simp [hwritten])
      exact .inr ⟨w.2, by rw [← hw]; rfl⟩
  | listed want key c got =>
    left
    cases got with
    | error message => rfl
    | ok got =>
      obtain ⟨message, diff, hjudge⟩ := judge_of_check hcheck now unit want got
        (compiled unit key c)
      simp [advance, verdict, hjudge]
  | _ => exact .inl rfl

/-- Files with the same listing have the same listing after it is written, or if it cannot be. -/
theorem read_applyWrites_listing (hdirs : files.SameDirs now)
    (h : now.read (s.listingPath unit) = files.read (s.listingPath unit)) (text : String) :
    (applyWrites now [(s.listingPath unit, text)]).read (s.listingPath unit) =
      (applyWrites files [(s.listingPath unit, text)]).read (s.listingPath unit) := by
  rw [applyWrites_singleton, applyWrites_singleton]
  cases hwrite : files.write (s.listingPath unit) text with
  | ok files' =>
    obtain ⟨l, hl, -⟩ := FileTree.exists_writable_of_write hwrite
    have hwrite' : now.write (s.listingPath unit) text = .ok (now.setNode l (.file text)) := by
      rw [FileTree.write, hdirs.writable hl]
    rw [hwrite', Except.toOption, Except.toOption, Option.getD_some, Option.getD_some,
      FileTree.read_write_self hwrite, FileTree.read_write_self hwrite']
  | error e =>
    cases hwrite' : now.write (s.listingPath unit) text with
    | error e' => exact h
    | ok now' =>
      obtain ⟨l, hl, -⟩ := FileTree.exists_writable_of_write hwrite'
      rw [FileTree.write, hdirs.writable_iff.mp hl] at hwrite
      cases hwrite

/-- A turn of the job itself. -/
theorem OnTrack.advance (hcheck : s.update = false) (h : s.Isolated compile files units)
    (hunit : unit ∈ units) (hdirs : files.SameDirs now)
    (hphase : s.OnTrack compile files now unit phase) (elapsed : Int64) :
    s.OnTrack compile files (s.advance compile elapsed unit now phase).2 unit
      (s.advance compile elapsed unit now phase).1 := by
  cases phase with
  | waiting => exact hphase
  | admitted => exact ⟨Alike.inputs hphase _ (by simp [inputs]), hphase⟩
  | opened golden =>
    obtain ⟨rfl, halike⟩ := hphase
    have hplan : s.planFrom now unit (files.text? (s.goldenPath unit)) = s.plan files unit := by
      rw [planFrom_congr (halike.inputs unit (by simp [inputs])), planFrom_eq hcheck]
    rw [Suite.advance, hplan]
    cases hsettled : s.plan files unit with
    | settled r =>
      rw [Phase.ofPlan, OnTrack, test_of_settled hsettled]
    | compile want key => exact ⟨hsettled, halike⟩
  | planned want key =>
    obtain ⟨hplan, halike⟩ := hphase
    obtain ⟨hreply, hwritten⟩ := h.compiled_of_alike hunit hdirs halike
    exact ⟨hplan, hreply, [], hwritten.symm, halike.listing⟩
  | compiling want key c pending =>
    obtain ⟨hplan, hreply, done, hwritten, hread⟩ := hphase
    cases pending with
    | nil =>
      rw [List.append_nil] at hwritten
      refine ⟨hplan, hreply, ?_⟩
      rw [afterCompile, hwritten]
      exact listing_congr hread c.reply
    | cons w pending =>
      have hw : w = (s.listingPath unit, w.2) :=
        Prod.ext (h.written unit hunit w (by simp [hwritten])) rfl
      refine ⟨hplan, hreply, done ++ [w], by simp [hwritten], ?_⟩
      have hdone : applyWrites files (done ++ [w]) = applyWrites (applyWrites files done) [w] := by
        simp [applyWrites]
      rw [hdone, hw]
      exact read_applyWrites_listing ((sameDirs_applyWrites files done).symm.trans hdirs) hread w.2
  | listed want key c got =>
    obtain ⟨hplan, hreply, rfl⟩ := hphase
    rw [Suite.advance, OnTrack, test_of_compile hplan, conclude, hreply]
    exact untimed_verdict hcheck hreply want key _
  | finished r => exact hphase

end Suite

/-- A pool in which every job is on track. -/
structure Pool.OnTrack (s : Suite) (compile : Compiler) (files : FileTree) (units : List String)
    (p : Pool) : Prop where
  dirs : files.SameDirs p.files
  units : p.jobs.map (·.unit) = units
  jobs : ∀ job ∈ p.jobs, s.OnTrack compile files p.files job.unit job.phase

section

variable {s : Suite} {compile : Compiler} {slots : Nat} {files : FileTree} {units : List String}

theorem onTrack_start (s : Suite) (compile : Compiler) (files : FileTree) (units : List String) :
    (Pool.start files units).OnTrack s compile files units := by
  have hunits : (Pool.start files units).jobs.map (·.unit) = units := by
    rw [Pool.start, List.map_map]
    exact List.map_id'' (fun _ => rfl) units
  refine ⟨.refl files, hunits, fun job hjob => ?_⟩
  obtain ⟨unit, -, rfl⟩ := List.mem_map.mp hjob
  exact ⟨rfl, fun _ _ => rfl⟩

variable (hcheck : s.update = false) (hnodup : units.Nodup)
  (hprivate : s.Private files units) (hisolated : s.Isolated compile files units)

include hcheck hnodup hprivate hisolated

/-- A turn of one job leaves all jobs on track. -/
theorem onTrack_step {p p' : Pool} (hstep : Step s compile slots p p')
    (h : p.OnTrack s compile files units) : p'.OnTrack s compile files units := by
  cases hstep with
  | @turn now before after job elapsed hopen hslot =>
    have hunits := h.units
    have hmem : job.unit ∈ units := by simp [← hunits]
    have hjob := h.jobs job (by simp)
    have hfiles := Suite.files_advance hcheck hisolated hmem hjob elapsed
    have hdirs : files.SameDirs (s.advance compile elapsed job.unit now job.phase).2 := by
      rcases hfiles with hfiles | ⟨text, hfiles⟩
      · rw [hfiles]
        exact h.dirs
      · rw [hfiles]
        exact h.dirs.trans (sameDirs_applyWrites now _)
    have hnotMem : job.unit ∉ (before ++ after).map (·.unit) := by
      rw [← hunits, List.map_append, List.map_cons, List.nodup_middle, ← List.map_append] at hnodup
      exact (List.nodup_cons.mp hnodup).1
    have hother (job' : Job) (hjob' : job' ∈ before ++ after) :
        s.OnTrack compile files (s.advance compile elapsed job.unit now job.phase).2
          job'.unit job'.phase := by
      have hne : job.unit ≠ job'.unit := fun heq =>
        hnotMem (heq ▸ List.mem_map_of_mem hjob')
      have hkept := h.jobs job' (by grind)
      rcases hfiles with hfiles | ⟨text, hfiles⟩
      · rw [hfiles]
        exact hkept
      · rw [hfiles]
        refine hkept.congr (hisolated.alike_write hprivate hmem ?_ hne h.dirs text)
        rw [← hunits]
        exact List.mem_map_of_mem (by grind)
    refine ⟨hdirs, by simpa using hunits, fun job' hjob' => ?_⟩
    rcases List.mem_append.mp hjob' with hjob' | hjob'
    · exact hother job' (List.mem_append_left _ hjob')
    · rcases List.mem_cons.mp hjob' with rfl | hjob'
      · exact hjob.advance hcheck hisolated hmem h.dirs elapsed
      · exact hother job' (List.mem_append_right _ hjob')

theorem onTrack_of_reaches {n : Nat} {p : Pool}
    (h : Reaches s compile slots (Pool.start files units) n p) :
    p.OnTrack s compile files units := by
  induction h with
  | start => exact onTrack_start s compile files units
  | step _ hstep ih => exact onTrack_step hcheck hnodup hprivate hisolated hstep ih

end

/-! ## Runs -/

/-- How many turns a job has left at most, if the compiler writes `n` times. -/
def Phase.weight (n : Nat) : Phase → Nat
  | waiting => n + 6
  | admitted => n + 5
  | opened _ => n + 4
  | planned _ _ => n + 3
  | compiling _ _ _ pending => pending.length + 2
  | listed _ _ _ _ => 1
  | finished _ => 0

/-- How many turns there are left at most. -/
def Pool.weight (s : Suite) (compile : Compiler) (files : FileTree) (p : Pool) : Nat :=
  (p.jobs.map fun job =>
    job.phase.weight (compile files (s.command job.unit)).written.length).sum

theorem Suite.weight_advance_lt {s : Suite} {compile : Compiler} {files now : FileTree}
    {units : List String} {unit : String} {phase : Phase} (h : s.Isolated compile files units)
    (hunit : unit ∈ units) (hdirs : files.SameDirs now)
    (hphase : s.OnTrack compile files now unit phase) (hopen : phase.result? = none)
    (elapsed : Int64) :
    (s.advance compile elapsed unit now phase).1.weight
        (compile files (s.command unit)).written.length <
      phase.weight (compile files (s.command unit)).written.length := by
  cases phase with
  | waiting => simp [advance, Phase.weight]
  | admitted => simp [advance, Phase.weight]
  | opened golden =>
    rw [advance]
    cases s.planFrom now unit golden <;> simp [Phase.ofPlan, Phase.weight]
  | planned want key =>
    obtain ⟨-, halike⟩ := hphase
    obtain ⟨-, hwritten⟩ := h.compiled_of_alike hunit hdirs halike
    simp [advance, Phase.weight, hwritten]
  | compiling want key c pending => cases pending <;> simp [advance, Phase.weight]
  | listed want key c got => simp [advance, Phase.weight]
  | finished r => simp [Phase.result?] at hopen

theorem weight_step_lt {s : Suite} {compile : Compiler} {slots : Nat} {files : FileTree}
    {units : List String} (hisolated : s.Isolated compile files units) {p p' : Pool}
    (hstep : Step s compile slots p p') (h : p.OnTrack s compile files units) :
    p'.weight s compile files < p.weight s compile files := by
  cases hstep with
  | @turn now before after job elapsed hopen hslot =>
    have hmem : job.unit ∈ units := by simp [← h.units]
    have hdirs : files.SameDirs now := h.dirs
    have hlt := Suite.weight_advance_lt hisolated hmem hdirs (h.jobs job (by simp)) hopen elapsed
    simp only [Pool.weight, List.map_append, List.map_cons, List.sum_append, List.sum_cons]
    omega

/-- No run has more turns than there is weight at first. -/
theorem add_weight_le_of_reaches {s : Suite} {compile : Compiler} {slots : Nat}
    {files : FileTree} {units : List String} (hcheck : s.update = false) (hnodup : units.Nodup)
    (hprivate : s.Private files units) (hisolated : s.Isolated compile files units) {n : Nat}
    {p : Pool} (h : Reaches s compile slots (Pool.start files units) n p) :
    n + p.weight s compile files ≤ (Pool.start files units).weight s compile files := by
  induction h with
  | start => omega
  | step hreaches hstep ih =>
    have hlt := weight_step_lt hisolated hstep
      (onTrack_of_reaches hcheck hnodup hprivate hisolated hreaches)
    omega

theorem weight_start (s : Suite) (compile : Compiler) (files : FileTree) (units : List String) :
    (Pool.start files units).weight s compile files =
      (units.map fun unit => (compile files (s.command unit)).written.length + 6).sum := by
  rw [Pool.weight, Pool.start, List.map_map]
  rfl

/-- The results of a pool that is done are those of its tests alone. -/
theorem untimed_results {s : Suite} {compile : Compiler} {files : FileTree} {units : List String}
    {p : Pool} (h : p.OnTrack s compile files units) (hdone : p.Done) :
    p.results.map Result.untimed =
      units.map fun unit => (s.test compile files unit).result.untimed := by
  have hjobs : ∀ jobs : List Job, (∀ job ∈ jobs, job.phase.result?.isSome) →
      (∀ job ∈ jobs, s.OnTrack compile files p.files job.unit job.phase) →
      (jobs.filterMap (·.phase.result?)).map Result.untimed =
        (jobs.map (·.unit)).map fun unit => (s.test compile files unit).result.untimed := by
    intro jobs hdone htrack
    induction jobs with
    | nil => rfl
    | cons job jobs ih =>
      rw [List.forall_mem_cons] at hdone htrack
      obtain ⟨r, hr⟩ := Option.isSome_iff_exists.mp hdone.1
      have hfirst := htrack.1
      rw [Phase.result?_eq_some_iff.mp hr] at hfirst
      have hresults : (job :: jobs).filterMap (·.phase.result?) =
          r :: jobs.filterMap (·.phase.result?) := List.filterMap_cons_some hr
      rw [hresults, List.map_cons, List.map_cons, List.map_cons, ih hdone.2 htrack.2, hfirst]
  rw [← h.units]
  exact hjobs p.jobs hdone h.jobs

/-- The result of a test has the name of its unit, unless an earlier one is reused that has
another. -/
theorem file_test {s : Suite} {compile : Compiler} {files : FileTree} {unit : String}
    (hcheck : s.update = false)
    (hprevious : ∀ r, s.previous.result? unit = some r → r.file = unit) :
    (s.test compile files unit).result.file = unit := by
  cases hgolden : files.text? (s.goldenPath unit) with
  | none =>
    obtain ⟨message, hplan⟩ := Suite.plan_of_missing hcheck hgolden
    rw [Suite.test_of_settled hplan]
  | some want =>
    cases hreused : s.reused? files unit want with
    | none => exact (Suite.result_of_compile (Suite.plan_of_fresh hcheck hgolden hreused)).1
    | some r =>
      obtain ⟨key, -, hr⟩ := Option.bind_eq_some_iff.mp hreused
      rw [Suite.test_of_settled (Suite.plan_of_reused hcheck hgolden hreused)]
      exact hprevious r (Suite.reusable?_eq_some_iff.mp hr).1

theorem pairwise_sortResults (results : List Result) :
    (sortResults results).Pairwise fun a b => a.file ≤ b.file := by
  have htrans (a b c : Result) (hab : decide (a.file ≤ b.file) = true)
      (hbc : decide (b.file ≤ c.file) = true) : decide (a.file ≤ c.file) = true :=
    decide_eq_true (String.le_trans (of_decide_eq_true hab) (of_decide_eq_true hbc))
  have htotal (a b : Result) : (decide (a.file ≤ b.file) || decide (b.file ≤ a.file)) = true := by
    simpa using String.le_total a.file b.file
  exact (List.pairwise_mergeSort htrans htotal results).imp of_decide_eq_true

/-- Nothing but the file of a result matters for the order. -/
theorem map_untimed_sortResults (results : List Result) :
    (sortResults results).map Result.untimed = sortResults (results.map Result.untimed) :=
  List.map_mergeSort fun _ _ _ _ => rfl

theorem map_file_sortResults (results : List Result) :
    (sortResults results).map (·.file) =
      (results.map (·.file)).mergeSort fun a b => a ≤ b :=
  List.map_mergeSort fun _ _ _ _ => rfl

/-- Checks do not affect each other.  However the jobs take turns, they come to an end, and the
results are those of the tests alone, the times apart, in the order of the files.  The tests one
after the other are one of the ways. -/
theorem checks_independent {s : Suite} {compile : Compiler} {start : FileTree}
    {units : List String} (slots : Nat) (hcheck : s.update = false) (hnodup : units.Nodup)
    (hfresh : s.Fresh start units) (hisolated : s.Isolated compile (s.prepare start) units) :
    (∀ n p, Reaches s compile slots (Pool.start (s.prepare start) units) n p →
      n ≤ (units.map fun unit =>
        (compile (s.prepare start) (s.command unit)).written.length + 6).sum ∧
      (0 < slots → ¬ p.Done → ∃ p', Step s compile slots p p') ∧
      (p.Done →
        (sortResults p.results).map Result.untimed = sortResults (units.map fun unit =>
          (s.test compile (s.prepare start) unit).result.untimed) ∧
        (sortResults p.results).Pairwise (fun a b => a.file ≤ b.file) ∧
        ((∀ unit ∈ units, ∀ r, s.previous.result? unit = some r → r.file = unit) →
          (sortResults p.results).map (·.file) = units.mergeSort fun a b => a ≤ b))) ∧
      (0 < slots →
        ∃ n p, Reaches s compile slots (Pool.start (s.prepare start) units) n p ∧ p.Done ∧
          p.files = (s.testAll compile (s.prepare start) units).2 ∧
          p.results = (s.testAll compile (s.prepare start) units).1.map (·.result)) := by
  have hprivate := hfresh.private_prepare
  refine ⟨fun n p hreaches => ?_, fun hslots => ?_⟩
  · have htrack := onTrack_of_reaches hcheck hnodup hprivate hisolated hreaches
    have hbound := add_weight_le_of_reaches hcheck hnodup hprivate hisolated hreaches
    rw [weight_start] at hbound
    refine ⟨by omega, fun hslots hopen => exists_step hslots hopen, fun hdone => ?_⟩
    have hresults := untimed_results htrack hdone
    refine ⟨?_, pairwise_sortResults p.results, fun hprevious => ?_⟩
    · rw [map_untimed_sortResults, hresults]
    · have hname (unit : String) (hunit : unit ∈ units) :
          (s.test compile (s.prepare start) unit).result.file = unit :=
        file_test hcheck (hprevious unit hunit)
      have hfiles : p.results.map (·.file) = units := by
        have huntimed := congrArg (List.map (·.file)) hresults
        simp only [List.map_map, Function.comp_def, Result.file_untimed] at huntimed
        rw [huntimed, List.map_congr_left hname, List.map_id']
      rw [map_file_sortResults, hfiles]
  · have hstart : ∃ n, Reaches s compile slots (Pool.start (s.prepare start) units) n
        ⟨s.prepare start, [] ++ units.map .waiting⟩ := ⟨0, .start⟩
    simpa using reaches_testAll hcheck hslots (by simp) hstart

/-! ## Two units -/

theorem copyist_of_text? {s : Suite} {files : FileTree} {unit text : String}
    (h : files.text? unit = some text) :
    copyist files (s.command unit) =
      { reply := .exited 0 "", written := [(s.listingPath unit, "# " ++ text)] } := by
  simp [copyist, Suite.command, FileTree.read_eq_ok_iff.mpr h]

/-- Units that can be read are isolated from each other by their hashes. -/
theorem isolated_copyist {s : Suite} {files : FileTree} {units : List String}
    (hdigest : ∀ unit ∈ units, ∀ unit' ∈ units,
      s.digest.hash unit = s.digest.hash unit' → unit = unit')
    (hread : ∀ unit ∈ units, (files.text? unit).isSome) : s.Isolated copyist files units := by
  refine ⟨hdigest, fun unit _ w hw => written_copyist hw, ?_⟩
  intro unit hunit now _ _ hsame
  obtain ⟨text, htext⟩ := Option.isSome_iff_exists.mp (hread unit hunit)
  rw [copyist_of_text? htext, copyist_of_text? (hsame.trans htext)]
  exact ⟨rfl, rfl⟩

/-- A suite for `copyist`, with the golden listings beside the units. -/
def pairSuite : Suite where
  digest := Xxh64.digest
  compiler := "./cbc"
  compilerHash := ""
  scratch := "/tmp/t"
  diff := workbench.diff

/-- The golden listing of the second unit is out of date. -/
def pairFiles : FileTree :=
  FileTree.ofFiles ["w"] [("a.json", "x"), ("a.s", "# x"), ("b.json", "y"), ("b.s", "# z"),
    ("cbc", "cbc")]

theorem sortResults_pair {a b : Result} (h : ¬ a.file ≤ b.file) :
    sortResults [a, b] = [b, a] := by
  simp [sortResults, List.mergeSort, List.MergeSort.Internal.splitInTwo, h]

theorem fresh_pair : pairSuite.Fresh pairFiles ["/w/b.json", "/w/a.json"] := by
  have hcompiler : (pairSuite.prepare pairFiles).locate "./cbc" = pairFiles.locate "./cbc" := by
    decide +kernel
  refine ⟨by decide +kernel, by decide +kernel, by decide +kernel, fun l hl => ?_, ?_⟩
  · exact hcompiler ▸ hl
  · exact fun hbeside => absurd rfl hbeside

theorem isolated_pair :
    pairSuite.Isolated copyist (pairSuite.prepare pairFiles) ["/w/b.json", "/w/a.json"] :=
  isolated_copyist (by decide +kernel) (by decide +kernel)

/-- Two jobs at a time: one passes and one fails, in whatever order they take their turns. -/
theorem checks_independent_pair :
    pairSuite.update = false ∧ ["/w/b.json", "/w/a.json"].Nodup ∧
      pairSuite.Fresh pairFiles ["/w/b.json", "/w/a.json"] ∧
      pairSuite.Isolated copyist (pairSuite.prepare pairFiles) ["/w/b.json", "/w/a.json"] ∧
      (∀ n p, Reaches pairSuite copyist 2
          (Pool.start (pairSuite.prepare pairFiles) ["/w/b.json", "/w/a.json"]) n p →
        n ≤ 14 ∧ (p.Done → (sortResults p.results).map (fun r => (r.file, r.status)) =
          [("/w/a.json", .pass), ("/w/b.json", .fail)])) ∧
      ∃ n p, Reaches pairSuite copyist 2
        (Pool.start (pairSuite.prepare pairFiles) ["/w/b.json", "/w/a.json"]) n p ∧ p.Done := by
  have hnodup : ["/w/b.json", "/w/a.json"].Nodup := by decide
  obtain ⟨hall, hsome⟩ := checks_independent 2 rfl hnodup fresh_pair isolated_pair
  refine ⟨rfl, hnodup, fresh_pair, isolated_pair, fun n p hreaches => ?_, ?_⟩
  · obtain ⟨hbound, -, hdone⟩ := hall n p hreaches
    refine ⟨hbound.trans (by decide +kernel), fun h => ?_⟩
    have hresults := congrArg (List.map fun r => (r.file, r.status)) (hdone h).1
    rw [List.map_map] at hresults
    refine hresults.trans ?_
    rw [List.map_cons, List.map_cons, List.map_nil, sortResults_pair (by decide +kernel)]
    decide +kernel
  · obtain ⟨n, p, hreaches, hdone, -⟩ := hsome (by decide)
    exact ⟨n, p, hreaches, hdone⟩

end Cflat.Golden
