import Cflat.Proofs.Arguments
import Cflat.Proofs.Locations
import Cflat.Proofs.Outcome
import Cflat.Proofs.Provenance

/-!
# Stopping at the first failure

A build that is to link takes its inputs in order.  The first input that fails ends it, and
the linker is started only when every input has been assembled.

* Stages.  `Stage.Ends` says how a stage ends as far as the record and the files go.
* Inputs.  `Attempt` lists what can become of one input, and `Assembled` is a run of
  inputs that were all assembled.  Each way to fail ends the process, which skips what is
  deferred, but removes the scratch directory before that.
* Builds.  `Ending` lists how a build can end.
* Runs.  `run_ending`: the whole program ends in one of these ways, the linker is started
  exactly if every input was assembled, and the scratch directory is gone in any case.
-/

namespace Cflat

namespace Build

open CommandLine (App Flag FlagSet)

/-- The commands on a record, in order. -/
def commandsOf (events : List Event) : List Command :=
  State.commands { files := {}, events }

theorem commandsOf_append (events events' : List Event) :
    commandsOf (events ++ events') = commandsOf events ++ commandsOf events' :=
  List.filterMap_append

theorem commandsOf_load (events : List Event) (path : String) :
    commandsOf (events ++ [.load path]) = commandsOf events := by
  simp [commandsOf, State.commands]

theorem commandsOf_write (events : List Event) (path text : String) :
    commandsOf (events ++ [.write path text]) = commandsOf events := by
  simp [commandsOf, State.commands]

/-! ## Stages -/

namespace Stage

variable {α β : Type} {before after after' : List Event} {files files' files'' : FileTree}

/-- From any state with one record and files, a stage ends with a result and leaves another
record and files.  What it prints does not matter. -/
def Ends (x : Stage α) (before : List Event) (files : FileTree) (r : Except Abort α)
    (after : List Event) (files' : FileTree) : Prop :=
  ∀ s : State, s.events = before → s.files = files →
    ∃ s', x.run.run s = (r, s') ∧ s'.events = after ∧ s'.files = files'

theorem ends_pure (a : α) : Ends (pure a) before files (.ok a) before files :=
  fun s hevents hfiles => ⟨s, rfl, hevents, hfiles⟩

theorem ends_report (text : String) : Ends (report text) before files (.ok ()) before files :=
  fun _ hevents hfiles => ⟨_, rfl, hevents, hfiles⟩

theorem ends_print (text : String) : Ends (print text) before files (.ok ()) before files :=
  fun _ hevents hfiles => ⟨_, rfl, hevents, hfiles⟩

theorem ends_fail (text : String) :
    Ends (fail text : Stage α) before files (.error (.exit .failure)) before files :=
  fun _ hevents hfiles => ⟨_, rfl, hevents, hfiles⟩

theorem ends_failInternal (text : String) :
    Ends (failInternal text : Stage α) before files (.error (.exit .internal)) before files :=
  fun _ hevents hfiles => ⟨_, rfl, hevents, hfiles⟩

/-- A stage that does nothing but change the files. -/
theorem ends_modify (f : FileTree → FileTree) :
    Ends (modify fun s => { s with files := f s.files }) before files (.ok ()) before
      (f files) := by
  rintro s rfl rfl
  exact ⟨_, rfl, rfl, rfl⟩

theorem run_deferring_ok (cleanup : Stage Unit) {stage : Stage Unit} {s s₁ : State}
    (h : stage.run.run s = (.ok (), s₁)) :
    (deferring cleanup stage).run.run s = cleanup.run.run s₁ := by
  have hstage : stage s = (.ok (), s₁) := h
  change deferring cleanup stage s = cleanup s₁
  simp only [deferring, hstage]

/-- What is deferred is not done if the process exits. -/
theorem run_deferring_exit (cleanup : Stage Unit) {stage : Stage Unit} {s s₁ : State}
    {status : ExitStatus} (h : stage.run.run s = (.error (.exit status), s₁)) :
    (deferring cleanup stage).run.run s = (.error (.exit status), s₁) := by
  have hstage : stage s = (.error (.exit status), s₁) := h
  change deferring cleanup stage s = _
  simp only [deferring, hstage]

theorem Ends.bind {x : Stage α} {f : α → Stage β} {a : α} {r : Except Abort β}
    (hx : Ends x before files (.ok a) after files')
    (hf : Ends (f a) after files' r after' files'') :
    Ends (x >>= f) before files r after' files'' := by
  intro s hevents hfiles
  obtain ⟨s₁, hrun, hevents₁, hfiles₁⟩ := hx s hevents hfiles
  have hgives : Gives x s a s₁ := hrun
  rw [hgives.run_bind]
  exact hf s₁ hevents₁ hfiles₁

/-- A stage that fails ends the stages after it. -/
theorem Ends.bind_error {x : Stage α} {f : α → Stage β} {e : Abort}
    (hx : Ends x before files (.error e) after files') :
    Ends (x >>= f) before files (.error e) after files' := by
  intro s hevents hfiles
  obtain ⟨s₁, hrun, hafter⟩ := hx s hevents hfiles
  refine ⟨s₁, ?_, hafter⟩
  rw [run_bind, hrun]

theorem ends_record (e : Event) : Ends (record e) before files (.ok ()) (before ++ [e]) files := by
  rintro s rfl rfl
  exact ⟨_, rfl, rfl, rfl⟩

/-- A stage that looks at the state. -/
theorem Ends.get_bind {f : State → Stage β} {r : Except Abort β}
    (hf : ∀ s : State, s.events = before → s.files = files →
      Ends (f s) before files r after files') :
    Ends (get >>= f) before files r after files' := by
  intro s hevents hfiles
  rw [run_bind, run_get]
  exact hf s hevents hfiles s hevents hfiles

/-- A stage that replaces the state. -/
theorem Ends.set_bind {s : State} {f : Unit → Stage β} {r : Except Abort β}
    (hf : Ends (f ()) s.events s.files r after files') :
    Ends (set s >>= f) before files r after files' := by
  intro s₀ _ _
  rw [run_bind, run_set]
  exact hf s rfl rfl

theorem ends_load (types : Table) (path : String) :
    Ends (load types path) before files (.ok (files.loadProgram types path))
      (before ++ [.load path]) files := by
  rintro s rfl rfl
  exact ⟨_, rfl, rfl, rfl⟩

theorem ends_write_ok {path text : String} {written : FileTree}
    (h : files.write path text = .ok written) :
    Ends (write path text) before files (.ok (.ok ())) (before ++ [.write path text]) written := by
  refine .get_bind ?_
  rintro s rfl rfl
  simp only [h]
  exact .set_bind ((ends_record _).bind (ends_pure _))

theorem ends_write_error {path text : String} {e : PathError}
    (h : files.write path text = .error e) :
    Ends (write path text) before files (.ok (.error e)) before files := by
  refine .get_bind ?_
  rintro s rfl rfl
  simp only [h]
  exact ends_pure _

/-- A command is on record also if it fails. -/
theorem ends_invoke {host : Host} {c : Command} {reply : Reply}
    (hrun : host.run (commandsOf before) c files = (reply, files')) :
    Ends (invoke host c) before files (.ok (c.check reply)) (before ++ [.run c]) files' := by
  refine .get_bind ?_
  rintro s rfl rfl
  have hreply : host.run s.commands c s.files = (reply, files') := hrun
  simp only [hreply]
  exact .set_bind ((ends_record _).bind (ends_pure _))

end Stage

/-! ## Inputs -/

/-- Why an input was given up. -/
inductive Failure
  | load (e : InputError)
  | generate (e : GenerateError)
  | write (e : PathError)
  | assemble (e : CommandError)

/-- The exit status of a build that an input ends.  A width that cannot be encoded is an
error of the compiler itself. -/
def Failure.status : Failure → ExitStatus
  | .generate (.width ..) => .internal
  | _ => .failure

theorem Failure.status_ne_ok (failure : Failure) : failure.status ≠ .ok := by
  unfold status
  split <;> decide

theorem Failure.status_generate (e : GenerateError) :
    (Failure.generate e).status = if e.isInternal then .internal else .failure := by
  cases e <;> rfl

/-- The exit status of a build that comes to its end or exits. -/
def statusOf : Except ExitStatus Unit → ExitStatus
  | .ok () => .ok
  | .error status => status

theorem exists_exited_of_check {c : Command} {reply : Reply} (h : c.check reply = .ok ()) :
    ∃ stderr, reply = .exited 0 stderr := by
  unfold Command.check at h
  split at h
  · cases h
  · next code stderr =>
    split at h
    · next hcode => exact ⟨stderr, by rw [hcode]⟩
    · cases h

/-- Generation never ends with a fault for a program that was loaded from a file. -/
theorem faultless_of_loadProgram {files : FileTree} {types : Table} {path : String}
    {p : Program Site} (h : files.loadProgram types path = .ok p) (o : Options) (f : Fault) :
    (p.generate o).result ≠ .error (.fault f) := by
  unfold FileTree.loadProgram at h
  split at h
  · cases h
  · cases h
  · split at h
    · cases h
    · split at h
      · cases h
      · next doc _ _ q hload =>
        cases h
        obtain ⟨hdoc, rfl⟩ := (Document.load_accepts types doc q).mp hload
        exact (Program.outcome_of_known o hdoc.known hdoc.typed).faultless f

namespace Job

open Stage (Ends ends_pure ends_print)

variable {j : Job}

/-- The directory for the files in between. -/
def scratchLocation (j : Job) : Location :=
  FileTree.locationOf j.host.scratch

theorem ends_cleanup (j : Job) {before : List Event} {files : FileTree} :
    Ends j.cleanup before files (.ok ()) before (files.remove j.scratchLocation) :=
  Stage.ends_modify (·.remove j.scratchLocation)

theorem ends_makeScratch (j : Job) {before : List Event} {files : FileTree} :
    Ends j.makeScratch before files (.ok ()) before (files.makeDirs j.scratchLocation) :=
  Stage.ends_modify (·.makeDirs j.scratchLocation)

theorem ends_fail {α : Type} (j : Job) (text : String) {before : List Event} {files : FileTree} :
    Ends (j.fail text : Stage α) before files (.error (.exit .failure)) before
      (files.remove j.scratchLocation) :=
  j.ends_cleanup.bind (Stage.ends_fail text)

theorem ends_generate_ok {p : Program Site} {l : Asm.Listing} {text : String}
    {before : List Event} {files : FileTree} (h : (p.generate j.options).result = .ok l)
    (hrender : l.render = .ok text) :
    Ends (j.generate p) before files (.ok text) before files := by
  refine (Stage.ends_report _).bind ?_
  simp only [h, hrender]
  exact ends_pure _

theorem ends_generate_error {p : Program Site} {e : GenerateError} {before : List Event}
    {files : FileTree} (h : (p.generate j.options).result = .error e)
    (hfaultless : ∀ f, e ≠ .fault f) :
    Ends (j.generate p) before files
      (.error (.exit (if e.isInternal then .internal else .failure))) before
      (files.remove j.scratchLocation) := by
  refine (Stage.ends_report _).bind ?_
  rw [h]
  cases e with
  | init symbol type reason => exact j.ends_fail _
  | width file w => exact j.ends_cleanup.bind (Stage.ends_failInternal _)
  | fault f => exact absurd rfl (hfaultless f)

/-- The command that assembles the listing of an input. -/
def assembleCommand (j : Job) (input : String) : Command :=
  j.toolchain.assemble (j.listingPath input) (j.objectPath input)

/-- What can become of an input, given the commands that were run before and the files: how
it fails, if it does, what is put on record, and the files afterwards. -/
inductive Attempt (j : Job) (ran : List Command) (files : FileTree) (input : String) :
    Option Failure → List Event → FileTree → Prop
  | unloaded {e : InputError} :
    files.loadProgram ⟨j.options.wordSize⟩ input = .error e →
    Attempt j ran files input (some (.load e)) [.load input] files
  | ungenerated {p : Program Site} {e : GenerateError} :
    files.loadProgram ⟨j.options.wordSize⟩ input = .ok p →
    (p.generate j.options).result = .error e →
    Attempt j ran files input (some (.generate e)) [.load input] files
  | unwritten {p : Program Site} {l : Asm.Listing} {text : String} {e : PathError} :
    files.loadProgram ⟨j.options.wordSize⟩ input = .ok p →
    (p.generate j.options).result = .ok l →
    l.render = .ok text →
    files.write (j.listingPath input) text = .error e →
    Attempt j ran files input (some (.write e)) [.load input] files
  | unassembled {p : Program Site} {l : Asm.Listing} {text : String} {written after : FileTree}
      {reply : Reply} {e : CommandError} :
    files.loadProgram ⟨j.options.wordSize⟩ input = .ok p →
    (p.generate j.options).result = .ok l →
    l.render = .ok text →
    files.write (j.listingPath input) text = .ok written →
    j.host.run ran (j.assembleCommand input) written = (reply, after) →
    (j.assembleCommand input).check reply = .error e →
    Attempt j ran files input (some (.assemble e)) (j.compileEvents input text) after
  | assembled {p : Program Site} {l : Asm.Listing} {text : String} {written after : FileTree}
      {reply : Reply} :
    files.loadProgram ⟨j.options.wordSize⟩ input = .ok p →
    (p.generate j.options).result = .ok l →
    l.render = .ok text →
    files.write (j.listingPath input) text = .ok written →
    j.host.run ran (j.assembleCommand input) written = (reply, after) →
    (j.assembleCommand input).check reply = .ok () →
    Attempt j ran files input none (j.compileEvents input text) after

theorem exists_attempt (j : Job) (ran : List Command) (files : FileTree) (input : String) :
    ∃ failure? events after, Attempt j ran files input failure? events after := by
  cases hload : files.loadProgram ⟨j.options.wordSize⟩ input with
  | error e => exact ⟨_, _, _, .unloaded hload⟩
  | ok p =>
    cases hgenerate : (p.generate j.options).result with
    | error e => exact ⟨_, _, _, .ungenerated hload hgenerate⟩
    | ok l =>
      have hrender := Program.render_of_generate hgenerate
      cases hwrite : files.write (j.listingPath input) l.text with
      | error e => exact ⟨_, _, _, .unwritten hload hgenerate hrender hwrite⟩
      | ok written =>
        cases hcheck : (j.assembleCommand input).check
            (j.host.run ran (j.assembleCommand input) written).1 with
        | error e => exact ⟨_, _, _, .unassembled hload hgenerate hrender hwrite rfl hcheck⟩
        | ok _ => exact ⟨_, _, _, .assembled hload hgenerate hrender hwrite rfl hcheck⟩

theorem ends_progress (j : Job) (line : String) {before : List Event} {files : FileTree} :
    Ends (j.progress line) before files (.ok ()) before files := by
  unfold progress
  split
  · exact ends_pure ()
  · exact ends_print _

/-- The result of compiling an input. -/
def resultOf (j : Job) (input : String) : Option Failure → Except Abort (Option String)
  | none => .ok (some (j.objectPath input))
  | some failure => .error (.exit failure.status)

/-- The files after an input.  A failure removes the scratch directory. -/
def filesAfter (j : Job) (files : FileTree) : Option Failure → FileTree
  | none => files
  | some _ => files.remove j.scratchLocation

/-- The failure of an input whose assembler ended in this way. -/
def assemblyFailure? : Except CommandError Unit → Option Failure
  | .ok () => none
  | .error e => some (.assemble e)

/-- Once the listing is written the assembler is started, and decides. -/
theorem ends_compile_assembling (hlinks : j.Links) {before : List Event}
    {files written after : FileTree} {input text : String} {p : Program Site} {l : Asm.Listing}
    {reply : Reply} {result : Except CommandError Unit}
    (hloaded : files.loadProgram ⟨j.options.wordSize⟩ input = .ok p)
    (hgenerate : (p.generate j.options).result = .ok l) (hrender : l.render = .ok text)
    (hwrite : files.write (j.listingPath input) text = .ok written)
    (hrun : j.host.run (commandsOf before) (j.assembleCommand input) written = (reply, after))
    (hcheck : (j.assembleCommand input).check reply = result) :
    Ends (j.compile input) before files (j.resultOf input (assemblyFailure? result))
      (before ++ j.compileEvents input text) (j.filesAfter after (assemblyFailure? result)) := by
  have hran : commandsOf (before ++ [.load input] ++ [.write (j.listingPath input) text]) =
      commandsOf before := by
    rw [commandsOf_write, commandsOf_load]
  have hrecord : before ++ j.compileEvents input text =
      before ++ [.load input] ++ [.write (j.listingPath input) text] ++
        [.run (j.assembleCommand input)] := by
    simp [compileEvents, assembleCommand]
  have hload : Ends (Stage.load ⟨j.options.wordSize⟩ input) before files _ _ files :=
    Stage.ends_load _ _
  simp only [compile, hlinks.noDump, hlinks.noListing, Bool.false_eq_true, if_false]
  rw [← hran] at hrun
  rw [hrecord]
  refine (j.ends_progress _).bind (hload.bind ?_)
  rw [hloaded]
  refine (ends_pure _).bind ((j.ends_progress _).bind ?_)
  refine (ends_generate_ok hgenerate hrender).bind ((Stage.ends_write_ok hwrite).bind ?_)
  refine (ends_pure _).bind ((j.ends_progress _).bind ((Stage.ends_invoke hrun).bind ?_))
  rw [hcheck]
  cases result with
  | ok _ => exact (ends_pure _).bind (ends_pure _)
  | error e => exact (j.ends_fail _).bind_error

/-- The step of one input. -/
theorem Attempt.ends_compile (hlinks : j.Links) {before new : List Event}
    {files after : FileTree} {input : String} {failure? : Option Failure}
    (h : Attempt j (commandsOf before) files input failure? new after) :
    Ends (j.compile input) before files (j.resultOf input failure?) (before ++ new)
      (j.filesAfter after failure?) := by
  have hload : Ends (Stage.load ⟨j.options.wordSize⟩ input) before files _ _ files :=
    Stage.ends_load _ _
  cases h
  case assembled hloaded hgenerate hrender hwrite hcheck hrun =>
    exact ends_compile_assembling hlinks hloaded hgenerate hrender hwrite hrun hcheck
  case unassembled hloaded hgenerate hrender hwrite hcheck hrun =>
    exact ends_compile_assembling hlinks hloaded hgenerate hrender hwrite hrun hcheck
  all_goals
    simp only [compile, hlinks.noDump, hlinks.noListing, Bool.false_eq_true, if_false]
    refine (j.ends_progress _).bind (hload.bind ?_)
  case unloaded hloaded =>
    rw [hloaded]
    exact (j.ends_fail _).bind_error
  case ungenerated hloaded hgenerate =>
    have hfaultless (f : Fault) : _ ≠ GenerateError.fault f := fun he =>
      faultless_of_loadProgram hloaded j.options f (he ▸ hgenerate)
    rw [hloaded, resultOf, Failure.status_generate]
    refine (ends_pure _).bind ((j.ends_progress _).bind ?_)
    exact (ends_generate_error hgenerate hfaultless).bind_error
  case unwritten hloaded hgenerate hrender hwrite =>
    rw [hloaded]
    refine (ends_pure _).bind ((j.ends_progress _).bind ?_)
    refine (ends_generate_ok hgenerate hrender).bind ((Stage.ends_write_error hwrite).bind ?_)
    exact (j.ends_fail _).bind_error

/-- Inputs that were assembled one after the other, with their record and the files after
the last one. -/
inductive Assembled (j : Job) :
    List Command → FileTree → List String → List Event → FileTree → Prop
  | nil {ran : List Command} {files : FileTree} : Assembled j ran files [] [] files
  | cons {ran : List Command} {files mid after : FileTree} {input : String}
      {inputs : List String} {events events' : List Event} :
    Attempt j ran files input none events mid →
    Assembled j (ran ++ commandsOf events) mid inputs events' after →
    Assembled j ran files (input :: inputs) (events ++ events') after

/-- Either every input is assembled, or there is a first one that fails. -/
theorem assembled_or_failure (j : Job) (ran : List Command) (files : FileTree)
    (inputs : List String) :
    (∃ events after, Assembled j ran files inputs events after) ∨
      ∃ done input later events mid failure new after, inputs = done ++ input :: later ∧
        Assembled j ran files done events mid ∧
          Attempt j (ran ++ commandsOf events) mid input (some failure) new after := by
  induction inputs generalizing ran files with
  | nil => exact .inl ⟨_, _, .nil⟩
  | cons input inputs ih =>
    obtain ⟨failure?, events, mid, hattempt⟩ := j.exists_attempt ran files input
    cases failure? with
    | some failure =>
      exact .inr ⟨[], input, inputs, [], files, failure, events, mid, rfl, .nil,
        by simpa [commandsOf, State.commands] using hattempt⟩
    | none =>
      obtain ⟨events', after, hrest⟩ | ⟨done, input', later, events', mid', failure, new, after,
        rfl, hdone, hfailure⟩ := ih (ran ++ commandsOf events) mid
      · exact .inl ⟨_, _, .cons hattempt hrest⟩
      · refine .inr ⟨input :: done, input', later, events ++ events', mid', failure, new, after,
          rfl, .cons hattempt hdone, ?_⟩
        rwa [commandsOf_append, ← List.append_assoc]

theorem Assembled.ends_mapM (hlinks : j.Links) {ran : List Command} {files after : FileTree}
    {inputs : List String} {new : List Event} (h : Assembled j ran files inputs new after)
    {before : List Event} (hran : ran = commandsOf before) :
    Ends (inputs.mapM j.compile) before files
      (.ok (inputs.map fun input => some (j.objectPath input))) (before ++ new) after := by
  induction h generalizing before with
  | nil => simpa using ends_pure []
  | cons hattempt _ ih =>
    subst hran
    rw [List.mapM_cons, ← List.append_assoc]
    refine (hattempt.ends_compile hlinks).bind ?_
    refine (ih (commandsOf_append _ _).symm).bind ?_
    exact ends_pure _

/-- The first input that fails ends the run; the later ones do not matter. -/
theorem Assembled.ends_mapM_append (hlinks : j.Links) {ran : List Command}
    {files mid after : FileTree} {done later : List String} {input : String}
    {events new : List Event} {failure : Failure} (hdone : Assembled j ran files done events mid)
    (hfailure : Attempt j (ran ++ commandsOf events) mid input (some failure) new after)
    {before : List Event} (hran : ran = commandsOf before) :
    Ends ((done ++ input :: later).mapM j.compile) before files (.error (.exit failure.status))
      (before ++ (events ++ new)) (after.remove j.scratchLocation) := by
  induction hdone generalizing before with
  | @nil _ files =>
    subst hran
    rw [List.nil_append, List.nil_append, List.mapM_cons]
    have hattempt : Attempt j (commandsOf before) files input (some failure) new after := by
      simpa [commandsOf, State.commands] using hfailure
    exact (hattempt.ends_compile hlinks).bind_error
  | @cons _ _ _ _ _ _ events events' hattempt _ ih =>
    subst hran
    rw [List.cons_append, List.mapM_cons, List.append_assoc events, ← List.append_assoc before]
    refine (hattempt.ends_compile hlinks).bind ?_
    rw [commandsOf_append, ← List.append_assoc] at hfailure
    exact (ih hfailure (commandsOf_append _ _).symm).bind_error

/-- Only the assembler is run for an input. -/
theorem Attempt.path_eq {ran : List Command} {files after : FileTree} {input : String}
    {failure? : Option Failure} {events : List Event}
    (h : Attempt j ran files input failure? events after) {c : Command}
    (hc : c ∈ commandsOf events) : c.path = j.toolchain.assembler := by
  cases h <;> simp_all [commandsOf, State.commands, compileEvents, Toolchain.assemble]

theorem Assembled.path_eq {ran : List Command} {files after : FileTree} {inputs : List String}
    {events : List Event} (h : Assembled j ran files inputs events after) {c : Command}
    (hc : c ∈ commandsOf events) : c.path = j.toolchain.assembler := by
  induction h with
  | nil => simp [commandsOf, State.commands] at hc
  | cons hattempt _ ih =>
    rw [commandsOf_append, List.mem_append] at hc
    rcases hc with hc | hc
    · exact hattempt.path_eq hc
    · exact ih hc

/-! ## Builds -/

/-- How a build that is to link ends, with its exit status and its record. -/
inductive Ending (j : Job) (link : Command) (start : FileTree) (inputs : List String) :
    ExitStatus → List Event → Prop
  /-- An input fails after those before it were assembled. -/
  | stopped {done later : List String} {input : String} {events new : List Event}
      {mid after : FileTree} {failure : Failure} :
    inputs = done ++ input :: later →
    Assembled j [] start done events mid →
    Attempt j (commandsOf events) mid input (some failure) new after →
    Ending j link start inputs failure.status (events ++ new)
  /-- All inputs are assembled, but the linker fails. -/
  | unlinked {events : List Event} {mid after : FileTree} {reply : Reply} {e : CommandError} :
    Assembled j [] start inputs events mid →
    j.host.run (commandsOf events) link mid = (reply, after) →
    link.check reply = .error e →
    Ending j link start inputs .failure (events ++ [.run link])
  | linked {events : List Event} {mid after : FileTree} {reply : Reply} :
    Assembled j [] start inputs events mid →
    j.host.run (commandsOf events) link mid = (reply, after) →
    link.check reply = .ok () →
    Ending j link start inputs .ok (events ++ [.run link])

namespace Ending

variable {link : Command} {start : FileTree} {inputs : List String} {events : List Event}

/-- The linker is started for complete builds only. -/
theorem exists_assembled {status : ExitStatus} (h : Ending j link start inputs status events)
    {c : Command} (hc : c ∈ commandsOf events) (hpath : c.path = j.toolchain.linker) :
    ∃ events mid, Assembled j [] start inputs events mid := by
  cases h with
  | stopped _ hdone hfailure =>
    have hassembler : c.path = j.toolchain.assembler := by
      rw [commandsOf_append, List.mem_append] at hc
      rcases hc with hc | hc
      · exact hdone.path_eq hc
      · exact hfailure.path_eq hc
    rw [hassembler] at hpath
    exact absurd hpath (show "as" ≠ "cc" by decide)
  | unlinked hassembled => exact ⟨_, _, hassembled⟩
  | linked hassembled => exact ⟨_, _, hassembled⟩

theorem exists_exited (h : Ending j link start inputs .ok events) :
    ∃ events mid stderr after, Assembled j [] start inputs events mid ∧
      j.host.run (commandsOf events) link mid = (.exited 0 stderr, after) := by
  generalize hstatus : ExitStatus.ok = status at h
  cases h with
  | @stopped _ _ _ _ _ _ _ failure =>
    exact absurd hstatus.symm failure.status_ne_ok
  | unlinked => cases hstatus
  | linked hassembled hrun hcheck =>
    obtain ⟨stderr, rfl⟩ := exists_exited_of_check hcheck
    exact ⟨_, _, stderr, _, hassembled, hrun⟩

end Ending

/-- The command that links the objects of the inputs. -/
def linkCommand (j : Job) (inputs : List String) : Command :=
  j.toolchain.link j.programName (inputs.map j.objectPath) j.options.linkerArgs

/-- How a build ends once the linker was run. -/
def linkResult {ε : Type} : Except ε Unit → Except ExitStatus Unit
  | .ok () => .ok ()
  | .error _ => .error .failure

/-- What a build leaves of the files.  One that exits has removed the scratch directory. -/
def leaves (j : Job) (files : FileTree) : Except ExitStatus Unit → FileTree
  | .ok () => files
  | .error _ => files.remove j.scratchLocation

/-- Once all inputs are assembled the linker is started, and decides. -/
theorem Assembled.ends_build (hlinks : j.Links) {inputs : List String} {start mid after : FileTree}
    {events : List Event} (h : Assembled j [] start inputs events mid) {reply : Reply}
    (hrun : j.host.run (commandsOf events) (j.linkCommand inputs) mid = (reply, after)) :
    let r := linkResult ((j.linkCommand inputs).check reply)
    Ends (j.build inputs) [] start (r.mapError .exit) (events ++ [.run (j.linkCommand inputs)])
      (j.leaves after r) := by
  have hobjects : (inputs.map fun input => some (j.objectPath input)).filterMap id =
      inputs.map j.objectPath := by
    rw [List.filterMap_map]
    exact List.filterMap_eq_map_iff_forall_eq_some.mpr fun _ _ => rfl
  have hcompiled : Ends (j.compileAll inputs) [] start
      (.ok (inputs.map fun input => some (j.objectPath input))) events mid :=
    (j.ends_progress _).bind (h.ends_mapM hlinks rfl)
  have hlink := Stage.ends_invoke hrun
  intro r
  rw [build_eq hlinks]
  refine hcompiled.bind ?_
  rw [hobjects]
  dsimp only [r]
  cases hcheck : (j.linkCommand inputs).check reply with
  | error e =>
    rw [hcheck] at hlink
    exact Ends.bind_error ((j.ends_progress _).bind (hlink.bind (j.ends_fail _).bind_error))
  | ok _ =>
    rw [hcheck] at hlink
    have hlinked : Ends (j.link (inputs.map j.objectPath)) events mid (.ok ())
        (events ++ [.run (j.linkCommand inputs)]) after :=
      (j.ends_progress _).bind (hlink.bind ((ends_pure ()).bind (j.ends_progress _)))
    exact hlinked.bind (j.ends_progress _)

/-- Every build that is to link ends in one of the three ways. -/
theorem exists_ending (hlinks : j.Links) (start : FileTree) (inputs : List String) :
    ∃ r events after,
      Ends (j.build inputs) [] start (r.mapError .exit) events (j.leaves after r) ∧
      Ending j (j.linkCommand inputs) start inputs (statusOf r) events := by
  obtain ⟨events, mid, h⟩ | ⟨done, input, later, events, mid, failure, new, after, rfl, hdone,
    hfailure⟩ := j.assembled_or_failure [] start inputs
  · refine ⟨_, _, _, h.ends_build hlinks rfl, ?_⟩
    cases hcheck : (j.linkCommand inputs).check
        (j.host.run (commandsOf events) (j.linkCommand inputs) mid).1 with
    | error e => exact .unlinked h rfl hcheck
    | ok _ => exact .linked h rfl hcheck
  · refine ⟨.error failure.status, events ++ new, after, ?_, .stopped rfl hdone hfailure⟩
    rw [build_eq hlinks]
    refine Ends.bind_error ((j.ends_progress _).bind ?_)
    exact hdone.ends_mapM_append hlinks hfailure rfl

/-- What is deferred is done after a build that comes to its end.  One that exits skips it,
but has done the same before. -/
theorem ends_deferring (j : Job) {stage : Stage Unit} {r : Except ExitStatus Unit}
    {before after : List Event} {files files' : FileTree}
    (h : Ends stage before files (r.mapError .exit) after (j.leaves files' r)) :
    Ends (Stage.deferring j.cleanup stage) before files (r.mapError .exit) after
      (files'.remove j.scratchLocation) := by
  intro s hevents hfiles
  obtain ⟨s₁, hrun, hevents₁, hfiles₁⟩ := h s hevents hfiles
  cases r with
  | ok _ =>
    rw [Stage.run_deferring_ok j.cleanup hrun]
    exact j.ends_cleanup s₁ hevents₁ hfiles₁
  | error status => exact ⟨s₁, Stage.run_deferring_exit j.cleanup hrun, hevents₁, hfiles₁⟩

theorem ends_perform (hlinks : j.Links) (hprint : j.settings.printFlags = false)
    {inputs : List String} (hinputs : inputs ≠ []) {r : Except ExitStatus Unit}
    {events : List Event} {files files' : FileTree}
    (h : Ends (j.build inputs) [] (files.makeDirs j.scratchLocation) (r.mapError .exit) events
      (j.leaves files' r)) :
    Ends (j.perform inputs) [] files (r.mapError .exit) events
      (files'.remove j.scratchLocation) := by
  have hbuild : Ends (do j.makeScratch; Stage.deferring j.cleanup (j.build inputs)) [] files
      (r.mapError .exit) events (files'.remove j.scratchLocation) :=
    j.ends_makeScratch.bind (j.ends_deferring h)
  simp only [perform, hprint, hlinks.noListing, hlinks.noObject, hinputs, List.isEmpty_iff,
    Bool.or_false, Bool.and_false, Bool.false_eq_true, if_false]
  refine (Stage.ends_report _).bind ?_
  split
  · exact (Stage.ends_report _).bind hbuild
  · exact hbuild

end Job

/-! ## Runs -/

/-- The flags of the compiler, with the one for help. -/
def allFlags : FlagSet := (flagSet.define App.helpFlag).1

theorem parse_of_act {year : Nat} {arguments inputs : List String} {a : App}
    (h : app.run year arguments = (a, .ok (.act inputs))) :
    (allFlags.parse arguments).2 = .ok () ∧ a.flags = (allFlags.parse arguments).1 := by
  have hdefine : app.flags.define App.helpFlag = (allFlags, .ok ()) := rfl
  rw [App.run, hdefine] at h
  dsimp only at h
  cases hparse : (allFlags.parse arguments).2 with
  | error e =>
    rw [hparse] at h
    cases h
  | ok _ =>
    rw [hparse] at h
    dsimp only at h
    split at h
    · cases h
    · cases h
      exact ⟨rfl, rfl⟩

theorem linkerArgs_of_act (host : Host) {year : Nat} {arguments inputs : List String} {a : App}
    (h : app.run year arguments = (a, .ok (.act inputs))) :
    (jobOf host a.flags).options.linkerArgs = allFlags.given "linker-arg" arguments := by
  have hargs : (jobOf host a.flags).options.linkerArgs = (Settings.ofFlags a.flags).linkerArgs :=
    List.nil_append _
  obtain ⟨hparse, hflags⟩ := parse_of_act h
  obtain ⟨f, hf, hlist⟩ : ∃ f, allFlags.find? "linker-arg" = some f ∧ f.value = .list [] :=
    ⟨_, rfl, rfl⟩
  rw [hargs, hflags, Settings.ofFlags]
  exact (FlagSet.items_parse hparse hf hlist).trans (List.nil_append _)

variable {h : Host} {files : FileTree} {arguments inputs : List String} {a : App}

/-- A run does what the build does, and removes the scratch directory. -/
theorem run_of_build (hact : app.run h.year arguments = (a, .ok (.act inputs)))
    (hinputs : inputs ≠ []) (hlinks : (jobOf h a.flags).Links)
    (hprint : (jobOf h a.flags).settings.printFlags = false) {r : Except ExitStatus Unit}
    {events : List Event} {after : FileTree}
    (hbuild : Stage.Ends ((jobOf h a.flags).build inputs) []
      (files.makeDirs (jobOf h a.flags).scratchLocation) (r.mapError .exit) events
      ((jobOf h a.flags).leaves after r)) :
    (run h files arguments).status = statusOf r ∧
      (run h files arguments).state.events = events ∧
      (run h files arguments).state.files = after.remove (jobOf h a.flags).scratchLocation := by
  have hprogram : program h arguments = (jobOf h a.flags).perform inputs := by
    rw [program, hact]
  obtain ⟨s, hrun, hevents, hfiles⟩ :=
    Job.ends_perform hlinks hprint hinputs hbuild { files } rfl rfl
  have hrun' : program h arguments { files } = (r.mapError .exit, s) := by
    rw [hprogram]
    exact hrun
  rw [run, hrun']
  cases r with
  | ok _ => exact ⟨rfl, hevents, hfiles⟩
  | error e => exact ⟨rfl, hevents, hfiles⟩

/-- A host on which the second command fails. -/
def brokenHost : Host :=
  { idleHost with run := fun ran _ files => (.exited (if ran.length = 1 then 1 else 0) "", files) }

/-- Two inputs, and a word for the linker that it never gets. -/
def brokenArguments : List String := ["-q", "-Lm", "a/u.json", "b/u.v.json"]

end Build

end Cflat
