import Cflat.Build.Run
import Cflat.Proofs.Paths
import Cflat.Proofs.Stateful
import Mathlib.Data.List.Nodup
import Mathlib.Logic.Function.Basic

/-!
# Where the objects of a link come from

A build keeps the listing and the object of each input in one directory, under the stem of
the input.  The record of a build tells what each file was made from, and so whether the
objects that are linked are those of the inputs.

* Stages.  A stage that comes to its end has added its own events to the record.
* Scratch files.  Two inputs share them exactly when they have the same stem.
* Provenance.  `Provenance.step` follows the inputs through the files of a build.
* Links.  `linked_objects`: the objects are those of the inputs exactly when no two inputs
  have the same stem.  Different paths are not enough.
-/

namespace Cflat.Build

/-! ## Stages -/

namespace Stage

variable {α β : Type}

/-- A stage that is followed by one without events. -/
theorem events_bind {x : Stage α} {f : α → Stage β} {s : State}
    (h : ∀ a s, ((f a).run.run s).2.events = s.events) :
    ((x >>= f).run.run s).2.events = (x.run.run s).2.events := by
  rw [run_bind]
  rcases x.run.run s with ⟨r, s₁⟩
  cases r with
  | ok a => exact h a s₁
  | error e => rfl

/-- A command is on record whether or not it succeeds. -/
theorem events_invoke (host : Host) (c : Command) (s : State) :
    ((invoke host c).run.run s).2.events = s.events ++ [.run c] :=
  rfl

theorem gives_load {types : Table} {path : String} {r : Except InputError (Program Site)}
    {s s' : State} (h : Gives (load types path) s r s') :
    s'.events = s.events ++ [.load path] ∧ s.files.loadProgram types path = r := by
  cases h
  exact ⟨rfl, rfl⟩

theorem events_of_gives_write {path text : String} {s s' : State}
    (h : Gives (write path text) s (.ok ()) s') :
    s'.events = s.events ++ [.write path text] := by
  rw [write] at h
  obtain ⟨_, s₁, hget, h⟩ := gives_bind.mp h
  cases hget
  split at h
  · cases h
    rfl
  · cases h

theorem events_of_gives_invoke {host : Host} {c : Command} {r : Except CommandError Unit}
    {s s' : State} (h : Gives (invoke host c) s r s') : s'.events = s.events ++ [.run c] := by
  rw [← h.snd_run, events_invoke]

end Stage

/-- There is no program at the root. -/
theorem not_onlySlashes_of_loadProgram {files : FileTree} {types : Table} {path : String}
    {p : Program Site} (h : files.loadProgram types path = .ok p) :
    ¬Path.OnlySlashes path := by
  unfold FileTree.loadProgram at h
  split at h
  · cases h
  · cases h
  · next text hfile => exact FileTree.not_onlySlashes_of_find hfile

namespace Job

variable {j : Job}

/-- A build that goes on to link. -/
structure Links (j : Job) : Prop where
  noDump : j.settings.dumpOnly = false
  noListing : j.settings.asmOnly = false
  noObject : j.settings.objectOnly = false

theorem events_progress (j : Job) (line : String) (s : State) :
    ((j.progress line).run.run s).2.events = s.events := by
  unfold progress
  split <;> rfl

theorem exists_progress_gives (j : Job) (line : String) (s : State) :
    ∃ s', Gives (j.progress line) s () s' := by
  unfold progress
  split <;> exact ⟨_, rfl⟩

theorem events_of_gives_progress {line : String} {s s' : State} {u : Unit}
    (h : Gives (j.progress line) s u s') : s'.events = s.events := by
  rw [← h.snd_run]
  exact j.events_progress line s

theorem events_demand {ε α : Type} (j : Job) (message : ε → String) (r : Except ε α) (s : State) :
    ((j.demand message r).run.run s).2.events = s.events := by
  cases r <;> rfl

theorem gives_demand {ε α : Type} {message : ε → String} {r : Except ε α} {a : α} {s s' : State}
    (h : Gives (j.demand message r) s a s') : r = .ok a ∧ s' = s := by
  cases r with
  | ok b =>
    cases h
    exact ⟨rfl, rfl⟩
  | error e => cases h

theorem events_of_gives_generate {ι : Type} [DecidableEq ι] {p : Program ι} {text : String}
    {s s' : State} (h : Gives (j.generate p) s text s') : s'.events = s.events := by
  rw [generate] at h
  obtain ⟨_, s₁, hreport, h⟩ := gives_bind.mp h
  cases hreport
  split at h
  · next l _ =>
    cases hrender : l.render with
    | ok text =>
      rw [hrender] at h
      cases h
      rfl
    | error f =>
      rw [hrender] at h
      cases h
  · cases h
  · split at h <;> cases h

/-- What compiling an input puts on record. -/
def compileEvents (j : Job) (input text : String) : List Event :=
  [.load input, .write (j.listingPath input) text,
    .run (j.toolchain.assemble (j.listingPath input) (j.objectPath input))]

theorem compile_gives (hlinks : j.Links) {input : String} {object : Option String} {s s' : State}
    (h : Gives (j.compile input) s object s') :
    object = some (j.objectPath input) ∧ ¬Path.OnlySlashes input ∧
      ∃ text, s'.events = s.events ++ j.compileEvents input text := by
  simp only [compile, hlinks.noDump, hlinks.noListing, Bool.false_eq_true, if_false] at h
  obtain ⟨_, s₁, hloading, h₁⟩ := gives_bind.mp h
  obtain ⟨loaded, s₂, hload, h₂⟩ := gives_bind.mp h₁
  obtain ⟨p, s₃, hloaded, h₃⟩ := gives_bind.mp h₂
  obtain ⟨_, s₄, hgenerating, h₄⟩ := gives_bind.mp h₃
  obtain ⟨text, s₅, hgenerate, h₅⟩ := gives_bind.mp h₄
  obtain ⟨written, s₆, hwrite, h₆⟩ := gives_bind.mp h₅
  obtain ⟨_, s₇, hwritten, h₇⟩ := gives_bind.mp h₆
  obtain ⟨_, s₈, hassembling, h₈⟩ := gives_bind.mp h₇
  obtain ⟨assembled, s₉, hinvoke, h₉⟩ := gives_bind.mp h₈
  obtain ⟨_, s₁₀, hassembled, hend⟩ := gives_bind.mp h₉
  obtain ⟨rfl, rfl⟩ := gives_demand hloaded
  obtain ⟨rfl, rfl⟩ := gives_demand hwritten
  obtain ⟨rfl, rfl⟩ := gives_demand hassembled
  cases hend
  obtain ⟨hevents, hprogram⟩ := Stage.gives_load hload
  refine ⟨rfl, not_onlySlashes_of_loadProgram hprogram, text, ?_⟩
  rw [Stage.events_of_gives_invoke hinvoke, events_of_gives_progress hassembling,
    Stage.events_of_gives_write hwrite, events_of_gives_generate hgenerate,
    events_of_gives_progress hgenerating, hevents, events_of_gives_progress hloading]
  simp [compileEvents]

/-- The record of compiling some inputs in order. -/
inductive Compiled (j : Job) : List String → List Event → Prop
  | nil : Compiled j [] []
  | cons (text : String) {input : String} {inputs : List String} {events : List Event} :
    Compiled j inputs events → Compiled j (input :: inputs) (j.compileEvents input text ++ events)

theorem mapM_compile_gives (hlinks : j.Links) {inputs : List String}
    {objects : List (Option String)} {s s' : State}
    (h : Gives (inputs.mapM j.compile) s objects s') :
    objects = inputs.map (fun input => some (j.objectPath input)) ∧
      (∀ input ∈ inputs, ¬Path.OnlySlashes input) ∧
        ∃ events, Compiled j inputs events ∧ s'.events = s.events ++ events := by
  induction inputs generalizing objects s with
  | nil =>
    cases h
    exact ⟨rfl, by simp, [], .nil, by simp⟩
  | cons input inputs ih =>
    rw [List.mapM_cons] at h
    obtain ⟨object, s₁, hfirst, h⟩ := gives_bind.mp h
    obtain ⟨rest, s₂, hrest, h⟩ := gives_bind.mp h
    cases h
    obtain ⟨hobject, hroot, text, hevents⟩ := compile_gives hlinks hfirst
    obtain ⟨hobjects, hroots, events, hcompiled, hafter⟩ := ih hrest
    refine ⟨by rw [hobject, hobjects, List.map_cons], ?_, _, hcompiled.cons text, ?_⟩
    · exact List.forall_mem_cons.mpr ⟨hroot, hroots⟩
    · rw [hafter, hevents, List.append_assoc]

/-- The linker is on record with its arguments, whether or not it succeeds. -/
theorem events_link (j : Job) (objects : List String) (s : State) :
    ((j.link objects).run.run s).2.events = s.events ++
      [.run (j.toolchain.link j.programName objects j.options.linkerArgs)] := by
  obtain ⟨s₁, hlinking⟩ :=
    j.exists_progress_gives ("Linking to create '" ++ j.programName ++ "'...") s
  rw [link, hlinking.run_bind, ← events_of_gives_progress hlinking]
  refine (Stage.events_bind fun _ s => ?_).trans (Stage.events_invoke ..)
  exact (Stage.events_bind fun _ => j.events_progress rule).trans (j.events_demand ..)

/-- The part of a build before its link. -/
def compileAll (j : Job) (inputs : List String) : Stage (List (Option String)) := do
  j.progress rule
  inputs.mapM j.compile

theorem build_eq (hlinks : j.Links) (inputs : List String) :
    j.build inputs = (j.compileAll inputs >>= fun objects =>
      j.link (objects.filterMap id) >>= fun _ => j.progress "Done!") := by
  simp [build, compileAll, hlinks.noDump, hlinks.noListing, hlinks.noObject]

/-- Once all inputs are compiled the linker gets their objects, in order. -/
theorem events_build (hlinks : j.Links) {inputs : List String} {objects : List (Option String)}
    {s s₁ : State} (h : Gives (j.compileAll inputs) s objects s₁) :
    ((j.build inputs).run.run s).2.events = s₁.events ++
      [.run (j.toolchain.link j.programName (objects.filterMap id) j.options.linkerArgs)] := by
  rw [build_eq hlinks, h.run_bind]
  exact (Stage.events_bind fun _ => j.events_progress "Done!").trans (j.events_link _ s₁)

/-! ## Scratch files -/

theorem scratchPath_eq_iff (j : Job) {a b extension : String}
    (ha : Path.IsName (Path.stem a ++ extension)) (hb : Path.IsName (Path.stem b ++ extension)) :
    j.scratchPath a extension = j.scratchPath b extension ↔ Path.stem a = Path.stem b := by
  obtain ⟨before, hjoin⟩ := Path.exists_join_eq j.host.scratch
  rw [scratchPath, scratchPath, hjoin _ ha, hjoin _ hb, String.append_right_inj,
    String.append_left_inj]

theorem listingPath_eq_iff (hlinks : j.Links) {a b : String} (ha : ¬Path.OnlySlashes a)
    (hb : ¬Path.OnlySlashes b) :
    j.listingPath a = j.listingPath b ↔ Path.stem a = Path.stem b := by
  simp only [listingPath, hlinks.noListing, Bool.false_eq_true, if_false]
  exact j.scratchPath_eq_iff (Path.isName_listing ha) (Path.isName_listing hb)

theorem objectPath_eq_iff (hlinks : j.Links) {a b : String} (ha : ¬Path.OnlySlashes a)
    (hb : ¬Path.OnlySlashes b) :
    j.objectPath a = j.objectPath b ↔ Path.stem a = Path.stem b := by
  simp only [objectPath, hlinks.noObject, Bool.false_eq_true, if_false]
  exact j.scratchPath_eq_iff (Path.isName_object ha) (Path.isName_object hb)

/-- No listing is in the place of an object. -/
theorem listingPath_ne_objectPath (hlinks : j.Links) {a b : String} (ha : ¬Path.OnlySlashes a)
    (hb : ¬Path.OnlySlashes b) : j.listingPath a ≠ j.objectPath b := by
  obtain ⟨before, hjoin⟩ := Path.exists_join_eq j.host.scratch
  simp only [listingPath, objectPath, hlinks.noListing, hlinks.noObject, Bool.false_eq_true,
    if_false, scratchPath, hjoin _ (Path.isName_listing ha), hjoin _ (Path.isName_object hb)]
  intro heq
  have hlast := congrArg (fun text : String => text.toList.getLast?) heq
  simp at hlast

end Job

/-! ## Provenance -/

/-- The source and the object of a command that assembles. -/
def assembled? (t : Toolchain) (c : Command) : Option (String × String) :=
  if c.path = t.assembler then
    match c.args.reverse with
    | source :: object :: _ => some (source, object)
    | _ => none
  else none

theorem assembled?_assemble (t : Toolchain) (source object : String) :
    assembled? t (t.assemble source object) = some (source, object) := by
  simp [assembled?, Toolchain.assemble]

/-- Which inputs the files of a build were made from. -/
structure Provenance where
  /-- The input that was loaded last. -/
  loaded : Option String := none
  origin : String → Option String := fun _ => none

namespace Provenance

/-- A text is written for the input that was loaded last, and an object is made from what
its source was made from. -/
def step (t : Toolchain) (v : Provenance) : Event → Provenance
  | .load path => { v with loaded := some path }
  | .write path _ => { v with origin := Function.update v.origin path v.loaded }
  | .run c =>
    match assembled? t c with
    | some (source, object) =>
      { v with origin := Function.update v.origin object (v.origin source) }
    | none => v

/-- What the files were made from after some events. -/
def follow (t : Toolchain) (v : Provenance) (events : List Event) : Provenance :=
  events.foldl (step t) v

theorem follow_append (t : Toolchain) (v : Provenance) (events events' : List Event) :
    follow t v (events ++ events') = follow t (follow t v events) events' :=
  List.foldl_append

variable {j : Job}

/-- The step of one input: its two files are made from it, and no other file changes. -/
theorem origin_compileEvents (v : Provenance) (input text path : String) :
    (follow j.toolchain v (j.compileEvents input text)).origin path =
      if path = j.objectPath input ∨ path = j.listingPath input then some input
      else v.origin path := by
  simp only [follow, Job.compileEvents, List.foldl_cons, List.foldl_nil, step,
    assembled?_assemble, Function.update_apply]
  split_ifs <;> simp_all

/-- An object stays the one of its input for as long as no other input has its path. -/
theorem origin_of_compiled {inputs : List String} {events : List Event}
    (h : Job.Compiled j inputs events) {input : String} {v : Provenance}
    (hv : v.origin (j.objectPath input) = some input)
    (hobject : ∀ other ∈ inputs, j.objectPath other = j.objectPath input → other = input)
    (hlisting : ∀ other ∈ inputs, j.listingPath other ≠ j.objectPath input) :
    (follow j.toolchain v events).origin (j.objectPath input) = some input := by
  induction h generalizing v with
  | nil => exact hv
  | @cons text other inputs events _ ih =>
    rw [follow_append]
    refine ih ?_ (fun o ho => hobject o (List.mem_cons_of_mem other ho))
      fun o ho => hlisting o (List.mem_cons_of_mem other ho)
    rw [origin_compileEvents]
    by_cases hsame : j.objectPath other = j.objectPath input
    · have hother : other = input := hobject other List.mem_cons_self hsame
      simp [hother]
    · have hne : j.listingPath other ≠ j.objectPath input := hlisting other List.mem_cons_self
      rw [if_neg, hv]
      intro hor
      rcases hor with heq | heq
      · exact hsame heq.symm
      · exact hne heq.symm

/-- After a run each input has its own object, if no two have the same path for it. -/
theorem origin_of_mem {inputs : List String} {events : List Event}
    (h : Job.Compiled j inputs events) (v : Provenance)
    (hobject : ∀ a ∈ inputs, ∀ b ∈ inputs, j.objectPath a = j.objectPath b → a = b)
    (hlisting : ∀ a ∈ inputs, ∀ b ∈ inputs, j.listingPath a ≠ j.objectPath b) :
    ∀ input ∈ inputs,
      (follow j.toolchain v events).origin (j.objectPath input) = some input := by
  induction h generalizing v with
  | nil => simp
  | @cons text first inputs events hrest ih =>
    intro input hinput
    rw [follow_append]
    rcases List.mem_cons.mp hinput with rfl | hmem
    · refine origin_of_compiled hrest ?_
        (fun o ho => hobject o (List.mem_cons_of_mem _ ho) _ hinput)
        fun o ho => hlisting o (List.mem_cons_of_mem _ ho) _ hinput
      rw [origin_compileEvents, if_pos (.inl rfl)]
    · have hmore {a : String} (ha : a ∈ inputs) : a ∈ first :: inputs :=
        List.mem_cons_of_mem first ha
      exact ih _ (fun a ha b hb => hobject a (hmore ha) b (hmore hb))
        (fun a ha b hb => hlisting a (hmore ha) b (hmore hb)) input hmem

end Provenance

/-! ## Links -/

namespace Job

variable {j : Job}

theorem nodup_map_iff_of_eq_iff {f g : String → String} {inputs : List String}
    (hdistinct : inputs.Nodup) (h : ∀ a ∈ inputs, ∀ b ∈ inputs, (f a = f b ↔ g a = g b)) :
    (inputs.map f).Nodup ↔ (inputs.map g).Nodup := by
  rw [List.nodup_map_iff_inj_on hdistinct, List.nodup_map_iff_inj_on hdistinct]
  constructor
  · intro hf a ha b hb hg
    exact hf a ha b hb ((h a ha b hb).mpr hg)
  · intro hg a ha b hb hf
    exact hg a ha b hb ((h a ha b hb).mp hf)

/-- The scratch files of inputs with different paths are apart, and each object that is
linked is the one made from its input, exactly when the inputs have different stems. -/
theorem linked_objects (hlinks : j.Links) {inputs : List String} (hdistinct : inputs.Nodup)
    {objects : List (Option String)} {s s₁ : State}
    (h : Gives (j.compileAll inputs) s objects s₁) :
    ((j.build inputs).run.run s).2.events = s₁.events ++
        [.run (j.toolchain.link j.programName (inputs.map j.objectPath) j.options.linkerArgs)] ∧
      ((inputs.map j.listingPath).Nodup ↔ (inputs.map Path.stem).Nodup) ∧
      ((inputs.map j.objectPath).Nodup ↔ (inputs.map Path.stem).Nodup) ∧
      ((∀ input ∈ inputs,
          (Provenance.follow j.toolchain {} s₁.events).origin (j.objectPath input) = some input) ↔
        (inputs.map Path.stem).Nodup) := by
  have hbuild := events_build hlinks h
  obtain ⟨_, s₀, -, hcompile⟩ := gives_bind.mp h
  obtain ⟨hobjects, hroots, events, hcompiled, hevents⟩ := mapM_compile_gives hlinks hcompile
  have hlinked : objects.filterMap id = inputs.map j.objectPath := by
    rw [hobjects, List.filterMap_map]
    exact List.filterMap_eq_map_iff_forall_eq_some.mpr fun _ _ => rfl
  have hobject : ∀ a ∈ inputs, ∀ b ∈ inputs,
      (j.objectPath a = j.objectPath b ↔ Path.stem a = Path.stem b) :=
    fun a ha b hb => objectPath_eq_iff hlinks (hroots a ha) (hroots b hb)
  refine ⟨by rw [hbuild, hlinked], ?_, nodup_map_iff_of_eq_iff hdistinct hobject, ?_⟩
  · exact nodup_map_iff_of_eq_iff hdistinct fun a ha b hb =>
      listingPath_eq_iff hlinks (hroots a ha) (hroots b hb)
  · rw [List.nodup_map_iff_inj_on hdistinct]
    constructor
    · intro horigin a ha b hb hstem
      have hpath := (hobject a ha b hb).mpr hstem
      have hsame : some a = some b := by rw [← horigin a ha, ← horigin b hb, hpath]
      exact Option.some.inj hsame
    · intro hstems
      rw [hevents, Provenance.follow_append]
      exact Provenance.origin_of_mem hcompiled _
        (fun a ha b hb hpath => hstems a ha b hb ((hobject a ha b hb).mp hpath))
        fun a ha b hb => listingPath_ne_objectPath hlinks (hroots a ha) (hroots b hb)

end Job

/-- A host on which every command succeeds and changes no file. -/
def idleHost : Host where
  year := 2026
  os := "linux"
  arch := "amd64"
  defaultHost := Options.hostOfSystem
  scratch := "/tmp/scratch"
  run := fun _ _ files => (.exited 0 "", files)

/-- The text of a unit with one variable. -/
def unitText (name : String) : String :=
  "\x7b\"entities\":[\x7b\"kind\":\"var\",\"name\":\"" ++ name ++
    "\",\"type\":\"int\"\x7d]\x7d"

/-- Units in two directories, two of them under the same name. -/
def units : FileTree :=
  FileTree.ofFiles ["home"] [("a/u.json", unitText "x"), ("b/u.json", unitText "y"),
    ("b/u.v.json", unitText "z")]

/-- A job that links without a word. -/
def quietJob : Job where
  host := idleHost
  settings :=
    { output := "", target := "", linkerArgs := [], asmOnly := false, objectOnly := false,
      dumpOnly := false, quiet := true, printFlags := false }
  options := (({} : Options).setTarget Options.hostOfSystem "linux" "amd64" "").1

/-- Where the inputs of a quiet job are found. -/
def unitsState : State where
  files := units.makeDirs ["tmp", "scratch"]

theorem Job.linked_objects_dotted : ∃ objects s₁,
    Gives (quietJob.compileAll ["a/u.json", "b/u.v.json"]) unitsState objects s₁ ∧
      (Provenance.follow quietJob.toolchain {} s₁.events).origin "/tmp/scratch/u.o" =
        some "a/u.json" ∧
      (Provenance.follow quietJob.toolchain {} s₁.events).origin "/tmp/scratch/u.v.o" =
        some "b/u.v.json" := by
  obtain ⟨objects, s₁, h⟩ := exists_gives_of_isOk
    (show ((quietJob.compileAll ["a/u.json", "b/u.v.json"]).run.run unitsState).1.isOk = true by
      decide +kernel)
  have horigin := (Job.linked_objects ⟨rfl, rfl, rfl⟩ (by decide) h).2.2.2.mpr (by decide +kernel)
  exact ⟨objects, s₁, h, horigin "a/u.json" (by decide), horigin "b/u.v.json" (by decide)⟩

/-- Different inputs with one stem: the link succeeds, the object of the second is linked
twice and the first is lost. -/
theorem linked_twice :
    (run idleHost units ["-q", "a/u.json", "b/u.json"]).status = .ok ∧
      (run idleHost units ["-q", "a/u.json", "b/u.json"]).state.commands.getLast? =
        some (quietJob.toolchain.link "a.out" ["/tmp/scratch/u.o", "/tmp/scratch/u.o"] []) ∧
      (Provenance.follow quietJob.toolchain {}
        (run idleHost units ["-q", "a/u.json", "b/u.json"]).state.events).origin
          "/tmp/scratch/u.o" = some "b/u.json" := by
  decide +kernel

end Cflat.Build
