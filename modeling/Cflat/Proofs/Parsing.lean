import Cflat.Proofs.Arguments
import Mathlib.Data.List.Induction

/-!
# Command lines in parts

A command line that parses, and in which no double dash ends the flags, leaves the parser
where it was at the start: it is about to read a flag or a positional argument.  What follows
is then parsed as if it were a command line of its own, for the flag set as the first part
left it.

* `stops_iff`: a double dash ends the flags where what stands before it parses.
* `completes_iff`: the first part of a command line, in the terms of the parser.
* `keeps_parse`: what setting a value keeps, parsing keeps.
* `stateAfter_append`: the two parts of a command line.
-/

namespace Cflat.CommandLine

namespace FlagSet

/-- The state of the parser after some arguments. -/
def stateAfter (fs : FlagSet) (arguments : List String) : ParseState :=
  arguments.foldl ParseState.step { set := { fs with args := [] } }

theorem parse_eq (fs : FlagSet) (arguments : List String) :
    fs.parse arguments = ((fs.stateAfter arguments).set, (fs.stateAfter arguments).result) := rfl

/-- A double dash ends the flags unless a flag takes it as its value: what stands before it
is a command line that parses. -/
def Stops (fs : FlagSet) (arguments : List String) : Prop :=
  ∃ before rest, arguments = before ++ "--" :: rest ∧ (fs.parse before).2 = .ok ()

/-- The arguments parse, and one that follows them stands in flag position. -/
structure Completes (fs : FlagSet) (arguments : List String) : Prop where
  ok : (fs.parse arguments).2 = .ok ()
  not_stops : ¬fs.Stops arguments

theorem read_eq_terminator_iff (fs : FlagSet) (arg : String) :
    fs.read arg = .terminator ↔ arg = "--" := by
  have hlong (f : Flag) (value : Option String) : readLong f arg value ≠ .terminator := by
    cases value with
    | some value => simp [readLong]
    | none => by_cases hswitch : f.value.isSwitch <;> simp [readLong, hswitch]
  have hshort (first : Char) (rest : List Char) : fs.readShort arg first rest ≠ .terminator := by
    unfold readShort
    dsimp only
    split
    · simp
    · split
      · simp
      · split <;> simp
  constructor
  · intro h
    unfold read at h
    split at h
    · next hchars => exact String.toList_injective hchars
    · dsimp only at h
      split at h
      · exact absurd h (hlong _ _)
      · cases h
    · dsimp only at h
      split at h
      · exact absurd h (hlong _ _)
      · exact absurd h (hshort _ _)
    · cases h
  · rintro rfl
    rfl

end FlagSet

namespace ParseState

variable {s : ParseState}

theorem result_eq_ok_iff : s.result = .ok () ↔ s.mode = .flags ∨ s.mode = .rest := by
  unfold result
  cases s.mode <;> simp

theorem mode_assign_ne_rest (s : ParseState) (name word : String) :
    (s.assign name word).mode ≠ .rest := by
  obtain ⟨e, hfailed⟩ | ⟨hflags, -⟩ := s.assign_cases name word
  · simp [hfailed]
  · simp [hflags]

/-- The flags end at a double dash in flag position, and do not start again. -/
theorem mode_step_eq_rest_iff (s : ParseState) (arg : String) :
    (s.step arg).mode = .rest ↔ s.mode = .rest ∨ s.mode = .flags ∧ arg = "--" := by
  rw [← s.set.read_eq_terminator_iff arg]
  unfold step
  cases hmode : s.mode with
  | failed e => simp [hmode]
  | rest => simp [addArg, hmode]
  | value name shown => simp [mode_assign_ne_rest]
  | flags =>
    cases hread : s.set.read arg <;> simp [addArg, hmode, mode_assign_ne_rest]

theorem foldl_step_rest (hmode : s.mode = .rest) (arguments : List String) :
    arguments.foldl step s = { s with set := { s.set with args := s.set.args ++ arguments } } := by
  induction arguments generalizing s with
  | nil => simp
  | cons arg rest ih =>
    have hstep : s.step arg = s.addArg arg := by simp [step, hmode]
    rw [List.foldl_cons, hstep, ih (by simpa [addArg] using hmode)]
    simp [addArg]

/-! ## The positional arguments so far

Nothing that the parser does depends on them. -/

/-- The same state with more positional arguments before those it has. -/
def prepend (args : List String) (s : ParseState) : ParseState :=
  { s with set := { s.set with args := args ++ s.set.args } }

theorem assign_prepend (args : List String) (s : ParseState) (name word : String) :
    (s.prepend args).assign name word = (s.assign name word).prepend args := by
  have hfind : (s.prepend args).set.find? name = s.set.find? name := rfl
  unfold assign
  rw [hfind]
  cases s.set.find? name with
  | none => rfl
  | some f =>
    dsimp only
    cases f.value.set word <;> rfl

theorem addArg_prepend (args : List String) (s : ParseState) (arg : String) :
    (s.prepend args).addArg arg = (s.addArg arg).prepend args := by
  simp [addArg, prepend]

theorem step_prepend (args : List String) (s : ParseState) (arg : String) :
    (s.prepend args).step arg = (s.step arg).prepend args := by
  have hread : (s.prepend args).set.read arg = s.set.read arg := rfl
  have hkept : (s.prepend args).mode = s.mode := rfl
  unfold step
  rw [hread, hkept]
  cases s.mode with
  | failed e => rfl
  | rest => exact addArg_prepend args s arg
  | value name shown => exact assign_prepend args s name arg
  | flags =>
    cases s.set.read arg with
    | positional => exact addArg_prepend args s arg
    | set name word => exact assign_prepend args s name word
    | terminator | setNext | refused => rfl

theorem foldl_step_prepend (args : List String) (s : ParseState) (arguments : List String) :
    arguments.foldl step (s.prepend args) = (arguments.foldl step s).prepend args := by
  induction arguments generalizing s with
  | nil => rfl
  | cons arg rest ih => rw [List.foldl_cons, step_prepend, ih, List.foldl_cons]

end ParseState

namespace FlagSet

variable {fs : FlagSet} {xs : List String}

/-! ## The end of the flags -/

theorem stateAfter_concat (fs : FlagSet) (xs : List String) (arg : String) :
    fs.stateAfter (xs ++ [arg]) = (fs.stateAfter xs).step arg := by
  simp [stateAfter]

theorem stops_iff (fs : FlagSet) (xs : List String) :
    fs.Stops xs ↔ (fs.stateAfter xs).mode = .rest := by
  constructor
  · rintro ⟨before, rest, rfl, hok⟩
    have hstep : ((fs.stateAfter before).step "--").mode = .rest := by
      rw [ParseState.mode_step_eq_rest_iff]
      exact (ParseState.result_eq_ok_iff.mp hok).symm.imp id fun hflags => ⟨hflags, rfl⟩
    have hsplit : fs.stateAfter (before ++ "--" :: rest) =
        rest.foldl ParseState.step ((fs.stateAfter before).step "--") := by
      simp [stateAfter]
    rw [hsplit, ParseState.foldl_step_rest hstep]
    exact hstep
  · induction xs using List.reverseRecOn with
    | nil => simp [stateAfter]
    | append_singleton xs arg ih =>
      rw [stateAfter_concat, ParseState.mode_step_eq_rest_iff]
      rintro (hrest | ⟨hflags, rfl⟩)
      · obtain ⟨before, rest, rfl, hok⟩ := ih hrest
        exact ⟨before, rest ++ [arg], by simp, hok⟩
      · exact ⟨xs, [], rfl, ParseState.result_eq_ok_iff.mpr (.inl hflags)⟩

theorem completes_iff (fs : FlagSet) (xs : List String) :
    fs.Completes xs ↔ (fs.stateAfter xs).mode = .flags := by
  have hok : (fs.parse xs).2 = .ok () ↔ _ := ParseState.result_eq_ok_iff
  constructor
  · intro h
    exact (hok.mp h.ok).resolve_right fun hrest => h.not_stops ((fs.stops_iff xs).mpr hrest)
  · intro hflags
    refine ⟨hok.mpr (.inl hflags), fun hstops => ?_⟩
    have hrest := (fs.stops_iff xs).mp hstops
    rw [hflags] at hrest
    cases hrest

instance (fs : FlagSet) (xs : List String) : Decidable (fs.Completes xs) :=
  decidable_of_iff _ (fs.completes_iff xs).symm

/-! ## What parsing keeps -/

/-- An argument sets one value, adds a positional argument or changes the mode only. -/
theorem keeps_step {P : FlagSet → Prop}
    (hset : ∀ fs name f word v, fs.find? name = some f → f.value.set word = .ok v → P fs →
      P (fs.setValue name v))
    (hargs : ∀ fs args, P fs → P { fs with args }) {s : ParseState} (h : P s.set) (arg : String) :
    P (s.step arg).set := by
  have hassign (name word : String) : P (s.assign name word).set := by
    unfold ParseState.assign
    split
    · exact h
    · next f hfind =>
      split
      · next v hword => exact hset _ name f word v hfind hword h
      · exact h
  unfold ParseState.step
  split
  · exact h
  · exact hargs _ _ h
  · exact hassign _ _
  · split
    · exact h
    · exact hargs _ _ h
    · exact hassign _ _
    · exact h
    · exact h

theorem keeps_parse {P : FlagSet → Prop}
    (hset : ∀ fs name f word v, fs.find? name = some f → f.value.set word = .ok v → P fs →
      P (fs.setValue name v))
    (hargs : ∀ fs args, P fs → P { fs with args }) (h : P fs) (xs : List String) :
    P (fs.parse xs).1 := by
  induction xs using List.reverseRecOn with
  | nil => exact hargs fs [] h
  | append_singleton xs arg ih =>
    rw [parse_eq, stateAfter_concat]
    exact keeps_step hset hargs ih arg

theorem alike_parse (fs : FlagSet) (xs : List String) : Alike (fs.parse xs).1 fs := by
  refine keeps_parse (P := (Alike · fs)) ?_ ?_ (.refl fs) xs
  · intro _ _ _ _ _ hfind hword h
    exact (alike_setValue hfind hword).trans h
  · intro _ _ h
    exact ⟨h.find?, h.shorthands⟩

/-! ## The two parts of a command line -/

/-- Parse further arguments, after the positional ones there are. -/
def resume (fs : FlagSet) (arguments : List String) : FlagSet × Except ParseError Unit :=
  ({ (fs.parse arguments).1 with args := fs.args ++ (fs.parse arguments).1.args },
    (fs.parse arguments).2)

/-- From flag position, the parser goes on as from the start. -/
theorem foldl_step_flags (fs : FlagSet) (ys : List String) :
    ys.foldl ParseState.step { set := fs } = (fs.stateAfter ys).prepend fs.args := by
  have hstart : ({ set := fs } : ParseState) =
      ParseState.prepend fs.args { set := { fs with args := [] } } := by
    simp [ParseState.prepend]
  rw [hstart, ParseState.foldl_step_prepend]
  rfl

theorem stateAfter_append (h : fs.Completes xs) (ys : List String) :
    fs.stateAfter (xs ++ ys) = ys.foldl ParseState.step { set := (fs.parse xs).1 } := by
  have hstate : fs.stateAfter xs = { set := (fs.parse xs).1 } := by
    rw [← (fs.completes_iff xs).mp h]
    rfl
  rw [← hstate]
  exact List.foldl_append

theorem parse_append (h : fs.Completes xs) (ys : List String) :
    fs.parse (xs ++ ys) = (fs.parse xs).1.resume ys := by
  rw [parse_eq, stateAfter_append h, foldl_step_flags]
  rfl

theorem parse_terminator (fs : FlagSet) (zs : List String) :
    fs.parse ("--" :: zs) = ({ fs with args := zs }, .ok ()) := by
  have hstep : ParseState.step { set := { fs with args := [] } } "--" =
      { set := { fs with args := [] }, mode := .rest } := rfl
  rw [parse_eq, stateAfter, List.foldl_cons, hstep, ParseState.foldl_step_rest rfl]
  rfl

/-- **Parsing is compositional.**  After a first part that does not stop at a double dash,
the rest of a command line is parsed like one of its own, with the positional arguments of
both parts one after the other; after a double dash, everything is positional. -/
theorem parse_compositional (fs : FlagSet) (xs ys zs : List String) (h : fs.Completes xs) :
    let first := (fs.parse xs).1
    fs.parse (xs ++ ys) =
        ({ (first.parse ys).1 with args := first.args ++ (first.parse ys).1.args },
          (first.parse ys).2) ∧
      fs.parse (xs ++ ["--"] ++ zs) = ({ first with args := first.args ++ zs }, .ok ()) := by
  refine ⟨parse_append h ys, ?_⟩
  rw [List.append_assoc, parse_append h]
  simp [resume, parse_terminator]

/-- A text, a switch and a list, each with a shorthand. -/
def sampleFlags : FlagSet :=
  (({} : FlagSet).defineAll [Flag.make "output" "o" "" (.text "a.out") "file",
    Flag.make "verbose" "v" "" (.switch false) "",
    Flag.make "linker-arg" "L" "" (.list []) "arg"]).1

/-- A double dash that is a value does not stop the parser, and the second part may fail. -/
theorem parse_compositional_dashes :
    let xs := ["-o", "--", "a.json"]
    let ys := ["b.json", "-v", "--linker-arg"]
    let first := (sampleFlags.parse xs).1
    sampleFlags.Completes xs ∧
      sampleFlags.parse (xs ++ ys) =
        ({ (first.parse ys).1 with args := first.args ++ (first.parse ys).1.args },
          (first.parse ys).2) ∧
      sampleFlags.parse (xs ++ ["--"] ++ ys) = ({ first with args := first.args ++ ys }, .ok ()) :=
  ⟨by decide +kernel, parse_compositional sampleFlags _ _ _ (by decide +kernel)⟩

end FlagSet

end Cflat.CommandLine
