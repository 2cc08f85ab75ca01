import Cflat.CommandLine.App
import Mathlib.Data.List.Basic

/-!
# What a command line gives to its flags

How an argument is read depends on which flags there are, and not on their values.  The
words that a command line gives to the flags are therefore known from the flag set before
it is parsed (`assignments`), and the values after parsing are those words set in order.

* `FlagSet.Alike.read`: flag sets that differ in values only read arguments alike.
* `find?_parse`: each flag ends with the words of the command line set in order.
* `items_parse`: a list flag has collected its words, in the order of the command line.
-/

namespace Cflat.CommandLine

namespace Value

/-- Set a value to some words in order; a word that is refused leaves it. -/
def after (v : Value) (words : List String) : Value :=
  words.foldl (fun v word => (v.set word).toOption.getD v) v

theorem after_list (items words : List String) :
    (list items).after words = list (items ++ words) := by
  induction words generalizing items with
  | nil => simp [after]
  | cons word words ih => simpa [after, set, Except.toOption] using ih (items ++ [word])

theorem isSwitch_of_set {v v' : Value} {word : String} (h : v.set word = .ok v') :
    v'.isSwitch = v.isSwitch := by
  unfold set at h
  split at h
  · cases h
    rfl
  · cases h
    rfl
  · split at h
    · cases h
      rfl
    · split at h
      · cases h
        rfl
      · cases h

theorem after_append (v : Value) (words words' : List String) :
    v.after (words ++ words') = (v.after words).after words' :=
  List.foldl_append

end Value

/-- A flag after some words were given to it. -/
def Flag.after (f : Flag) (words : List String) : Flag :=
  { f with value := f.value.after words }

theorem Flag.after_nil (f : Flag) : f.after [] = f := rfl

theorem Flag.after_append (f : Flag) (words words' : List String) :
    f.after (words ++ words') = (f.after words).after words' := by
  simp [Flag.after, Value.after_append]

namespace FlagSet

/-! ## Reading arguments -/

/-- What reading an argument looks at in a flag. -/
def kindOf (f : Flag) : String × Bool :=
  (f.name, f.value.isSwitch)

theorem both_of_map_kindOf {x y : Option Flag} (h : x.map kindOf = y.map kindOf) :
    (x = none ∧ y = none) ∨ ∃ f f', x = some f ∧ y = some f' ∧ f.name = f'.name ∧
      f.value.isSwitch = f'.value.isSwitch := by
  cases x with
  | none => exact .inl ⟨rfl, Option.map_eq_none_iff.mp h.symm⟩
  | some f =>
    obtain ⟨f', hy, hkind⟩ := Option.map_eq_some_iff.mp h.symm
    obtain ⟨hname, hswitch⟩ := Prod.mk.inj hkind
    exact .inr ⟨f, f', rfl, hy, hname.symm, hswitch.symm⟩

/-- Two flag sets with the same flags, whatever their values. -/
structure Alike (a b : FlagSet) : Prop where
  find? : ∀ name, (a.find? name).map kindOf = (b.find? name).map kindOf
  shorthands : a.shorthands = b.shorthands

namespace Alike

variable {a b : FlagSet}

theorem refl (a : FlagSet) : Alike a a := ⟨fun _ => rfl, rfl⟩

theorem trans {c : FlagSet} (h : Alike a b) (h' : Alike b c) : Alike a c where
  find? name := (h.find? name).trans (h'.find? name)
  shorthands := h.shorthands.trans h'.shorthands

theorem ofShorthand? (h : Alike a b) (shorthand : String) :
    (a.ofShorthand? shorthand).map kindOf = (b.ofShorthand? shorthand).map kindOf := by
  unfold FlagSet.ofShorthand?
  rw [h.shorthands]
  cases b.shorthands.lookup shorthand with
  | none => rfl
  | some name => exact h.find? name

theorem readShort (h : Alike a b) (arg : String) (first : Char) (rest : List Char) :
    a.readShort arg first rest = b.readShort arg first rest := by
  unfold FlagSet.readShort
  by_cases hascii : first.toNat < 0x80
  · simp only [hascii, if_true]
    obtain ⟨hfa, hfb⟩ | ⟨f, f', hfa, hfb, hname, hswitch⟩ :=
      both_of_map_kindOf (h.ofShorthand? (String.singleton first))
    · rw [hfa, hfb]
    · simp only [hfa, hfb, hname, hswitch]
  · simp only [hascii, if_false]

theorem readLong {f f' : Flag} (hname : f.name = f'.name)
    (hswitch : f.value.isSwitch = f'.value.isSwitch) (arg : String) (value : Option String) :
    FlagSet.readLong f arg value = FlagSet.readLong f' arg value := by
  cases value <;> simp only [FlagSet.readLong, hname, hswitch]

theorem read (h : Alike a b) (arg : String) : a.read arg = b.read arg := by
  unfold FlagSet.read
  split
  · rfl
  · next body _ _ =>
    obtain ⟨hfa, hfb⟩ | ⟨f, f', hfa, hfb, hname, hswitch⟩ :=
      both_of_map_kindOf (h.find? (cutAtEquals body).1)
    · simp only [hfa, hfb]
    · simp only [hfa, hfb, readLong hname hswitch]
  · next first rest _ _ _ =>
    obtain ⟨hfa, hfb⟩ | ⟨f, f', hfa, hfb, hname, hswitch⟩ :=
      both_of_map_kindOf (h.find? (cutAtEquals (first :: rest)).1)
    · simp only [hfa, hfb, h.readShort]
    · simp only [hfa, hfb, readLong hname hswitch]
  · rfl

end Alike

/-- The words that a command line gives to the flags, each with the name of its flag. -/
def assignments (fs : FlagSet) : List String → List (String × String)
  | [] => []
  | arg :: rest =>
    match fs.read arg with
    | .set name word => (name, word) :: fs.assignments rest
    | .setNext name _ =>
      match rest with
      | [] => []
      | word :: rest => (name, word) :: fs.assignments rest
    | .positional => fs.assignments rest
    | .terminator => []
    | .refused _ => []

/-- The words that a command line gives to one flag, in order. -/
def given (fs : FlagSet) (name : String) (arguments : List String) : List String :=
  (fs.assignments arguments).filterMap fun a => if a.1 = name then some a.2 else none

theorem given_of_read_set {fs : FlagSet} {arg flag word : String} (h : fs.read arg = .set flag word)
    (rest : List String) (name : String) :
    fs.given name (arg :: rest) = (if flag = name then [word] else []) ++ fs.given name rest := by
  rw [given, assignments]
  simp only [h, List.filterMap_cons]
  split <;> simp_all [given]

theorem given_of_read_setNext {fs : FlagSet} {arg flag shown : String}
    (h : fs.read arg = .setNext flag shown) (word : String) (rest : List String) (name : String) :
    fs.given name (arg :: word :: rest) =
      (if flag = name then [word] else []) ++ fs.given name rest := by
  rw [given, assignments]
  simp only [h, List.filterMap_cons]
  split <;> simp_all [given]

/-! ## Setting values -/

theorem find?_setValue (fs : FlagSet) (name other : String) (v : Value) :
    (fs.setValue other v).find? name =
      if other = name then (fs.find? name).map fun f => { f with value := v }
      else fs.find? name := by
  unfold find? setValue
  induction fs.flags with
  | nil => simp
  | cons f flags ih =>
    rw [List.map_cons, List.find?_cons, List.find?_cons]
    by_cases hname : f.name = name
    · by_cases hother : other = name
      · simp [hname, hother]
      · have hne : ¬name = other := fun heq => hother heq.symm
        simp [hname, hother, hne]
    · have hkept : (if f.name = other then { f with value := v } else f).name = f.name := by
        split <;> rfl
      simpa only [hkept, hname, decide_false] using ih

theorem alike_setValue {fs : FlagSet} {name word : String} {f : Flag} {v : Value}
    (hfind : fs.find? name = some f) (hset : f.value.set word = .ok v) :
    Alike (fs.setValue name v) fs where
  shorthands := rfl
  find? other := by
    rw [find?_setValue]
    split
    · next hname =>
      subst hname
      simp [hfind, kindOf, Value.isSwitch_of_set hset]
    · rfl

end FlagSet

namespace ParseState

variable {s : ParseState} {fs : FlagSet}

/-! ## Runs of the parser -/

theorem result_foldl_failed {e : ParseError} (hmode : s.mode = .failed e)
    (arguments : List String) : (arguments.foldl step s).result = .error e := by
  induction arguments with
  | nil => simp [result, hmode]
  | cons arg rest ih => simpa [step, hmode] using ih

theorem find?_foldl_rest (hmode : s.mode = .rest) (arguments : List String) (name : String) :
    (arguments.foldl step s).set.find? name = s.set.find? name := by
  induction arguments generalizing s with
  | nil => rfl
  | cons arg rest ih =>
    rw [List.foldl_cons, ih (by simp [step, hmode, addArg])]
    simp [step, hmode, addArg, FlagSet.find?]

/-- A word that is not refused is set in its flag, and the parser goes on. -/
theorem assign_cases (s : ParseState) (flag word : String) :
    (∃ e, (s.assign flag word).mode = .failed e) ∨
      ((s.assign flag word).mode = .flags ∧ FlagSet.Alike (s.assign flag word).set s.set ∧
        ∀ name, (s.assign flag word).set.find? name =
          (s.set.find? name).map (Flag.after · (if flag = name then [word] else []))) := by
  unfold assign
  cases hfind : s.set.find? flag with
  | none =>
    refine .inr ⟨rfl, .refl _, fun name => ?_⟩
    by_cases hname : flag = name
    · simp [← hname, hfind]
    · simp [hname, Flag.after_nil]
  | some f =>
    dsimp only
    cases hset : f.value.set word with
    | error e => exact .inl ⟨.value e, rfl⟩
    | ok v =>
      refine .inr ⟨rfl, FlagSet.alike_setValue hfind hset, fun name => ?_⟩
      rw [FlagSet.find?_setValue]
      by_cases hname : flag = name
      · simp [← hname, hfind, Flag.after, Value.after, hset, Except.toOption]
      · simp [hname, Flag.after_nil]

/-- From wherever parsing the arguments succeeds, it sets the flag to the words it is given. -/
def Sets (fs : FlagSet) (name : String) (arguments : List String) : Prop :=
  ∀ s : ParseState, s.mode = .flags → FlagSet.Alike s.set fs →
    (arguments.foldl step s).result = .ok () → (arguments.foldl step s).set.find? name =
      (s.set.find? name).map (Flag.after · (fs.given name arguments))

/-- A word for a flag, and then the rest. -/
theorem Sets.assign {name : String} {rest : List String} (h : Sets fs name rest)
    (halike : FlagSet.Alike s.set fs) {flag word : String}
    (hok : (rest.foldl step (s.assign flag word)).result = .ok ()) :
    (rest.foldl step (s.assign flag word)).set.find? name = (s.set.find? name).map
      (Flag.after · ((if flag = name then [word] else []) ++ fs.given name rest)) := by
  obtain ⟨e, hfailed⟩ | ⟨hflags, hkept, hset⟩ := s.assign_cases flag word
  · rw [result_foldl_failed hfailed] at hok
    cases hok
  · rw [h _ hflags (hkept.trans halike) hok, hset, Option.map_map]
    simp only [Flag.after_append]
    rfl

theorem sets (fs : FlagSet) (name : String) (arguments : List String) :
    Sets fs name arguments := by
  fun_induction FlagSet.assignments fs arguments with
  | case1 =>
    intro s _ _ _
    simp [FlagSet.given, FlagSet.assignments, Flag.after_nil]
  | case2 arg rest flag word hread ih =>
    intro s hmode halike hok
    have hstep : s.step arg = s.assign flag word := by
      simp [step, hmode, halike.read, hread]
    rw [List.foldl_cons, hstep] at hok ⊢
    rw [FlagSet.given_of_read_set hread]
    exact ih.assign halike hok
  | case3 arg flag shown hread =>
    intro s hmode halike hok
    simp [step, hmode, halike.read, hread, result] at hok
  | case4 arg flag shown hread word rest ih =>
    intro s hmode halike hok
    have hstep : (s.step arg).step word = s.assign flag word := by
      simp [step, hmode, halike.read, hread, ParseState.assign]
    rw [List.foldl_cons, List.foldl_cons, hstep] at hok ⊢
    rw [FlagSet.given_of_read_setNext hread]
    exact ih.assign halike hok
  | case5 arg rest hread ih =>
    intro s hmode halike hok
    have hstep : s.step arg = s.addArg arg := by
      simp [step, hmode, halike.read, hread]
    rw [List.foldl_cons, hstep] at hok ⊢
    rw [ih (s.addArg arg) hmode ⟨halike.find?, halike.shorthands⟩ hok]
    simp [FlagSet.given, FlagSet.assignments, hread, addArg, FlagSet.find?]
  | case6 arg rest hread =>
    intro s hmode halike _
    have hstep : s.step arg = { s with mode := .rest } := by
      simp [step, hmode, halike.read, hread]
    rw [List.foldl_cons, hstep, find?_foldl_rest rfl]
    simp [FlagSet.given, FlagSet.assignments, hread, Flag.after_nil]
  | case7 arg rest e hread =>
    intro s hmode halike hok
    have hstep : (s.step arg).mode = .failed e := by
      simp [step, hmode, halike.read, hread]
    rw [List.foldl_cons, result_foldl_failed hstep] at hok
    cases hok

end ParseState

namespace FlagSet

variable {fs : FlagSet} {arguments : List String}

theorem find?_parse (hok : (fs.parse arguments).2 = .ok ()) (name : String) :
    (fs.parse arguments).1.find? name =
      (fs.find? name).map (Flag.after · (fs.given name arguments)) :=
  ParseState.sets fs name arguments { set := { fs with args := [] } } rfl ⟨fun _ => rfl, rfl⟩ hok

/-- A list flag collects its words in the order of the command line. -/
theorem items_parse (hok : (fs.parse arguments).2 = .ok ()) {name : String} {f : Flag}
    {items : List String} (hfind : fs.find? name = some f) (hlist : f.value = .list items) :
    (fs.parse arguments).1.items name = items ++ fs.given name arguments := by
  simp [FlagSet.items, find?_parse hok, hfind, Flag.after, hlist, Value.after_list]

end FlagSet

end Cflat.CommandLine
