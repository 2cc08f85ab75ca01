import Cflat.Proofs.Registration
import Mathlib.Data.List.TakeDrop
import Mathlib.Data.List.TakeWhile

/-!
# The spellings of a flag

A word is given to a flag in one argument or in two, by the long name or by the shorthand.
What an argument says is decided by the flags there are, so each spelling has a lemma about
reading it (`Gives`); that spellings agree is then a matter of what the parser does with a
word for a flag (`stateAfter_of_gives`).

* `spellings_agree`: all the spellings of a flag have one effect.
* `heeds_iff`: what stands after a shorthand is used, except after the shorthand of a switch
  and after one of several bytes, of which only the first is looked up.
-/

namespace Cflat.CommandLine

/-! ## Cutting at the first equals sign -/

/-- The text before the first `=`. -/
def beforeEquals (cs : List Char) : String :=
  String.ofList (cs.takeWhile (· != '='))

theorem cutAtEquals_fst (cs : List Char) : (cutAtEquals cs).1 = beforeEquals cs := by
  unfold cutAtEquals beforeEquals
  rw [List.span_eq_takeWhile_dropWhile]
  split <;> simp_all

section

variable {name : String} (h : '=' ∉ name.toList)

include h

theorem ne_equals_of_mem : ∀ c ∈ name.toList, (c != '=') = true := by
  intro c hc
  simpa using fun heq : c = '=' => h (heq ▸ hc)

theorem cutAtEquals_of_notMem : cutAtEquals name.toList = (name, none) := by
  unfold cutAtEquals
  rw [List.span_eq_takeWhile_dropWhile, List.takeWhile_eq_self_iff.mpr (ne_equals_of_mem h),
    List.dropWhile_eq_nil_iff.mpr (ne_equals_of_mem h)]
  simp

theorem cutAtEquals_append (value : String) :
    cutAtEquals (name.toList ++ '=' :: value.toList) = (name, some value) := by
  unfold cutAtEquals
  rw [List.span_eq_takeWhile_dropWhile, List.takeWhile_append_of_pos (ne_equals_of_mem h),
    List.dropWhile_append_of_pos (ne_equals_of_mem h)]
  simp

end

/-- A name that can be told from dashes before it and from `=` after it. -/
structure IsPlain (name : String) : Prop where
  noEquals : '=' ∉ name.toList
  noDash : name.toList.head? ≠ some '-'

namespace FlagSet

variable {fs : FlagSet} {f : Flag} {arg name word : String} {spelling xs : List String}

/-! ## Reading one argument -/

theorem read_doubleDash {body : List Char} (harg : arg.toList = '-' :: '-' :: body)
    (hbody : body ≠ []) :
    fs.read arg = ((fs.find? (cutAtEquals body).1).map (readLong · arg (cutAtEquals body).2)).getD
      (.refused (.unknownLong (cutAtEquals body).1)) := by
  unfold read
  rw [harg]
  split
  · next hchars =>
    cases hchars
    exact absurd rfl hbody
  · next hchars =>
    cases hchars
    dsimp only
    cases fs.find? (cutAtEquals body).1 <;> rfl
  · next hdouble hchars =>
    cases hchars
    exact (hdouble rfl).elim
  · next hother _ => exact absurd rfl (hother body)

theorem read_dash {first : Char} {rest : List Char} (harg : arg.toList = '-' :: first :: rest)
    (hfirst : first ≠ '-') :
    fs.read arg = ((fs.find? (cutAtEquals (first :: rest)).1).map
      (readLong · arg (cutAtEquals (first :: rest)).2)).getD (fs.readShort arg first rest) := by
  unfold read
  rw [harg]
  split
  · next hchars =>
    cases hchars
    exact absurd rfl hfirst
  · next hchars =>
    cases hchars
    exact absurd rfl hfirst
  · next hchars =>
    cases hchars
    dsimp only
    cases fs.find? (cutAtEquals (first :: rest)).1 <;> rfl
  · next hother => exact absurd rfl (hother first rest)

/-- One dash or two before a long name make no difference. -/
theorem read_named (hfind : fs.find? f.name = some f) (hne : f.name ≠ "")
    (hplain : IsPlain f.name) {tail : List Char} {value : Option String}
    (hcut : cutAtEquals (f.name.toList ++ tail) = (f.name, value))
    (harg : arg.toList = '-' :: (f.name.toList ++ tail) ∨
      arg.toList = '-' :: '-' :: (f.name.toList ++ tail)) :
    fs.read arg = readLong f arg value := by
  obtain ⟨first, rest, hname⟩ := List.exists_cons_of_ne_nil
    (fun hnil => hne (String.toList_injective hnil))
  have hfirst : first ≠ '-' := by
    intro heq
    exact hplain.noDash (by rw [hname, heq]; rfl)
  obtain harg | harg := harg
  · rw [hname, List.cons_append] at harg hcut
    rw [read_dash harg hfirst, hcut]
    simp [hfind]
  · rw [read_doubleDash harg (by simp [hname]), hcut]
    simp [hfind]

/-- The arguments that give a word to a flag: one that holds the word, or one before it. -/
inductive Gives (fs : FlagSet) (name word : String) : List String → Prop
  | joined {arg : String} (h : fs.read arg = .set name word) : Gives fs name word [arg]
  | apart {arg shown : String} (h : fs.read arg = .setNext name shown) :
    Gives fs name word [arg, word]

/-! ## The spellings -/

/-- The ways to give a flag a value by its long name. -/
def longSpellings (name value : String) : List (List String) :=
  [["--" ++ name ++ "=" ++ value], ["-" ++ name ++ "=" ++ value],
    ["--" ++ name, value], ["-" ++ name, value]]

/-- The ways to give a flag a value by its shorthand. -/
def shortSpellings (shorthand : Char) (value : String) : List (List String) :=
  [["-" ++ String.singleton shorthand ++ value], ["-" ++ String.singleton shorthand, value]]

/-- The ways to turn a switch on. -/
def switchSpellings (name : String) : List (List String) :=
  [["--" ++ name], ["-" ++ name], ["--" ++ name ++ "="]]

section Long

variable (hfind : fs.find? f.name = some f) (hne : f.name ≠ "") (hplain : IsPlain f.name)

include hfind hne hplain

theorem read_equals (value : String)
    (harg : arg = "-" ++ f.name ++ "=" ++ value ∨ arg = "--" ++ f.name ++ "=" ++ value) :
    fs.read arg = .set f.name value := by
  refine read_named hfind hne hplain (cutAtEquals_append hplain.noEquals value) ?_
  obtain rfl | rfl := harg
  · exact .inl (by simp)
  · exact .inr (by simp)

theorem read_name (harg : arg = "-" ++ f.name ∨ arg = "--" ++ f.name) :
    fs.read arg = readLong f arg none := by
  have hcut : cutAtEquals (f.name.toList ++ []) = (f.name, none) := by
    rw [List.append_nil, cutAtEquals_of_notMem hplain.noEquals]
  refine read_named hfind hne hplain hcut ?_
  obtain rfl | rfl := harg
  · exact .inl (by simp)
  · exact .inr (by simp)

theorem gives_of_mem_longSpellings (hswitch : f.value.isSwitch = false) {value : String}
    (hmem : spelling ∈ longSpellings f.name value) : fs.Gives f.name value spelling := by
  have hname {arg : String} (harg : arg = "-" ++ f.name ∨ arg = "--" ++ f.name) :
      fs.read arg = .setNext f.name arg := by
    rw [read_name hfind hne hplain harg, readLong, hswitch]
    rfl
  simp only [longSpellings, List.mem_cons, List.not_mem_nil, or_false] at hmem
  obtain rfl | rfl | rfl | rfl := hmem
  · exact .joined (read_equals hfind hne hplain value (.inr rfl))
  · exact .joined (read_equals hfind hne hplain value (.inl rfl))
  · exact .apart (hname (.inr rfl))
  · exact .apart (hname (.inl rfl))

theorem gives_of_mem_switchSpellings (hswitch : f.value.isSwitch = true)
    (hmem : spelling ∈ switchSpellings f.name) : fs.Gives f.name "" spelling := by
  have hname {arg : String} (harg : arg = "-" ++ f.name ∨ arg = "--" ++ f.name) :
      fs.read arg = .set f.name "" := by
    rw [read_name hfind hne hplain harg, readLong, hswitch]
    rfl
  simp only [switchSpellings, List.mem_cons, List.not_mem_nil, or_false] at hmem
  obtain rfl | rfl | rfl := hmem
  · exact .joined (hname (.inr rfl))
  · exact .joined (hname (.inl rfl))
  · exact .joined (read_equals hfind hne hplain "" (.inr (by simp)))

end Long

/-- The letter of a shorthand, which takes one byte, and the flag that it leads to. -/
structure IsShorthand (fs : FlagSet) (letter : Char) (f : Flag) : Prop where
  oneByte : letter.toNat < 0x80
  resolves : fs.ofShorthand? (String.singleton letter) = some f

section Short

variable {letter : Char} (hshort : fs.IsShorthand letter f) (hdash : letter ≠ '-')

include hshort hdash

/-- An argument of one dash that names no long flag is read by its first letter. -/
theorem read_shorthand {rest : List Char} (harg : arg.toList = '-' :: letter :: rest)
    (hfind : fs.find? (beforeEquals (letter :: rest)) = none) :
    fs.read arg = if f.value.isSwitch then .set f.name ""
      else if rest.isEmpty then .setNext f.name ("-" ++ String.singleton letter)
      else .set f.name (String.ofList rest) := by
  rw [read_dash harg hdash, cutAtEquals_fst, hfind]
  simp [readShort, hshort.oneByte, hshort.resolves]

theorem gives_of_shorthand {rest : List Char} (harg : arg.toList = '-' :: letter :: rest)
    (hrest : rest ≠ []) (hfind : fs.find? (beforeEquals (letter :: rest)) = none) :
    fs.Gives f.name (if f.value.isSwitch then "" else String.ofList rest) [arg] := by
  refine .joined ?_
  rw [read_shorthand hshort hdash harg hfind]
  split
  · rfl
  · rw [if_neg (by simpa using hrest)]

theorem gives_of_mem_shortSpellings (hequals : letter ≠ '=') (hswitch : f.value.isSwitch = false)
    (hletter : fs.find? (String.singleton letter) = none) {value : String} (hvalue : value ≠ "")
    (hjoined : fs.find? (beforeEquals (letter :: value.toList)) = none)
    (hmem : spelling ∈ shortSpellings letter value) : fs.Gives f.name value spelling := by
  simp only [shortSpellings, List.mem_cons, List.not_mem_nil, or_false] at hmem
  obtain rfl | rfl := hmem
  · have harg : ("-" ++ String.singleton letter ++ value).toList =
        '-' :: letter :: value.toList := by simp
    have hgives := gives_of_shorthand hshort hdash harg (by simpa using hvalue) hjoined
    simpa [hswitch] using hgives
  · have harg : ("-" ++ String.singleton letter).toList = ['-', letter] := by simp
    have halone : beforeEquals [letter] = String.singleton letter := by
      simp [beforeEquals, hequals]
    have hread := read_shorthand hshort hdash harg (by rw [halone, hletter])
    exact .apart (by simpa [hswitch] using hread)

end Short

/-- An argument whose first letter is no shorthand is refused. -/
theorem read_unknown {letter : Char} {rest : List Char} (hnone : ∀ f, ¬ fs.IsShorthand letter f)
    (hdash : letter ≠ '-') (harg : arg.toList = '-' :: letter :: rest)
    (hfind : fs.find? (beforeEquals (letter :: rest)) = none) :
    fs.read arg = .refused (.unknown arg) := by
  have hshort : (if letter.toNat < 0x80 then fs.ofShorthand? (String.singleton letter)
      else none) = none := by
    split
    · next hbyte => exact Option.eq_none_iff_forall_ne_some.mpr fun f hf => hnone f ⟨hbyte, hf⟩
    · rfl
  rw [read_dash harg hdash, cutAtEquals_fst, hfind]
  simp [readShort, hshort]

/-! ## A word for a flag -/

/-- The set after one of its flags is given a word. -/
def give (fs : FlagSet) (name word : String) : Except ValueError FlagSet :=
  match fs.find? name with
  | none => .ok fs
  | some f => (f.value.set word).map (fs.setValue name)

theorem give_of_find? (hfind : fs.find? name = some f) (word : String) :
    fs.give name word = (f.value.set word).map (fs.setValue name) := by
  simp [give, hfind]

theorem give_eq_ok_of_not_switch (hfind : fs.find? name = some f)
    (hswitch : f.value.isSwitch = false) (word : String) :
    ∃ given, fs.give name word = .ok given := by
  rw [give_of_find? hfind]
  cases hvalue : f.value with
  | text s => exact ⟨_, rfl⟩
  | list items => exact ⟨_, rfl⟩
  | switch on => simp [hvalue, Value.isSwitch] at hswitch

/-- A word for one flag is no word for another. -/
theorem find?_of_give {given : FlagSet} (h : fs.give name word = .ok given) {other : String}
    (hother : name ≠ other) : given.find? other = fs.find? other := by
  cases hfind : fs.find? name with
  | none =>
    have hgiven : fs = given := by simpa [give, hfind] using h
    rw [hgiven]
  | some f =>
    rw [give_of_find? hfind] at h
    cases hset : f.value.set word with
    | error e =>
      rw [hset] at h
      cases h
    | ok v =>
      rw [hset] at h
      cases h
      rw [find?_setValue, if_neg hother]

/-- A switch takes its state from the word alone. -/
theorem give_of_switch (hfind : fs.find? name = some f) (hswitch : f.value.isSwitch = true)
    (word : String) :
    fs.give name word = ((Value.switch false).set word).map (fs.setValue name) := by
  rw [give_of_find? hfind]
  cases hvalue : f.value with
  | text s => simp [hvalue, Value.isSwitch] at hswitch
  | list items => simp [hvalue, Value.isSwitch] at hswitch
  | switch on => rfl

theorem assign_of_give {given : FlagSet} (h : fs.give name word = .ok given) :
    ParseState.assign { set := fs } name word = { set := given } := by
  cases hfind : fs.find? name with
  | none =>
    have hgiven : fs = given := by simpa [give, hfind] using h
    rw [← hgiven]
    simp [ParseState.assign, hfind]
  | some f =>
    rw [give_of_find? hfind] at h
    cases hset : f.value.set word with
    | error e =>
      rw [hset] at h
      cases h
    | ok v =>
      rw [hset] at h
      cases h
      simp [ParseState.assign, hfind, hset]

/-- A flag stays a switch, or none, whatever is parsed. -/
theorem exists_find?_parse (hfind : fs.find? name = some f) (xs : List String) :
    ∃ f', (fs.parse xs).1.find? name = some f' ∧ f'.value.isSwitch = f.value.isSwitch := by
  obtain ⟨-, hnone⟩ | ⟨f', g, hf', hg, -, hswitch⟩ :=
    both_of_map_kindOf ((fs.alike_parse xs).find? name)
  · rw [hfind] at hnone
    cases hnone
  · rw [hfind] at hg
    cases hg
    exact ⟨f', hf', hswitch⟩

/-! ## What a spelling does -/

/-- Arguments in flag position that give a word to a flag set it and leave the parser in flag
position. -/
theorem stateAfter_of_gives (hxs : fs.Completes xs) (h : fs.Gives name word spelling)
    {given : FlagSet} (hgive : (fs.parse xs).1.give name word = .ok given) :
    fs.stateAfter (xs ++ spelling) = { set := given } := by
  have hread (arg : String) : (fs.parse xs).1.read arg = fs.read arg :=
    (fs.alike_parse xs).read arg
  rw [stateAfter_append hxs, ← assign_of_give hgive]
  cases h with
  | joined h => simp [ParseState.step, hread, h]
  | apart h => simp [ParseState.step, hread, h, ParseState.assign]

/-- A switch is turned on, and takes nothing of what follows. -/
theorem stateAfter_of_gives_switch (hfind : fs.find? f.name = some f)
    (hswitch : f.value.isSwitch = true) (hxs : fs.Completes xs) (h : fs.Gives f.name "" spelling) :
    fs.stateAfter (xs ++ spelling) = { set := (fs.parse xs).1.setValue f.name (.switch true) } := by
  obtain ⟨f', hfind', hswitch'⟩ := exists_find?_parse hfind xs
  exact stateAfter_of_gives hxs h (give_of_switch hfind' (hswitch'.trans hswitch) "")

theorem parse_of_stateAfter {given : FlagSet} (h : fs.stateAfter xs = { set := given })
    (ys : List String) : fs.parse (xs ++ ys) = given.resume ys := by
  have hcompletes : fs.Completes xs := by
    rw [completes_iff, h]
  have hparse : (fs.parse xs).1 = given := by
    rw [parse_eq, h]
  rw [parse_append hcompletes, hparse]

/-- **All spellings of a flag agree.**  In flag position, every way to give a word to a text
or a list does the same, and every way to give a switch turns it on. -/
theorem spellings_agree (hfs : fs.Reachable) (hf : f ∈ fs.flags) (hplain : IsPlain f.name)
    (hxs : fs.Completes xs) :
    (f.value.isSwitch = false → ∀ value, ∃ given,
      (fs.parse xs).1.give f.name value = .ok given ∧
      (∀ spelling ∈ longSpellings f.name value, ∀ ys,
        fs.parse (xs ++ spelling ++ ys) = given.resume ys) ∧
      ∀ letter, fs.IsShorthand letter f → letter ≠ '-' → letter ≠ '=' →
        fs.find? (String.singleton letter) = none →
        fs.find? (beforeEquals (letter :: value.toList)) = none → value ≠ "" →
        ∀ spelling ∈ shortSpellings letter value, ∀ ys,
          fs.parse (xs ++ spelling ++ ys) = given.resume ys) ∧
    (f.value.isSwitch = true → ∀ spelling ∈ switchSpellings f.name, ∀ ys,
      fs.parse (xs ++ spelling ++ ys) =
        ((fs.parse xs).1.setValue f.name (.switch true)).resume ys) := by
  have hfind := hfs.find?_of_mem hf
  have hne := hfs.wellNamed.ne_empty f hf
  constructor
  · intro hswitch value
    obtain ⟨f', hfind', hswitch'⟩ := exists_find?_parse hfind xs
    obtain ⟨given, hgive⟩ := give_eq_ok_of_not_switch hfind' (hswitch'.trans hswitch) value
    refine ⟨given, hgive, ?_, ?_⟩
    · intro spelling hmem ys
      have hgives := gives_of_mem_longSpellings hfind hne hplain hswitch hmem
      exact parse_of_stateAfter (stateAfter_of_gives hxs hgives hgive) ys
    · intro letter hshort hdash hequals hletter hjoined hvalue spelling hmem ys
      have hgives := gives_of_mem_shortSpellings hshort hdash hequals hswitch hletter hvalue
        hjoined hmem
      exact parse_of_stateAfter (stateAfter_of_gives hxs hgives hgive) ys
  · intro hswitch spelling hmem ys
    have hgives := gives_of_mem_switchSpellings hfind hne hplain hswitch hmem
    exact parse_of_stateAfter (stateAfter_of_gives_switch hfind hswitch hxs hgives) ys

theorem reachable_sampleFlags : sampleFlags.Reachable :=
  Reachable.empty.defineAll _

/-- A value with a dash at its front and with an equals sign in it. -/
theorem spellings_agree_output :
    let output := Flag.make "output" "o" "" (.text "a.out") "file"
    let xs := ["a.json", "-v"]
    sampleFlags.Reachable ∧ output ∈ sampleFlags.flags ∧ IsPlain output.name ∧
      sampleFlags.Completes xs ∧ ∃ given,
        (sampleFlags.parse xs).1.give output.name "-x=y" = .ok given ∧
        (∀ spelling ∈ longSpellings output.name "-x=y", ∀ ys,
          sampleFlags.parse (xs ++ spelling ++ ys) = given.resume ys) ∧
        ∀ spelling ∈ shortSpellings 'o' "-x=y", ∀ ys,
          sampleFlags.parse (xs ++ spelling ++ ys) = given.resume ys := by
  intro output xs
  have hf : output ∈ sampleFlags.flags := by decide +kernel
  have hplain : IsPlain output.name := ⟨by decide +kernel, by decide +kernel⟩
  have hxs : sampleFlags.Completes xs := by decide +kernel
  refine ⟨reachable_sampleFlags, hf, hplain, hxs, ?_⟩
  obtain ⟨given, hgive, hlong, hshort⟩ :=
    (spellings_agree reachable_sampleFlags hf hplain hxs).1 rfl "-x=y"
  refine ⟨given, hgive, hlong, hshort 'o' ⟨by decide, by decide +kernel⟩ ?_ ?_ ?_ ?_ ?_⟩ <;>
    decide +kernel

/-! ## The text after a shorthand -/

/-- The long name in an argument: what follows one dash or two, up to the first `=`. -/
def longName (arg : String) : String :=
  match arg.toList with
  | '-' :: '-' :: body => beforeEquals body
  | '-' :: body => beforeEquals body
  | body => beforeEquals body

theorem longName_doubleDash {body : List Char} (harg : arg.toList = '-' :: '-' :: body) :
    longName arg = beforeEquals body := by
  simp [longName, harg]

theorem longName_dash {first : Char} {rest : List Char} (harg : arg.toList = '-' :: first :: rest)
    (hfirst : first ≠ '-') : longName arg = beforeEquals (first :: rest) := by
  unfold longName
  rw [harg]
  split
  · next hdouble =>
    cases hdouble
    exact absurd rfl hfirst
  · next hsingle =>
    cases hsingle
    rfl
  · next hnone => exact absurd rfl (hnone _)

/-- No part of the argument is ignored: the word in it is given to the flag, or it is an
error. -/
def Heeds (fs : FlagSet) (xs : List String) (arg : String) (f : Flag) (word : String) : Prop :=
  (∃ given, (fs.parse xs).1.give f.name word = .ok given ∧
    fs.parse (xs ++ [arg]) = (given, .ok ())) ∨
  ∃ e, (fs.parse (xs ++ [arg])).2 = .error e

theorem parse_of_refused (hxs : fs.Completes xs) {e : ParseError}
    (hread : fs.read arg = .refused e) : (fs.parse (xs ++ [arg])).2 = .error e := by
  have hread' : (fs.stateAfter xs).set.read arg = .refused e :=
    ((fs.alike_parse xs).read arg).trans hread
  rw [parse_eq, stateAfter_concat]
  simp [ParseState.step, (fs.completes_iff xs).mp hxs, hread', ParseState.result]

/-- A shorthand that turns its switch on whatever follows heeds the words for on, and no
others. -/
theorem heeds_switch_iff {f' : Flag} (hfind' : (fs.parse xs).1.find? f.name = some f')
    (hswitch : f'.value.isSwitch = true) (hword : word ≠ "")
    (hparse : fs.parse (xs ++ [arg]) =
      ((fs.parse xs).1.setValue f.name (.switch true), .ok ())) :
    fs.Heeds xs arg f word ↔ readSwitch? word = some true := by
  have hgive := give_of_switch hfind' hswitch
  unfold Heeds
  rw [hparse, hgive]
  cases hon : readSwitch? word with
  | none =>
    have hset : (Value.switch false).set word = .error ⟨word⟩ := by
      simp [Value.set, hword, hon]
    rw [hset]
    constructor
    · rintro (⟨given, hgiven, -⟩ | ⟨e, he⟩)
      · cases hgiven
      · cases he
    · intro htrue
      cases htrue
  | some on =>
    have hset : (Value.switch false).set word = .ok (.switch on) := by
      simp [Value.set, hword, hon]
    rw [hset]
    constructor
    · rintro (⟨given, hgiven, hparsed⟩ | ⟨e, he⟩)
      · cases hgiven
        have hflag := congrArg (fun p => p.1.find? f.name) hparsed
        simpa [find?_setValue, hfind'] using hflag.symm
      · cases he
    · intro htrue
      cases htrue
      exact .inl ⟨_, rfl, rfl⟩

/-- An argument of two dashes that names no long flag is refused. -/
theorem read_unknownLong {body : List Char} (harg : arg.toList = '-' :: '-' :: body)
    (hbody : body ≠ []) (hlong : fs.find? (longName arg) = none) :
    fs.read arg = .refused (.unknownLong (beforeEquals body)) := by
  rw [longName_doubleDash harg] at hlong
  rw [read_doubleDash harg hbody, cutAtEquals_fst, hlong]
  rfl

/-- A letter that is a shorthand gives its flag what follows, and a switch nothing. -/
theorem exists_given {letter : Char} (hshort : fs.IsShorthand letter f) (hdash : letter ≠ '-')
    (hxs : fs.Completes xs) (hword : word ≠ "")
    (hchars : arg.toList = '-' :: letter :: word.toList)
    (hlong : fs.find? (longName arg) = none) :
    ∃ given, (fs.parse xs).1.give f.name (if f.value.isSwitch then "" else word) = .ok given ∧
      fs.stateAfter (xs ++ [arg]) = { set := given } := by
  rw [longName_dash hchars hdash] at hlong
  have hgives := gives_of_shorthand hshort hdash hchars (by simpa using hword) hlong
  rw [String.ofList_toList] at hgives
  obtain ⟨f', hfind, hswitch⟩ := exists_find?_parse (find?_name_of_ofShorthand? hshort.resolves) xs
  have hgive : ∃ given, (fs.parse xs).1.give f.name (if f.value.isSwitch then "" else word) =
      .ok given := by
    split
    · next hon => exact ⟨_, give_of_switch hfind (hswitch.trans hon) ""⟩
    · next hoff => exact give_eq_ok_of_not_switch hfind (by simpa [hswitch] using hoff) word
  obtain ⟨given, hgive⟩ := hgive
  exact ⟨given, hgive, stateAfter_of_gives hxs hgives hgive⟩

/-- After a shorthand of one byte the text is given to the flag or refused, unless the flag is a
switch and the text is not a word for on; the switch is turned on whatever the text is. -/
theorem heeds_letter_iff {letter : Char} (hshort : fs.IsShorthand letter f)
    (hxs : fs.Completes xs) (hword : word ≠ "")
    (hchars : arg.toList = '-' :: letter :: word.toList)
    (hlong : fs.find? (longName arg) = none) :
    (fs.Heeds xs arg f word ↔
      letter = '-' ∨ f.value.isSwitch = false ∨ readSwitch? word = some true) ∧
    (letter ≠ '-' → f.value.isSwitch = true → ∀ ys, fs.parse (xs ++ [arg] ++ ys) =
      ((fs.parse xs).1.setValue f.name (.switch true)).resume ys) := by
  by_cases hdash : letter = '-'
  · subst hdash
    have hread := read_unknownLong hchars (by simpa using hword) hlong
    exact ⟨iff_of_true (.inr ⟨_, parse_of_refused hxs hread⟩) (.inl rfl),
      fun hne => absurd rfl hne⟩
  · obtain ⟨given, hgive, hstate⟩ := exists_given hshort hdash hxs hword hchars hlong
    have hparse : fs.parse (xs ++ [arg]) = (given, .ok ()) := by
      rw [parse_eq, hstate]
      rfl
    by_cases hswitch : f.value.isSwitch = true
    · obtain ⟨f', hfind, hsame⟩ :=
        exists_find?_parse (find?_name_of_ofShorthand? hshort.resolves) xs
      rw [if_pos hswitch, give_of_switch hfind (hsame.trans hswitch)] at hgive
      cases hgive
      refine ⟨?_, fun _ _ => parse_of_stateAfter hstate⟩
      simpa [hdash, hswitch] using heeds_switch_iff hfind (hsame.trans hswitch) hword hparse
    · rw [if_neg hswitch] at hgive
      exact ⟨iff_of_true (.inl ⟨given, hgive, hparse⟩) (.inr (.inl (by simpa using hswitch))),
        fun _ hon => absurd hon hswitch⟩

/-- An argument whose long name is unknown is refused unless its first letter is a shorthand. -/
theorem error_iff_letter {letter : Char} {tail : String} (hxs : fs.Completes xs)
    (htail : tail ≠ "") (hchars : arg.toList = '-' :: letter :: tail.toList)
    (hlong : fs.find? (longName arg) = none) :
    (∃ e, (fs.parse (xs ++ [arg])).2 = .error e) ↔
      letter = '-' ∨ ∀ g, ¬ fs.IsShorthand letter g := by
  by_cases hdash : letter = '-'
  · subst hdash
    have hread := read_unknownLong hchars (by simpa using htail) hlong
    exact iff_of_true ⟨_, parse_of_refused hxs hread⟩ (.inl rfl)
  · by_cases hnone : ∀ g, ¬ fs.IsShorthand letter g
    · rw [longName_dash hchars hdash] at hlong
      have hread := read_unknown hnone hdash hchars hlong
      exact iff_of_true ⟨_, parse_of_refused hxs hread⟩ (.inr hnone)
    · obtain ⟨g, hg⟩ := not_forall_not.mp hnone
      obtain ⟨given, -, hstate⟩ := exists_given hg hdash hxs htail hchars hlong
      refine iff_of_false ?_ (not_or.mpr ⟨hdash, hnone⟩)
      rintro ⟨e, he⟩
      rw [parse_eq, hstate] at he
      cases he

/-- **What follows a shorthand.**  An argument of a dash, a shorthand and a text gives the text
to the flag or is refused, unless the flag is a switch and the text is not a word for on; the
shorthand of a switch turns it on whatever the text is.  Of a shorthand of several bytes only the
first is looked up: what follows it goes to the flag of that byte, and the argument is refused if
there is none. -/
theorem heeds_iff {shorthand : String} (hshort : fs.ofShorthand? shorthand = some f)
    (hne : shorthand ≠ "") (hxs : fs.Completes xs) (hword : word ≠ "")
    (harg : arg = "-" ++ shorthand ++ word) (hlong : fs.find? (longName arg) = none) :
    (∀ letter, letter.toNat < 0x80 → shorthand = String.singleton letter →
      (fs.Heeds xs arg f word ↔
        letter = '-' ∨ f.value.isSwitch = false ∨ readSwitch? word = some true) ∧
      (letter ≠ '-' → f.value.isSwitch = true → ∀ ys, fs.parse (xs ++ [arg] ++ ys) =
        ((fs.parse xs).1.setValue f.name (.switch true)).resume ys)) ∧
    ∀ letter tail, arg = "-" ++ String.singleton letter ++ tail →
      ((∃ e, (fs.parse (xs ++ [arg])).2 = .error e) ↔
        letter = '-' ∨ ∀ g, ¬ fs.IsShorthand letter g) ∧
      ∀ g, fs.IsShorthand letter g → letter ≠ '-' → ∃ given,
        (fs.parse xs).1.give g.name (if g.value.isSwitch then "" else tail) = .ok given ∧
        (∀ ys, fs.parse (xs ++ [arg] ++ ys) = given.resume ys) ∧
        (g.name ≠ f.name → given.find? f.name = (fs.parse xs).1.find? f.name) := by
  constructor
  · rintro letter hbyte rfl
    exact heeds_letter_iff ⟨hbyte, hshort⟩ hxs hword (by simp [harg]) hlong
  · intro letter tail hletter
    have hchars : arg.toList = '-' :: letter :: tail.toList := by simp [hletter]
    have htail : tail ≠ "" := by
      rintro rfl
      have hlength := congrArg List.length hchars
      have hshorthand := List.length_pos_iff.mpr (mt String.toList_eq_nil_iff.mp hne)
      have htext := List.length_pos_iff.mpr (mt String.toList_eq_nil_iff.mp hword)
      rw [harg, String.toList_append, String.toList_append, List.length_append,
        List.length_append] at hlength
      change 1 + _ + _ = 2 at hlength
      omega
    refine ⟨error_iff_letter hxs htail hchars hlong, fun g hg hdash => ?_⟩
    obtain ⟨given, hgive, hstate⟩ := exists_given hg hdash hxs htail hchars hlong
    exact ⟨given, hgive, parse_of_stateAfter hstate, fun hother => find?_of_give hgive hother⟩

/-- After a shorthand, an equals sign belongs to the text. -/
theorem heeds_iff_equals :
    let linkerArg := Flag.make "linker-arg" "L" "" (.list []) "arg"
    sampleFlags.IsShorthand 'L' linkerArg ∧ sampleFlags.Completes ["-L", "--"] ∧
      sampleFlags.find? (longName "-L=-s") = none ∧
      sampleFlags.Heeds ["-L", "--"] "-L=-s" linkerArg "=-s" := by
  intro linkerArg
  have hshort : sampleFlags.IsShorthand 'L' linkerArg := ⟨by decide, by decide +kernel⟩
  have hxs : sampleFlags.Completes ["-L", "--"] := by decide +kernel
  have hword : "=-s" ≠ "" := by decide
  have hlong : sampleFlags.find? (longName "-L=-s") = none := by decide +kernel
  have hletter := (heeds_iff hshort.resolves (by decide) hxs hword (by decide +kernel) hlong).1
  exact ⟨hshort, hxs, hlong, (hletter 'L' hshort.oneByte rfl).1.mpr (.inr (.inl rfl))⟩

/-- A text that is no word for a switch at all is accepted after the shorthand of one. -/
theorem not_heeds_verbose :
    let verbose := Flag.make "verbose" "v" "" (.switch false) ""
    sampleFlags.IsShorthand 'v' verbose ∧ sampleFlags.find? (longName "-vmaybe") = none ∧
      ¬sampleFlags.Heeds [] "-vmaybe" verbose "maybe" := by
  intro verbose
  refine ⟨⟨by decide, by decide +kernel⟩, by decide +kernel, ?_⟩
  have hgive : (sampleFlags.parse []).1.give verbose.name "maybe" = .error ⟨"maybe"⟩ := by
    decide +kernel
  have hparse : (sampleFlags.parse ([] ++ ["-vmaybe"])).2 = .ok () := by decide +kernel
  rintro (⟨given, hgiven, -⟩ | ⟨e, he⟩)
  · rw [hgive] at hgiven
    cases hgiven
  · rw [hparse] at he
    cases he

end FlagSet

end Cflat.CommandLine
