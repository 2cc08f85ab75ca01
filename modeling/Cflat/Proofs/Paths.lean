import Cflat.FileTree.Basic
import Mathlib.Data.List.TakeWhile

/-!
# Names in a directory

The path of a name in a directory is the name behind a text that depends on the directory
only (`exists_join_eq`), so two names in one directory have two paths.  Its parts are the
cleaned parts of the directory and the name (`parts_join`).  The stem of a path is part of
such a name.  The one exception is the path of the root, and there is no file at the root.
-/

namespace Cflat

namespace Path

/-! ## Parts -/

theorem splitSlash_ne_nil (cs : List Char) : splitSlash cs ≠ [] := by
  cases cs with
  | nil => simp [splitSlash]
  | cons c cs =>
    rw [splitSlash]
    split
    · simp
    · split <;> simp

theorem splitSlash_append (cs ds : List Char) :
    splitSlash (cs ++ '/' :: ds) = splitSlash cs ++ splitSlash ds := by
  induction cs with
  | nil => simp [splitSlash]
  | cons c cs ih =>
    rw [List.cons_append, splitSlash, splitSlash, ih]
    by_cases hc : c = '/'
    · simp [hc]
    · cases hparts : splitSlash cs with
      | nil => exact absurd hparts (splitSlash_ne_nil cs)
      | cons part parts => simp [hc]

theorem splitSlash_of_notMem {cs : List Char} (h : '/' ∉ cs) : splitSlash cs = [cs] := by
  induction cs with
  | nil => rfl
  | cons c cs ih =>
    have hc : c ≠ '/' := fun hc => h (by simp [hc])
    have hcs : '/' ∉ cs := fun hcs => h (List.mem_cons_of_mem c hcs)
    simp [splitSlash, hc, ih hcs]

theorem eq_nil_of_mem_splitSlash {cs : List Char} (h : ∀ c ∈ cs, c = '/') :
    ∀ part ∈ splitSlash cs, part = [] := by
  induction cs with
  | nil => simp [splitSlash]
  | cons c cs ih =>
    have hc : c = '/' := h c List.mem_cons_self
    have hcs := ih fun d hd => h d (List.mem_cons_of_mem c hd)
    simpa [splitSlash, hc] using hcs

theorem slash_notMem_of_mem_splitSlash {cs part : List Char} (h : part ∈ splitSlash cs) :
    '/' ∉ part := by
  induction cs generalizing part with
  | nil =>
    rw [splitSlash, List.mem_singleton] at h
    simp [h]
  | cons c cs ih =>
    rw [splitSlash] at h
    split at h
    · rcases List.mem_cons.mp h with rfl | hrest
      · simp
      · exact ih hrest
    · next hc =>
      cases hparts : splitSlash cs with
      | nil => exact absurd hparts (splitSlash_ne_nil cs)
      | cons first rest =>
        rw [hparts] at h ih
        rcases List.mem_cons.mp h with rfl | hrest
        · simpa [eq_comm, hc] using ih List.mem_cons_self
        · exact ih (List.mem_cons_of_mem first hrest)

theorem slash_notMem_of_mem_parts {path part : String} (h : part ∈ parts path) :
    '/' ∉ part.toList := by
  obtain ⟨cs, hcs, rfl⟩ := List.mem_map.mp h
  rw [String.toList_ofList]
  exact slash_notMem_of_mem_splitSlash hcs

theorem parts_of_notMem {name : String} (h : '/' ∉ name.toList) : parts name = [name] := by
  simp [parts, splitSlash_of_notMem h]

theorem parts_append_slash (before after : String) :
    parts (before ++ "/" ++ after) = parts before ++ parts after := by
  have htext : (before ++ "/" ++ after).toList = before.toList ++ '/' :: after.toList := by simp
  simp [parts, htext, splitSlash_append]

/-- Names can be read off the names joined by slashes. -/
theorem parts_intercalate {names : List String} (hne : names ≠ [])
    (h : ∀ name ∈ names, '/' ∉ name.toList) : parts (String.intercalate "/" names) = names := by
  induction names with
  | nil => exact absurd rfl hne
  | cons name names ih =>
    have hname := parts_of_notMem (h name List.mem_cons_self)
    cases names with
    | nil => simpa using hname
    | cons next names =>
      have hrest := ih (by simp) fun other hother => h other (List.mem_cons_of_mem name hother)
      rw [String.intercalate_cons_cons, parts_append_slash, hname, hrest, List.singleton_append]

/-- A text without a slash behind a path makes its last part longer. -/
theorem exists_parts_append (before : String) :
    ∃ ps last, ∀ name : String, '/' ∉ name.toList →
      parts (before ++ name) = ps ++ [last ++ name] := by
  have hchars (cs : List Char) : ∃ ps last, ∀ ds : List Char, '/' ∉ ds →
      splitSlash (cs ++ ds) = ps ++ [last ++ ds] := by
    induction cs with
    | nil => exact ⟨[], [], fun ds hds => by simpa using splitSlash_of_notMem hds⟩
    | cons c cs ih =>
      obtain ⟨ps, last, ih⟩ := ih
      by_cases hc : c = '/'
      · refine ⟨[] :: ps, last, fun ds hds => ?_⟩
        simp [splitSlash, hc, ih ds hds]
      · cases ps with
        | nil => exact ⟨[], c :: last, fun ds hds => by simp [splitSlash, hc, ih ds hds]⟩
        | cons p ps =>
          exact ⟨(c :: p) :: ps, last, fun ds hds => by simp [splitSlash, hc, ih ds hds]⟩
  obtain ⟨ps, last, h⟩ := hchars before.toList
  refine ⟨ps.map String.ofList, String.ofList last, fun name hname => ?_⟩
  simp [parts, h name.toList hname]

/-! ## Joining -/

/-- A text that can name an entry of a directory. -/
structure IsName (name : String) : Prop where
  noSlash : '/' ∉ name.toList
  ne_empty : name ≠ ""
  ne_dot : name ≠ "."
  ne_dots : name ≠ ".."

theorem isName_of_getLast? {name : String} {c : Char} (hslash : '/' ∉ name.toList)
    (hlast : name.toList.getLast? = some c) (hc : c ≠ '.') : IsName name where
  noSlash := hslash
  ne_empty := by
    intro hname
    simp [hname] at hlast
  ne_dot := by
    intro hname
    simp [hname] at hlast
    exact hc hlast.symm
  ne_dots := by
    intro hname
    simp [hname] at hlast
    exact hc hlast.symm

/-- A name leads down. -/
theorem IsName.proper {name : String} (h : IsName name) :
    name ≠ "" ∧ name ≠ "." ∧ name ≠ ".." :=
  ⟨h.ne_empty, h.ne_dot, h.ne_dots⟩

theorem IsName.parts {name : String} (h : IsName name) : parts name = [name] :=
  parts_of_notMem h.noSlash

theorem IsName.parts_append {name : String} (h : IsName name) (dir : String) :
    Path.parts (dir ++ "/" ++ name) = Path.parts dir ++ [name] := by
  rw [parts_append_slash, h.parts]

theorem IsName.cleanParts_append {name : String} (h : IsName name) (rooted : Bool)
    (ps : List String) : cleanParts rooted (ps ++ [name]) = cleanParts rooted ps ++ [name] := by
  simp [cleanParts, cleanStep, h.ne_empty, h.ne_dot, h.ne_dots]

theorem IsName.append_ne_empty {name : String} (h : IsName name) (text : String) :
    text ++ name ≠ "" := by
  simp [h.ne_empty]

theorem isAbsolute_append {dir : String} (h : dir ≠ "") (text : String) :
    isAbsolute (dir ++ text) = isAbsolute dir := by
  cases hdir : dir.toList with
  | nil => exact absurd (String.toList_eq_nil_iff.mp hdir) h
  | cons c cs => simp [isAbsolute, hdir]

theorem isAbsolute_of_notMem {name : String} (h : '/' ∉ name.toList) :
    isAbsolute name = false := by
  have hhead : name.toList.head? ≠ some '/' := fun hhead => h (List.mem_of_head? hhead)
  simpa [isAbsolute] using hhead

theorem forall_cleanStep {P : String → Prop} {rooted : Bool} {kept : List String} {part : String}
    (hkept : ∀ name ∈ kept, P name) (hpart : part ≠ "" → part ≠ "." → part ≠ ".." → P part)
    (hdots : rooted = false → P "..") : ∀ name ∈ cleanStep rooted kept part, P name := by
  unfold cleanStep
  grind

/-- What is true of the names of a path, and of two dots if they can stay, is true of all that
cleaning keeps. -/
theorem forall_cleanParts {P : String → Prop} {rooted : Bool} {ps : List String}
    (hname : ∀ part ∈ ps, part ≠ "" → part ≠ "." → part ≠ ".." → P part)
    (hdots : rooted = false → P "..") : ∀ part ∈ cleanParts rooted ps, P part := by
  have hfold (kept : List String) (hkept : ∀ part ∈ kept, P part) :
      ∀ part ∈ ps.foldl (cleanStep rooted) kept, P part := by
    induction ps generalizing kept with
    | nil => exact hkept
    | cons part ps ih =>
      rw [List.forall_mem_cons] at hname
      exact ih hname.2 _ (forall_cleanStep hkept hname.1 hdots)
  intro part hpart
  exact hfold [] (by simp) part (List.mem_reverse.mp hpart)

theorem slash_notMem_of_mem_cleanParts {rooted : Bool} {path part : String}
    (h : part ∈ cleanParts rooted (parts path)) : '/' ∉ part.toList :=
  forall_cleanParts (fun _ hmem _ _ _ => slash_notMem_of_mem_parts hmem) (fun _ => by decide) part h

theorem ne_empty_of_mem_cleanParts {rooted : Bool} {ps : List String} {part : String}
    (h : part ∈ cleanParts rooted ps) : part ≠ "" ∧ part ≠ "." :=
  forall_cleanParts (P := fun part => part ≠ "" ∧ part ≠ ".")
    (fun _ _ hempty hdot _ => ⟨hempty, hdot⟩) (fun _ => by decide) part h

/-- Seen from the root, cleaning leaves names only. -/
theorem isName_of_mem_cleanParts {path part : String}
    (h : part ∈ cleanParts true (parts path)) : IsName part where
  noSlash := slash_notMem_of_mem_cleanParts h
  ne_empty := (ne_empty_of_mem_cleanParts h).1
  ne_dot := (ne_empty_of_mem_cleanParts h).2
  ne_dots := forall_cleanParts (P := (· ≠ "..")) (fun _ _ _ _ hdots => hdots)
    (fun hrooted => Bool.noConfusion hrooted) part h

/-- The parts of a path that was put together from names. -/
theorem parts_rooted (rooted : Bool) {names : List String} (hne : names ≠ [])
    (h : ∀ name ∈ names, '/' ∉ name.toList) :
    parts ((if rooted then "/" else "") ++ String.intercalate "/" names) =
      (if rooted then [""] else []) ++ names := by
  have hnames := parts_intercalate hne h
  cases rooted with
  | false => simpa using hnames
  | true =>
    have hroot := parts_append_slash "" (String.intercalate "/" names)
    rw [hnames] at hroot
    exact hroot

theorem isAbsolute_intercalate {names : List String}
    (h : ∀ name ∈ names, name ≠ "" ∧ '/' ∉ name.toList) :
    isAbsolute (String.intercalate "/" names) = false := by
  cases names with
  | nil => rfl
  | cons name names =>
    obtain ⟨hne, hslash⟩ := h name List.mem_cons_self
    have hname := isAbsolute_of_notMem hslash
    cases names with
    | nil => simpa using hname
    | cons next names =>
      rw [String.intercalate_cons_cons, String.append_assoc, isAbsolute_append hne, hname]

/-- A clean path is the names that are kept, seen from where the path starts. -/
theorem clean_of_ne_nil {path : String} (h : cleanParts (isAbsolute path) (parts path) ≠ []) :
    clean path = (if isAbsolute path then "/" else "") ++
      String.intercalate "/" (cleanParts (isAbsolute path) (parts path)) := by
  refine if_neg fun htext => ?_
  have hparts := parts_rooted (isAbsolute path) h fun _ => slash_notMem_of_mem_cleanParts
  rw [htext] at hparts
  have hsuffix : cleanParts (isAbsolute path) (parts path) <:+ [""] := ⟨_, hparts.symm⟩
  rcases List.suffix_cons_iff.mp hsuffix with hempty | hnone
  · have hmem : "" ∈ cleanParts (isAbsolute path) (parts path) := by simp [hempty]
    exact (ne_empty_of_mem_cleanParts hmem).1 rfl
  · exact h (List.suffix_nil.mp hnone)

theorem parts_clean {path : String} (h : cleanParts (isAbsolute path) (parts path) ≠ []) :
    parts (clean path) = (if isAbsolute path then [""] else []) ++
      cleanParts (isAbsolute path) (parts path) := by
  rw [clean_of_ne_nil h]
  exact parts_rooted _ h fun _ => slash_notMem_of_mem_cleanParts

theorem clean_of_nil {path : String} (h : cleanParts (isAbsolute path) (parts path) = []) :
    clean path = if isAbsolute path then "/" else "." := by
  rw [clean, h]
  cases isAbsolute path <;> rfl

theorem clean_ne_empty (path : String) : clean path ≠ "" := by
  have hdot (text : String) : (if text = "" then "." else text) ≠ "" := by
    split
    · decide
    · assumption
  exact hdot _

theorem isAbsolute_clean (path : String) : isAbsolute (clean path) = isAbsolute path := by
  by_cases h : cleanParts (isAbsolute path) (parts path) = []
  · rw [clean_of_nil h]
    cases isAbsolute path <;> rfl
  · rw [clean_of_ne_nil h]
    cases hrooted : isAbsolute path with
    | true => exact isAbsolute_append (by decide) _
    | false =>
      rw [if_neg (by decide), String.empty_append]
      exact isAbsolute_intercalate fun _ hname =>
        ⟨(ne_empty_of_mem_cleanParts hname).1, slash_notMem_of_mem_cleanParts hname⟩

/-- A name in a directory, seen from where the directory is seen from. -/
theorem join_eq {dir name : String} (hdir : dir ≠ "") (h : IsName name) :
    join [dir, name] = (if isAbsolute dir then "/" else "") ++
      String.intercalate "/" (cleanParts (isAbsolute dir) (parts dir) ++ [name]) := by
  have hjoin : join [dir, name] = clean (dir ++ "/" ++ name) := by
    simp [join, hdir, h.ne_empty, String.intercalate_cons_cons]
  have hrooted : isAbsolute (dir ++ "/" ++ name) = isAbsolute dir := by
    rw [String.append_assoc, isAbsolute_append hdir]
  have hparts : cleanParts (isAbsolute (dir ++ "/" ++ name)) (parts (dir ++ "/" ++ name)) =
      cleanParts (isAbsolute dir) (parts dir) ++ [name] := by
    rw [hrooted, h.parts_append, h.cleanParts_append]
  rw [hjoin, clean_of_ne_nil (by simp [hparts]), hparts, hrooted]

theorem parts_join {dir name : String} (hdir : dir ≠ "") (h : IsName name) :
    parts (join [dir, name]) = (if isAbsolute dir then [""] else []) ++
      (cleanParts (isAbsolute dir) (parts dir) ++ [name]) := by
  rw [join_eq hdir h]
  refine parts_rooted _ (by simp) fun part hpart => ?_
  rcases List.mem_append.mp hpart with hpart | hpart
  · exact slash_notMem_of_mem_cleanParts hpart
  · rw [List.mem_singleton.mp hpart]
    exact h.noSlash

theorem isAbsolute_join {dir name : String} (hdir : dir ≠ "") (h : IsName name) :
    isAbsolute (join [dir, name]) = isAbsolute dir := by
  have hjoin : join [dir, name] = clean (dir ++ "/" ++ name) := by
    simp [join, hdir, h.ne_empty, String.intercalate_cons_cons]
  rw [hjoin, isAbsolute_clean, String.append_assoc, isAbsolute_append hdir]

/-- What stands before a name in a directory is the same for every name. -/
theorem exists_join_eq (dir : String) :
    ∃ before, ∀ name, IsName name → join [dir, name] = before ++ name := by
  by_cases hdir : dir = ""
  · refine ⟨"", fun name h => ?_⟩
    have hparts : cleanParts false [name] = [name] := h.cleanParts_append false []
    simp [join, hdir, clean, isAbsolute_of_notMem h.noSlash, h.parts, hparts, h.ne_empty]
  · let above := cleanParts (isAbsolute dir) (parts dir)
    refine ⟨(if isAbsolute dir then "/" else "") ++
      if above = [] then "" else String.intercalate "/" above ++ "/", fun name h => ?_⟩
    have hlines : String.intercalate "/" (above ++ [name]) =
        (if above = [] then "" else String.intercalate "/" above ++ "/") ++ name := by
      by_cases habove : above = []
      · simp [habove]
      · simp [habove, String.intercalate_append_of_ne_nil habove (List.cons_ne_nil name [])]
    rw [join_eq hdir h, hlines, String.append_assoc]

/-- No text before a name makes dots of it. -/
theorem IsName.append_ne_dots {name : String} (h : IsName name) (text : String) :
    text ++ name ≠ "" ∧ text ++ name ≠ "." ∧ text ++ name ≠ ".." := by
  have hsuffix {dots : String} (heq : text ++ name = dots) : name.toList <:+ dots.toList :=
    ⟨text.toList, by rw [← String.toList_append, heq]⟩
  have hname {cs : List Char} (heq : name.toList = cs) : name = String.ofList cs := by
    rw [← heq, String.ofList_toList]
  refine ⟨h.append_ne_empty text, fun heq => ?_, fun heq => ?_⟩
  · have hdot : name.toList <:+ ['.'] := hsuffix heq
    rcases List.suffix_cons_iff.mp hdot with hdot | hnone
    · exact h.ne_dot (hname hdot)
    · exact h.ne_empty (hname (List.suffix_nil.mp hnone))
  · have hdots : name.toList <:+ ['.', '.'] := hsuffix heq
    rcases List.suffix_cons_iff.mp hdots with hdots | hdot
    · exact h.ne_dots (hname hdots)
    rcases List.suffix_cons_iff.mp hdot with hdot | hnone
    · exact h.ne_dot (hname hdot)
    · exact h.ne_empty (hname (List.suffix_nil.mp hnone))

theorem IsName.isAbsolute_append {name name' : String} (h : IsName name) (h' : IsName name')
    (before : String) : isAbsolute (before ++ name) = isAbsolute (before ++ name') := by
  by_cases hbefore : before = ""
  · rw [hbefore, String.empty_append, String.empty_append, isAbsolute_of_notMem h.noSlash,
      isAbsolute_of_notMem h'.noSlash]
  · rw [Path.isAbsolute_append hbefore, Path.isAbsolute_append hbefore]

/-! ## Parents -/

theorem slash_notMem_afterSlash (cs : List Char) : '/' ∉ afterSlash cs := by
  intro h
  have hchar := List.all_takeWhile (p := (· ≠ '/')) (l := cs.reverse)
  rw [List.all_eq_true] at hchar
  simpa using hchar '/' (List.mem_reverse.mp h)

theorem uptoSlash_append_afterSlash (cs : List Char) : uptoSlash cs ++ afterSlash cs = cs := by
  rw [uptoSlash, afterSlash, ← List.reverse_append, List.takeWhile_append_dropWhile,
    List.reverse_reverse]

/-- What stands before the last name ends in a slash, if it is not empty. -/
theorem uptoSlash_eq (cs : List Char) : uptoSlash cs = [] ∨ ∃ ds, uptoSlash cs = ds ++ ['/'] := by
  have hhead := List.head?_dropWhile_not (fun c => decide (c ≠ '/')) cs.reverse
  rw [uptoSlash]
  cases hrest : cs.reverse.dropWhile (fun c => decide (c ≠ '/')) with
  | nil => exact .inl rfl
  | cons c ds =>
    rw [hrest] at hhead
    obtain rfl : c = '/' := by simpa using hhead
    exact .inr ⟨ds.reverse, by simp⟩

/-- A path without its last name has no last name. -/
theorem parts_uptoSlash {path last : String} {ps : List String} (h : parts path = ps ++ [last]) :
    parts (String.ofList (uptoSlash path.toList)) = ps ++ [""] := by
  have hpath := uptoSlash_append_afterSlash path.toList
  have hlast : parts (String.ofList (afterSlash path.toList)) =
      [String.ofList (afterSlash path.toList)] :=
    parts_of_notMem (by simpa using slash_notMem_afterSlash path.toList)
  rcases uptoSlash_eq path.toList with hnone | ⟨ds, hds⟩
  · rw [hnone, List.nil_append] at hpath
    rw [hpath, String.ofList_toList, h] at hlast
    have hps : ps = [] := by simpa using congrArg List.length hlast
    rw [hnone, hps]
    rfl
  · have hsplit : path = String.ofList ds ++ "/" ++ String.ofList (afterSlash path.toList) := by
      rw [← String.toList_inj]
      simpa [hds] using hpath.symm
    have hbefore : parts (String.ofList ds ++ "/" ++ "") = parts (String.ofList ds) ++ [""] :=
      parts_append_slash (String.ofList ds) ""
    rw [hsplit, parts_append_slash, hlast] at h
    rw [(List.append_inj' h rfl).1] at hbefore
    rw [hds, String.ofList_append]
    simpa using hbefore

theorem isAbsolute_uptoSlash (path : String) :
    isAbsolute (String.ofList (uptoSlash path.toList)) = isAbsolute path := by
  have hpath := congrArg String.ofList (uptoSlash_append_afterSlash path.toList)
  rw [String.ofList_append, String.ofList_toList] at hpath
  by_cases hnone : uptoSlash path.toList = []
  · rw [hnone, String.ofList_nil, String.empty_append] at hpath
    have hslash : '/' ∉ path.toList := by
      rw [← hpath, String.toList_ofList]
      exact slash_notMem_afterSlash path.toList
    rw [hnone, isAbsolute_of_notMem hslash]
    rfl
  · have hne : String.ofList (uptoSlash path.toList) ≠ "" := by simpa using hnone
    rw [← isAbsolute_append hne, hpath]

/-! ## Stems -/

/-- A path that can lead nowhere but to the root. -/
def OnlySlashes (path : String) : Prop :=
  ∀ c ∈ path.toList, c = '/'

/-- Only the path of the root has a base with a slash. -/
theorem slash_notMem_base {path : String} (h : ¬OnlySlashes path) :
    '/' ∉ (base path).toList := by
  have hpath : path ≠ "" := by
    intro hempty
    exact h (by simp [OnlySlashes, hempty])
  have hrest : (path.toList.reverse.dropWhile (· = '/')).reverse.isEmpty = false := by
    rw [List.isEmpty_reverse, Bool.eq_false_iff]
    intro hnil
    rw [List.isEmpty_iff, List.dropWhile_eq_nil_iff] at hnil
    exact h fun c hc => by simpa using hnil c (List.mem_reverse.mpr hc)
  rw [base, if_neg hpath]
  simp only [hrest, Bool.false_eq_true, if_false, String.toList_ofList]
  exact slash_notMem_afterSlash _

theorem mem_of_mem_dropEnding {text ending : String} {c : Char}
    (h : c ∈ (dropEnding text ending).toList) : c ∈ text.toList := by
  unfold dropEnding at h
  split at h
  · rw [String.toList_ofList] at h
    exact List.mem_of_mem_take h
  · exact h

/-- A last name with another extension is a name, unless the path is that of the root. -/
theorem isName_base_append {path ending extension : String} (h : ¬OnlySlashes path)
    (hslash : '/' ∉ extension.toList) {c : Char} (hlast : extension.toList.getLast? = some c)
    (hc : c ≠ '.') : IsName (dropEnding (base path) ending ++ extension) := by
  apply isName_of_getLast?
  · rw [String.toList_append, List.mem_append]
    intro hmem
    rcases hmem with hmem | hmem
    · exact slash_notMem_base h (mem_of_mem_dropEnding hmem)
    · exact hslash hmem
  · rw [String.toList_append, List.getLast?_append, hlast, Option.some_or]
  · exact hc

theorem isName_listing {path : String} (h : ¬OnlySlashes path) : IsName (stem path ++ ".s") :=
  isName_base_append h (by decide) (by decide) (show 's' ≠ '.' by decide)

theorem isName_object {path : String} (h : ¬OnlySlashes path) : IsName (stem path ++ ".o") :=
  isName_base_append h (by decide) (by decide) (show 'o' ≠ '.' by decide)

end Path

namespace FileTree

/-- Empty parts do not lead away from the root. -/
theorem walk_root_of_empty (t : FileTree) {ps : List String} (h : ∀ part ∈ ps, part = "") :
    t.walk [] ps = .ok ([], .directory) := by
  induction ps with
  | nil => rfl
  | cons part ps ih =>
    have hpart : part = "" := h part List.mem_cons_self
    have hrest := ih fun q hq => h q (List.mem_cons_of_mem part hq)
    simp [walk, node?, hpart, hrest]

/-- There is no file at the root. -/
theorem not_onlySlashes_of_find {t : FileTree} {path text : String}
    (h : t.find path = .ok (.file text)) : ¬Path.OnlySlashes path := by
  intro hall
  have hparts : ∀ part ∈ Path.parts path, part = "" := by
    intro part hpart
    obtain ⟨cs, hcs, rfl⟩ := List.mem_map.mp hpart
    rw [Path.eq_nil_of_mem_splitSlash hall cs hcs, String.ofList_nil]
  rw [find, resolve] at h
  cases hfault : pathFault? path with
  | some cause =>
    rw [hfault] at h
    cases h
  | none =>
    have hpath : path ≠ "" := by
      intro hempty
      rw [hempty] at hfault
      cases hfault
    have hstart : t.start path = [] := by
      cases hchars : path.toList with
      | nil => exact absurd (String.toList_eq_nil_iff.mp hchars) hpath
      | cons c cs =>
        have hc : c = '/' := hall c (by simp [hchars])
        simp [start, Path.isAbsolute, hchars, hc]
    rw [hfault, hstart] at h
    dsimp only at h
    rw [t.walk_root_of_empty hparts] at h
    cases h

end FileTree

end Cflat
