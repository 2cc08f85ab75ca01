import Cflat.Proofs.Paths

/-!
# Where paths lead

The location of a path depends on the directories of a tree and on nothing else.
Writing a file keeps the directories, so it changes what is read at one location and
at no other.  There are five groups.

* Nodes after `setNode`, `makeDirs` and `remove`, and the directories above a node.
* Locations: `locate` follows a path without looking at what is at its end.
  Reading and writing are told by the location.
* Trees that have the directories of another one lead paths the same way.
* Writing: `text?_write` says what every path reads after a write.
* Removing: what lies elsewhere is read as before.
-/

namespace Cflat.FileTree

/-! ## Nodes -/

variable {t t' : FileTree}

theorem hasPlace_iff {loc : Location} :
    t.hasPlace loc = true ↔
      t.node? loc.dropLast = some .directory ∧ t.node? loc ≠ some .directory := by
  simp [hasPlace]

/-- A node that is put into a tree is found in its place, and the others are as before. -/
theorem node?_setNode {loc : Location} (h : t.hasPlace loc = true) (n : Node) (l : Location) :
    (t.setNode loc n).node? l = if l = loc then some n else t.node? l := by
  have hloc : loc ≠ [] := fun hroot => (hasPlace_iff.mp h).2 (by rw [hroot]; rfl)
  rw [setNode, dif_pos h, node?, node?, lookup_replace]
  by_cases hl : l = loc
  · rw [if_pos hl, if_pos hl, if_neg (hl ▸ hloc)]
  · rw [if_neg hl, if_neg hl]

theorem node?_setNode_of_ne {loc l : Location} (h : l ≠ loc) (n : Node) :
    (t.setNode loc n).node? l = t.node? l := by
  by_cases hplace : t.hasPlace loc = true
  · rw [node?_setNode hplace, if_neg h]
  · rw [setNode, dif_neg hplace]

theorem workDir_setNode (t : FileTree) (loc : Location) (n : Node) :
    (t.setNode loc n).workDir = t.workDir := by
  rw [setNode]
  split <;> rfl

/-- Making directories changes nothing that is not on the way. -/
theorem node?_makeDirs (t : FileTree) {loc l : Location} (h : ¬ l <+: loc) :
    (t.makeDirs loc).node? l = t.node? l := by
  have hstep (i : Nat) (t : FileTree) :
      (if (t.node? (loc.take i)).isSome then t else t.setNode (loc.take i) .directory).node? l =
        t.node? l := by
    split
    · rfl
    · refine node?_setNode_of_ne ?_ .directory
      rintro rfl
      exact h (List.take_prefix i loc)
  rw [makeDirs]
  generalize List.range loc.length = steps
  induction steps generalizing t with
  | nil => rfl
  | cons i steps ih => exact (ih _).trans (hstep (i + 1) t)

/-- Whatever is in a tree lies in a directory. -/
theorem node?_dropLast {l : Location} (h : t.node? l ≠ none) :
    t.node? l.dropLast = some .directory := by
  by_cases hl : l = []
  · rw [hl]
    rfl
  · rw [node?, if_neg hl] at h
    obtain ⟨n, hn⟩ := Option.ne_none_iff_exists'.mp h
    obtain ⟨before, after, hnodes, -⟩ := List.lookup_eq_some_iff.mp hn
    rw [node?]
    split
    · rfl
    · next hroot => exact (t.closed (l, n) (by simp [hnodes])).resolve_left hroot

/-- What lies below a removed location is gone, and nothing else is. -/
theorem node?_remove (t : FileTree) (above l : Location) :
    (t.remove above).node? l = if above <+: l ∧ l ≠ [] then none else t.node? l := by
  have hkept := lookup_filter_kept (fun key => !above.isPrefixOf key) l t.nodes
  by_cases hl : l = []
  · simp [node?, hl]
  · rw [node?, if_neg hl, node?, if_neg hl]
    refine hkept.trans ?_
    by_cases habove : above <+: l
    · simp [hl, habove, List.isPrefixOf_iff_prefix.mpr habove]
    · simp [habove]

/-! ## Locations -/

/-- The location after one part of a path. -/
def step? (loc : Location) (part : String) : Option Location :=
  if part = "" || part = "." then some loc
  else if part = ".." then some loc.dropLast
  else if maxNameBytes < part.utf8ByteSize then none
  else some (loc ++ [part])

/-- The location at the end of some parts.  Every part is looked up in a directory;
what is at the end does not matter. -/
def route (t : FileTree) (loc : Location) : List String → Option Location
  | [] => some loc
  | part :: rest =>
    if t.node? loc = some .directory then (step? loc part).bind (t.route · rest) else none

theorem route_append (t : FileTree) (loc : Location) (ps qs : List String) :
    t.route loc (ps ++ qs) = (t.route loc ps).bind (t.route · qs) := by
  induction ps generalizing loc with
  | nil => rfl
  | cons part ps ih =>
    rw [List.cons_append, route, route]
    split
    · cases step? loc part <;> simp [ih]
    · rfl

/-- A walk ends where the parts lead, if there is something. -/
theorem walk_eq_ok_iff {loc l : Location} {ps : List String} {n : Node} :
    t.walk loc ps = .ok (l, n) ↔ t.route loc ps = some l ∧ t.node? l = some n := by
  induction ps generalizing loc with
  | nil =>
    rw [walk, route]
    by_cases hl : loc = l
    · subst hl
      cases t.node? loc <;> simp
    · cases t.node? loc <;> simp [hl]
  | cons part ps ih =>
    rw [walk, route]
    cases hnode : t.node? loc with
    | none => simp
    | some node =>
      cases node with
      | file text => simp
      | directory =>
        dsimp only
        rw [if_pos rfl, step?]
        split
        · exact ih
        · split
          · exact ih
          · split
            · simp
            · exact ih

/-- In a directory a walk goes where the next part says. -/
theorem walk_cons_of_step? {loc next : Location} {part : String}
    (hdir : t.node? loc = some .directory) (hstep : step? loc part = some next)
    (rest : List String) : t.walk loc (part :: rest) = t.walk next rest := by
  rw [walk, hdir]
  rw [step?] at hstep
  grind

theorem walk_cons_of_tooLong {loc : Location} {part : String}
    (hdir : t.node? loc = some .directory) (hstep : step? loc part = none) (rest : List String) :
    t.walk loc (part :: rest) = .error .tooLong := by
  rw [walk, hdir]
  rw [step?] at hstep
  grind

theorem walk_append {loc dir : Location} {ps : List String} (h : t.route loc ps = some dir)
    (qs : List String) : t.walk loc (ps ++ qs) = t.walk dir qs := by
  induction ps generalizing loc with
  | nil => rw [List.nil_append, Option.some.inj h]
  | cons part ps ih =>
    rw [route] at h
    split at h
    · next hdir =>
      obtain ⟨next, hnext, hrest⟩ := Option.bind_eq_some_iff.mp h
      rw [List.cons_append, walk_cons_of_step? hdir hnext, ih hrest]
    · cases h

/-- The location of a path. -/
def locate (t : FileTree) (path : String) : Option Location :=
  match pathFault? path with
  | some _ => none
  | none => t.route (t.start path) (Path.parts path)

/-- The text at a path, if there is a file. -/
def text? (t : FileTree) (path : String) : Option String :=
  (t.read path).toOption

theorem resolve_eq_ok_iff {path : String} {l : Location} {n : Node} :
    t.resolve path = .ok (l, n) ↔ t.locate path = some l ∧ t.node? l = some n := by
  rw [resolve, locate]
  cases pathFault? path with
  | some cause => simp
  | none => exact walk_eq_ok_iff

theorem text?_eq_some_iff {path text : String} :
    t.text? path = some text ↔ ∃ l, t.locate path = some l ∧ t.node? l = some (.file text) := by
  simp only [← resolve_eq_ok_iff, text?, read, find]
  cases t.resolve path with
  | error cause => simp [Except.map, Except.toOption]
  | ok found =>
    obtain ⟨l, n⟩ := found
    cases n <;> simp [Except.map, Except.toOption]

theorem exists_text?_of_isFile {path : String} (h : t.isFile path = true) :
    ∃ text, t.find path = .ok (.file text) ∧ t.text? path = some text := by
  rw [isFile] at h
  cases hfind : t.find path with
  | error cause => simp [hfind] at h
  | ok n =>
    cases n with
    | directory => simp [hfind] at h
    | file text => exact ⟨text, rfl, by simp [text?, read, hfind, Except.toOption]⟩

theorem read_eq_ok_iff {path text : String} :
    t.read path = .ok text ↔ t.text? path = some text := by
  rw [text?]
  cases t.read path <;> simp [Except.toOption]

/-- A path reads as the one that leads to the same location. -/
theorem text?_congr {path path' : String} (h : t.locate path = t.locate path') :
    t.text? path = t.text? path' := by
  apply Option.ext
  intro text
  rw [text?_eq_some_iff, text?_eq_some_iff, h]

theorem exists_parts_eq (path : String) : ∃ ps last, Path.parts path = ps ++ [last] := by
  have hne : Path.parts path ≠ [] := by simp [Path.parts, Path.splitSlash_ne_nil]
  exact ⟨_, _, (List.dropLast_concat_getLast hne).symm⟩

theorem locate_eq {path last : String} {ps : List String} (h : Path.parts path = ps ++ [last])
    (hfault : pathFault? path = none) :
    t.locate path = (t.route (t.start path) ps).bind fun dir =>
      if t.node? dir = some .directory then step? dir last else none := by
  simp only [locate, hfault, h, route_append]
  congr 1
  funext dir
  rw [route]
  split
  · cases step? dir last <;> rfl
  · rfl

/-- The last name of a path is its last part, unless that is empty or made of dots. -/
theorem splitLast_eq {path last : String} {ps : List String} (h : Path.parts path = ps ++ [last])
    (hlast : last ≠ "" ∧ last ≠ "." ∧ last ≠ "..") : splitLast path = (ps, some last) := by
  rw [splitLast, h]
  simp [hlast]

theorem splitLast_snd_of_not {path last : String} {ps : List String}
    (h : Path.parts path = ps ++ [last]) (hlast : last = "" ∨ last = "." ∨ last = "..") :
    (splitLast path).2 = none := by
  rw [splitLast, h]
  rcases hlast with rfl | rfl | rfl <;> simp

theorem pathFault?_of_locate {path : String} {l : Location} (h : t.locate path = some l) :
    pathFault? path = none := by
  cases hfault : pathFault? path with
  | none => rfl
  | some cause => simp [locate, hfault] at h

theorem route_of_locate {path : String} {l : Location} (h : t.locate path = some l) :
    t.route (t.start path) (Path.parts path) = some l := by
  rwa [locate, pathFault?_of_locate h] at h

/-- A path leads from a directory on by its last part. -/
theorem exists_step_of_locate {path : String} {l : Location} (h : t.locate path = some l) :
    ∃ ps last dir, Path.parts path = ps ++ [last] ∧ t.route (t.start path) ps = some dir ∧
      t.node? dir = some .directory ∧ step? dir last = some l := by
  obtain ⟨ps, last, hparts⟩ := exists_parts_eq path
  rw [locate_eq hparts (pathFault?_of_locate h), Option.bind_eq_some_iff] at h
  obtain ⟨dir, hroute, hstep⟩ := h
  split at hstep
  · next hdir => exact ⟨ps, last, dir, hparts, hroute, hdir, hstep⟩
  · cases hstep

theorem step?_of_name {last : String} (h : last ≠ "" ∧ last ≠ "." ∧ last ≠ "..")
    (dir : Location) :
    step? dir last = if maxNameBytes < last.utf8ByteSize then none else some (dir ++ [last]) := by
  simp [step?, h]

theorem eq_of_step? {dir l : Location} {part : String}
    (hpart : part ≠ "" ∧ part ≠ "." ∧ part ≠ "..") (h : step? dir part = some l) :
    l = dir ++ [part] := by
  rw [step?_of_name hpart] at h
  split at h
  · cases h
  · exact (Option.some.inj h).symm

/-- A part that is no name leads from a directory to a directory. -/
theorem node?_of_step? {dir l : Location} {part : String} (hdir : t.node? dir = some .directory)
    (hstep : step? dir part = some l) (hpart : ¬ (part ≠ "" ∧ part ≠ "." ∧ part ≠ "..")) :
    t.node? l = some .directory := by
  have hdots : part = "" ∨ part = "." ∨ part = ".." := by grind
  rcases hdots with rfl | rfl | rfl
  · rw [← Option.some.inj hstep, hdir]
  · rw [← Option.some.inj hstep, hdir]
  · rw [← Option.some.inj hstep]
    exact node?_dropLast (by simp [hdir])

/-- A path leads into a directory. -/
theorem node?_dropLast_of_locate {path : String} {l : Location} (h : t.locate path = some l) :
    t.node? l.dropLast = some .directory := by
  obtain ⟨ps, last, dir, -, -, hdir, hstep⟩ := exists_step_of_locate h
  by_cases hlast : last ≠ "" ∧ last ≠ "." ∧ last ≠ ".."
  · rw [eq_of_step? hlast hstep, List.dropLast_concat, hdir]
  · exact node?_dropLast (by simp [node?_of_step? hdir hstep hlast])

/-- A path without a last name cannot be written. -/
theorem writable_ne_ok_of_unnamed {path : String} (h : (splitLast path).2 = none)
    (l : Location) : t.writable path ≠ .ok l := by
  cases hsplit : splitLast path with
  | mk dir name =>
    have hname : name = none := by rw [← h, hsplit]
    subst hname
    unfold writable
    rw [hsplit]
    split
    · simp
    · dsimp only
      split <;> simp

/-- A file can be written where its path leads, unless a directory is there. -/
theorem writable_eq_ok_iff {path : String} {l : Location} :
    t.writable path = .ok l ↔
      (splitLast path).2.isSome ∧ t.locate path = some l ∧ t.node? l ≠ some .directory := by
  obtain ⟨ps, last, hparts⟩ := exists_parts_eq path
  by_cases hlast : last ≠ "" ∧ last ≠ "." ∧ last ≠ ".."
  · cases hfault : pathFault? path with
    | some cause => simp [writable, locate, hfault]
    | none =>
      rw [locate_eq hparts hfault, writable, hfault, splitLast_eq hparts hlast]
      dsimp only
      cases hwalk : t.walk (t.start path) ps with
      | error cause =>
        cases hroute : t.route (t.start path) ps with
        | none => simp
        | some dir =>
          have hdir : t.node? dir ≠ some .directory := fun hdir => by
            simp [walk_eq_ok_iff.mpr ⟨hroute, hdir⟩] at hwalk
          simp [hdir]
      | ok found =>
        obtain ⟨dir, n⟩ := found
        obtain ⟨hroute, hdir⟩ := walk_eq_ok_iff.mp hwalk
        cases n with
        | file text => simp [hroute, hdir]
        | directory =>
          rw [hroute, Option.bind_some, if_pos hdir, step?_of_name hlast]
          dsimp only
          by_cases hlong : maxNameBytes < last.utf8ByteSize
          · simp [hlong]
          · rw [if_neg hlong, if_neg hlong]
            split
            · next hnode => grind
            · next hnode => grind
  · have hnone := splitLast_snd_of_not hparts (by grind)
    simp [hnone, writable_ne_ok_of_unnamed hnone]

/-- What can be read can be written. -/
theorem exists_writable_of_text? {path text : String} (h : t.text? path = some text) :
    ∃ l, t.writable path = .ok l := by
  obtain ⟨l, hl, hfile⟩ := text?_eq_some_iff.mp h
  obtain ⟨ps, last, dir, hparts, -, hdir, hstep⟩ := exists_step_of_locate hl
  have hlast : last ≠ "" ∧ last ≠ "." ∧ last ≠ ".." := by
    by_contra hdots
    rw [node?_of_step? hdir hstep hdots] at hfile
    cases hfile
  refine ⟨l, writable_eq_ok_iff.mpr ⟨?_, hl, by simp [hfile]⟩⟩
  rw [splitLast_eq hparts hlast]
  rfl

/-! ## Clean paths -/

theorem start_of_isAbsolute {path : String} (h : Path.isAbsolute path = true) :
    t.start path = [] := by
  rw [start, if_pos h]

theorem route_nil (t : FileTree) (loc : Location) : t.route loc [] = some loc :=
  rfl

theorem route_concat {loc dir : Location} {ps : List String} {part : String}
    (h : t.route loc ps = some dir) (hdir : t.node? dir = some .directory) :
    t.route loc (ps ++ [part]) = step? dir part := by
  rw [route_append, h, Option.bind_some, route, if_pos hdir]
  cases step? dir part <;> rfl

/-- Parts that stay do not matter. -/
theorem route_rooted (path : String) (ps : List String) :
    t.route (t.start path) ((if Path.isAbsolute path then [""] else []) ++ ps) =
      t.route (t.start path) ps := by
  split
  · next hrooted =>
    rw [start_of_isAbsolute hrooted]
    rfl
  · rfl

/-- Names lead down. -/
theorem route_names {loc l : Location} {ps : List String}
    (hps : ∀ part ∈ ps, part ≠ "" ∧ part ≠ "." ∧ part ≠ "..") (h : t.route loc ps = some l) :
    l = loc ++ ps := by
  induction ps generalizing loc with
  | nil => simpa using (Option.some.inj h).symm
  | cons part ps ih =>
    rw [List.forall_mem_cons] at hps
    rw [route] at h
    split at h
    · obtain ⟨next, hnext, hrest⟩ := Option.bind_eq_some_iff.mp h
      rw [ih hps.2 hrest, eq_of_step? hps.1 hnext, List.append_assoc, List.singleton_append]
    · cases h

/-- One step of cleaning, with the parts that lead to a directory kept so far. -/
theorem route_cleanStep {rooted : Bool} {loc dir next : Location} {kept : List String}
    {part : String} (hroot : rooted = true → loc = [])
    (hkept : ∀ name ∈ kept, name ≠ "" ∧ name ≠ ".") (h : t.route loc kept.reverse = some dir)
    (hdir : t.node? dir = some .directory) (hstep : step? dir part = some next) :
    t.route loc (Path.cleanStep rooted kept part).reverse = some next := by
  by_cases hstay : part = "" ∨ part = "."
  · have hkeep : Path.cleanStep rooted kept part = kept := by
      rcases hstay with rfl | rfl <;> rfl
    have hnext : step? dir part = some dir := by
      rcases hstay with rfl | rfl <;> rfl
    rw [hkeep, h, ← hnext, hstep]
  · by_cases hdots : part = ".."
    · subst hdots
      obtain rfl : dir.dropLast = next := Option.some.inj hstep
      cases kept with
      | nil =>
        obtain rfl : loc = dir := Option.some.inj h
        cases rooted with
        | true =>
          obtain rfl := hroot rfl
          rfl
        | false => exact route_concat (t.route_nil loc) hdir
      | cons name rest =>
        by_cases hname : name = ".."
        · have hpush : Path.cleanStep rooted (name :: rest) ".." = ".." :: name :: rest := by
            simp [Path.cleanStep, hname]
          rw [hpush, List.reverse_cons, route_concat h hdir, hstep]
        · have hpop : Path.cleanStep rooted (name :: rest) ".." = rest := by
            simp [Path.cleanStep, hname]
          obtain ⟨hempty, hdot⟩ := hkept name List.mem_cons_self
          rw [List.reverse_cons, route_append, Option.bind_eq_some_iff] at h
          obtain ⟨above, habove, hlast⟩ := h
          have hdown := route_names (by simpa using ⟨hempty, hdot, hname⟩) hlast
          rw [hpop, habove, hdown, List.dropLast_concat]
    · have hpush : Path.cleanStep rooted kept part = part :: kept := by
        simp [Path.cleanStep, hdots, not_or.mp hstay]
      rw [hpush, List.reverse_cons, route_concat h hdir, hstep]

/-- Cleaning does not change where parts lead. -/
theorem route_cleanParts {rooted : Bool} {loc l : Location} {ps : List String}
    (hroot : rooted = true → loc = []) (h : t.route loc ps = some l) :
    t.route loc (Path.cleanParts rooted ps) = some l := by
  have hfold (ps kept : List String) (dir : Location)
      (hkept : ∀ name ∈ kept, name ≠ "" ∧ name ≠ ".")
      (hdir : t.route loc kept.reverse = some dir) (hrest : t.route dir ps = some l) :
      t.route loc (ps.foldl (Path.cleanStep rooted) kept).reverse = some l := by
    induction ps generalizing kept dir with
    | nil => rwa [← Option.some.inj hrest]
    | cons part ps ih =>
      rw [route] at hrest
      split at hrest
      · next hnode =>
        obtain ⟨next, hstep, hrest⟩ := Option.bind_eq_some_iff.mp hrest
        have hnext := route_cleanStep hroot hkept hdir hnode hstep
        refine ih _ next ?_ hnext hrest
        exact Path.forall_cleanStep hkept (fun hempty hdot _ => ⟨hempty, hdot⟩) fun _ => by decide
      · cases hrest
  exact hfold ps [] loc (by simp) rfl h

/-- Cleaning does not change to which directory a path leads. -/
theorem route_clean {path : String} {dir : Location}
    (h : t.route (t.start path) (Path.parts path) = some dir)
    (hdir : t.node? dir = some .directory) :
    t.route (t.start (Path.clean path)) (Path.parts (Path.clean path)) = some dir := by
  have hstart : t.start (Path.clean path) = t.start path := by
    rw [start, start, Path.isAbsolute_clean]
  have hcleaned := route_cleanParts start_of_isAbsolute h
  rw [hstart]
  by_cases hnone : Path.cleanParts (Path.isAbsolute path) (Path.parts path) = []
  · rw [hnone] at hcleaned
    obtain rfl : t.start path = dir := Option.some.inj hcleaned
    rw [Path.clean_of_nil hnone]
    split
    · next hrooted =>
      rw [start_of_isAbsolute hrooted]
      rfl
    · exact route_concat (t.route_nil _) hdir
  · rw [Path.parts_clean hnone, route_rooted, hcleaned]

/-- A name in a directory leads on from where the directory is. -/
theorem route_join {path name : String} {dir : Location} (hpath : path ≠ "")
    (hname : Path.IsName name) (h : t.route (t.start path) (Path.parts path) = some dir)
    (hdir : t.node? dir = some .directory) :
    t.route (t.start (Path.join [path, name])) (Path.parts (Path.join [path, name])) =
      step? dir name := by
  have hstart : t.start (Path.join [path, name]) = t.start path := by
    rw [start, start, Path.isAbsolute_join hpath hname]
  rw [hstart, Path.parts_join hpath hname, route_rooted]
  exact route_concat (route_cleanParts start_of_isAbsolute h) hdir

/-- A name beside a file leads into the same directory. -/
theorem dropLast_of_sibling {path name : String} {l l' : Location} (hl : t.locate path = some l)
    (hnode : t.node? l ≠ some .directory) (hname : Path.IsName name)
    (hl' : t.locate (Path.join [Path.parent path, name]) = some l') :
    l'.dropLast = l.dropLast := by
  obtain ⟨ps, last, dir, hparts, hroute, hdir, hstep⟩ := exists_step_of_locate hl
  have hlast : last ≠ "" ∧ last ≠ "." ∧ last ≠ ".." := by
    by_contra hdots
    exact hnode (node?_of_step? hdir hstep hdots)
  have hparent : t.route (t.start (Path.parent path)) (Path.parts (Path.parent path)) =
      some dir := by
    refine route_clean ?_ hdir
    rw [Path.parts_uptoSlash hparts, start, Path.isAbsolute_uptoSlash]
    exact route_concat hroute hdir
  have hbeside := (route_join (Path.clean_ne_empty _) hname hparent hdir).symm.trans
    (route_of_locate hl')
  rw [eq_of_step? hname.proper hbeside, eq_of_step? hlast hstep, List.dropLast_concat,
    List.dropLast_concat]

/-! ## Directories -/

/-- The second tree has the directories of the first. -/
structure DirsWithin (t t' : FileTree) : Prop where
  workDir : t'.workDir = t.workDir
  node? : ∀ l, t.node? l = some .directory → t'.node? l = some .directory

theorem DirsWithin.refl (t : FileTree) : t.DirsWithin t :=
  ⟨rfl, fun _ h => h⟩

theorem DirsWithin.trans {t'' : FileTree} (h : t.DirsWithin t') (h' : t'.DirsWithin t'') :
    t.DirsWithin t'' :=
  ⟨h'.workDir.trans h.workDir, fun l hl => h'.node? l (h.node? l hl)⟩

theorem DirsWithin.route (h : t.DirsWithin t') {loc l : Location} {ps : List String}
    (hl : t.route loc ps = some l) : t'.route loc ps = some l := by
  induction ps generalizing loc with
  | nil => exact hl
  | cons part ps ih =>
    rw [FileTree.route] at hl ⊢
    split at hl
    · next hdir =>
      rw [if_pos (h.node? loc hdir)]
      obtain ⟨next, hnext, hrest⟩ := Option.bind_eq_some_iff.mp hl
      exact Option.bind_eq_some_iff.mpr ⟨next, hnext, ih hrest⟩
    · cases hl

theorem DirsWithin.locate (h : t.DirsWithin t') {path : String} {l : Location}
    (hl : t.locate path = some l) : t'.locate path = some l := by
  rw [FileTree.locate] at hl ⊢
  split at hl
  · cases hl
  · next hfault =>
    have hstart : t'.start path = t.start path := by rw [start, start, h.workDir]
    rw [hstart]
    exact h.route hl

/-- Trees with the same directories. -/
def SameDirs (t t' : FileTree) : Prop :=
  t.DirsWithin t' ∧ t'.DirsWithin t

theorem SameDirs.refl (t : FileTree) : t.SameDirs t :=
  ⟨.refl t, .refl t⟩

theorem SameDirs.trans {t'' : FileTree} (h : t.SameDirs t') (h' : t'.SameDirs t'') :
    t.SameDirs t'' :=
  ⟨h.1.trans h'.1, h'.2.trans h.2⟩

theorem SameDirs.symm (h : t.SameDirs t') : t'.SameDirs t :=
  ⟨h.2, h.1⟩

theorem SameDirs.locate_eq (h : t.SameDirs t') (path : String) :
    t'.locate path = t.locate path := by
  apply Option.ext
  intro l
  exact ⟨h.2.locate, h.1.locate⟩

/-- Trees with the same directories that have the same at the end of a path resolve it alike. -/
theorem SameDirs.resolve_eq (h : t.SameDirs t') {path last : String} {ps : List String}
    {dir : Location} (hparts : Path.parts path = ps ++ [last])
    (hroute : t.route (t.start path) ps = some dir) (hdir : t.node? dir = some .directory)
    (hnode : ∀ l, step? dir last = some l → t'.node? l = t.node? l) :
    t'.resolve path = t.resolve path := by
  have hstart : t'.start path = t.start path := by rw [start, start, h.1.workDir]
  have hdir' := h.1.node? dir hdir
  have hwalk : t'.walk dir [last] = t.walk dir [last] := by
    cases hstep : step? dir last with
    | none => rw [walk_cons_of_tooLong hdir hstep, walk_cons_of_tooLong hdir' hstep]
    | some l =>
      rw [walk_cons_of_step? hdir hstep, walk_cons_of_step? hdir' hstep, walk, walk, hnode l hstep]
  rw [resolve, resolve, hstart, hparts, walk_append hroute, walk_append (h.1.route hroute), hwalk]

theorem dirsWithin_of_remove (t : FileTree) (above : Location) : (t.remove above).DirsWithin t := by
  refine ⟨rfl, fun l hl => ?_⟩
  rw [node?_remove] at hl
  split at hl
  · cases hl
  · exact hl

/-- Removing brings no file about. -/
theorem text?_of_remove {above : Location} {path text : String}
    (h : (t.remove above).text? path = some text) : t.text? path = some text := by
  obtain ⟨l, hl, hnode⟩ := text?_eq_some_iff.mp h
  refine text?_eq_some_iff.mpr ⟨l, (t.dirsWithin_of_remove above).locate hl, ?_⟩
  rw [node?_remove] at hnode
  split at hnode
  · cases hnode
  · exact hnode

/-! ## Writing -/

theorem exists_writable_of_write {path text : String} (h : t.write path text = .ok t') :
    ∃ l, t.writable path = .ok l ∧ t' = t.setNode l (.file text) := by
  rw [write] at h
  split at h
  · next l hl => exact ⟨l, hl, (Except.ok.inj h).symm⟩
  · cases h

/-- Writing a file puts it where its path leads, in a place that is no directory. -/
theorem node?_write {path text : String} (h : t.write path text = .ok t') :
    ∃ l, t.locate path = some l ∧ t.node? l ≠ some .directory ∧ t'.workDir = t.workDir ∧
      ∀ l', t'.node? l' = if l' = l then some (.file text) else t.node? l' := by
  obtain ⟨l, hl, rfl⟩ := exists_writable_of_write h
  obtain ⟨-, hlocate, hnode⟩ := writable_eq_ok_iff.mp hl
  have hplace : t.hasPlace l = true := hasPlace_iff.mpr ⟨node?_dropLast_of_locate hlocate, hnode⟩
  exact ⟨l, hlocate, hnode, t.workDir_setNode l _, node?_setNode hplace _⟩

theorem sameDirs_of_write {path text : String} (h : t.write path text = .ok t') :
    t.SameDirs t' := by
  obtain ⟨l, -, hl, hworkDir, hnode⟩ := node?_write h
  refine ⟨⟨hworkDir, fun l' hl' => ?_⟩, ⟨hworkDir.symm, fun l' hl' => ?_⟩⟩
  · have hne : l' ≠ l := fun heq => hl (heq ▸ hl')
    rw [hnode, if_neg hne, hl']
  · rw [hnode] at hl'
    split at hl'
    · cases hl'
    · exact hl'

/-- After a write every path that leads to the file reads the text, and every other
path reads what it read before. -/
theorem text?_write {path text : String} (h : t.write path text = .ok t') (path' : String) :
    t'.text? path' = if t.locate path' = t.locate path then some text else t.text? path' := by
  obtain ⟨l, hl, -, -, hnode⟩ := node?_write h
  apply Option.ext
  intro text'
  rw [text?_eq_some_iff, (sameDirs_of_write h).locate_eq, hl]
  by_cases hpath' : t.locate path' = some l
  · simp [hpath', hnode]
  · rw [if_neg hpath', text?_eq_some_iff]
    refine exists_congr fun l' => and_congr_right fun hl' => ?_
    have hne : l' ≠ l := fun heq => hpath' (heq ▸ hl')
    rw [hnode, if_neg hne]

theorem read_write_self {path text : String} (h : t.write path text = .ok t') :
    t'.read path = .ok text := by
  rw [read_eq_ok_iff, text?_write h, if_pos rfl]

/-- Writing one name of a directory does not change what is read at another, not even the
error. -/
theorem read_write_of_ne {dir name name' text : String} (hname : Path.IsName name)
    (hname' : Path.IsName name') (hne : name ≠ name')
    (h : t.write (Path.join [dir, name]) text = .ok t') :
    t'.read (Path.join [dir, name']) = t.read (Path.join [dir, name']) := by
  obtain ⟨before, hjoin⟩ := Path.exists_join_eq dir
  obtain ⟨ps, last, hparts⟩ := Path.exists_parts_append before
  rw [hjoin name hname] at h
  rw [hjoin name' hname']
  obtain ⟨l, hl, -, -, hnode⟩ := node?_write h
  have hstart : t.start (before ++ name') = t.start (before ++ name) := by
    rw [start, start, hname'.isAbsolute_append hname]
  rw [locate_eq (hparts name hname.noSlash) (pathFault?_of_locate hl),
    Option.bind_eq_some_iff] at hl
  obtain ⟨dir, hroute, hl⟩ := hl
  split at hl
  · next hdir =>
    have hresolve : t'.resolve (before ++ name') = t.resolve (before ++ name') := by
      refine (sameDirs_of_write h).resolve_eq (hparts name' hname'.noSlash) (hstart ▸ hroute) hdir
        fun l' hl' => ?_
      rw [hnode, if_neg]
      rintro rfl
      rw [step?_of_name (hname.append_ne_dots last)] at hl
      rw [step?_of_name (hname'.append_ne_dots last)] at hl'
      split at hl
      · cases hl
      split at hl'
      · cases hl'
      have hsame := (Option.some.inj hl).trans (Option.some.inj hl').symm
      exact hne (by simpa using hsame)
    rw [read, read, find, find, hresolve]
  · cases hl

/-- Two paths that do not lead to the same location. -/
def Apart (t : FileTree) (path path' : String) : Prop :=
  ∀ l, t.locate path = some l → t.locate path' ≠ some l

theorem apart_of_ne {path path' : String} (h : t.locate path ≠ t.locate path') :
    t.Apart path path' :=
  fun _ hl hl' => h (hl.trans hl'.symm)

theorem text?_write_of_apart {path path' text : String} (h : t.write path text = .ok t')
    (hapart : t.Apart path path') : t'.text? path' = t.text? path' := by
  obtain ⟨l, hl, -⟩ := node?_write h
  rw [text?_write h, hl, if_neg (hapart l hl)]

/-- What can be written stays so in a tree with the same directories. -/
theorem SameDirs.writable (h : t.SameDirs t') {path : String} {l : Location}
    (hl : t.writable path = .ok l) : t'.writable path = .ok l := by
  obtain ⟨hname, hlocate, hnode⟩ := writable_eq_ok_iff.mp hl
  refine writable_eq_ok_iff.mpr ⟨hname, h.1.locate hlocate, ?_⟩
  exact fun hdir => hnode (h.2.node? l hdir)

theorem SameDirs.writable_iff (h : t.SameDirs t') {path : String} {l : Location} :
    t'.writable path = .ok l ↔ t.writable path = .ok l :=
  ⟨h.symm.writable, h.writable⟩

/-! ## Removing -/

/-- A path that does not lead through what is removed, in a tree with the directories of `t`,
reads what it read before. -/
theorem SameDirs.text?_remove (h : t.SameDirs t') {above : Location} {path : String}
    (houtside : ∀ l, t.locate path = some l →
      (t.remove above).locate path = some l ∧ ¬ above <+: l) :
    (t'.remove above).text? path = t'.text? path := by
  have hdirs : (t.remove above).DirsWithin (t'.remove above) := by
    refine ⟨h.1.workDir, fun l hl => ?_⟩
    rw [node?_remove] at hl ⊢
    split at hl
    · cases hl
    · next hkept => rw [if_neg hkept, h.1.node? l hl]
  apply Option.ext
  intro text
  refine ⟨text?_of_remove, fun htext => ?_⟩
  obtain ⟨l, hl, hnode⟩ := text?_eq_some_iff.mp htext
  obtain ⟨hlocate, habove⟩ := houtside l (h.2.locate hl)
  refine text?_eq_some_iff.mpr ⟨l, hdirs.locate hlocate, ?_⟩
  rw [node?_remove, if_neg fun hbelow => habove hbelow.1, hnode]

end Cflat.FileTree
