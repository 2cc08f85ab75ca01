import Cflat.Path.Basic

/-!
# File trees

The files a program can see, and the directory it runs in.  A tree lists its
nodes by their location, the names on the way from the root.  Every node lies in
a directory, and no change of a tree breaks this.  A path is walked name by name, so
every name before the last must be that of a directory.  Paths and names have a
greatest length, and no path holds a NUL.
-/

namespace Cflat

/-- A place in a tree: the names on the way from the root. -/
abbrev Location := List String

/-- What can be at a location. -/
inductive Node
  | file (text : String)
  | directory
  deriving DecidableEq, Repr

namespace FileTree

/-- Every node lies in a directory.  The root is one without being listed. -/
def Closed (nodes : List (Location × Node)) : Prop :=
  ∀ n ∈ nodes, n.1.dropLast = [] ∨ nodes.lookup n.1.dropLast = some .directory

theorem closed_nil : Closed [] := by
  simp [Closed]

/-- A key that is kept is found among the kept entries as it was before. -/
theorem lookup_filter_kept {α β : Type} [BEq α] [LawfulBEq α] (kept : α → Bool) (a : α) :
    ∀ entries : List (α × β),
      (entries.filter fun e => kept e.1).lookup a =
        if kept a then entries.lookup a else none
  | [] => by simp
  | (b, x) :: entries => by
    have ih := lookup_filter_kept kept a entries
    rw [List.filter_cons]
    by_cases hab : a = b
    · subst hab
      by_cases hkept : kept a
      · rw [if_pos hkept, if_pos hkept, List.lookup_cons, List.lookup_cons, beq_self_eq_true]
      · rw [if_neg hkept, if_neg hkept, ih, if_neg hkept]
    · rw [List.lookup_cons, beq_false_of_ne hab]
      by_cases hkept : kept b
      · rw [if_pos hkept, List.lookup_cons, beq_false_of_ne hab]
        exact ih
      · rw [if_neg hkept]
        exact ih

/-- A node in place of another one is found, and the other nodes are as before. -/
theorem lookup_replace (nodes : List (Location × Node)) (loc : Location) (n : Node)
    (l : Location) :
    ((loc, n) :: nodes.filter (·.1 ≠ loc)).lookup l =
      if l = loc then some n else nodes.lookup l := by
  have hkept := lookup_filter_kept (fun key => decide (key ≠ loc)) l nodes
  rw [List.lookup_cons]
  by_cases hl : l = loc
  · rw [if_pos hl, hl, beq_self_eq_true]
  · rw [if_neg hl, beq_false_of_ne hl]
    exact hkept.trans (if_pos (by simpa using hl))

/-- A node can be put into a directory, unless it is put over one. -/
theorem Closed.replace {nodes : List (Location × Node)} (h : Closed nodes) {loc : Location}
    (hdir : loc.dropLast = [] ∨ nodes.lookup loc.dropLast = some .directory) (hloc : loc ≠ [])
    (hover : nodes.lookup loc ≠ some .directory) (n : Node) :
    Closed ((loc, n) :: nodes.filter (·.1 ≠ loc)) := by
  have hfound {l : Location} (hl : l ≠ loc) (hnode : nodes.lookup l = some .directory) :
      ((loc, n) :: nodes.filter (·.1 ≠ loc)).lookup l = some .directory := by
    rw [lookup_replace, if_neg hl, hnode]
  intro m hm
  rcases List.mem_cons.mp hm with rfl | hm
  · refine hdir.imp_right (hfound fun hself => ?_)
    have hlength := congrArg List.length hself
    have hpos := List.length_pos_iff.mpr hloc
    rw [List.length_dropLast] at hlength
    dsimp only at hlength
    omega
  · refine (h m (List.mem_filter.mp hm).1).imp_right fun hnode => hfound ?_ hnode
    intro hself
    exact hover (hself ▸ hnode)

/-- A node can be taken away with everything below it. -/
theorem Closed.removeBelow {nodes : List (Location × Node)} (h : Closed nodes) (loc : Location) :
    Closed (nodes.filter fun n => !loc.isPrefixOf n.1) := by
  intro m hm
  obtain ⟨hmem, habove⟩ := List.mem_filter.mp hm
  refine (h m hmem).imp_right fun hnode => ?_
  have hkept : (!loc.isPrefixOf m.1.dropLast) = true := by
    simp only [Bool.not_eq_true', ← Bool.not_eq_true, List.isPrefixOf_iff_prefix] at habove ⊢
    exact fun hbelow => habove (hbelow.trans (List.dropLast_prefix m.1))
  exact (lookup_filter_kept (fun key => !loc.isPrefixOf key) _ nodes).trans
    ((if_pos hkept).trans hnode)

end FileTree

/-- The files that a program can see. -/
structure FileTree where
  nodes : List (Location × Node) := []
  /-- The directory that relative paths start from. -/
  workDir : Location := []
  closed : FileTree.Closed nodes := by exact Cflat.FileTree.closed_nil
  deriving DecidableEq, Repr

/-- Why a path cannot be used. -/
inductive PathCause
  | notFound
  | notDirectory
  | isDirectory
  /-- The path or a name in it is too long. -/
  | tooLong
  /-- The path holds a NUL. -/
  | invalid
  deriving DecidableEq, Repr

namespace PathCause

/-- The text of a cause. -/
def message : PathCause → String
  | notFound => "no such file or directory"
  | notDirectory => "not a directory"
  | isDirectory => "is a directory"
  | tooLong => "file name too long"
  | invalid => "invalid argument"

end PathCause

/-- What was done with a path when it failed. -/
inductive PathAction
  | opening
  | reading
  deriving DecidableEq, Repr

/-- An action on a path that failed. -/
structure PathError where
  action : PathAction
  path : String
  cause : PathCause
  deriving DecidableEq, Repr

namespace PathError

/-- The text of a failed action. -/
def message (e : PathError) : String :=
  (match e.action with
    | .opening => "open "
    | .reading => "read ") ++ e.path ++ ": " ++ e.cause.message

end PathError

namespace FileTree

/-- The node at a location.  The root is always a directory. -/
def node? (t : FileTree) (loc : Location) : Option Node :=
  if loc = [] then some .directory else t.nodes.lookup loc

theorem lookup_of_node? {t : FileTree} {loc : Location} (h : t.node? loc = some .directory) :
    loc = [] ∨ t.nodes.lookup loc = some .directory := by
  rw [node?] at h
  split at h
  · next hroot => exact .inl hroot
  · exact .inr h

/-- Whether a node can be put at a location: it lies in a directory and is none
itself. -/
def hasPlace (t : FileTree) (loc : Location) : Bool :=
  t.node? loc.dropLast = some .directory && t.node? loc ≠ some .directory

theorem closed_setNode {t : FileTree} {loc : Location} (h : t.hasPlace loc = true) (n : Node) :
    Closed ((loc, n) :: t.nodes.filter (·.1 ≠ loc)) := by
  simp only [hasPlace, Bool.and_eq_true, decide_eq_true_eq] at h
  obtain ⟨hdir, hover⟩ := h
  have hloc : loc ≠ [] := fun hroot => hover (by rw [hroot]; rfl)
  rw [node?, if_neg hloc] at hover
  exact t.closed.replace (lookup_of_node? hdir) hloc hover n

/-- Put a node at a location, in place of the file that was there.  Where there is
no place for it nothing changes. -/
def setNode (t : FileTree) (loc : Location) (n : Node) : FileTree :=
  if h : t.hasPlace loc then
    { t with nodes := (loc, n) :: t.nodes.filter (·.1 ≠ loc), closed := closed_setNode h n }
  else t

/-- How many bytes a name can have. -/
def maxNameBytes : Nat := 255

/-- How many bytes a path can have. -/
def maxPathBytes : Nat := 4095

/-- What is wrong with a path by itself, whatever the files are. -/
def pathFault? (path : String) : Option PathCause :=
  if path.toList.contains '\x00' then some .invalid
  else if path = "" then some .notFound
  else if maxPathBytes < path.utf8ByteSize then some .tooLong
  else none

/-- Walk from a location along the parts of a path.  Empty parts and single dots
stay, two dots go up, and at the root they stay as well. -/
def walk (t : FileTree) (loc : Location) : List String → Except PathCause (Location × Node)
  | [] =>
    match t.node? loc with
    | some n => .ok (loc, n)
    | none => .error .notFound
  | part :: rest =>
    match t.node? loc with
    | none => .error .notFound
    | some (.file _) => .error .notDirectory
    | some .directory =>
      if part = "" || part = "." then t.walk loc rest
      else if part = ".." then t.walk loc.dropLast rest
      else if maxNameBytes < part.utf8ByteSize then .error .tooLong
      else t.walk (loc ++ [part]) rest

/-- Where the walk along a path starts. -/
def start (t : FileTree) (path : String) : Location :=
  if Path.isAbsolute path then [] else t.workDir

/-- Where a path leads, and what is there. -/
def resolve (t : FileTree) (path : String) : Except PathCause (Location × Node) :=
  match pathFault? path with
  | some cause => .error cause
  | none => t.walk (t.start path) (Path.parts path)

/-- What a path leads to. -/
def find (t : FileTree) (path : String) : Except PathCause Node :=
  (t.resolve path).map (·.2)

/-- Whether a path leads to a directory. -/
def isDirectory (t : FileTree) (path : String) : Bool :=
  match t.find path with
  | .ok .directory => true
  | _ => false

/-- Whether a path leads to a file. -/
def isFile (t : FileTree) (path : String) : Bool :=
  match t.find path with
  | .ok (.file _) => true
  | _ => false

/-- The text of a file. -/
def read (t : FileTree) (path : String) : Except PathError String :=
  match t.find path with
  | .ok (.file text) => .ok text
  | .ok .directory => .error ⟨.reading, path, .isDirectory⟩
  | .error cause => .error ⟨.opening, path, cause⟩

/-- The parts of a path up to its last name, and that name.  There is no last
name if the path ends in a slash or in dots. -/
def splitLast (path : String) : List String × Option String :=
  let ps := Path.parts path
  match ps.getLast? with
  | some "" => ((ps.reverse.dropWhile (· = "")).reverse.dropLast, none)
  | some name => (ps.dropLast, if name = "." || name = ".." then none else some name)
  | none => ([], none)

/-- Where a file can be written: its directory exists, and what is there already
is a file. -/
def writable (t : FileTree) (path : String) : Except PathCause Location :=
  match pathFault? path with
  | some cause => .error cause
  | none =>
    let (dir, name) := splitLast path
    match t.walk (t.start path) dir with
    | .error cause => .error cause
    | .ok (_, .file _) => .error .notDirectory
    | .ok (loc, .directory) =>
      match name with
      | none => .error .isDirectory
      | some name =>
        if maxNameBytes < name.utf8ByteSize then .error .tooLong
        else match t.node? (loc ++ [name]) with
          | some .directory => .error .isDirectory
          | _ => .ok (loc ++ [name])

/-- Write a file, over the old one if there is one. -/
def write (t : FileTree) (path text : String) : Except PathError FileTree :=
  match t.writable path with
  | .ok loc => .ok (t.setNode loc (.file text))
  | .error cause => .error ⟨.opening, path, cause⟩

/-- Make a directory and those it lies in, except where something exists
already. -/
def makeDirs (t : FileTree) (loc : Location) : FileTree :=
  (List.range loc.length).foldl
    (fun t i =>
      let above := loc.take (i + 1)
      if (t.node? above).isSome then t else t.setNode above .directory)
    t

/-- Remove a node and everything below it. -/
def remove (t : FileTree) (loc : Location) : FileTree :=
  { t with
    nodes := t.nodes.filter fun n => !loc.isPrefixOf n.1
    closed := t.closed.removeBelow loc }

/-- The location an absolute path names, as far as its text tells. -/
def locationOf (path : String) : Location :=
  Path.cleanParts true (Path.parts path)

/-- Put a file or directory into a tree, given by a path from the directory of
the program.  A path that ends in a slash is a directory. -/
def plant (t : FileTree) (path text : String) : FileTree :=
  let loc := t.workDir ++ Path.cleanParts false (Path.parts path)
  if path.toList.getLast? = some '/' then t.makeDirs loc
  else (t.makeDirs loc.dropLast).setNode loc (.file text)

/-- A directory with the given files in it, as a program running there sees it. -/
def ofFiles (dir : Location) (files : List (String × String)) : FileTree :=
  files.foldl (fun t f => t.plant f.1 f.2) (makeDirs { workDir := dir } dir)

/-- The names in a directory, in order. -/
def names (t : FileTree) (path : String) : List String :=
  match t.resolve path with
  | .ok (loc, .directory) =>
    (t.nodes.filterMap fun n =>
      match n.1.getLast? with
      | some name => if n.1.dropLast = loc then some name else none
      | none => none).mergeSort (· ≤ ·)
  | _ => []

/-- The files below a location by their path from there, in order. -/
def filesBelow (t : FileTree) (loc : Location) : List (String × String) :=
  (t.nodes.filterMap fun n =>
    match n.2 with
    | .file text =>
      if loc.isPrefixOf n.1 then some (String.intercalate "/" (n.1.drop loc.length), text) else none
    | .directory => none).mergeSort (·.1 ≤ ·.1)

end FileTree

end Cflat
