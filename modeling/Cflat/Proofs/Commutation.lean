import Cflat.Proofs.Sessions

/-!
# The order of declarations in different scopes

Numbers of static locals count a name over the whole tree, so a declaration in one function
can renumber a static local of another.  All the same it does not matter how the declarations
of different scopes are interleaved.

* A tree is known by its places.  `Block.eq_of_vars?`, `Tree.eq_of_vars?`: two trees whose
  scopes hold the same are the same, and `Tree.coincides_of_vars?`: nothing that can be asked
  of them differs.
* A declaration is an affair of its scope.  `Tree.refusal?_congr`: whether it is refused, and
  why, depends on what the scope holds, and by `Tree.vars?_attempt_of_ne` it changes nothing
  else; so two of them can be exchanged (`Tree.attempt_comm`).
* Sessions.  `Session.declarations_commute` says it of the answers that a caller gets, and
  that the classes depend on the declarations of each scope alone.
-/

namespace Cflat.Scope

variable {ι : Type}

/-! ## Trees by their places -/

mutual

/-- A block is determined by what is declared at each path in it. -/
theorem Block.eq_of_vars? : ∀ b c : Block ι, (∀ path, b.vars? path = c.vars? path) → b = c
  | ⟨decls, blocks⟩, ⟨decls', blocks'⟩, h => by
    have hdecls : decls = decls' := Declarations.ext (by simpa [Block.vars] using h [])
    have hblocks : blocks = blocks' :=
      Block.eq_of_vars?_list blocks blocks' fun i path => by simpa using h (i :: path)
    rw [hdecls, hblocks]

theorem Block.eq_of_vars?_list : ∀ bs cs : List (Block ι),
    (∀ (i : Nat) path, bs[i]?.bind (·.vars? path) = cs[i]?.bind (·.vars? path)) → bs = cs
  | [], [], _ => rfl
  | [], c :: cs, h => by simpa using h 0 []
  | b :: bs, [], h => by simpa using h 0 []
  | b :: bs, c :: cs, h => by
    have hfirst : b = c := Block.eq_of_vars? b c fun path => by simpa using h 0 path
    have hrest : bs = cs :=
      Block.eq_of_vars?_list bs cs fun i path => by simpa using h (i + 1) path
    rw [hfirst, hrest]

end

theorem bodies_ext {bodies bodies' : List (Body ι)}
    (hfunctions : bodies.map (·.function) = bodies'.map (·.function))
    (hblocks : bodies.map (·.block) = bodies'.map (·.block)) : bodies = bodies' := by
  induction bodies generalizing bodies' with
  | nil => exact (List.map_eq_nil_iff.mp hblocks.symm).symm
  | cons body rest ih =>
    cases bodies' with
    | nil => simp at hblocks
    | cons body' rest' =>
      rw [List.map_cons, List.map_cons, List.cons.injEq] at hfunctions hblocks
      have hbody : body = body' := by
        cases body
        cases body'
        exact Body.mk.injEq .. ▸ ⟨hfunctions.1, hblocks.1⟩
      rw [hbody, ih hfunctions.2 hblocks.2]

section

variable {t t' : Tree ι} (hvars : ∀ place, t.vars? place = t'.vars? place)

include hvars

theorem Tree.root_eq_of_vars? : t.root = t'.root :=
  Block.eq_of_vars? _ _ hvars

/-- Two trees that hold the same at each place differ at most in what is not declared. -/
theorem Tree.eq_of_vars? (hfunctions : t.bodies.map (·.function) = t'.bodies.map (·.function))
    (hreferred : t.referred = t'.referred) (hfrozen : t.frozen = t'.frozen) : t = t' := by
  have hroot := Tree.root_eq_of_vars? hvars
  simp only [Tree.root, Block.mk.injEq] at hroot
  exact Tree.ext (congrArg Declarations.entities hroot.1) (bodies_ext hfunctions hroot.2) hreferred
    hfrozen

theorem Tree.lookup?_congr (place : Place) (name : String) :
    t.lookup? place name = t'.lookup? place name := by
  induction place using List.reverseRecOn with
  | nil => rw [Tree.lookup?_nil, Tree.lookup?_nil, Tree.findAt?, Tree.findAt?, hvars]
  | append_singleton place i ih =>
    rw [Tree.lookup?_concat, Tree.lookup?_concat, Tree.findAt?, Tree.findAt?, hvars, ih]

end

/-! ## Declarations and their scopes -/

/-- Whether and why a declaration is refused is decided by what its scope holds. -/
theorem Tree.refusal?_congr {t t' : Tree ι} (hfrozen : t.frozen = t'.frozen) {place : Place}
    (hvars : t.vars? place = t'.vars? place) (e : Entity ι) :
    t.refusal? place e = t'.refusal? place e := by
  rw [Tree.refusal?, Tree.refusal?, hfrozen, hvars]

/-! ## Attempts -/

/-- The tree after an attempt to declare. -/
def Tree.attempt (t : Tree ι) (place : Place) (e : Entity ι) : Tree ι :=
  (t.apply (.declare place e)).2

theorem Tree.attempt_cases (t : Tree ι) (place : Place) (e : Entity ι) :
    (∃ err, t.refusal? place e = some err ∧ t.attempt place e = t) ∨
      (t.refusal? place e = none ∧ t.attempt place e = t.addAt place e) := by
  rw [Tree.attempt, Tree.apply_declare]
  cases t.refusal? place e with
  | some err => exact .inl ⟨err, rfl, rfl⟩
  | none => exact .inr ⟨rfl, rfl⟩

/-- Adding an entity leaves the owners of the bodies and the references alone. -/
theorem Tree.addAt_frame (t : Tree ι) (place : Place) (e : Entity ι) :
    (t.addAt place e).bodies.map (·.function) = t.bodies.map (·.function) ∧
      (t.addAt place e).referred = t.referred := by
  cases place with
  | nil => exact ⟨rfl, rfl⟩
  | cons i path =>
    refine ⟨?_, rfl⟩
    have hfunctions : (t.bodies.modify i fun body =>
        { body with block := body.block.modifyAt (·.addVar e) path }).map (·.function) =
        (t.bodies.map (·.function)).modify i id := by
      apply map_modify
      intro body
      rfl
    rw [List.modify_id] at hfunctions
    exact hfunctions

theorem Tree.attempt_frame (t : Tree ι) (place : Place) (e : Entity ι) :
    (t.attempt place e).bodies.map (·.function) = t.bodies.map (·.function) ∧
      (t.attempt place e).referred = t.referred ∧ (t.attempt place e).frozen = t.frozen := by
  obtain ⟨err, -, hkept⟩ | ⟨hnone, hadded⟩ := t.attempt_cases place e
  · rw [hkept]
    exact ⟨rfl, rfl, rfl⟩
  · obtain ⟨hfrozen, -⟩ := Tree.refusal?_eq_none_iff.mp hnone
    rw [hadded, t.frozen_addAt, hfrozen]
    exact ⟨(t.addAt_frame place e).1, (t.addAt_frame place e).2, rfl⟩

/-- Other scopes do not notice a declaration. -/
theorem Tree.vars?_attempt_of_ne (t : Tree ι) {place q : Place} (hq : q ≠ place) (e : Entity ι) :
    (t.attempt place e).vars? q = t.vars? q := by
  obtain ⟨err, -, hkept⟩ | ⟨hnone, hadded⟩ := t.attempt_cases place e
  · rw [hkept]
  · obtain ⟨-, -, vars, hvars, -⟩ := Tree.refusal?_eq_none_iff.mp hnone
    rw [hadded, Tree.vars?_addAt hvars, if_neg hq]

/-- What a scope holds after a declaration in it is decided by what it held before. -/
theorem Tree.vars?_attempt_congr {t t' : Tree ι} (hfrozen : t.frozen = t'.frozen) {place : Place}
    (hvars : t.vars? place = t'.vars? place) (e : Entity ι) :
    (t.attempt place e).vars? place = (t'.attempt place e).vars? place := by
  have hrefusal := Tree.refusal?_congr hfrozen hvars e
  obtain ⟨err, herr, hkept⟩ | ⟨hnone, hadded⟩ := t.attempt_cases place e
  · obtain ⟨err', -, hkept'⟩ | ⟨hnone', -⟩ := t'.attempt_cases place e
    · rw [hkept, hkept', hvars]
    · simp [herr, hnone'] at hrefusal
  · obtain ⟨err', herr', -⟩ | ⟨hnone', hadded'⟩ := t'.attempt_cases place e
    · simp [hnone, herr'] at hrefusal
    · obtain ⟨-, -, vars, hheld, -⟩ := Tree.refusal?_eq_none_iff.mp hnone
      rw [hadded, hadded', Tree.vars?_addAt hheld, Tree.vars?_addAt (hvars ▸ hheld), if_pos rfl,
        if_pos rfl]

section

variable (t : Tree ι) {p q : Place} (hpq : p ≠ q) (e d : Entity ι)

include hpq

theorem Tree.refusal?_attempt : (t.attempt q d).refusal? p e = t.refusal? p e :=
  Tree.refusal?_congr (t.attempt_frame q d).2.2 (t.vars?_attempt_of_ne hpq d) e

/-- What a scope holds after two declarations, the last one in another scope or in this. -/
theorem Tree.vars?_attempt_attempt (r : Place) :
    ((t.attempt q d).attempt p e).vars? r =
      if r = p then (t.attempt p e).vars? p
      else if r = q then (t.attempt q d).vars? q
      else t.vars? r := by
  by_cases hp : r = p
  · subst hp
    rw [if_pos rfl]
    exact Tree.vars?_attempt_congr (t.attempt_frame q d).2.2 (t.vars?_attempt_of_ne hpq d) e
  · rw [if_neg hp, Tree.vars?_attempt_of_ne _ hp]
    by_cases hq : r = q
    · rw [if_pos hq, hq]
    · rw [if_neg hq, t.vars?_attempt_of_ne hq]

/-- Attempts in different scopes can be exchanged. -/
theorem Tree.attempt_comm : (t.attempt p e).attempt q d = (t.attempt q d).attempt p e := by
  obtain ⟨hfunctions, hreferred, hfrozen⟩ := t.attempt_frame p e
  obtain ⟨hfunctions', hreferred', hfrozen'⟩ := t.attempt_frame q d
  obtain ⟨hfunctions₁, hreferred₁, hfrozen₁⟩ := (t.attempt p e).attempt_frame q d
  obtain ⟨hfunctions₂, hreferred₂, hfrozen₂⟩ := (t.attempt q d).attempt_frame p e
  apply Tree.eq_of_vars?
  · intro r
    rw [t.vars?_attempt_attempt hpq, t.vars?_attempt_attempt hpq.symm]
    by_cases hp : r = p
    · subst hp
      rw [if_neg hpq, if_pos rfl, if_pos rfl]
    · rw [if_neg hp, if_neg hp]
  · rw [hfunctions₁, hfunctions, hfunctions₂, hfunctions']
  · rw [hreferred₁, hreferred, hreferred₂, hreferred']
  · rw [hfrozen₁, hfrozen, hfrozen₂, hfrozen']

end

/-- Sessions that opened the same scopes and declared the same in each hold the same. -/
theorem Session.Records.vars?_eq {s s' : Session ι} (h : s.Records) (h' : s'.Records)
    (hscopes : s.scopes.Perm s'.scopes)
    (hdeclared : ∀ place ∈ s.scopes, s.declaredAt place = s'.declaredAt place) (place : Place) :
    s.tree.vars? place = s'.tree.vars? place := by
  rw [h.vars? place, h'.vars? place]
  by_cases hplace : place ∈ s.scopes
  · rw [if_pos hplace, if_pos (hscopes.mem_iff.mp hplace), hdeclared place hplace]
  · rw [if_neg hplace, if_neg (mt hscopes.mem_iff.mpr hplace)]

/-! ## What can be seen -/

variable [DecidableEq ι]

/-- Two trees that no lookup, no list and no classification tells apart. -/
structure Tree.Coincides (t t' : Tree ι) : Prop where
  /-- Each name denotes the same entity from each place. -/
  finds : ∀ place name, t.resolve place name = t'.resolve place name
  /-- The lists of a scope and the classes hold the same entities in the same order. -/
  lists : ∀ query, t.lists? query = t'.lists? query
  /-- Classification gives out the same numbers. -/
  numbers : ∀ id, t.freeze.ordinal? id = t'.freeze.ordinal? id

theorem Tree.coincides_of_vars? {t t' : Tree ι}
    (hvars : ∀ place, t.vars? place = t'.vars? place) : t.Coincides t' := by
  have hentities : t.entities = t'.entities := by
    simpa [Tree.vars?_nil] using hvars []
  have hstatics : t.statics = t'.statics := by
    rw [t.statics_eq, t'.statics_eq, Tree.entries, Tree.entries, Tree.root_eq_of_vars? hvars]
  have hclasses : t.classes = t'.classes := by
    rw [t.classes_eq, t'.classes_eq, hentities, hstatics]
  refine ⟨fun place name => ?_, fun query => ?_, fun id => ?_⟩
  · rw [Tree.resolve, Tree.resolve, Tree.lookup?_congr hvars]
  · cases query with
    | entities => rw [Tree.lists?, Tree.lists?, hentities]
    | functions => rw [Tree.lists?, Tree.lists?, Tree.functions, Tree.functions, hentities]
    | locals place =>
      cases place with
      | nil => rfl
      | cons i path =>
        have hblock := hvars (i :: path)
        rw [Tree.vars?_cons, Tree.vars?_cons] at hblock
        have hlist := congrArg (Option.map fun vars => [vars]) hblock
        simpa [Tree.lists?, Function.comp_def] using hlist
    | classes | all | initialized | common | externals | statics =>
      simp only [Tree.lists?, hclasses]
  · rw [Tree.ordinal?_eq, Tree.ordinal?_eq, t.statics_freeze, t'.statics_freeze, hstatics,
      t.frozen_freeze, t'.frozen_freeze]

/-! ## Sessions -/

namespace Session

theorem tree_step_declare (s : Session ι) (place : Place) (e : Entity ι) :
    (s.step (.declare place e)).tree = s.tree.attempt place e := by
  rw [step, Tree.respond_declare, Tree.attempt]

theorem answer_declare (s : Session ι) (place : Place) (e : Entity ι) :
    s.answer (.declare place e) =
      match s.tree.refusal? place e with
      | some err => .error err
      | none => .ok .done := by
  rw [answer, Tree.respond_declare, Tree.apply_declare]
  cases s.tree.refusal? place e <;> rfl

/-- **Declarations in different scopes commute.**  Each of two declarations in different scopes
gets the same answer in either order, and both orders lead to the same tree.  So it does not
matter how the declarations of a session are interleaved: where the same scopes were opened and
each of them got the same declarations in the same order, every lookup, every list and the
numbers of the static locals are the same.  A place says how many scopes were opened before it
in the scope around it, so the order of opening is part of the places. -/
theorem declarations_commute :
    (∀ (s : Session ι) (p q : Place) (e d : Entity ι), p ≠ q →
      (s.step (.declare q d)).answer (.declare p e) = s.answer (.declare p e) ∧
      (s.step (.declare p e)).answer (.declare q d) = s.answer (.declare q d) ∧
      ((s.step (.declare p e)).step (.declare q d)).tree =
        ((s.step (.declare q d)).step (.declare p e)).tree) ∧
    ∀ requests requests' : List (Request ι),
      (run requests).scopes.Perm (run requests').scopes →
      (∀ place ∈ (run requests).scopes,
        (run requests).declaredAt place = (run requests').declaredAt place) →
      (run requests).tree.Coincides (run requests').tree := by
  refine ⟨fun s p q e d hpq => ⟨?_, ?_, ?_⟩, fun requests requests' hscopes hdeclared => ?_⟩
  · rw [answer_declare, answer_declare, tree_step_declare, s.tree.refusal?_attempt hpq]
  · rw [answer_declare, answer_declare, tree_step_declare, s.tree.refusal?_attempt hpq.symm]
  · simp only [tree_step_declare]
    exact s.tree.attempt_comm hpq e d
  · exact Tree.coincides_of_vars?
      ((records_run requests).vars?_eq (records_run requests') hscopes hdeclared)

/-- A function with bodies to declare in. -/
def sampleFunction : Entity Nat :=
  ⟨0, .definedFunction, "f", none, .global, false, none⟩

/-- A static local variable. -/
def sampleStatic (id : Nat) (name : String) : Entity Nat :=
  ⟨id, .definedVariable, name, none, .static, false, none⟩

/-- Two bodies of one function and a block, one scope after the other. -/
def groupedRequests : List (Request Nat) :=
  [.declare [] sampleFunction, .openBody sampleFunction, .declare [0] (sampleStatic 1 "a"),
    .declare [0] (sampleStatic 4 "a"), .openBlock [0], .declare [0, 0] (sampleStatic 2 "a"),
    .openBody sampleFunction, .declare [1] (sampleStatic 3 "a")]

/-- The same declarations, mixed. -/
def mixedRequests : List (Request Nat) :=
  [.openBody sampleFunction, .openBody sampleFunction, .declare [1] (sampleStatic 3 "a"),
    .openBlock [0], .declare [0, 0] (sampleStatic 2 "a"), .declare [2] (sampleStatic 4 "a"),
    .declare [0] (sampleStatic 1 "a"), .declare [] sampleFunction]

theorem declarations_commute_mixedRequests :
    let s := run groupedRequests
    let s' := run mixedRequests
    let late := sampleStatic 5 "b"
    let last := sampleStatic 6 "b"
    ([0, 0] : Place) ≠ [0] ∧
      ((s.step (.declare [0, 0] late)).step (.declare [0] last)).tree =
        ((s.step (.declare [0] last)).step (.declare [0, 0] late)).tree ∧
      s.scopes.Perm s'.scopes ∧
      (∀ place ∈ s.scopes, s.declaredAt place = s'.declaredAt place) ∧
      s.tree.Coincides s'.tree := by
  intro s s' late last
  have hscopes : s.scopes.Perm s'.scopes := by decide
  have hdeclared : ∀ place ∈ s.scopes, s.declaredAt place = s'.declaredAt place := by decide
  exact ⟨by decide, (declarations_commute.1 s [0, 0] [0] late last (by decide)).2.2, hscopes,
    hdeclared, declarations_commute.2 groupedRequests mixedRequests hscopes hdeclared⟩

end Session

end Cflat.Scope
