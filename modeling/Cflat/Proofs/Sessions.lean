import Cflat.Proofs.Places
import Cflat.Scope.Request

/-!
# Sessions with a scope tree

A session starts with an empty tree and takes one request after another: to declare,
to open a scope, to look a name up, or to list.  It keeps the requests with the
answers that they got.  Nothing in the history is taken from the tree, so it is what a
caller can know, and the state of the tree is stated in its terms.

* Requests.  `Tree.respond` answers one request, `Session.step` takes it on record
  and `Session.run` is a whole session.  `Tree.snd_respond_of_error`: a request that is
  refused leaves no trace in the tree.
* The record.  `Session.Records` says that each scope that was opened holds what was
  declared in it, so that a name is found by the rule of the nearest declaration, and that
  its place is the next one in the scope around it.  By `respond_cases` a request that is
  answered does one of three things; each keeps the record (`Records.step`), so it holds
  after every run.
* Freezing.  A query for a class freezes the tree, and from then on the answer to
  each request stays the same.
-/

namespace Cflat.Scope

variable {ι : Type}

/-! ## Requests -/

/-- The scope that a request opens another one in. -/
def Request.outer? : Request ι → Option Place
  | .openBody _ => some []
  | .openBlock outer => some outer
  | _ => none

/-- The lists that a query asks for, if there are any. -/
def Tree.lists? (t : Tree ι) : Query → Option (List (List (Entity ι)))
  | .entities => some [t.entities]
  | .functions => some [t.functions]
  | .locals place => (t.block? place).map fun b => [b.vars]
  | .classes =>
    let c := t.classes
    some [c.all, c.initialized, c.common, c.externals, c.statics]
  | .all => some [t.classes.all]
  | .initialized => some [t.classes.initialized]
  | .common => some [t.classes.common]
  | .externals => some [t.classes.externals]
  | .statics => some [t.classes.statics]

/-- The tree after a query. -/
def Tree.queried (t : Tree ι) (q : Query) : Tree ι :=
  if q.classifies then t.freeze else t

theorem Tree.apply_bind_pure {α β : Type} (t : Tree ι) (x : Change ι α) (f : α → β) :
    t.apply (x >>= fun a => pure (f a)) = ((t.apply x).1.map f, (t.apply x).2) := by
  rw [Tree.apply, run_bind, Tree.apply]
  rcases x.run.run t with ⟨_ | _, t'⟩ <;> rfl

theorem Tree.apply_lists (t : Tree ι) (q : Query) :
    t.apply (.lists q) =
      match t.lists? q with
      | none => (.error .noSuchScope, t)
      | some lists => (.ok lists, t.queried q) := by
  cases q with
  | locals place =>
    rw [Change.lists, Tree.apply_block_bind, Tree.lists?]
    cases t.block? place <;> rfl
  | entities | functions | classes | all | initialized | common | externals | statics => rfl

theorem Tree.exists_lists? (t : Tree ι) {q : Query} (hq : q.classifies = true) :
    ∃ lists, t.lists? q = some lists := by
  cases q with
  | entities | functions | locals => cases hq
  | classes | all | initialized | common | externals | statics => exact ⟨_, rfl⟩

theorem Tree.lists?_freeze (t : Tree ι) (q : Query) : t.freeze.lists? q = t.lists? q := by
  cases q with
  | locals place =>
    cases place with
    | nil => rfl
    | cons b path => simp [Tree.lists?, Tree.block?]
  | entities | functions | classes | all | initialized | common | externals | statics =>
    simp [Tree.lists?, Tree.functions]

section

variable [DecidableEq ι]

/-- The answer to a query that is answered with some lists. -/
def Tree.listing (t : Tree ι) (lists : List (List (Entity ι))) : Reply ι :=
  .listed (lists.map fun es => es.map fun e => (e, t.symbol e))

theorem Tree.respond_declare (t : Tree ι) (place : Place) (e : Entity ι) :
    t.respond (.declare place e) =
      ((t.apply (.declare place e)).1.map fun _ => .done, (t.apply (.declare place e)).2) :=
  t.apply_bind_pure _ _

theorem Tree.respond_openBody (t : Tree ι) (f : Entity ι) :
    t.respond (.openBody f) =
      ((t.apply (.openBody f)).1.map .opened, (t.apply (.openBody f)).2) :=
  t.apply_bind_pure _ _

theorem Tree.respond_openBlock (t : Tree ι) (outer : Place) :
    t.respond (.openBlock outer) =
      ((t.apply (.openBlock outer)).1.map .opened, (t.apply (.openBlock outer)).2) :=
  t.apply_bind_pure _ _

theorem Tree.respond_get (t : Tree ι) (place : Place) (name : String) :
    t.respond (.get place name) = ((t.resolve place name).map .found, t) := by
  unfold Tree.respond Tree.apply Change.answer
  simp only [run_bind, run_get, run_ofExcept]
  cases t.resolve place name <;> rfl

theorem Tree.respond_list (t : Tree ι) (q : Query) :
    t.respond (.list q) =
      match t.lists? q with
      | none => (.error .noSuchScope, t)
      | some lists => (.ok ((t.queried q).listing lists), t.queried q) := by
  have hlists := t.apply_lists q
  unfold Tree.apply at hlists
  unfold Tree.respond Tree.apply Change.answer
  rw [run_bind, hlists]
  cases t.lists? q <;> rfl

/-- A request that is refused leaves the tree as it is. -/
theorem Tree.snd_respond_of_error {t : Tree ι} {r : Request ι} {err : ScopeError}
    (h : (t.respond r).1 = .error err) : (t.respond r).2 = t := by
  cases r with
  | declare place e =>
    rw [Tree.respond_declare, Tree.apply_declare] at h ⊢
    cases hrefusal : t.refusal? place e with
    | some err' => rfl
    | none => simp [hrefusal, Except.map] at h
  | openBody f =>
    rw [Tree.respond_openBody, Tree.apply_openBody] at h ⊢
    split
    · rfl
    · next hfrozen =>
      split
      · rfl
      · next hkind => simp [hfrozen, hkind, Except.map] at h
  | openBlock outer =>
    rw [Tree.respond_openBlock, Tree.apply_openBlock] at h ⊢
    split
    · rfl
    · next hfrozen =>
      split
      · rfl
      · next hblock => simp [hfrozen, hblock, Except.map] at h
  | get place name => rw [Tree.respond_get]
  | list q =>
    rw [Tree.respond_list] at h ⊢
    cases hlists : t.lists? q with
    | none => rfl
    | some lists => simp [hlists] at h

end

/-! ## The record -/

/-- A tree and the requests that it got, with the answers. -/
structure Session (ι : Type) where
  tree : Tree ι := {}
  history : List (Request ι × Except ScopeError (Reply ι)) := []

namespace Session

/-- The declaration that an exchange made. -/
def declarationOf? : Request ι × Except ScopeError (Reply ι) → Option (Place × Entity ι)
  | (.declare place e, .ok _) => some (place, e)
  | _ => none

/-- The scope that an exchange opened. -/
def scopeOf? : Request ι × Except ScopeError (Reply ι) → Option Place
  | (_, .ok (.opened place)) => some place
  | _ => none

/-- Whether an exchange opened a scope right in the scope at a place. -/
def opensIn (outer : Place) (x : Request ι × Except ScopeError (Reply ι)) : Bool :=
  x.1.outer? = some outer ∧ x.2.isOk

/-- The declarations that were accepted, with their places, in order. -/
def declarations (s : Session ι) : List (Place × Entity ι) :=
  s.history.filterMap declarationOf?

/-- What was declared in the scope at a place, in order. -/
def declaredAt (s : Session ι) (place : Place) : List (Entity ι) :=
  (s.declarations.filter (·.1 = place)).map (·.2)

/-- The top level and the scopes that were opened. -/
def scopes (s : Session ι) : List Place :=
  [] :: s.history.filterMap scopeOf?

/-- How many scopes were opened right in the scope at a place. -/
def openedIn (s : Session ι) (outer : Place) : Nat :=
  s.history.countP (opensIn outer)

/-- Each scope that was opened got the number of those opened before it in the scope around
it, as the last part of its place. -/
def Numbered (history : List (Request ι × Except ScopeError (Reply ι))) : Prop :=
  ∀ before r place after, history = before ++ (r, .ok (.opened place)) :: after →
    ∃ outer, r.outer? = some outer ∧ place = outer ++ [before.countP (opensIn outer)]

theorem Numbered.append {history : List (Request ι × Except ScopeError (Reply ι))}
    {x : Request ι × Except ScopeError (Reply ι)} (h : Numbered history)
    (hx : ∀ place, scopeOf? x = some place →
      ∃ outer, x.1.outer? = some outer ∧ place = outer ++ [history.countP (opensIn outer)]) :
    Numbered (history ++ [x]) := by
  intro before r place after heq
  rcases List.eq_nil_or_concat after with rfl | ⟨rest, y, rfl⟩
  · obtain ⟨rfl, hlast⟩ := List.append_inj' heq rfl
    obtain rfl : x = (r, .ok (.opened place)) := by simpa using hlast
    exact hx place rfl
  · rw [List.concat_eq_append, ← List.cons_append, ← List.append_assoc] at heq
    exact h before r place rest (List.append_inj_left' heq rfl)

/-- The tree holds the scopes that were opened and in each what was declared there, no two
under one name.  The scopes in a scope are numbered as they were opened. -/
structure Records (s : Session ι) : Prop where
  vars? : ∀ place,
    s.tree.vars? place = if place ∈ s.scopes then some (s.declaredAt place) else none
  inner? : ∀ place,
    s.tree.inner? place = if place ∈ s.scopes then some (s.openedIn place) else none
  placed : ∀ d ∈ s.declarations, d.1 ∈ s.scopes
  opened : ∀ place, place ∉ s.scopes → s.openedIn place = 0
  distinct : ∀ place, ((s.declaredAt place).map (·.name)).Nodup
  numbered : Numbered s.history

theorem records_empty : Records ({} : Session ι) where
  vars? place := by
    cases place with
    | nil => rfl
    | cons b path => simp [Tree.vars?, Tree.root, scopes]
  inner? place := by
    cases place with
    | nil => rfl
    | cons b path => simp [Tree.inner?, Tree.root, scopes]
  placed := by simp [declarations]
  opened place _ := rfl
  distinct := by simp [declaredAt, declarations]
  numbered := by simp [Numbered]

theorem mem_declaredAt {s : Session ι} {place : Place} {e : Entity ι} :
    e ∈ s.declaredAt place ↔ (place, e) ∈ s.declarations := by
  simp [declaredAt]

theorem Records.mem_entries_iff {s : Session ι} (h : s.Records) {d : Place × Entity ι} :
    d ∈ s.tree.entries ↔ d ∈ s.declarations := by
  obtain ⟨place, e⟩ := d
  rw [Tree.mem_entries_iff, h.vars? place, ← mem_declaredAt]
  by_cases hplace : place ∈ s.scopes
  · rw [if_pos hplace, Option.getD_some]
  · have hout : e ∉ s.declaredAt place := fun he => hplace (h.placed _ (mem_declaredAt.mp he))
    simp [hplace, hout]

/-- A name is found by the rule of the nearest declaration. -/
theorem Records.lookup?_eq_some_iff {s : Session ι} (h : s.Records) {place : Place}
    {name : String} {e : Entity ι} :
    s.tree.lookup? place name = some e ↔ Denotes s.declarations place name e := by
  have hdistinct (q : Place) : (((s.tree.vars? q).getD []).map (·.name)).Nodup := by
    rw [h.vars? q]
    split
    · exact h.distinct q
    · exact .nil
  rw [Tree.lookup?_eq_some_iff_denotes hdistinct]
  simp only [Denotes, h.mem_entries_iff]

end Session

/-! ## Steps -/

/-- The number of inner scopes is known from which scopes there are. -/
theorem Tree.inner?_eq_some_iff {t : Tree ι} {place : Place} {n : Nat} :
    t.inner? place = some n ↔
      (t.vars? place).isSome ∧ ∀ i, (t.vars? (place ++ [i])).isSome ↔ i < n := by
  constructor
  · intro h
    obtain ⟨b, hb, -⟩ := Option.map_eq_some_iff.mp h
    exact ⟨by simp [Tree.vars?, Block.vars?, hb], Tree.isSome_vars?_concat h⟩
  · rintro ⟨hplace, hinner⟩
    obtain ⟨b, hb⟩ : ∃ b, t.root.at? place = some b := by
      rw [Tree.vars?, Block.vars?, Option.isSome_map] at hplace
      exact Option.isSome_iff_exists.mp hplace
    have hlength : t.inner? place = some b.blocks.length := by rw [Tree.inner?, hb, Option.map_some]
    have hsame (i : Nat) : i < b.blocks.length ↔ i < n := by
      rw [← hinner i, Tree.isSome_vars?_concat hlength]
    have heq : b.blocks.length = n := by
      have hle := hsame n
      have hge := hsame b.blocks.length
      omega
    rw [hlength, heq]

theorem Tree.inner?_congr {t t' : Tree ι} (h : ∀ q, (t'.vars? q).isSome = (t.vars? q).isSome)
    (place : Place) : t'.inner? place = t.inner? place := by
  apply Option.ext
  intro n
  simp only [Tree.inner?_eq_some_iff, h]

theorem Tree.isSome_vars?_of_concat {t : Tree ι} {place : Place} {i : Nat}
    (h : (t.vars? (place ++ [i])).isSome) : (t.vars? place).isSome := by
  rw [Tree.vars?, Block.vars?_append] at h
  rw [Tree.vars?, Block.vars?]
  cases hb : t.root.at? place with
  | none => simp [hb] at h
  | some b => rfl

/-- A new scope is one more in the scope around it and has none in it. -/
theorem Tree.inner?_opened {t t' : Tree ι} {outer : Place} {n : Nat}
    (hn : t.inner? outer = some n)
    (h : ∀ q, t'.vars? q = if q = outer ++ [n] then some [] else t.vars? q) (place : Place) :
    t'.inner? place =
      if place = outer then some (n + 1)
      else if place = outer ++ [n] then some 0
      else t.inner? place := by
  have hnew : (t.vars? (outer ++ [n])).isSome = false := by
    simp [← Bool.not_eq_true, Tree.isSome_vars?_concat hn]
  have hshorter : outer ≠ outer ++ [n] := by simp
  by_cases houter : place = outer
  · subst houter
    rw [if_pos rfl, Tree.inner?_eq_some_iff, h, if_neg hshorter]
    refine ⟨(Tree.inner?_eq_some_iff.mp hn).1, fun i => ?_⟩
    rw [h]
    by_cases hi : i = n
    · simp [hi]
    · rw [if_neg (by simpa using hi), Tree.isSome_vars?_concat hn]
      omega
  · rw [if_neg houter]
    have hother (i : Nat) : place ++ [i] ≠ outer ++ [n] := fun heq =>
      houter (List.append_inj_left' heq rfl)
    by_cases hplace : place = outer ++ [n]
    · subst hplace
      rw [if_pos rfl, Tree.inner?_eq_some_iff, h, if_pos rfl]
      refine ⟨rfl, fun i => ?_⟩
      rw [h, if_neg (hother i)]
      simp only [Nat.not_lt_zero, iff_false]
      intro hsome
      rw [Tree.isSome_vars?_of_concat hsome] at hnew
      cases hnew
    · rw [if_neg hplace]
      apply Option.ext
      intro m
      simp only [Tree.inner?_eq_some_iff, h, if_neg hplace, if_neg (hother _)]

namespace Session

/-- A step declares an entity at the end of a scope, which holds `vars` before. -/
structure Declares (s s' : Session ι) (place : Place) (vars : List (Entity ι)) (e : Entity ι) :
    Prop where
  declarations : s'.declarations = s.declarations ++ [(place, e)]
  scopes : s'.scopes = s.scopes
  openedIn : ∀ p, s'.openedIn p = s.openedIn p
  history : ∃ x, s'.history = s.history ++ [x] ∧ scopeOf? x = none
  held : s.tree.vars? place = some vars
  fresh : e.name ∉ vars.map (·.name)
  effect : ∀ q, s'.tree.vars? q = if q = place then some (vars ++ [e]) else s.tree.vars? q

/-- A step opens the scope with the number `n` in another one. -/
structure Opens (s s' : Session ι) (outer : Place) (n : Nat) : Prop where
  declarations : s'.declarations = s.declarations
  scopes : s'.scopes = s.scopes ++ [outer ++ [n]]
  openedIn : ∀ p, s'.openedIn p = s.openedIn p + if p = outer then 1 else 0
  history : ∃ r, s'.history = s.history ++ [(r, .ok (.opened (outer ++ [n])))] ∧
    r.outer? = some outer
  next : s.tree.inner? outer = some n
  effect : ∀ q, s'.tree.vars? q = if q = outer ++ [n] then some [] else s.tree.vars? q

/-- A step leaves the scopes and what they hold alone. -/
structure Reads (s s' : Session ι) : Prop where
  declarations : s'.declarations = s.declarations
  scopes : s'.scopes = s.scopes
  openedIn : ∀ p, s'.openedIn p = s.openedIn p
  history : ∃ x, s'.history = s.history ++ [x] ∧ scopeOf? x = none
  effect : ∀ q, s'.tree.vars? q = s.tree.vars? q

section

variable {s s' : Session ι}

theorem Records.declares (h : s.Records) {place : Place} {vars : List (Entity ι)} {e : Entity ι}
    (hstep : Declares s s' place vars e) : s'.Records := by
  have hplace : place ∈ s.scopes := by
    by_contra hout
    simpa [h.vars? place, hout] using hstep.held
  have hheld : s.declaredAt place = vars := by
    simpa [h.vars? place, hplace] using hstep.held
  have hdeclared (q : Place) :
      s'.declaredAt q = if q = place then vars ++ [e] else s.declaredAt q := by
    by_cases hq : q = place
    · subst hq
      simp [declaredAt, hstep.declarations, ← hheld]
    · simp [declaredAt, hstep.declarations, hq, Ne.symm hq]
  have hsame (q : Place) : (s'.tree.vars? q).isSome = (s.tree.vars? q).isSome := by
    rw [hstep.effect]
    by_cases hq : q = place
    · simp [hq, hstep.held]
    · rw [if_neg hq]
  obtain ⟨x, hhistory, hx⟩ := hstep.history
  refine ⟨fun q => ?_, fun q => ?_, ?_, fun q hq => ?_, fun q => ?_, ?_⟩
  · rw [hstep.effect, hdeclared, hstep.scopes, h.vars? q]
    by_cases hq : q = place
    · simp [hq, hplace]
    · simp [hq]
  · rw [Tree.inner?_congr hsame, h.inner?, hstep.scopes, hstep.openedIn]
  · simp only [hstep.declarations, hstep.scopes, List.forall_mem_append, List.forall_mem_singleton]
    exact ⟨h.placed, hplace⟩
  · rw [hstep.openedIn]
    exact h.opened q (hstep.scopes ▸ hq)
  · rw [hdeclared]
    split
    · have hdistinct := h.distinct place
      rw [hheld] at hdistinct
      rw [List.map_append, List.nodup_append]
      refine ⟨hdistinct, by simp, ?_⟩
      intro name hname name' hname' heq
      simp only [List.map_cons, List.map_nil, List.mem_singleton] at hname'
      exact hstep.fresh (hname' ▸ heq ▸ hname)
    · exact h.distinct q
  · rw [hhistory]
    exact h.numbered.append fun q hq => by cases hx.symm.trans hq

theorem Records.opens (h : s.Records) {outer : Place} {n : Nat} (hstep : Opens s s' outer n) :
    s'.Records := by
  have hopen : outer ∈ s.scopes := by
    by_contra hout
    simpa [h.inner? outer, hout] using hstep.next
  have hcount : s.openedIn outer = n := by
    simpa [h.inner? outer, hopen] using hstep.next
  have hnew : s.tree.vars? (outer ++ [n]) = none := by
    simpa using (Tree.isSome_vars?_concat hstep.next n).not
  have hout : outer ++ [n] ∉ s.scopes := by
    intro hplace
    simp [h.vars? (outer ++ [n]), hplace] at hnew
  have hnone : s.declaredAt (outer ++ [n]) = [] := by
    simp only [declaredAt, List.map_eq_nil_iff, List.filter_eq_nil_iff, decide_eq_true_eq]
    intro d hd heq
    exact hout (heq ▸ h.placed d hd)
  have hdeclared (q : Place) : s'.declaredAt q = s.declaredAt q := by
    rw [declaredAt, hstep.declarations, declaredAt]
  obtain ⟨r, hhistory, houter⟩ := hstep.history
  refine ⟨fun q => ?_, fun q => ?_, fun d hd => ?_, fun q hq => ?_, fun q => ?_, ?_⟩
  · rw [hstep.effect, hdeclared, hstep.scopes, h.vars? q]
    by_cases hq : q = outer ++ [n]
    · simp [hq, hnone]
    · simp [hq]
  · rw [Tree.inner?_opened hstep.next hstep.effect, hstep.scopes, hstep.openedIn, h.inner? q]
    by_cases hq : q = outer
    · simp [hq, hopen, hcount]
    · by_cases hq' : q = outer ++ [n]
      · simp [hq', h.opened _ hout]
      · simp [hq, hq']
  · rw [hstep.scopes]
    exact List.mem_append_left _ (h.placed d (hstep.declarations ▸ hd))
  · rw [hstep.scopes, List.mem_append, not_or] at hq
    have hne : q ≠ outer := fun heq => hq.1 (heq ▸ hopen)
    rw [hstep.openedIn, if_neg hne, h.opened q hq.1]
  · rw [hdeclared]
    exact h.distinct q
  · rw [hhistory]
    refine h.numbered.append fun q hq => ⟨outer, houter, ?_⟩
    cases hq
    rw [← openedIn, hcount]

theorem Records.reads (h : s.Records) (hstep : Reads s s') : s'.Records := by
  obtain ⟨x, hhistory, hx⟩ := hstep.history
  have hsame (q : Place) : (s'.tree.vars? q).isSome = (s.tree.vars? q).isSome := by
    rw [hstep.effect]
  refine ⟨fun q => ?_, fun q => ?_, fun d hd => ?_, fun q hq => ?_, fun q => ?_, ?_⟩
  · rw [hstep.effect, declaredAt, hstep.declarations, hstep.scopes]
    exact h.vars? q
  · rw [Tree.inner?_congr hsame, h.inner?, hstep.scopes, hstep.openedIn]
  · rw [hstep.scopes]
    exact h.placed d (hstep.declarations ▸ hd)
  · rw [hstep.openedIn]
    exact h.opened q (hstep.scopes ▸ hq)
  · rw [declaredAt, hstep.declarations]
    exact h.distinct q
  · rw [hhistory]
    exact h.numbered.append fun q hq => by cases hx.symm.trans hq

end

end Session

variable [DecidableEq ι]

namespace Session

/-- The answer that a request would get now. -/
def answer (s : Session ι) (r : Request ι) : Except ScopeError (Reply ι) :=
  (s.tree.respond r).1

/-- Take a request. -/
def step (s : Session ι) (r : Request ι) : Session ι where
  tree := (s.tree.respond r).2
  history := s.history ++ [(r, (s.tree.respond r).1)]

/-- Take several requests one after the other. -/
def runFrom (s : Session ι) (requests : List (Request ι)) : Session ι :=
  requests.foldl step s

/-- A session from its start. -/
def run (requests : List (Request ι)) : Session ι :=
  runFrom {} requests

theorem exists_of_map_eq_ok {α β ε σ : Type} {x : Except ε α} {s s' : σ} {f : α → β} {b : β}
    (h : (x.map f, s) = (Except.ok b, s')) : ∃ a, (x, s) = (.ok a, s') ∧ f a = b := by
  cases x with
  | error e => cases h
  | ok a =>
    cases h
    exact ⟨a, rfl, rfl⟩

/-- The three things that an answered request can do: declare in a scope, open a new scope,
or leave the scopes and what they hold alone. -/
theorem respond_cases {t t' : Tree ι} {r : Request ι} {reply : Reply ι}
    (h : t.respond r = (.ok reply, t')) :
    (∃ place e vars, r = .declare place e ∧ reply = .done ∧ t.vars? place = some vars ∧
        e.name ∉ vars.map (·.name) ∧
        ∀ q, t'.vars? q = if q = place then some (vars ++ [e]) else t.vars? q) ∨
      (∃ outer n, r.outer? = some outer ∧ reply = .opened (outer ++ [n]) ∧
        t.inner? outer = some n ∧
        ∀ q, t'.vars? q = if q = outer ++ [n] then some [] else t.vars? q) ∨
      (r.changes = false ∧ (∀ place, reply ≠ .opened place) ∧ ∀ q, t'.vars? q = t.vars? q) := by
  cases r with
  | declare place e =>
    rw [Tree.respond_declare] at h
    obtain ⟨_, hchange, rfl⟩ := exists_of_map_eq_ok h
    obtain ⟨-, -, -, vars, hvars, hfresh, heffect⟩ := Tree.declare_cases hchange
    exact .inl ⟨place, e, vars, rfl, rfl, hvars, hfresh, heffect⟩
  | openBody f =>
    rw [Tree.respond_openBody] at h
    obtain ⟨place, hchange, rfl⟩ := exists_of_map_eq_ok h
    obtain ⟨-, -, -, ⟨n, hn, rfl⟩, -, heffect⟩ := Tree.openBody_cases hchange
    exact .inr (.inl ⟨[], n, rfl, rfl, hn, heffect⟩)
  | openBlock outer =>
    rw [Tree.respond_openBlock] at h
    obtain ⟨place, hchange, rfl⟩ := exists_of_map_eq_ok h
    obtain ⟨-, -, -, ⟨n, hn, rfl⟩, -, heffect⟩ := Tree.openBlock_cases hchange
    exact .inr (.inl ⟨outer, n, rfl, rfl, hn, heffect⟩)
  | get place name =>
    rw [Tree.respond_get] at h
    obtain ⟨e, hresolve, rfl⟩ := exists_of_map_eq_ok h
    obtain ⟨-, rfl⟩ := Prod.mk.inj hresolve
    exact .inr (.inr ⟨rfl, by simp, fun q => rfl⟩)
  | list q =>
    rw [Tree.respond_list] at h
    cases hlists : t.lists? q with
    | none => simp [hlists] at h
    | some lists =>
      rw [hlists] at h
      cases h
      refine .inr (.inr ⟨rfl, by simp [Tree.listing], fun p => ?_⟩)
      rw [Tree.queried]
      split
      · exact t.vars?_freeze p
      · rfl

theorem declarations_step (s : Session ι) (r : Request ι) :
    (s.step r).declarations = s.declarations ++ (declarationOf? (r, s.answer r)).toList := by
  rw [declarations, step, List.filterMap_append, ← declarations, answer]
  cases h : declarationOf? (r, (s.tree.respond r).1) <;> simp [h]

theorem scopes_step (s : Session ι) (r : Request ι) :
    (s.step r).scopes = s.scopes ++ (scopeOf? (r, s.answer r)).toList := by
  rw [scopes, step, List.filterMap_append, ← List.cons_append, ← scopes, answer]
  cases h : scopeOf? (r, (s.tree.respond r).1) <;> simp [h]

theorem openedIn_step (s : Session ι) (r : Request ι) (place : Place) :
    (s.step r).openedIn place =
      s.openedIn place + if opensIn place (r, s.answer r) then 1 else 0 := by
  rw [openedIn, step, List.countP_append, ← openedIn, List.countP_singleton, answer]

/-- What a step can do, with its effect on the record. -/
theorem step_cases (s : Session ι) (r : Request ι) :
    (∃ place vars e, Declares s (s.step r) place vars e) ∨
      (∃ outer n, Opens s (s.step r) outer n) ∨ Reads s (s.step r) := by
  have hhistory : (s.step r).history = s.history ++ [(r, s.answer r)] := rfl
  cases hanswer : s.answer r with
  | error err =>
    have htree : (s.step r).tree = s.tree := Tree.snd_respond_of_error hanswer
    exact .inr (.inr
      { declarations := by simp [declarations_step, hanswer, declarationOf?]
        scopes := by simp [scopes_step, hanswer, scopeOf?]
        openedIn := by simp [openedIn_step, hanswer, opensIn, Except.isOk, Except.toBool]
        history := ⟨_, hhistory, by rw [hanswer]; rfl⟩
        effect := fun q => by rw [htree] })
  | ok reply =>
    have hrespond : s.tree.respond r = (.ok reply, (s.step r).tree) := Prod.ext hanswer rfl
    obtain ⟨place, e, vars, rfl, rfl, hvars, hfresh, heffect⟩ |
      ⟨outer, n, houter, rfl, hn, heffect⟩ | ⟨hreads, hreply, heffect⟩ := respond_cases hrespond
    · exact .inl ⟨place, vars, e,
        { declarations := by simp [declarations_step, hanswer, declarationOf?]
          scopes := by simp [scopes_step, hanswer, scopeOf?]
          openedIn := by simp [openedIn_step, opensIn, Request.outer?]
          history := ⟨_, hhistory, by rw [hanswer]; rfl⟩
          held := hvars
          fresh := hfresh
          effect := heffect }⟩
    · have hnone : declarationOf? (r, .ok (.opened (outer ++ [n]))) = none := by
        cases r with
        | openBody | openBlock => rfl
        | declare | get | list => cases houter
      exact .inr (.inl ⟨outer, n,
        { declarations := by simp [declarations_step, hanswer, hnone]
          scopes := by simp [scopes_step, hanswer, scopeOf?]
          openedIn := by
            simp [openedIn_step, hanswer, opensIn, houter, Except.isOk, Except.toBool, eq_comm]
          history := ⟨r, by rw [hhistory, hanswer], houter⟩
          next := hn
          effect := heffect }⟩)
    · have hscope : scopeOf? (r, .ok reply) = none := by
        cases reply with
        | opened place => exact absurd rfl (hreply place)
        | done | found | listed => rfl
      cases r with
      | declare | openBody | openBlock => cases hreads
      | get | list =>
        exact .inr (.inr
          { declarations := by simp [declarations_step, declarationOf?]
            scopes := by simp [scopes_step, hanswer, hscope]
            openedIn := by simp [openedIn_step, opensIn, Request.outer?]
            history := ⟨_, hhistory, by rw [hanswer]; exact hscope⟩
            effect := heffect })

theorem Records.step {s : Session ι} (h : s.Records) (r : Request ι) : (s.step r).Records := by
  obtain ⟨place, vars, e, hstep⟩ | ⟨outer, n, hstep⟩ | hstep := s.step_cases r
  · exact h.declares hstep
  · exact h.opens hstep
  · exact h.reads hstep

theorem Records.runFrom {s : Session ι} (h : s.Records) (requests : List (Request ι)) :
    (s.runFrom requests).Records := by
  induction requests generalizing s with
  | nil => exact h
  | cons r rest ih => exact ih (h.step r)

theorem records_run (requests : List (Request ι)) : (run requests).Records :=
  records_empty.runFrom requests

end Session

/-! ## Freezing -/

/-- A frozen tree refuses every change. -/
theorem Tree.respond_of_changes {t : Tree ι} (h : t.frozen = true) {r : Request ι}
    (hr : r.changes = true) : t.respond r = (.error .frozen, t) := by
  cases r with
  | declare place e =>
    rw [Tree.respond_declare, Tree.apply_declare, Tree.refusal?, if_pos h]
    rfl
  | openBody function =>
    rw [Tree.respond_openBody, Tree.apply_openBody, if_pos h]
    rfl
  | openBlock place =>
    rw [Tree.respond_openBlock, Tree.apply_openBlock, if_pos h]
    rfl
  | get | list => cases hr

/-- A frozen tree stays as it is. -/
theorem Tree.snd_respond_of_frozen {t : Tree ι} (h : t.frozen = true) (r : Request ι) :
    (t.respond r).2 = t := by
  cases r with
  | declare | openBody | openBlock => rw [Tree.respond_of_changes h rfl]
  | get place name => rw [Tree.respond_get]
  | list q =>
    rw [Tree.respond_list, Tree.queried, Tree.freeze_of_frozen h, ite_self]
    cases t.lists? q <;> rfl

namespace Session

/-- A frozen tree stays as it is, whatever is asked of it. -/
theorem tree_runFrom_of_frozen {s : Session ι} (h : s.tree.frozen = true)
    (requests : List (Request ι)) : (s.runFrom requests).tree = s.tree := by
  induction requests generalizing s with
  | nil => rfl
  | cons r rest ih =>
    have hstep : (s.step r).tree = s.tree := Tree.snd_respond_of_frozen h r
    rw [runFrom, List.foldl_cons, ← runFrom, ih (hstep ▸ h), hstep]

/-- A query that classifies answers from the frozen tree and leaves it behind. -/
theorem tree_step_list (s : Session ι) {q : Query} (hq : q.classifies = true) :
    (s.step (.list q)).tree = s.tree.freeze := by
  obtain ⟨lists, hlists⟩ := s.tree.exists_lists? hq
  rw [step, Tree.respond_list, hlists, Tree.queried, if_pos hq]

theorem answer_list (s : Session ι) {q : Query} (hq : q.classifies = true) :
    (s.step (.list q)).answer (.list q) = s.answer (.list q) := by
  rw [answer, tree_step_list s hq, answer, Tree.respond_list, Tree.respond_list, Tree.lists?_freeze,
    Tree.queried, Tree.queried, if_pos hq, if_pos hq, Tree.freeze_freeze]
  cases s.tree.lists? q <;> rfl

/-! ## Consistency -/

/-- What a caller can rely on, in the terms of the history. -/
structure Consistent (s : Session ι) : Prop where
  /-- Each scope that was opened holds what was declared in it, in order. -/
  holds : ∀ place,
    s.tree.vars? place = if place ∈ s.scopes then some (s.declaredAt place) else none
  /-- Names are unique within a scope. -/
  distinct : ∀ place, ((s.declaredAt place).map (·.name)).Nodup
  /-- Declaring succeeds unless the tree is frozen, there is no such scope, the entity does
  not belong there, or its name is taken. -/
  declares : ∀ place e, s.answer (.declare place e) = .ok .done ↔
    s.tree.frozen = false ∧ place ∈ s.scopes ∧ e.FitsAt place ∧
      e.name ∉ (s.declaredAt place).map (·.name)
  /-- A body is opened unless the tree is frozen or there is no function to open it for.  It
  is the next one after the bodies that were opened before. -/
  opensBody : ∀ f place, s.answer (.openBody f) = .ok (.opened place) ↔
    s.tree.frozen = false ∧ f.kind = .definedFunction ∧ place = [s.openedIn []]
  /-- A block is opened unless the tree is frozen or there is no such block around it.  It is
  the next one after those that were opened there before. -/
  opensBlock : ∀ outer place, s.answer (.openBlock outer) = .ok (.opened place) ↔
    s.tree.frozen = false ∧ outer ≠ [] ∧ outer ∈ s.scopes ∧ place = outer ++ [s.openedIn outer]
  /-- Each scope that was opened is numbered in this way. -/
  numbered : Numbered s.history
  /-- A name is found in the nearest scope around the place that declares it. -/
  finds : ∀ place name e,
    s.answer (.get place name) = .ok (.found e) ↔ Denotes s.declarations place name e
  /-- A name is not found exactly when no scope around the place declares it. -/
  misses : ∀ place name, s.answer (.get place name) = .error (.unresolved name) ↔
    ∀ d ∈ s.declarations, d.1 <+: place → d.2.name ≠ name
  /-- A request that fails leaves the tree as it was. -/
  fails : ∀ r e, s.answer r = .error e → (s.step r).tree = s.tree
  /-- Once a query has classified the tree, every change is refused, in whatever scope. -/
  refuses : ∀ q, q.classifies = true → ∀ later r, r.changes = true →
    ((s.step (.list q)).runFrom later).answer r = .error .frozen
  /-- From then on each request gets the same answer every time, entities and symbols alike. -/
  keeps : ∀ q, q.classifies = true → ∀ later r,
    ((s.step (.list q)).runFrom later).answer r = (s.step (.list q)).answer r
  /-- The answer that the query itself got is no exception. -/
  repeats : ∀ q, q.classifies = true → ∀ later,
    ((s.step (.list q)).runFrom later).answer (.list q) = s.answer (.list q)

theorem answer_declare_eq_ok_iff {s : Session ι} {place : Place} {e : Entity ι} :
    s.answer (.declare place e) = .ok .done ↔ s.tree.refusal? place e = none := by
  rw [answer, Tree.respond_declare, Tree.apply_declare]
  cases s.tree.refusal? place e with
  | none => simp [Except.map]
  | some err => simp [Except.map]

theorem answer_get (s : Session ι) (place : Place) (name : String) :
    s.answer (.get place name) =
      match s.tree.lookup? place name with
      | none => .error (.unresolved name)
      | some e => .ok (.found e) := by
  rw [answer, Tree.respond_get, Tree.resolve]
  cases s.tree.lookup? place name <;> rfl

theorem Records.answer_openBody_iff {s : Session ι} (h : s.Records) {f : Entity ι}
    {place : Place} : s.answer (.openBody f) = .ok (.opened place) ↔
      s.tree.frozen = false ∧ f.kind = .definedFunction ∧ place = [s.openedIn []] := by
  have hbodies : s.tree.bodies.length = s.openedIn [] := by
    have hinner := h.inner? []
    simpa [Tree.inner?, Tree.root, scopes] using hinner
  rw [answer, Tree.respond_openBody, Tree.apply_openBody, hbodies]
  cases s.tree.frozen with
  | true => simp [Except.map]
  | false =>
    by_cases hkind : f.kind = .definedFunction
    · simp [hkind, Except.map, eq_comm]
    · simp [hkind, Except.map]

theorem Records.answer_openBlock_iff {s : Session ι} (h : s.Records) {outer place : Place} :
    s.answer (.openBlock outer) = .ok (.opened place) ↔
      s.tree.frozen = false ∧ outer ≠ [] ∧ outer ∈ s.scopes ∧
        place = outer ++ [s.openedIn outer] := by
  rw [answer, Tree.respond_openBlock, Tree.apply_openBlock]
  cases s.tree.frozen with
  | true => simp [Except.map]
  | false =>
    by_cases houter : outer = []
    · subst houter
      simp [Tree.block?, Except.map]
    · have hinner := h.inner? outer
      rw [Tree.inner?, ← s.tree.block?_eq_at? houter] at hinner
      cases hblock : s.tree.block? outer with
      | none =>
        have hout : outer ∉ s.scopes := by
          intro hmem
          simp [hblock, hmem] at hinner
        simp [hout, Except.map]
      | some b =>
        have hmem : outer ∈ s.scopes := by
          by_contra hout
          simp [hblock, hout] at hinner
        have hlength : b.blocks.length = s.openedIn outer := by
          simpa [hblock, hmem] using hinner
        simp [houter, hmem, hlength, Except.map, eq_comm]

/-- After every run of requests, failing ones among them, the tree is the store that the
history describes. -/
theorem consistent_run (requests : List (Request ι)) : (run requests).Consistent := by
  have hrecords := records_run requests
  generalize run requests = s at hrecords
  have hlater {q : Query} (hq : q.classifies = true) (later : List (Request ι)) :
      ((s.step (.list q)).runFrom later).tree = (s.step (.list q)).tree := by
    apply tree_runFrom_of_frozen
    rw [tree_step_list s hq, Tree.frozen_freeze]
  refine ⟨hrecords.vars?, hrecords.distinct, fun place e => ?_,
    fun f place => hrecords.answer_openBody_iff, fun outer place => hrecords.answer_openBlock_iff,
    hrecords.numbered, fun place name e => ?_, fun place name => ?_,
    fun r e => Tree.snd_respond_of_error, fun q hq later r hr => ?_, fun q hq later r => ?_,
    fun q hq later => ?_⟩
  · rw [answer_declare_eq_ok_iff, Tree.refusal?_eq_none_iff, hrecords.vars? place]
    by_cases hplace : place ∈ s.scopes
    · simp [hplace]
    · simp [hplace]
  · rw [answer_get, ← hrecords.lookup?_eq_some_iff]
    cases s.tree.lookup? place name <;> simp
  · simp only [answer_get, ← hrecords.mem_entries_iff, ← Tree.lookup?_eq_none_iff_forall]
    cases s.tree.lookup? place name <;> simp
  · have hfrozen : ((s.step (.list q)).runFrom later).tree.frozen = true := by
      rw [hlater hq, tree_step_list s hq, Tree.frozen_freeze]
    rw [answer, Tree.respond_of_changes hfrozen hr]
  · rw [answer, hlater hq, ← answer]
  · rw [answer, hlater hq, ← answer, answer_list s hq]

end Session

end Cflat.Scope
