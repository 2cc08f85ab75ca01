import Cflat.Proofs.Outcome
import Cflat.Proofs.Sessions

/-!
# Calls on a loaded program

A loaded program can be asked for its lists, dumped and generated, in any order and any
number of times.  Each call works on the tree that the calls before it left.  The first call
that classifies makes the tree keep the classes and the numbers of the static locals, and
numbers become part of symbols from then on.  No answer shows it: each is the one that the
call would have got first.

* Calls.  `Program.call` gives the answer and the program after it.
* Steps.  The equations of `call` say what a call makes of the tree, also if it fails: the
  program is as it was or frozen, and a frozen program answers every call like one that is
  not (`call_frozen`).
* Runs: `answers_of_reached`.
-/

namespace Cflat

open Scope (Query)

namespace Scope

/-- Whether a list is one of the whole tree and not of a single block. -/
def Query.isWhole : Query → Bool
  | locals _ => false
  | _ => true

/-- The symbols in an answer that lists entities. -/
def Reply.symbols {ι : Type} : Reply ι → List (List String)
  | listed lists => lists.map fun es => es.map Prod.snd
  | _ => []

theorem Tree.exists_lists?_of_isWhole {ι : Type} (t : Tree ι) {q : Query} (hq : q.isWhole = true) :
    ∃ lists, t.lists? q = some lists := by
  cases q with
  | locals place => cases hq
  | _ => exact ⟨_, rfl⟩

end Scope

namespace Program

/-! ## Calls -/

/-- What can be asked of a loaded program. -/
inductive Call
  | list (query : Query) (whole : query.isWhole = true)
  | dump
  | generate (o : Options)

/-- What a caller gets to see.  Entities are shown by their symbols. -/
inductive Answer
  | listed (symbols : Except Scope.ScopeError (List (List String)))
  | dumped (text : Except Fault String)
  | generated (result : Except GenerateError Asm.Listing) (diagnostics : String)
  deriving DecidableEq

variable {ι : Type} [DecidableEq ι]

/-- The answer to a call, and the program with the tree that the call leaves. -/
def call (p : Program ι) : Call → Answer × Program ι
  | .list query _ =>
    let (reply, scope) := p.scope.respond (.list query)
    (.listed (reply.map (·.symbols)), { p with scope })
  | .dump =>
    let (text, scope) := dump.run.run p.scope
    (.dumped text, { p with scope })
  | .generate o =>
    let g := p.generate o
    (.generated g.result (Diagnostic.render o g.warnings), { p with scope := g.scope })

/-- The answers to a sequence of calls. -/
def answers (p : Program ι) : List Call → List Answer
  | [] => []
  | c :: rest => (p.call c).1 :: (p.call c).2.answers rest

/-! ## Steps -/

omit [DecidableEq ι] in
theorem frozen_frozen (p : Program ι) : p.frozen.frozen = p.frozen :=
  congrArg (fun scope => { p with scope }) p.scope.freeze_freeze

/-- A list is made from the tree as it is after the query. -/
theorem call_list (p : Program ι) {q : Query} (whole : q.isWhole = true)
    {lists : List (List (Scope.Entity ι))} (hlists : p.scope.lists? q = some lists) :
    p.call (.list q whole) =
      (.listed (.ok (lists.map fun es => es.map (p.scope.queried q).symbol)),
        { p with scope := p.scope.queried q }) := by
  rw [call, Scope.Tree.respond_list, hlists]
  simp [Except.map, Scope.Tree.listing, Scope.Reply.symbols, Function.comp_def]

theorem call_dump (p : Program ι) :
    p.call .dump = (.dumped (dumpText p.frozen.scope), p.frozen) := by
  rw [call, run_dump]
  rfl

/-- A generation classifies the tree also if it fails. -/
theorem call_generate (p : Program ι) (o : Options) :
    p.call (.generate o) =
      (.generated (p.frozen.listing o) (Diagnostic.render o (p.frozen.warningsOf o)),
        p.frozen) := by
  rw [call, generate_eq]
  rfl

/-- A call leaves the program as it was, or frozen. -/
theorem snd_call (p : Program ι) (c : Call) : (p.call c).2 = p ∨ (p.call c).2 = p.frozen := by
  cases c with
  | list q whole =>
    obtain ⟨lists, hlists⟩ := p.scope.exists_lists?_of_isWhole whole
    rw [p.call_list whole hlists]
    cases hclass : q.classifies with
    | false => exact .inl (by simp [Scope.Tree.queried, hclass])
    | true => exact .inr (by simp [Scope.Tree.queried, hclass, frozen])
  | dump => exact .inr (by rw [call_dump])
  | generate o => exact .inr (by rw [call_generate])

/-- At top level nothing has an ordinal. -/
def PlainTop (p : Program ι) : Prop :=
  ∀ e ∈ p.scope.entities, p.frozen.scope.symbol e = p.scope.symbol e

/-- A query that does not classify lists entities of the top level. -/
theorem map_symbol_of_plainTop {p : Program ι} (hp : p.PlainTop) {q : Query}
    (whole : q.isWhole = true) (hclass : q.classifies = false)
    {lists : List (List (Scope.Entity ι))} (hlists : p.scope.lists? q = some lists) :
    (lists.map fun es => es.map p.frozen.scope.symbol) =
      lists.map fun es => es.map p.scope.symbol := by
  refine List.map_congr_left fun es hes => List.map_congr_left fun e he => hp e ?_
  cases q with
  | entities =>
    cases hlists
    rwa [List.mem_singleton.mp hes] at he
  | functions =>
    cases hlists
    rw [List.mem_singleton.mp hes] at he
    exact (List.mem_filter.mp he).1
  | locals place => cases whole
  | classes | all | initialized | common | externals | statics => cases hclass

/-- Being frozen does not show in an answer. -/
theorem call_frozen {p : Program ι} (hp : p.PlainTop) (c : Call) :
    (p.frozen.call c).1 = (p.call c).1 := by
  cases c with
  | list q whole =>
    obtain ⟨lists, hlists⟩ := p.scope.exists_lists?_of_isWhole whole
    have hfrozen : p.frozen.scope.lists? q = some lists :=
      (p.scope.lists?_freeze q).trans hlists
    rw [p.call_list whole hlists, p.frozen.call_list whole hfrozen]
    cases hclass : q.classifies with
    | false =>
      simp only [Scope.Tree.queried, hclass, Bool.false_eq_true, if_false]
      rw [map_symbol_of_plainTop hp whole hclass hlists]
    | true =>
      have hagain : p.frozen.scope.freeze = p.scope.freeze := p.scope.freeze_freeze
      simp only [Scope.Tree.queried, hclass, if_true, hagain]
  | dump => rw [call_dump, call_dump, frozen_frozen]
  | generate o => rw [call_generate, call_generate, frozen_frozen]

/-! ## Runs -/

/-- From the program or from its frozen form, each call in a sequence gets the answer that
the program itself gives. -/
theorem answers_of_reached {p : Program ι} (hp : p.PlainTop) (calls : List Call) {q : Program ι}
    (hq : q = p ∨ q = p.frozen) : q.answers calls = calls.map fun c => (p.call c).1 := by
  induction calls generalizing q with
  | nil => rfl
  | cons c calls ih =>
    have hanswer : (q.call c).1 = (p.call c).1 := by
      rcases hq with rfl | rfl
      · rfl
      · exact call_frozen hp c
    have hnext : (q.call c).2 = p ∨ (q.call c).2 = p.frozen := by
      rcases hq with rfl | rfl
      · exact q.snd_call c
      · rcases p.frozen.snd_call c with hsame | hfrozen
        · exact .inr hsame
        · exact .inr (hfrozen.trans p.frozen_frozen)
    rw [answers, List.map_cons, hanswer, ih hnext]

end Program

namespace Document

/-- Only static locals have ordinals, and those of a document stand in blocks. -/
theorem plainTop_program (types : Table) (doc : Document) : (doc.program types).PlainTop := by
  intro e he
  have hplain : (doc.program types).scope.symbol e = e.name := rfl
  rw [hplain]
  exact symbol_of_mem_entities (by rwa [Scope.Tree.entities_freeze])

/-- Queries and generation can be made in any order and repeated.  In every sequence of
calls on a loaded program, those that fail among them, each gets the answer that it gets as
the first call on the program as loaded. -/
theorem answers_of_load {types : Table} {doc : Document} {p : Program Site}
    (h : doc.load types = .ok p) (calls : List Program.Call) :
    p.answers calls = calls.map fun c => (p.call c).1 := by
  obtain ⟨-, rfl⟩ := (load_accepts types doc p).mp h
  exact Program.answers_of_reached (plainTop_program types doc) calls (.inl rfl)

/-- The generation in the middle fails, and ordinals stand in the list behind it. -/
theorem answers_of_load_refused : ∃ p,
    refused.load { pointerSize := 6 } = .ok p ∧
      p.answers [.list .entities rfl, .generate {}, .list .statics rfl, .list .entities rfl] =
        [.listed (.ok [["n", "s", "a", "f"]]),
          .generated (.error (.width "refused.cb" ⟨6, ""⟩))
            (Diagnostic.line
              ⟨.extra, "value 300 does not fit in 'n' of type char and is truncated"⟩),
          .listed (.ok [["p.0"]]), .listed (.ok [["n", "s", "a", "f"]])] := by
  obtain ⟨p, hp⟩ := exists_eq_ok_of_isOk
    (show (refused.load { pointerSize := 6 }).isOk = true by decide +kernel)
  refine ⟨p, hp, (answers_of_load hp _).trans ?_⟩
  obtain ⟨-, rfl⟩ := (load_accepts _ _ _).mp hp
  decide +kernel

end Document

end Cflat
