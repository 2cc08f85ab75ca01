import Cflat.Proofs.Ordinals
import Cflat.Proofs.Sessions

/-!
# The classes after a session

Which variables are in which class, and which numbers static locals get, is stated in
the terms of the history of a session.  Depth-first declaration order is the order of
the places, and within one scope the order in which the declarations were made: the
history sorted by place, with a sort that is stable.

* Order.  `Session.Records.entries_eq`: the entries of the tree are the sorted history.
* Numbers.  `Tree.map_ordinal?_filter`: the static locals of one name are numbered from
  zero without a gap.
* The classes.  `Session.Classified` collects what holds after classification.
-/

namespace Cflat.Scope

/-! ## Depth-first declaration order -/

section

variable {α : Type}

/-- Whether an entry may stand before another, going by their places. -/
def placeLE (x y : Place × α) : Bool :=
  x.1 ≤ y.1

theorem placeLE_trans (x y z : Place × α) (hxy : placeLE x y = true) (hyz : placeLE y z = true) :
    placeLE x z = true := by
  simp only [placeLE, decide_eq_true_eq] at hxy hyz ⊢
  exact le_trans hxy hyz

theorem placeLE_total (x y : Place × α) : (placeLE x y || placeLE y x) = true := by
  simpa [placeLE] using le_total x.1 y.1

/-- The entries in the order of their places; those at one place stay in order. -/
def sortByPlace (l : List (Place × α)) : List (Place × α) :=
  l.mergeSort placeLE

theorem perm_sortByPlace (l : List (Place × α)) : (sortByPlace l).Perm l :=
  List.mergeSort_perm l placeLE

theorem pairwise_sortByPlace (l : List (Place × α)) :
    (sortByPlace l).Pairwise fun x y => x.1 ≤ y.1 := by
  refine (List.pairwise_mergeSort placeLE_trans placeLE_total l).imp ?_
  simp [placeLE]

/-- Sorting keeps the order of the entries at one place. -/
theorem filter_sortByPlace (l : List (Place × α)) (q : Place) :
    (sortByPlace l).filter (·.1 = q) = l.filter (·.1 = q) := by
  have hties : (l.filter (·.1 = q)).Pairwise fun x y => placeLE x y = true := by
    rw [List.pairwise_iff_forall_sublist]
    intro x y hxy
    have hx : x ∈ l.filter (·.1 = q) := hxy.subset (by simp)
    have hy : y ∈ l.filter (·.1 = q) := hxy.subset (by simp)
    simp only [List.mem_filter, decide_eq_true_eq] at hx hy
    simp [placeLE, hx.2, hy.2]
  have hsub := (List.sublist_mergeSort placeLE_trans placeLE_total hties
    List.filter_sublist).filter (·.1 = q)
  rw [List.filter_filter] at hsub
  simp only [Bool.and_self] at hsub
  have hlen := ((perm_sortByPlace l).filter (·.1 = q)).length_eq
  exact (hsub.eq_of_length hlen.symm).symm

theorem mem_iff_of_filter_place_eq {l₁ l₂ : List (Place × α)}
    (h : ∀ q, l₁.filter (·.1 = q) = l₂.filter (·.1 = q)) (x : Place × α) : x ∈ l₁ ↔ x ∈ l₂ := by
  have hx := congrArg (x ∈ ·) (h x.1)
  simpa using hx

/-- A list in the order of its places is determined by what it holds at each place. -/
theorem eq_of_filter_place_eq {l₁ l₂ : List (Place × α)}
    (h₁ : l₁.Pairwise fun x y => x.1 ≤ y.1) (h₂ : l₂.Pairwise fun x y => x.1 ≤ y.1)
    (h : ∀ q, l₁.filter (·.1 = q) = l₂.filter (·.1 = q)) : l₁ = l₂ := by
  induction l₁ generalizing l₂ with
  | nil =>
    rw [eq_comm, List.eq_nil_iff_forall_not_mem]
    intro y hy
    simpa using (mem_iff_of_filter_place_eq h y).mpr hy
  | cons x r ih =>
    have hmem := mem_iff_of_filter_place_eq h
    cases l₂ with
    | nil => simpa using hmem x
    | cons y r' =>
      rw [List.pairwise_cons] at h₁ h₂
      have hplace : x.1 = y.1 := by
        apply le_antisymm
        · rcases List.mem_cons.mp ((hmem y).mpr (by simp)) with rfl | hy
          · exact le_rfl
          · exact h₁.1 y hy
        · rcases List.mem_cons.mp ((hmem x).mp (by simp)) with rfl | hx
          · exact le_rfl
          · exact h₂.1 x hx
      have hfirst := h x.1
      rw [List.filter_cons_of_pos (by simp), List.filter_cons_of_pos (by simp [hplace]),
        List.cons.injEq] at hfirst
      obtain ⟨rfl, -⟩ := hfirst
      have hrest (q : Place) : r.filter (·.1 = q) = r'.filter (·.1 = q) := by
        have hq := h q
        rw [List.filter_cons, List.filter_cons] at hq
        split at hq
        · exact (List.cons.inj hq).2
        · exact hq
      rw [ih h₁.2 h₂.2 hrest]

end

variable {ι : Type}

/-- Depth first, the tree holds the declarations that were made, in the order of their
places. -/
theorem Session.Records.entries_eq {s : Session ι} (h : s.Records) :
    s.tree.entries = sortByPlace s.declarations := by
  refine eq_of_filter_place_eq s.tree.pairwise_entries (pairwise_sortByPlace _) fun q => ?_
  rw [filter_sortByPlace, s.tree.filter_entries, h.vars? q]
  by_cases hq : q ∈ s.scopes
  · rw [if_pos hq, Option.getD_some, Session.declaredAt, List.map_map]
    conv_rhs => rw [← List.map_id (s.declarations.filter (·.1 = q))]
    apply List.map_congr_left
    rintro ⟨place, e⟩ hd
    simp only [List.mem_filter, decide_eq_true_eq] at hd
    simp [hd.2]
  · rw [if_neg hq, Option.getD_none, List.map_nil, eq_comm, List.filter_eq_nil_iff]
    intro d hd heq
    simp only [decide_eq_true_eq] at heq
    exact hq (heq ▸ h.placed d hd)

/-! ## Numbers -/

variable [DecidableEq ι]

/-- The static locals of one name are numbered from zero in tree order, without a gap. -/
theorem Tree.map_ordinal?_filter {t : Tree ι} (hfrozen : t.frozen = true)
    (hids : (t.statics.map (·.id)).Nodup) (name : String) :
    (t.statics.filter (·.name = name)).map (fun e => t.ordinal? e.id) =
      (List.range (t.statics.countP (·.name = name))).map some := by
  have hprefix (l : List (Entity ι)) : l <+: t.statics →
      (l.filter (·.name = name)).map (fun e => t.ordinal? e.id) =
        (List.range (l.countP (·.name = name))).map some := by
    induction l using List.reverseRecOn with
    | nil => intro _; rfl
    | append_singleton l e ih =>
      intro hl
      have hinit := ih ((List.prefix_append l [e]).trans hl)
      rw [List.filter_append, List.map_append, hinit, List.countP_append]
      by_cases he : e.name = name
      · obtain ⟨rest, hrest⟩ := hl
        have hposition : t.statics[l.length]? = some e := by
          rw [← hrest]
          simp
        have hnumber := Tree.ordinal?_eq_some hfrozen hids hposition
        have hcount : ((t.statics.take l.length).map (·.name)).count e.name =
            l.countP (·.name = name) := by
          rw [← hrest, he, List.append_assoc, List.take_left, List.count, List.countP_map]
          simp [Function.comp_def, beq_eq_decide]
        rw [hcount] at hnumber
        simp [he, hnumber, List.range_succ]
      · simp [he]
  exact hprefix _ List.prefix_rfl

/-! ## The classes -/

namespace Session

/-- What holds of the classes of a session's tree, in the terms of its history. -/
structure Classified (s : Session ι) : Prop where
  /-- The variables of static duration are those that were declared, in depth-first order. -/
  all : s.tree.classes.all = ((sortByPlace s.declarations).filter isAllocatedAt).map (·.2)
  /-- None of them is there twice. -/
  distinct : (s.tree.classes.all.map (·.id)).Nodup
  /-- Each of them is in one of two classes, by whether it has an initial value. -/
  initialized : ∀ e ∈ s.tree.classes.all, e ∈ s.tree.classes.initialized ↔ e.init.isSome
  common : ∀ e ∈ s.tree.classes.all, e ∈ s.tree.classes.common ↔ e.init = none
  /-- The two classes hold nothing else and keep the order. -/
  initialized_sublist : s.tree.classes.initialized.Sublist s.tree.classes.all
  common_sublist : s.tree.classes.common.Sublist s.tree.classes.all
  /-- The static locals of one name are numbered from zero in depth-first order. -/
  numbers : ∀ name,
    ((sortByPlace s.declarations).filter fun d => isStaticAt d ∧ d.2.name = name).map
        (fun d => s.tree.ordinal? d.2.id) =
      (List.range (s.declarations.countP fun d => isStaticAt d ∧ d.2.name = name)).map some
  /-- Static locals have distinct symbols, whatever their names are. -/
  symbols : ((s.declarations.filter isStaticAt).map fun d => s.tree.symbol d.2).Nodup
  /-- The scopes, whose order is that of their places, are numbered as they were opened. -/
  places : Numbered s.history
  /-- Nothing that was not declared as a static local has a number. -/
  unnumbered : ∀ id, (∀ d ∈ s.declarations, d.2.id = id → d.2.isStaticLocal = false) →
    s.tree.ordinal? id = none

theorem declarations_step_list (s : Session ι) (q : Query) :
    (s.step (.list q)).declarations = s.declarations := by
  simp [declarations_step, declarationOf?]

omit [DecidableEq ι] in
theorem Records.statics_eq {s : Session ι} (h : s.Records) :
    s.tree.statics = ((sortByPlace s.declarations).filter isStaticAt).map (·.2) := by
  rw [s.tree.statics_eq, h.entries_eq]

omit [DecidableEq ι] in
theorem nodup_filter_sortByPlace {s : Session ι} (hids : (s.declarations.map (·.2.id)).Nodup)
    (p : Place × Entity ι → Bool) :
    ((((sortByPlace s.declarations).filter p).map (·.2)).map (·.id)).Nodup := by
  rw [List.map_map]
  exact (((perm_sortByPlace s.declarations).map _).nodup_iff.mpr hids).sublist
    (List.filter_sublist.map _)

/-- Classification after any run in which nothing was declared twice. -/
theorem classified_run (requests : List (Request ι))
    (hids : ((run requests).declarations.map (·.2.id)).Nodup) :
    ((run requests).step (.list .classes)).Classified := by
  have hrecords := (records_run requests).step (.list .classes)
  have hfrozen : ((run requests).step (.list .classes)).tree.frozen = true := by
    rw [tree_step_list _ rfl, Tree.frozen_freeze]
  rw [← declarations_step_list _ .classes] at hids
  generalize (run requests).step (.list .classes) = s at hrecords hfrozen hids
  have hstatics : (s.tree.statics.map (·.id)).Nodup := by
    rw [hrecords.statics_eq]
    exact nodup_filter_sortByPlace hids _
  have hall : s.tree.classes.all =
      ((sortByPlace s.declarations).filter isAllocatedAt).map (·.2) := by
    rw [s.tree.all_eq, hrecords.entries_eq]
  refine ⟨hall, ?_, fun e he => ?_, fun e he => ?_, ?_, ?_, fun name => ?_, ?_,
    hrecords.numbered, fun id hid => ?_⟩
  · rw [hall]
    exact nodup_filter_sortByPlace hids _
  · rw [s.tree.initialized_eq]
    exact List.mem_filter.trans (and_iff_right he)
  · rw [s.tree.common_eq]
    exact (List.mem_filter.trans (and_iff_right he)).trans Option.isNone_iff_eq_none
  · rw [s.tree.initialized_eq]
    exact List.filter_sublist
  · rw [s.tree.common_eq]
    exact List.filter_sublist
  · have hnumbers := Tree.map_ordinal?_filter hfrozen hstatics name
    rw [hrecords.statics_eq, List.filter_map, List.map_map, List.countP_map, List.filter_filter,
      List.countP_filter] at hnumbers
    rw [← (perm_sortByPlace s.declarations).countP_eq]
    simpa [Function.comp_def, and_comm, Bool.and_comm] using hnumbers
  · have hsymbols := Tree.nodup_symbol_statics hfrozen hstatics
    rw [hrecords.statics_eq, List.map_map] at hsymbols
    exact ((((perm_sortByPlace s.declarations).filter _).map _).nodup_iff).mp hsymbols
  · apply Tree.ordinal?_eq_none
    rw [hrecords.statics_eq]
    simp only [List.mem_map, List.mem_filter]
    rintro ⟨e, ⟨d, ⟨hd, hstatic⟩, rfl⟩, rfl⟩
    rw [(perm_sortByPlace s.declarations).mem_iff] at hd
    simp [isStaticAt, hid d hd rfl] at hstatic

/-- Two bodies of one function, a nested block, names with dots and digits, and requests
that fail in between. -/
def sampleRequests : List (Request Nat) :=
  let var (id : Nat) (name : String) (storage : Storage) : Entity Nat :=
    ⟨id, .definedVariable, name, none, storage, false, none⟩
  let f : Entity Nat := ⟨0, .definedFunction, "f", none, .global, false, none⟩
  let started (e : Entity Nat) : Entity Nat := { e with init := some ⟨.int 1, none⟩ }
  [.declare [] f,
    .declare [] (started (var 1 "a.0" .global)),
    .declare [] (var 2 "a.0" .global),
    .openBody (var 1 "a.0" .global),
    .openBody f,
    .declare [0] (var 3 "a" .static),
    .declare [0] (var 4 "i" .automatic),
    .openBlock [0],
    .openBlock [7],
    .declare [0, 0] (started (var 5 "a" .static)),
    .declare [0, 0] (var 6 "a.0" .static),
    .openBody f,
    .declare [1] (var 7 "a.0" .static),
    .declare [0] (var 8 "b.1" .static),
    .declare [0] (var 9 "c" .global),
    .get [0, 0] "i",
    .declare [] ⟨10, .externVariable, "x", none, .global, false, none⟩]

theorem classified_run_sampleRequests :
    let s := (run sampleRequests).step (.list .classes)
    ((run sampleRequests).declarations.map (·.2.id)).Nodup ∧ s.Classified ∧
      s.tree.statics.map s.tree.symbol = ["a.0", "b.1.0", "a.1", "a.0.0", "a.0.1"] := by
  have hids : ((run sampleRequests).declarations.map (·.2.id)).Nodup := by decide
  exact ⟨hids, classified_run sampleRequests hids, by decide⟩

end Session

end Cflat.Scope
