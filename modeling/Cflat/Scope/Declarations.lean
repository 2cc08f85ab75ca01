import Cflat.Scope.Entity

/-!
# Declarations of a scope

A scope keeps its entities in the order in which they were declared, and an index by
name.  The index is kept in step with the list, so a name is found by the index where a
walk over the list would find it: `Declarations.find?_eq`.
-/

namespace Cflat.Scope

variable {ι : Type}

/-- The names of some entities with their positions, the first of them at position `i`. -/
def positions (i : Nat) : List (Entity ι) → List (String × Nat)
  | [] => []
  | e :: rest => (e.name, i) :: positions (i + 1) rest

theorem positions_nil : [] = positions 0 ([] : List (Entity ι)) :=
  rfl

/-- The entities of a scope and where their names lead. -/
structure Declarations (ι : Type) where
  entities : List (Entity ι) := []
  /-- The position that each name leads to. -/
  index : List (String × Nat) := []
  inStep : index = positions 0 entities := by exact Cflat.Scope.positions_nil
  deriving Repr

theorem positions_append (i : Nat) (l l' : List (Entity ι)) :
    positions i (l ++ l') = positions i l ++ positions (i + l.length) l' := by
  induction l generalizing i with
  | nil => rfl
  | cons e l ih =>
    rw [List.cons_append, positions, ih, positions, List.cons_append, List.length_cons,
      Nat.add_right_comm, Nat.add_assoc]

namespace Declarations

/-- Some entities with their index. -/
def of (entities : List (Entity ι)) : Declarations ι :=
  { entities, index := positions 0 entities, inStep := rfl }

/-- Add an entity at the end. -/
def add (d : Declarations ι) (e : Entity ι) : Declarations ι where
  entities := d.entities ++ [e]
  index := d.index ++ [(e.name, d.entities.length)]
  inStep := by
    rw [positions_append, d.inStep, Nat.zero_add]
    rfl

/-- The entity that the index has for a name. -/
def find? (d : Declarations ι) (name : String) : Option (Entity ι) :=
  (d.index.lookup name).bind fun i => d.entities[i]?

/-- Declarations are the same if their entities are. -/
@[ext]
theorem ext {d d' : Declarations ι} (h : d.entities = d'.entities) : d = d' := by
  obtain ⟨entities, index, rfl⟩ := d
  obtain ⟨entities', index', rfl⟩ := d'
  cases h
  rfl

@[simp]
theorem entities_of (entities : List (Entity ι)) : (of entities).entities = entities :=
  rfl

theorem of_entities (d : Declarations ι) : of d.entities = d :=
  ext rfl

theorem lookup_positions (l : List (Entity ι)) (i : Nat) (name : String) :
    ((positions i l).lookup name).bind (fun j => l[j - i]?) = l.find? (·.name = name) ∧
      ∀ j ∈ (positions i l).lookup name, i ≤ j := by
  induction l generalizing i with
  | nil => exact ⟨rfl, by simp [positions]⟩
  | cons e l ih =>
    obtain ⟨hfind, hle⟩ := ih (i + 1)
    rw [positions, List.lookup_cons]
    by_cases hname : e.name = name
    · simp [hname]
    · have hne : (name == e.name) = false := by simpa using Ne.symm hname
      simp only [hne, List.find?_cons, hname, decide_false]
      refine ⟨?_, fun j hj => Nat.le_of_succ_le (hle j hj)⟩
      rw [← hfind]
      cases hlookup : (positions (i + 1) l).lookup name with
      | none => rfl
      | some j =>
        have hj : j - i = j - (i + 1) + 1 := by
          have := hle j hlookup
          omega
        simp only [Option.bind_some]
        rw [hj, List.getElem?_cons_succ]

/-- The index finds what a walk over the entities would find. -/
theorem find?_eq (d : Declarations ι) (name : String) :
    d.find? name = d.entities.find? (·.name = name) := by
  rw [find?, d.inStep]
  exact (lookup_positions d.entities 0 name).1

end Declarations

end Cflat.Scope
