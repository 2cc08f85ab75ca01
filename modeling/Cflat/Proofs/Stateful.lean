/-!
# Computations that change a state and may fail

Changes of a scope tree, of an emitter and of a build, and the steps of a generation: all of
them are functions from a state to an answer or an error, with the state after it in either
case.  What was changed before an error stays changed.

* Runs.  One lemma for each way to build such a computation says what it does to a state.
* Success.  `Gives x s a s'` says that a computation answers, and comes apart along `bind`.
-/

namespace Cflat

variable {ε σ α β : Type}

/-! ## Runs -/

theorem run_pure (a : α) (s : σ) : (pure a : ExceptT ε (StateM σ) α).run.run s = (.ok a, s) :=
  rfl

theorem run_bind (x : ExceptT ε (StateM σ) α) (f : α → ExceptT ε (StateM σ) β) (s : σ) :
    (x >>= f).run.run s = match x.run.run s with
      | (.ok a, s₁) => (f a).run.run s₁
      | (.error e, s₁) => (.error e, s₁) := by
  rw [ExceptT.run_bind, StateT.run_bind]
  rcases x.run.run s with ⟨r, s₁⟩
  cases r <;> rfl

theorem run_throw (e : ε) (s : σ) :
    (throw e : ExceptT ε (StateM σ) α).run.run s = (.error e, s) :=
  rfl

theorem run_get (s : σ) : (get : ExceptT ε (StateM σ) σ).run.run s = (.ok s, s) :=
  rfl

theorem run_set (s s' : σ) : (set s' : ExceptT ε (StateM σ) PUnit).run.run s = (.ok ⟨⟩, s') :=
  rfl

theorem run_modify (f : σ → σ) (s : σ) :
    (modify f : ExceptT ε (StateM σ) PUnit).run.run s = (.ok ⟨⟩, f s) :=
  rfl

theorem run_modifyGet (f : σ → α × σ) (s : σ) :
    (modifyGet f : ExceptT ε (StateM σ) α).run.run s = (.ok (f s).1, (f s).2) :=
  rfl

theorem run_ofExcept (x : Except ε α) (s : σ) :
    (MonadExcept.ofExcept x : ExceptT ε (StateM σ) α).run.run s = (x, s) := by
  cases x <;> rfl

/-- A rule in front of a computation: if it is broken nothing is done. -/
theorem run_guard {p : Prop} [Decidable p] (e : ε) (k : Unit → ExceptT ε (StateM σ) α) (s : σ) :
    (if p then throw e >>= k else k ()).run.run s =
      if p then (.error e, s) else (k ()).run.run s := by
  by_cases hp : p
  · rw [if_pos hp, if_pos hp]
    rfl
  · rw [if_neg hp, if_neg hp]

/-- What is done finally is done whatever the answer is. -/
theorem run_tryFinally (x : ExceptT ε (StateM σ) α) (y : ExceptT ε (StateM σ) β) (s : σ) :
    (tryFinally x y).run.run s =
      match x.run.run s with
      | (r, s₁) =>
        match y.run.run s₁ with
        | (.ok _, s₂) => (r, s₂)
        | (.error e, s₂) => (.error e, s₂) := by
  simp only [tryFinally, tryFinally', ExceptT.run, StateT.run, Functor.map, ExceptT.map,
    ExceptT.mk, bind, StateT.bind]
  rcases x s with ⟨r, s₁⟩
  rcases hy : y s₁ with ⟨r', s₂⟩
  cases r <;> cases r' <;> simp only [hy] <;> rfl

/-! ## Success -/

/-- A computation answers and leaves a state. -/
def Gives (x : ExceptT ε (StateM σ) α) (s : σ) (a : α) (s' : σ) : Prop :=
  x.run.run s = (.ok a, s')

namespace Gives

variable {x : ExceptT ε (StateM σ) α} {s s₁ s' : σ} {a : α}

theorem snd_run (h : Gives x s a s') : (x.run.run s).2 = s' := by
  rw [show x.run.run s = (.ok a, s') from h]

/-- After a computation that answers, the rest runs from the state it leaves. -/
theorem run_bind (h : Gives x s a s₁) (f : α → ExceptT ε (StateM σ) β) :
    (x >>= f).run.run s = (f a).run.run s₁ := by
  rw [Cflat.run_bind, show x.run.run s = (.ok a, s₁) from h]

end Gives

theorem gives_bind {x : ExceptT ε (StateM σ) α} {f : α → ExceptT ε (StateM σ) β} {s s' : σ}
    {b : β} : Gives (x >>= f) s b s' ↔ ∃ a s₁, Gives x s a s₁ ∧ Gives (f a) s₁ b s' := by
  constructor
  · intro h
    rw [Gives, run_bind] at h
    rcases hx : x.run.run s with ⟨r, s₁⟩
    rw [hx] at h
    cases r with
    | ok a => exact ⟨a, s₁, hx, h⟩
    | error e => cases h
  · intro h
    obtain ⟨a, s₁, hx, hf⟩ := h
    exact (hx.run_bind f).trans hf

theorem exists_gives_of_isOk {x : ExceptT ε (StateM σ) α} {s : σ}
    (h : (x.run.run s).1.isOk = true) : ∃ a s', Gives x s a s' := by
  rcases hx : x.run.run s with ⟨r, s'⟩
  rw [hx] at h
  cases r with
  | ok a => exact ⟨a, s', hx⟩
  | error e => cases h

end Cflat
