/-!
# Checks and what they accept

A check is a function into `Except`.  `Accepts f P g` says all there is to say
about the successes of the check `f`: it succeeds exactly on the inputs with `P`,
and then its answer is that of the plain function `g`.  A check that is built from
others has such a statement built from theirs, and later proofs speak of `P` and
`g` and never open the check again.
-/

namespace Cflat

variable {ε α β : Type}

theorem bind_eq_ok_iff {x : Except ε α} {f : α → Except ε β} {b : β} :
    (x >>= f) = .ok b ↔ ∃ a, x = .ok a ∧ f a = .ok b := by
  cases x with
  | error e => simp [bind, Except.bind]
  | ok a => simp [bind, Except.bind]

theorem bind_eq_error_iff {x : Except ε α} {f : α → Except ε β} {e : ε} :
    (x >>= f) = .error e ↔ x = .error e ∨ ∃ a, x = .ok a ∧ f a = .error e := by
  cases x with
  | error e => simp [bind, Except.bind]
  | ok a => simp [bind, Except.bind]

theorem exists_eq_ok_of_isOk {x : Except ε α} (h : x.isOk = true) : ∃ a, x = .ok a := by
  cases x with
  | error e => simp [Except.isOk, Except.toBool] at h
  | ok a => exact ⟨a, rfl⟩

theorem pure_eq_ok_iff {a b : α} : (pure a : Except ε α) = .ok b ↔ b = a := by
  simp [pure, Except.pure, eq_comm]

theorem pure_eq_error_iff {a : α} {e : ε} : (pure a : Except ε α) = .error e ↔ False := by
  simp [pure, Except.pure]

theorem throw_eq_ok_iff {e : ε} {a : α} : (throw e : Except ε α) = .ok a ↔ False := by
  simp [throw, throwThe, MonadExceptOf.throw]

theorem mapError_eq_ok_iff {δ : Type} {x : Except ε α} {f : ε → δ} {a : α} :
    x.mapError f = .ok a ↔ x = .ok a := by
  cases x with
  | error e =>
    change Except.error (f e) = Except.ok a ↔ _
    simp
  | ok b =>
    change Except.ok b = Except.ok a ↔ _
    simp

theorem mapError_eq_error_iff {δ : Type} {x : Except ε α} {f : ε → δ} {d : δ} :
    x.mapError f = .error d ↔ ∃ e, x = .error e ∧ d = f e := by
  cases x with
  | error e =>
    change Except.error (f e) = Except.error d ↔ _
    simp [eq_comm]
  | ok b =>
    change Except.ok b = Except.error d ↔ _
    simp

/-- A rule in front of a check: an input that breaks it is refused, and the check
goes on with any other. -/
theorem guard_eq_ok_iff {p : Prop} [Decidable p] {e : ε} {k : Unit → Except ε α} {a : α} :
    (if p then throw e >>= k else k ()) = .ok a ↔ ¬ p ∧ k () = .ok a := by
  by_cases hp : p <;> simp [hp, throw, throwThe, MonadExceptOf.throw, bind, Except.bind]

theorem guard_eq_error_iff {p : Prop} [Decidable p] {e d : ε} {k : Unit → Except ε α} :
    (if p then throw e >>= k else k ()) = .error d ↔ p ∧ d = e ∨ ¬ p ∧ k () = .error d := by
  by_cases hp : p <;>
    simp [hp, throw, throwThe, MonadExceptOf.throw, bind, Except.bind, eq_comm]

/-- The check `f` accepts exactly the inputs with `P`, and answers as `g` does. -/
def Accepts (f : α → Except ε β) (P : α → Prop) (g : α → β) : Prop :=
  ∀ a b, f a = .ok b ↔ P a ∧ b = g a

namespace Accepts

variable {f : α → Except ε β} {P : α → Prop} {g : α → β}

/-- A refused input has an error. -/
theorem exists_error (h : Accepts f P g) {a : α} (ha : ¬ P a) : ∃ e, f a = .error e := by
  cases hf : f a with
  | error e => exact ⟨e, rfl⟩
  | ok b => exact absurd ((h a b).mp hf).1 ha

/-- A list is accepted when each of its members is. -/
theorem mapM (h : Accepts f P g) :
    Accepts (fun l : List α => l.mapM f) (fun l => ∀ a ∈ l, P a) (List.map g) := by
  intro l
  induction l with
  | nil =>
    intro bs
    simp [pure_eq_ok_iff]
  | cons a l ih =>
    intro bs
    simp only [List.mapM_cons, bind_eq_ok_iff, pure_eq_ok_iff, h a, ih,
      List.forall_mem_cons, List.map_cons]
    constructor
    · intro hok
      obtain ⟨b, ⟨hP, rfl⟩, bs', ⟨hl, rfl⟩, rfl⟩ := hok
      exact ⟨⟨hP, hl⟩, rfl⟩
    · intro hrules
      obtain ⟨⟨hP, hl⟩, rfl⟩ := hrules
      exact ⟨g a, ⟨hP, rfl⟩, l.map g, ⟨hl, rfl⟩, rfl⟩

end Accepts

/-! ## Checks that build up a state -/

section State

variable {σ : Type}

theorem run_bind_eq_ok_iff {x : StateT σ (Except ε) α} {f : α → StateT σ (Except ε) β} {s s' : σ}
    {b : β} :
    (x >>= f) s = .ok (b, s') ↔ ∃ a s₁, x s = .ok (a, s₁) ∧ f a s₁ = .ok (b, s') := by
  change (x s >>= fun p => f p.1 p.2) = .ok (b, s') ↔ _
  rw [bind_eq_ok_iff, Prod.exists]

theorem run_pure_eq_ok_iff {a b : α} {s s' : σ} :
    (pure a : StateT σ (Except ε) α) s = .ok (b, s') ↔ b = a ∧ s' = s := by
  change (pure (a, s) : Except ε (α × σ)) = .ok (b, s') ↔ _
  rw [pure_eq_ok_iff, Prod.mk.injEq]

/-- A check that does not look at the state leaves it alone. -/
theorem run_lift_eq_ok_iff {x : Except ε α} {a : α} {s s' : σ} :
    (liftM x : StateT σ (Except ε) α) s = .ok (a, s') ↔ x = .ok a ∧ s' = s := by
  change (x >>= fun a => pure (a, s)) = .ok (a, s') ↔ _
  simp only [bind_eq_ok_iff, pure_eq_ok_iff, Prod.mk.injEq]
  constructor
  · rintro ⟨b, hx, rfl, rfl⟩
    exact ⟨hx, rfl⟩
  · rintro ⟨hx, rfl⟩
    exact ⟨a, hx, rfl, rfl⟩

theorem run_guard_eq_ok_iff {p : Prop} [Decidable p] {e : ε} {k : Unit → StateT σ (Except ε) α}
    {a : α} {s s' : σ} :
    (if p then throw e >>= k else k ()) s = .ok (a, s') ↔ ¬ p ∧ k () s = .ok (a, s') := by
  by_cases hp : p
  · rw [if_pos hp]
    constructor
    · intro h
      cases h
    · intro h
      exact absurd hp h.1
  · rw [if_neg hp, and_iff_right hp]

theorem run_forM_eq_ok_iff {f : α → StateT σ (Except ε) Unit} (l : List α) {u : Unit} {s s' : σ} :
    l.forM f s = .ok (u, s') ↔ ∃ us, l.mapM f s = .ok (us, s') := by
  induction l generalizing s with
  | nil => simp [run_pure_eq_ok_iff, List.forM_nil]
  | cons a l ih =>
    rw [List.forM_eq_forM, List.forM_cons, List.mapM_cons]
    simp only [run_bind_eq_ok_iff, run_pure_eq_ok_iff, ← List.forM_eq_forM, ih]
    constructor
    · rintro ⟨v, s₁, ha, us, hl⟩
      exact ⟨v :: us, v, s₁, ha, us, s', hl, rfl, rfl⟩
    · rintro ⟨_, v, s₁, ha, us, _, hl, rfl, rfl⟩
      exact ⟨v, s₁, ha, us, hl⟩

/-- Adding one by one things that are each acceptable and have a name not taken yet.
`names` are the names taken in a state, `push` adds one thing and `give` is what the step
answers. -/
theorem mapM_fresh_eq_ok_iff {step : α → StateT σ (Except ε) β} {P : α → Prop} {name : α → String}
    {push : σ → α → σ} {give : α → β} (names : σ → List String) (Inv : σ → Prop)
    (hstep : ∀ s a b s', Inv s →
      (step a s = .ok (b, s') ↔ P a ∧ name a ∉ names s ∧ b = give a ∧ s' = push s a))
    (hnames : ∀ s a, Inv s → names (push s a) = names s ++ [name a])
    (hinv : ∀ s a, Inv s → Inv (push s a)) (l : List α) {bs : List β} {s s' : σ} (hs : Inv s) :
    l.mapM step s = .ok (bs, s') ↔
      (∀ a ∈ l, P a) ∧ (l.map name).Nodup ∧ (∀ a ∈ l, name a ∉ names s) ∧
        bs = l.map give ∧ s' = l.foldl push s := by
  induction l generalizing bs s with
  | nil => simp [run_pure_eq_ok_iff]
  | cons a l ih =>
    simp only [List.mapM_cons, run_bind_eq_ok_iff, run_pure_eq_ok_iff, hstep s a _ _ hs,
      List.foldl_cons, List.map_cons]
    constructor
    · intro hok
      obtain ⟨_, _, ⟨hP, hfresh, rfl, rfl⟩, _, _, hl, rfl, rfl⟩ := hok
      obtain ⟨hPl, hdistinct, hfreshl, rfl, rfl⟩ := (ih (hinv s a hs)).mp hl
      simp only [hnames s a hs, List.mem_append, List.mem_singleton, not_or] at hfreshl
      refine ⟨by simpa using ⟨hP, hPl⟩, ?_, ?_, rfl, rfl⟩
      · rw [List.nodup_cons]
        refine ⟨fun hmem => ?_, hdistinct⟩
        obtain ⟨b, hb, hba⟩ := List.mem_map.mp hmem
        exact (hfreshl b hb).2 hba
      · intro b hb
        rcases List.mem_cons.mp hb with rfl | hb
        · exact hfresh
        · exact (hfreshl b hb).1
    · intro hrules
      obtain ⟨hP, hdistinct, hfresh, rfl, rfl⟩ := hrules
      rw [List.nodup_cons] at hdistinct
      refine ⟨_, _, ⟨hP a (by simp), hfresh a (by simp), rfl, rfl⟩, _, _, ?_, rfl, rfl⟩
      refine (ih (hinv s a hs)).mpr ⟨fun b hb => hP b (by simp [hb]), hdistinct.2, ?_, rfl, rfl⟩
      intro b hb
      have hne : name b ≠ name a := fun heq => hdistinct.1 (heq ▸ List.mem_map_of_mem hb)
      simpa [hnames s a hs, hne] using hfresh b (by simp [hb])

theorem forM_fresh_eq_ok_iff {step : α → StateT σ (Except ε) Unit} {P : α → Prop}
    {name : α → String} {push : σ → α → σ} (names : σ → List String) (Inv : σ → Prop)
    (hstep : ∀ s a u s', Inv s →
      (step a s = .ok (u, s') ↔ P a ∧ name a ∉ names s ∧ s' = push s a))
    (hnames : ∀ s a, Inv s → names (push s a) = names s ++ [name a])
    (hinv : ∀ s a, Inv s → Inv (push s a)) (l : List α) {u : Unit} {s s' : σ} (hs : Inv s) :
    l.forM step s = .ok (u, s') ↔
      (∀ a ∈ l, P a) ∧ (l.map name).Nodup ∧ (∀ a ∈ l, name a ∉ names s) ∧
        s' = l.foldl push s := by
  have hstep' (s : σ) (a : α) (u : Unit) (s' : σ) (hs : Inv s) :
      step a s = .ok (u, s') ↔ P a ∧ name a ∉ names s ∧ u = () ∧ s' = push s a := by
    rw [hstep s a u s' hs, and_iff_right (Subsingleton.elim u ())]
  simp only [run_forM_eq_ok_iff, mapM_fresh_eq_ok_iff names Inv hstep' hnames hinv l hs]
  constructor
  · intro h
    obtain ⟨_, hP, hdistinct, hfresh, -, rfl⟩ := h
    exact ⟨hP, hdistinct, hfresh, rfl⟩
  · intro h
    obtain ⟨hP, hdistinct, hfresh, rfl⟩ := h
    exact ⟨_, hP, hdistinct, hfresh, rfl, rfl⟩

end State

/-! ## Errors -/

/-- Every error of a computation is of the sort `Q`. -/
def FailsWith (Q : ε → Prop) (x : Except ε α) : Prop :=
  ∀ e, x = .error e → Q e

namespace FailsWith

variable {Q : ε → Prop}

theorem pure (a : α) : FailsWith Q (Pure.pure a) := by
  intro e h
  cases h

theorem throw {e : ε} (h : Q e) : FailsWith Q (throw e : Except ε α) := by
  intro d hd
  cases hd
  exact h

theorem bind {x : Except ε α} {f : α → Except ε β} (hx : FailsWith Q x)
    (hf : ∀ a, x = .ok a → FailsWith Q (f a)) : FailsWith Q (x >>= f) := by
  intro e h
  rcases bind_eq_error_iff.mp h with h | ⟨a, ha, h⟩
  · exact hx e h
  · exact hf a ha e h

theorem guard {p : Prop} [Decidable p] {e : ε} {k : Unit → Except ε α} (he : Q e)
    (hk : FailsWith Q (k ())) : FailsWith Q (if p then MonadExcept.throw e >>= k else k ()) := by
  intro d h
  rcases guard_eq_error_iff.mp h with ⟨-, rfl⟩ | ⟨-, h⟩
  · exact he
  · exact hk d h

theorem mapError {δ : Type} {x : Except δ α} {f : δ → ε} (h : FailsWith (fun d => Q (f d)) x) :
    FailsWith Q (x.mapError f) := by
  intro e he
  obtain ⟨d, hd, rfl⟩ := mapError_eq_error_iff.mp he
  exact h d hd

theorem mapM {f : α → Except ε β} (hf : ∀ a, FailsWith Q (f a)) (l : List α) :
    FailsWith Q (l.mapM f) := by
  induction l with
  | nil => exact pure []
  | cons a l ih =>
    rw [List.mapM_cons]
    exact (hf a).bind fun b _ => ih.bind fun bs _ => pure (b :: bs)

section State

variable {σ : Type}

theorem run_bind {x : StateT σ (Except ε) α} {f : α → StateT σ (Except ε) β} {s : σ}
    (hx : FailsWith Q (x s)) (hf : ∀ a s₁, x s = .ok (a, s₁) → FailsWith Q (f a s₁)) :
    FailsWith Q ((x >>= f) s) :=
  FailsWith.bind hx fun p h => hf p.1 p.2 h

theorem run_lift {x : Except ε α} (hx : FailsWith Q x) (s : σ) :
    FailsWith Q ((liftM x : StateT σ (Except ε) α) s) :=
  FailsWith.bind hx fun a _ => pure (a, s)

theorem run_guard {p : Prop} [Decidable p] {e : ε} {k : Unit → StateT σ (Except ε) α} {s : σ}
    (he : Q e) (hk : FailsWith Q (k () s)) :
    FailsWith Q ((if p then MonadExcept.throw e >>= k else k ()) s) := by
  by_cases hp : p
  · rw [if_pos hp]
    exact throw he
  · rwa [if_neg hp]

/-- A run of steps, each of which keeps an invariant. -/
theorem run_mapM {step : α → StateT σ (Except ε) β} (Inv : σ → Prop)
    (hstep : ∀ s a, Inv s → FailsWith Q (step a s))
    (hinv : ∀ s a b s', Inv s → step a s = .ok (b, s') → Inv s') (l : List α) {s : σ}
    (hs : Inv s) : FailsWith Q (l.mapM step s) := by
  induction l generalizing s with
  | nil => exact pure ([], s)
  | cons a l ih =>
    rw [List.mapM_cons]
    refine run_bind (hstep s a hs) fun b s₁ hb => ?_
    exact run_bind (ih (hinv s a b s₁ hs hb)) fun bs s₂ _ => pure (b :: bs, s₂)

theorem run_forM {step : α → StateT σ (Except ε) Unit} {l : List α} (Inv : σ → Prop)
    (hstep : ∀ s, ∀ a ∈ l, Inv s → FailsWith Q (step a s))
    (hinv : ∀ s, ∀ a ∈ l, ∀ u s', Inv s → step a s = .ok (u, s') → Inv s') {s : σ}
    (hs : Inv s) : FailsWith Q (l.forM step s) := by
  induction l generalizing s with
  | nil => exact pure ((), s)
  | cons a l ih =>
    rw [List.forM_eq_forM, List.forM_cons]
    refine run_bind (hstep s a (by simp) hs) fun u s₁ hu => ?_
    exact ih (fun s b hb => hstep s b (by simp [hb])) (fun s b hb => hinv s b (by simp [hb]))
      (hinv s a (by simp) u s₁ hs hu)

end State

end FailsWith

end Cflat
