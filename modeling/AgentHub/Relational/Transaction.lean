import Mathlib.Data.List.Basic
import Mathlib.Control.Basic

namespace Relational

/-!
# Transactions

A transaction reads and writes a state and may raise, and raising undoes every write: the
state of `StateT σ (Except ε)` is lost with the error.

* `Commits x s a s'` — run from `s`, the transaction `x` commits with result `a` in `s'`.
  The `commits_*` equations turn a program into the conditions under which it commits, so a
  proof about a program never unfolds the monad;
* `atomically x s` — the outcome and the state left behind, after commit or rollback;
* `Keeps I x` — the invariant `I` survives `x`.
-/

universe u v w

variable {ε : Type u} {σ : Type v} {α β : Type v}

/-- A program over the state `σ` that may raise `ε`. -/
abbrev Transaction (ε : Type u) (σ α : Type v) := StateT σ (Except ε) α

/-- From `s`, the transaction commits with result `a` in state `s'`. -/
def Commits (x : Transaction ε σ α) (s : σ) (a : α) (s' : σ) : Prop :=
  x.run s = Except.ok (a, s')

section Equations

variable {s s' : σ} {a b : α}

/-- `return` changes nothing. -/
@[simp] theorem commits_pure : Commits (pure b : Transaction ε σ α) s a s' ↔ a = b ∧ s' = s := by
  show Except.ok (b, s) = Except.ok (a, s') ↔ _
  rw [Except.ok.injEq, Prod.mk.injEq, eq_comm, eq_comm (a := s)]

/-- A sequence commits when its first part does and the rest does from there. -/
@[simp] theorem commits_bind {x : Transaction ε σ β} {f : β → Transaction ε σ α} :
    Commits (x >>= f) s a s' ↔ ∃ b t, Commits x s b t ∧ Commits (f b) t a s' := by
  simp only [Commits, StateT.run_bind]
  constructor
  · intro h
    cases hx : x.run s with
    | error e => rw [hx] at h; cases h
    | ok r =>
      obtain ⟨b, t⟩ := r
      rw [hx] at h
      exact ⟨b, t, rfl, h⟩
  · rintro ⟨b, t, hx, hf⟩
    rw [hx]
    exact hf

/-- What raises does not commit. -/
@[simp] theorem commits_throw {e : ε} : ¬ Commits (throw e : Transaction ε σ α) s a s' := by
  intro h
  cases h

/-- A read has the state. -/
@[simp] theorem commits_get {t : σ} : Commits (get : Transaction ε σ σ) s t s' ↔ t = s ∧ s' = s :=
  commits_pure

/-- A write makes the state what `f` makes of it. -/
@[simp] theorem commits_modify {f : σ → σ} {u : PUnit} :
    Commits (modify f : Transaction ε σ PUnit) s u s' ↔ s' = f s := by
  show Except.ok (PUnit.unit, f s) = Except.ok (u, s') ↔ _
  simp only [Except.ok.injEq, Prod.mk.injEq, true_and]
  exact eq_comm

/-- A read and a write in one. -/
@[simp] theorem commits_modifyGet {f : σ → α × σ} :
    Commits (modifyGet f : Transaction ε σ α) s a s' ↔ f s = (a, s') := by
  show Except.ok (f s) = Except.ok (a, s') ↔ _
  rw [Except.ok.injEq]

/-- A branch commits as the side that is taken. -/
theorem commits_ite {p : Prop} [Decidable p] {x y : Transaction ε σ α} :
    Commits (if p then x else y) s a s' ↔ (p ∧ Commits x s a s') ∨ (¬ p ∧ Commits y s a s') := by
  by_cases h : p <;> simp [h]

/-- A guard in front of a program: the program runs only if the guard does not raise. -/
theorem commits_guard {p : Prop} [Decidable p] {e : ε} {x : Transaction ε σ α} :
    Commits (if p then throw e else x) s a s' ↔ ¬ p ∧ Commits x s a s' := by
  by_cases h : p <;> simp [h]

/-- A pure function of the result. -/
@[simp] theorem commits_map {x : Transaction ε σ β} {f : β → α} :
    Commits (f <$> x) s a s' ↔ ∃ b, Commits x s b s' ∧ a = f b := by
  rw [← bind_pure_comp, commits_bind]
  constructor
  · rintro ⟨b, t, hx, h⟩
    obtain ⟨rfl, rfl⟩ := commits_pure.mp h
    exact ⟨b, hx, rfl⟩
  · rintro ⟨b, hx, rfl⟩
    exact ⟨b, s', hx, commits_pure.mpr ⟨rfl, rfl⟩⟩

/-- A computation that may raise and does not touch the state. -/
def ofResult (x : Except ε α) : Transaction ε σ α :=
  match x with
  | .ok a => pure a
  | .error e => throw e

/-- A checked value commits as the value, or not at all. -/
@[simp] theorem commits_ofResult {x : Except ε α} :
    Commits (ofResult x : Transaction ε σ α) s a s' ↔ x = .ok a ∧ s' = s := by
  cases x with
  | ok b => simp [ofResult, eq_comm]
  | error e => simp [ofResult]

/-- The outcome is determined by the state the transaction starts from. -/
theorem Commits.unique {x : Transaction ε σ α} {t t' : σ} (h : Commits x s a t)
    (h' : Commits x s b t') : a = b ∧ t = t' := by
  rw [Commits, h, Except.ok.injEq, Prod.mk.injEq] at h'
  exact h'

end Equations

/-! ### Programs that go through -/

/-- The transaction commits from `s`. -/
def Accepts (x : Transaction ε σ α) (s : σ) : Prop := ∃ a s', Commits x s a s'

section Accepts

variable {s t : σ} {a : α} {b : β}

/-- What commits is accepted. -/
theorem Commits.accepts {x : Transaction ε σ α} (h : Commits x s a t) : Accepts x s := ⟨a, t, h⟩

/-- A sequence goes through when its first part commits and the rest goes through from there. -/
theorem Accepts.bind {x : Transaction ε σ β} {f : β → Transaction ε σ α} (hx : Commits x s b t)
    (hf : Accepts (f b) t) : Accepts (x >>= f) s := by
  obtain ⟨a, s', ha⟩ := hf
  exact ⟨a, s', commits_bind.mpr ⟨b, t, hx, ha⟩⟩

/-- A sequence whose rest goes through from wherever the first part ends. -/
theorem Accepts.bind_of {x : Transaction ε σ β} {f : β → Transaction ε σ α} (hx : Accepts x s)
    (hf : ∀ b t, Commits x s b t → Accepts (f b) t) : Accepts (x >>= f) s := by
  obtain ⟨b, t, hb⟩ := hx
  exact .bind hb (hf b t hb)

end Accepts

/-! ### Commit or rollback -/

/-- The outcome of a transaction and the state it leaves: its own after a commit, the one it
    started from after an error. -/
def atomically (x : Transaction ε σ α) (s : σ) : Except ε α × σ :=
  match x.run s with
  | .ok (a, s') => (.ok a, s')
  | .error e => (.error e, s)

/-- What commits is what the caller sees. -/
theorem atomically_of_commits {x : Transaction ε σ α} {s s' : σ} {a : α}
    (h : Commits x s a s') : atomically x s = (.ok a, s') := by
  have h' : x.run s = Except.ok (a, s') := h
  simp [atomically, h']

/-- A transaction either commits or leaves the state alone. -/
theorem atomically_cases (x : Transaction ε σ α) (s : σ) :
    (∃ a s', Commits x s a s' ∧ atomically x s = (.ok a, s')) ∨
      ∃ e, (∀ a s', ¬ Commits x s a s') ∧ atomically x s = (.error e, s) := by
  cases hx : x.run s with
  | ok r => exact .inl ⟨r.1, r.2, hx, atomically_of_commits hx⟩
  | error e =>
    refine .inr ⟨e, fun a s' h => ?_, by simp [atomically, hx]⟩
    have h' : x.run s = Except.ok (a, s') := h
    rw [hx] at h'
    cases h'

/-- What is computed from the result of a program does not change its effect. -/
theorem atomically_map {f : α → β} {x : Transaction ε σ α} {s : σ} :
    atomically (f <$> x) s = ((atomically x s).1.map f, (atomically x s).2) := by
  rw [atomically, atomically, StateT.run_map]
  cases x.run s with
  | ok r => rfl
  | error e => rfl

/-- An outcome that is not an error is a commit. -/
theorem commits_of_atomically {x : Transaction ε σ α} {s : σ} {a : α}
    (h : (atomically x s).1 = .ok a) : Commits x s a (atomically x s).2 := by
  obtain ⟨b, s', hc, hx⟩ | ⟨e, -, hx⟩ := atomically_cases x s
  · rw [hx] at h ⊢
    cases h
    exact hc
  · rw [hx] at h
    cases h

/-! ### Invariants of programs -/

/-- `I` holds after `x` commits if it held before. -/
def Keeps (I : σ → Prop) (x : Transaction ε σ α) : Prop :=
  ∀ s a s', Commits x s a s' → I s → I s'

/-! ### Loops -/

section Loops

variable {γ : Type v} {f : γ → Transaction ε σ α}

/-- The loop over nothing. -/
theorem commits_mapM_nil {s s' : σ} {bs : List α} :
    Commits (List.mapM f []) s bs s' ↔ bs = [] ∧ s' = s := by
  rw [List.mapM_nil, commits_pure]

/-- The loop over one element and the rest. -/
theorem commits_mapM_cons {c : γ} {cs : List γ} {s s' : σ} {bs : List α} :
    Commits (List.mapM f (c :: cs)) s bs s' ↔
      ∃ b t bs', Commits (f c) s b t ∧ Commits (List.mapM f cs) t bs' s' ∧ bs = b :: bs' := by
  rw [List.mapM_cons, commits_bind]
  constructor
  · rintro ⟨b, t, hb, h⟩
    obtain ⟨bs', t', hbs, h'⟩ := commits_bind.mp h
    obtain ⟨rfl, rfl⟩ := commits_pure.mp h'
    exact ⟨b, t, bs', hb, hbs, rfl⟩
  · rintro ⟨b, t, bs', hb, hbs, rfl⟩
    exact ⟨b, t, hb, commits_bind.mpr ⟨bs', s', hbs, commits_pure.mpr ⟨rfl, rfl⟩⟩⟩

/-- **Loop rule.**  `I` speaks about the elements still to come and the state; if every turn
    takes it from the list to its tail, it holds of the empty list at the end. -/
theorem Commits.mapM_induction (I : List γ → σ → Prop)
    (step : ∀ c cs s b t, I (c :: cs) s → Commits (f c) s b t → I cs t) {cs : List γ} {s s' : σ}
    {bs : List α} (h : Commits (cs.mapM f) s bs s') (h0 : I cs s) : I [] s' := by
  induction cs generalizing s bs with
  | nil =>
    obtain ⟨-, rfl⟩ := commits_mapM_nil.mp h
    exact h0
  | cons c cs ih =>
    obtain ⟨b, t, bs', hb, hbs, -⟩ := commits_mapM_cons.mp h
    exact ih hbs (step c cs s b t h0 hb)

end Loops

end Relational
