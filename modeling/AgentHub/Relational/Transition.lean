import Mathlib.Data.List.Basic
import Mathlib.Data.List.Infix

namespace Relational

/-!
# Runs of a labelled system

A system is a function `exec : ℓ → σ → σ`; a step that is not enabled leaves the state as it
is.  A run is the list of its labels.

* `runFrom exec s ls` — the state after the steps `ls`;
* `run_invariant` — what holds at the start and survives every step holds after every run;
* `run_rel` — the same for a relation between the first and the last state;
* `holdsAlong_iff` — a property that a step keeps exactly when a condition on the state
  before it holds, holds in all states of a run exactly when the condition holds at all its
  steps;
* `Observed` — the system together with a log of what its steps put out.
-/

universe u v

variable {ℓ : Type u} {σ : Type v} (exec : ℓ → σ → σ)

/-- The state after the steps `ls`, from `s`. -/
def runFrom (s : σ) (ls : List ℓ) : σ := ls.foldl (fun t l => exec l t) s

/-- A run of no steps. -/
@[simp] theorem runFrom_nil (s : σ) : runFrom exec s [] = s := rfl

/-- A run begins with its first step. -/
@[simp] theorem runFrom_cons (s : σ) (l : ℓ) (ls : List ℓ) :
    runFrom exec s (l :: ls) = runFrom exec (exec l s) ls := rfl

/-- A run of two parts is the one after the other. -/
theorem runFrom_append (s : σ) (ls ms : List ℓ) :
    runFrom exec s (ls ++ ms) = runFrom exec (runFrom exec s ls) ms := by
  simp [runFrom, List.foldl_append]

/-- A run ends with its last step. -/
theorem runFrom_concat (s : σ) (ls : List ℓ) (l : ℓ) :
    runFrom exec s (ls ++ [l]) = exec l (runFrom exec s ls) := by
  simp [runFrom_append]

variable {exec}

/-- **Invariant rule.** -/
theorem run_invariant {I : σ → Prop} (step : ∀ l s, I s → I (exec l s)) {s : σ} (h0 : I s)
    (ls : List ℓ) : I (runFrom exec s ls) := by
  induction ls generalizing s with
  | nil => exact h0
  | cons l ls ih => exact ih (step l s h0)

/-- **Relation rule.**  A reflexive and transitive relation that every step respects, from
    states with the invariant `I`, relates the two ends of every run. -/
theorem run_rel {I : σ → Prop} {R : σ → σ → Prop} (keep : ∀ l s, I s → I (exec l s))
    (refl : ∀ s, R s s) (trans : ∀ s t u, R s t → R t u → R s u)
    (step : ∀ l s, I s → R s (exec l s)) {s : σ} (h0 : I s) (ls : List ℓ) :
    R s (runFrom exec s ls) := by
  induction ls generalizing s with
  | nil => exact refl s
  | cons l ls ih => exact trans _ _ _ (step l s h0) (ih (keep l s h0))

/-- `P` holds in every state of the run, both ends included. -/
def HoldsAlong (exec : ℓ → σ → σ) (P : σ → Prop) (s : σ) (ls : List ℓ) : Prop :=
  ∀ ms, ms <+: ls → P (runFrom exec s ms)

/-- `C` holds at every step of the run, of the label and the state before it. -/
def MeetsAlong (exec : ℓ → σ → σ) (C : ℓ → σ → Prop) (s : σ) (ls : List ℓ) : Prop :=
  ∀ ms l, ms ++ [l] <+: ls → C l (runFrom exec s ms)

/-- What holds along a run holds at its start and along the rest. -/
theorem holdsAlong_cons {P : σ → Prop} {s : σ} {l : ℓ} {ls : List ℓ} :
    HoldsAlong exec P s (l :: ls) ↔ P s ∧ HoldsAlong exec P (exec l s) ls := by
  constructor
  · intro h
    exact ⟨h [] (List.nil_prefix), fun ms hms => h (l :: ms) (List.cons_prefix_cons.mpr ⟨rfl, hms⟩)⟩
  · rintro ⟨h0, h⟩ ms hms
    cases ms with
    | nil => exact h0
    | cons m ms =>
      obtain ⟨rfl, hrest⟩ := List.cons_prefix_cons.mp hms
      exact h ms hrest

/-- What the steps of a run meet the first one meets, and the rest along the rest. -/
theorem meetsAlong_cons {C : ℓ → σ → Prop} {s : σ} {l : ℓ} {ls : List ℓ} :
    MeetsAlong exec C s (l :: ls) ↔ C l s ∧ MeetsAlong exec C (exec l s) ls := by
  constructor
  · intro h
    refine ⟨h [] l (List.cons_prefix_cons.mpr ⟨rfl, List.nil_prefix⟩), fun ms m hms => ?_⟩
    exact h (l :: ms) m (List.cons_prefix_cons.mpr ⟨rfl, hms⟩)
  · rintro ⟨h0, h⟩ ms m hms
    cases ms with
    | nil =>
      obtain ⟨rfl, -⟩ := List.cons_prefix_cons.mp hms
      exact h0
    | cons a ms =>
      obtain ⟨rfl, hrest⟩ := List.cons_prefix_cons.mp hms
      exact h ms m hrest

/-- **Exact step condition.**  Where the property holds and the invariant does, the step keeps
    the property if and only if `C` holds; then along a run the property never fails if and
    only if the condition never does. -/
theorem holdsAlong_iff {I P : σ → Prop} {C : ℓ → σ → Prop}
    (keep : ∀ l s, I s → I (exec l s)) (step : ∀ l s, I s → P s → (P (exec l s) ↔ C l s))
    {s : σ} (hI : I s) (hP : P s) (ls : List ℓ) :
    HoldsAlong exec P s ls ↔ MeetsAlong exec C s ls := by
  induction ls generalizing s with
  | nil =>
    refine ⟨fun _ ms l h => absurd (List.prefix_nil.mp h) (by simp), fun _ ms h => ?_⟩
    rw [List.prefix_nil.mp h]
    exact hP
  | cons l ls ih =>
    rw [holdsAlong_cons, meetsAlong_cons]
    constructor
    · rintro ⟨-, h⟩
      have hnext : P (exec l s) := h [] List.nil_prefix
      exact ⟨(step l s hI hP).mp hnext, (ih (keep l s hI) hnext).mp h⟩
    · rintro ⟨hC, h⟩
      have hnext : P (exec l s) := (step l s hI hP).mpr hC
      exact ⟨hP, (ih (keep l s hI) hnext).mpr h⟩

/-! ### Observed runs -/

/-- A state, and what the steps that led to it put out, oldest first. -/
structure Observed (σ : Type u) (ο : Type v) where
  state : σ
  log : List ο

/-- A step that logs what it puts out. -/
def Observed.step {ο : Type*} (exec : ℓ → σ → σ) (out : ℓ → σ → Option ο) (l : ℓ)
    (s : Observed σ ο) : Observed σ ο :=
  ⟨exec l s.state, s.log ++ (out l s.state).toList⟩

/-- Watching a run does not change it. -/
theorem Observed.state_runFrom {ο : Type*} (exec : ℓ → σ → σ) (out : ℓ → σ → Option ο)
    (s : Observed σ ο) (ls : List ℓ) :
    (runFrom (Observed.step exec out) s ls).state = runFrom exec s.state ls := by
  induction ls generalizing s with
  | nil => rfl
  | cons l ls ih => exact ih (Observed.step exec out l s)

end Relational
