import AgentHub.Relational.Transaction
import Mathlib.Data.Rat.Floor
import Mathlib.Tactic.Linarith
import Mathlib.Tactic.NormNum

namespace Polling

open Relational

/-!
# Polling until something settles

A loop reads, looks at the clock, and sleeps until the next read, the last time only for as long
as the deadline allows.

* `Timer`, `Timer.Ticks` — a clock and a way to sleep, and what makes the clock one: readings do
  not go back, and a sleep lasts at least as long as was asked for;
* `poll` — the loop; `Polls`, its runs with the sleeps they asked for; `commits_poll`, that these
  are the same; `poll_total`, that only a read raises;
* `Polls.last`, `Polls.last_read` — when a run stops, and on which read; `Polls.unsettled`,
  `Polls.slept`, what it did before;
* `Polls.length_le`, `poll_ends` — how many reads there can be.
-/

variable {ε σ ρ : Type}

/-- A clock and a way to sleep, over the state of the world. -/
structure Timer (σ : Type) where
  now : σ → ℚ × σ
  sleep : ℚ → σ → σ

/-- A clock that runs: `reached s t` says that no reading from `s` on is before `t`. -/
structure Timer.Ticks (timer : Timer σ) (reached : σ → ℚ → Prop) : Prop where
  now_ge : ∀ {s t}, reached s t → t ≤ (timer.now s).1
  reached_now : ∀ s, reached (timer.now s).2 (timer.now s).1
  reached_sleep : ∀ {s t} d, reached s t → reached (timer.sleep d s) (t + d)

section

variable (timer : Timer σ) (read : Transaction ε σ ρ) (settled : ρ → Bool)
  (interval deadline : ℚ)

/-- Read until the answer is settled or the deadline has come, and no more than `fuel` times. -/
def poll : ℕ → Transaction ε σ (Option ρ)
  | 0 => pure none
  | fuel + 1 => do
    let r ← read
    let t ← modifyGet timer.now
    let remaining := deadline - t
    if settled r = true ∨ remaining ≤ 0 then
      return some r
    modify (timer.sleep (min interval remaining))
    poll fuel

/-- A read after which the loop slept: what was read, what the clock said then, and the sleep. -/
structure Visit (ρ : Type) where
  report : ρ
  time : ℚ
  slept : ℚ

/-- The runs of the loop: the reads it slept after, the last read, and the clock after that. -/
inductive Polls : σ → List (Visit ρ) → ρ → ℚ → σ → Prop
  | stop {s s₁ s₂ : σ} {r : ρ} {t : ℚ} (hread : Commits read s r s₁)
      (hnow : timer.now s₁ = (t, s₂)) (hstop : settled r = true ∨ deadline ≤ t) :
      Polls s [] r t s₂
  | again {s s₁ s₂ s' : σ} {r r' : ρ} {t t' : ℚ} {vs : List (Visit ρ)}
      (hread : Commits read s r s₁) (hnow : timer.now s₁ = (t, s₂))
      (hunsettled : settled r = false) (hearly : t < deadline)
      (hrest : Polls (timer.sleep (min interval (deadline - t)) s₂) vs r' t' s') :
      Polls s (⟨r, t, min interval (deadline - t)⟩ :: vs) r' t' s'

end

variable {timer : Timer σ} {read : Transaction ε σ ρ} {settled : ρ → Bool}
  {interval deadline : ℚ} {s s' : σ} {r : ρ} {t : ℚ} {vs : List (Visit ρ)}

/-- One turn of the loop. -/
theorem commits_poll_succ {fuel : ℕ} {o : Option ρ} :
    Commits (poll timer read settled interval deadline (fuel + 1)) s o s' ↔
      ∃ r s₁, Commits read s r s₁ ∧
        if settled r = true ∨ deadline ≤ (timer.now s₁).1 then
          o = some r ∧ s' = (timer.now s₁).2
        else Commits (poll timer read settled interval deadline fuel)
          (timer.sleep (min interval (deadline - (timer.now s₁).1)) (timer.now s₁).2) o s' := by
  rw [poll, commits_bind]
  refine exists_congr fun r => exists_congr fun s₁ => and_congr_right fun _ => ?_
  simp only [commits_bind, commits_modifyGet, commits_ite, commits_pure, commits_modify,
    exists_eq_left, exists_const, sub_nonpos]
  constructor
  · rintro ⟨t, s₂, hnow, ⟨hstop, rfl, rfl⟩ | ⟨hgo, hrest⟩⟩
    · rw [hnow, if_pos hstop]
      exact ⟨rfl, rfl⟩
    · rw [hnow, if_neg hgo]
      exact hrest
  · intro h
    refine ⟨(timer.now s₁).1, (timer.now s₁).2, rfl, ?_⟩
    split at h
    · rename_i hstop
      exact .inl ⟨hstop, h⟩
    · rename_i hgo
      exact .inr ⟨hgo, h⟩

/-- **The loop runs as `Polls` says**, if it gets that far. -/
theorem commits_poll {fuel : ℕ} :
    Commits (poll timer read settled interval deadline fuel) s (some r) s' ↔
      ∃ vs t, vs.length < fuel ∧ Polls timer read settled interval deadline s vs r t s' := by
  constructor
  · intro h
    induction fuel generalizing s with
    | zero =>
      obtain ⟨hnone, -⟩ := commits_pure.mp h
      cases hnone
    | succ fuel ih =>
      obtain ⟨r₀, s₁, hread, h⟩ := commits_poll_succ.mp h
      split at h
      · rename_i hstop
        obtain ⟨heq, rfl⟩ := h
        obtain rfl := Option.some.inj heq
        exact ⟨[], _, Nat.succ_pos fuel, .stop hread rfl hstop⟩
      · rename_i hgo
        obtain ⟨hunsettled, hearly⟩ := not_or.mp hgo
        obtain ⟨vs, t, hlength, hpolls⟩ := ih h
        refine ⟨_, t, ?_, .again hread rfl (Bool.eq_false_iff.mpr hunsettled)
          (lt_of_not_ge hearly) hpolls⟩
        exact Nat.succ_lt_succ hlength
  · rintro ⟨vs, t, hlength, hpolls⟩
    induction hpolls generalizing fuel with
    | stop hread hnow hstop =>
      obtain ⟨fuel, rfl⟩ := Nat.exists_eq_succ_of_ne_zero (Nat.ne_of_gt hlength)
      refine commits_poll_succ.mpr ⟨_, _, hread, ?_⟩
      rw [hnow, if_pos hstop]
      exact ⟨rfl, rfl⟩
    | @again s s₁ s₂ s' r r' t t' vs hread hnow hunsettled hearly _ ih =>
      obtain ⟨fuel, rfl⟩ := Nat.exists_eq_succ_of_ne_zero (Nat.ne_of_gt (Nat.zero_lt_of_lt hlength))
      have hgo : ¬ (settled r = true ∨ deadline ≤ t) := by
        rintro (h | h)
        · rw [hunsettled] at h
          cases h
        · exact absurd hearly (not_lt_of_ge h)
      refine commits_poll_succ.mpr ⟨r, s₁, hread, ?_⟩
      rw [hnow, if_neg hgo]
      exact ih (Nat.lt_of_succ_lt_succ hlength)

/-- Where no read raises, the loop does not. -/
theorem poll_total (hread : ∀ s, ∃ r s', Commits read s r s') (fuel : ℕ) (s : σ) :
    ∃ o s', Commits (poll timer read settled interval deadline fuel) s o s' := by
  induction fuel generalizing s with
  | zero => exact ⟨none, s, commits_pure.mpr ⟨rfl, rfl⟩⟩
  | succ fuel ih =>
    obtain ⟨r, s₁, hcommits⟩ := hread s
    by_cases hstop : settled r = true ∨ deadline ≤ (timer.now s₁).1
    · refine ⟨some r, (timer.now s₁).2, commits_poll_succ.mpr ⟨r, s₁, hcommits, ?_⟩⟩
      rw [if_pos hstop]
      exact ⟨rfl, rfl⟩
    · obtain ⟨o, s', hrest⟩ :=
        ih (timer.sleep (min interval (deadline - (timer.now s₁).1)) (timer.now s₁).2)
      refine ⟨o, s', commits_poll_succ.mpr ⟨r, s₁, hcommits, ?_⟩⟩
      rw [if_neg hstop]
      exact hrest

/-! ### When a run stops -/

/-- A run stops at a settled answer or at the deadline. -/
theorem Polls.last (h : Polls timer read settled interval deadline s vs r t s') :
    settled r = true ∨ deadline ≤ t := by
  induction h with
  | stop _ _ hstop => exact hstop
  | again _ _ _ _ _ ih => exact ih

/-- The answer is that of the last read, and what every read, look and sleep keeps still held when
    that began. -/
theorem Polls.last_read {I : σ → Prop}
    (h : Polls timer read settled interval deadline s vs r t s') (hread : Keeps I read)
    (hnow : ∀ s, I s → I (timer.now s).2) (hsleep : ∀ d s, I s → I (timer.sleep d s)) (hs : I s) :
    ∃ s₁ s₂, I s₁ ∧ Commits read s₁ r s₂ ∧ timer.now s₂ = (t, s') := by
  induction h with
  | stop hcommits hnow' => exact ⟨_, _, hs, hcommits, hnow'⟩
  | @again s s₁ s₂ s' r r' t t' vs hcommits hnow' _ _ _ ih =>
    refine ih (hsleep _ _ ?_)
    have hat := hnow s₁ (hread s r s₁ hcommits hs)
    rw [hnow'] at hat
    exact hat

/-- It goes on only after an answer that is not settled, and before the deadline. -/
theorem Polls.unsettled (h : Polls timer read settled interval deadline s vs r t s') :
    ∀ v ∈ vs, settled v.report = false ∧ v.time < deadline := by
  induction h with
  | stop => exact fun v hv => absurd hv List.not_mem_nil
  | again _ _ hunsettled hearly _ ih =>
    intro v hv
    rcases List.mem_cons.mp hv with rfl | hv
    · exact ⟨hunsettled, hearly⟩
    · exact ih v hv

/-- It sleeps for a while, and not past the deadline. -/
theorem Polls.slept (h : Polls timer read settled interval deadline s vs r t s')
    (hinterval : 0 < interval) : ∀ v ∈ vs, 0 < v.slept ∧ v.slept ≤ interval ∧
      v.time + v.slept ≤ deadline := by
  induction h with
  | stop => exact fun v hv => absurd hv List.not_mem_nil
  | @again _ _ _ _ _ _ t _ _ _ _ _ hearly _ ih =>
    intro v hv
    rcases List.mem_cons.mp hv with rfl | hv
    · refine ⟨lt_min hinterval (sub_pos.mpr hearly), min_le_left .., ?_⟩
      have hle := min_le_right interval (deadline - t)
      show t + min interval (deadline - t) ≤ deadline
      linarith
    · exact ih v hv

/-! ### How long a run can be -/

section Ticks

variable {reached : σ → ℚ → Prop} {t₀ : ℚ}

/-- What a sleep leaves of the time to the deadline. -/
theorem remaining_le {n : ℕ} (hle : t₀ ≤ t)
    (hn : deadline - t₀ ≤ (n + 1 : ℕ) * interval) (hinterval : 0 < interval) :
    deadline - (t + min interval (deadline - t)) ≤ n * interval := by
  push_cast at hn
  rcases le_total interval (deadline - t) with h | h
  · rw [min_eq_left h]
    linarith
  · rw [min_eq_right h]
    have hnonneg : 0 ≤ (n : ℚ) * interval := mul_nonneg n.cast_nonneg hinterval.le
    linarith

/-- Between two reads the clock moves on by an interval, or to the deadline. -/
theorem Polls.length_le (h : Polls timer read settled interval deadline s vs r t s')
    (hticks : timer.Ticks reached) (hread : ∀ t, Keeps (fun s => reached s t) read)
    (hinterval : 0 < interval) (hreached : reached s t₀) {n : ℕ}
    (hn : deadline - t₀ ≤ n * interval) : vs.length ≤ n := by
  induction h generalizing t₀ n with
  | stop => exact Nat.zero_le n
  | @again s s₁ s₂ s' r r' t t' vs hcommits hnow hunsettled hearly _ ih =>
    have hnow' : reached s₁ t₀ := hread t₀ s r s₁ hcommits hreached
    have hle : t₀ ≤ t := by
      have hge := hticks.now_ge hnow'
      rw [hnow] at hge
      exact hge
    have hat : reached s₂ t := by
      have hr := hticks.reached_now s₁
      rw [hnow] at hr
      exact hr
    cases n with
    | zero =>
      rw [Nat.cast_zero, zero_mul] at hn
      linarith
    | succ n =>
      exact Nat.succ_le_succ
        (ih (hticks.reached_sleep _ hat) (remaining_le hle hn hinterval))

/-- **The loop ends** within one read for each interval to the deadline, and one more. -/
theorem poll_ends (hticks : timer.Ticks reached) (hread : ∀ t, Keeps (fun s => reached s t) read)
    (hinterval : 0 < interval) (hreached : reached s t₀) {n : ℕ}
    (hn : deadline - t₀ ≤ n * interval) :
    ¬ Commits (poll timer read settled interval deadline (n + 1)) s none s' := by
  induction n generalizing s t₀ with
  | zero =>
    intro h
    obtain ⟨r, s₁, hcommits, h⟩ := commits_poll_succ.mp h
    have hge := hticks.now_ge (hread t₀ s r s₁ hcommits hreached)
    rw [Nat.cast_zero, zero_mul] at hn
    have hlate : deadline ≤ (timer.now s₁).1 := by linarith
    rw [if_pos (.inr hlate)] at h
    cases h.1
  | succ n ih =>
    intro h
    obtain ⟨r, s₁, hcommits, h⟩ := commits_poll_succ.mp h
    have hge := hticks.now_ge (hread t₀ s r s₁ hcommits hreached)
    split at h
    · cases h.1
    · exact ih (hticks.reached_sleep _ (hticks.reached_now s₁)) (remaining_le hge hn hinterval) h

end Ticks

end Polling
