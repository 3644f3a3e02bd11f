import AgentHub.MergeGate.FailClosed
import Mathlib.Algebra.Order.Floor.Semiring

namespace AgentHub

open Relational Polling

/-!
# Bounded polling

The gate as an instance of the polling loop, over a clock that runs.

* `World.Ticks` — readings do not go back, and a sleep lasts as long as was asked for;
  `ticks_timer`, that the gate's timer then ticks;
* `History.sleeps` — the sleeps asked for; `sleeps_polls`, that they are those of the loop;
* `merge_gate_polling` — how many readings there are, which one is returned, and every sleep
  between them.
-/

/-- A clock that does not go back, and moves on with every sleep. -/
def World.Ticks (w : World) : Prop :=
  ∀ rest old : History, w.time old + rest.slept ≤ w.time (rest ++ .clock (w.time old) :: old)

/-- By now the clock of the world has reached `t`. -/
def World.Reached (w : World) (h : History) (t : ℚ) : Prop :=
  ∃ rest old : History, h = rest ++ .clock (w.time old) :: old ∧ t ≤ w.time old + rest.slept

/-- The sleeps asked for, the latest first. -/
def History.sleeps : History → List ℚ
  | [] => []
  | .sleep duration :: h => duration :: History.sleeps h
  | _ :: h => History.sleeps h

section

variable {w : World} {ref : PullRequestRef} {expected : String} {h h' : History}

/-- The calls of a reading take no sleep. -/
theorem slept_effects (a : Answers) (baseRef head : String) (h : History) :
    History.slept (a.effects ref baseRef head ++ h) = History.slept h := by
  unfold Answers.effects
  cases a.workflows with
  | none => rfl
  | some result => rfl

/-- A reading asks for no sleep. -/
theorem sleeps_snapshot {r : GateReport} (hc : Commits (MergeGate.snapshot w ref expected) h r h') :
    History.sleeps h' = History.sleeps h := by
  obtain ⟨a, -, rfl, -⟩ := snapshot_cases hc
  unfold Answers.effects
  cases a.workflows with
  | none => rfl
  | some result => rfl

/-- The gate's timer ticks as the world does. -/
theorem ticks_timer (hw : w.Ticks) : w.timer.Ticks w.Reached where
  now_ge := by
    rintro h t ⟨rest, old, rfl, hle⟩
    exact hle.trans (hw rest old)
  reached_now h := ⟨[], h, rfl, by simp [World.timer, History.slept]⟩
  reached_sleep := by
    rintro h t d ⟨rest, old, rfl, hle⟩
    refine ⟨.sleep d :: rest, old, rfl, ?_⟩
    show t + d ≤ w.time old + (d + rest.slept)
    linarith

/-- A snapshot keeps the world within reach. -/
theorem reached_snapshot (t : ℚ) :
    Keeps (fun h => w.Reached h t) (MergeGate.snapshot w ref expected) := by
  rintro h r h' hc ⟨rest, old, rfl, hle⟩
  obtain ⟨a, -, rfl, -⟩ := snapshot_cases hc
  refine ⟨a.effects ref r.baseRef r.currentHeadSha ++ rest, old, (List.append_assoc ..).symm, ?_⟩
  rw [slept_effects]
  exact hle

/-- The gate sleeps when the loop does, and never else. -/
theorem sleeps_polls {interval deadline t : ℚ} {vs : List (Visit GateReport)} {report : GateReport}
    (hpolls : Polls w.timer (MergeGate.snapshot w ref expected) GateReport.settled interval deadline
      h vs report t h') :
    History.sleeps h' = (vs.map Visit.slept).reverse ++ History.sleeps h := by
  induction hpolls with
  | stop hread hnow =>
    have hsame := sleeps_snapshot hread
    obtain ⟨-, rfl⟩ := Prod.mk.inj hnow
    exact hsame
  | again hread hnow _ _ _ ih =>
    obtain ⟨-, rfl⟩ := Prod.mk.inj hnow
    rw [ih, List.map_cons, List.reverse_cons, List.append_assoc, ← sleeps_snapshot hread]
    rfl

end

/-- **Polling is bounded and exact.**  Over a clock that runs, the gate takes at most one reading
    for each interval in its time-out, and one more.  It returns the first settled reading, or else
    the first after which the deadline has come; it sleeps only after an unsettled one before the
    deadline, for an interval or for what is left; and no other sleep is asked for. -/
theorem merge_gate_polling (w : World) (hw : w.Ticks) (gate : MergeGate)
    (hinterval : 0 < gate.pollIntervalS) (prUrl expectedHeadSha : String) (h₀ : History) :
    let bound := ⌈gate.pollTimeoutS / gate.pollIntervalS⌉₊ + 1
    let deadline := w.time h₀ + gate.pollTimeoutS
    (∀ h, ¬ Commits (gate.check w prUrl expectedHeadSha bound) h₀ none h) ∧
    (∀ ref, isSha40 expectedHeadSha = true → PullRequestRef.parse w.py prUrl = .ok ref →
      (∀ h, ∃ r h', Commits (MergeGate.snapshot w ref (w.py.lower expectedHeadSha)) h r h') →
      ∃ r h, Commits (gate.check w prUrl expectedHeadSha bound) h₀ (some r) h) ∧
    ∀ fuel r h, Commits (gate.check w prUrl expectedHeadSha fuel) h₀ (some r) h →
      ∃ ref report vs t h₁,
        Polls w.timer (MergeGate.snapshot w ref (w.py.lower expectedHeadSha)) GateReport.settled
          gate.pollIntervalS deadline (.clock (w.time h₀) :: h₀) vs report t h₁ ∧
        r = { report with elapsedS := r.elapsedS } ∧ h = .clock (w.time h₁) :: h₁ ∧
        vs.length + 1 ≤ bound ∧ (report.settled = true ∨ deadline ≤ t) ∧
        (∀ v ∈ vs, v.report.settled = false ∧ v.time < deadline ∧ 0 < v.slept ∧
          v.slept ≤ gate.pollIntervalS ∧ v.time + v.slept ≤ deadline) ∧
        History.sleeps h = (vs.map Visit.slept).reverse ++ History.sleeps h₀ := by
  intro bound deadline
  have hstart : w.Reached (.clock (w.time h₀) :: h₀) (w.time h₀) :=
    (ticks_timer hw).reached_now h₀
  have hn : deadline - w.time h₀ ≤
      (⌈gate.pollTimeoutS / gate.pollIntervalS⌉₊ : ℚ) * gate.pollIntervalS := by
    have hceil := Nat.le_ceil (gate.pollTimeoutS / gate.pollIntervalS)
    rw [div_le_iff₀ hinterval] at hceil
    have hleft : deadline - w.time h₀ = gate.pollTimeoutS := add_sub_cancel_left ..
    rw [hleft]
    exact hceil
  have hends (ref : PullRequestRef) (s' : History) :
      ¬ Commits (poll w.timer (MergeGate.snapshot w ref (w.py.lower expectedHeadSha))
        GateReport.settled gate.pollIntervalS deadline bound) (.clock (w.time h₀) :: h₀) none s' :=
    poll_ends (ticks_timer hw) (fun t => reached_snapshot t) hinterval hstart hn
  refine ⟨fun h hc => ?_, fun ref hsha href hraise => ?_, fun fuel r h hc => ?_⟩
  · obtain ⟨ref, h₁, hpoll⟩ := check_none hc
    exact hends ref h₁ hpoll
  · obtain ⟨o, h₁, hpoll⟩ : ∃ o h₁, Commits
        (poll w.timer (MergeGate.snapshot w ref (w.py.lower expectedHeadSha)) GateReport.settled
          gate.pollIntervalS deadline bound) (.clock (w.time h₀) :: h₀) o h₁ :=
      poll_total hraise bound _
    cases o with
    | none => exact absurd hpoll (hends ref h₁)
    | some report =>
      exact ⟨_, _, commits_check.mpr ⟨hsha, ref, report, h₁, href, hpoll, rfl, rfl⟩⟩
  · obtain ⟨-, ref, report, h₁, -, hpoll, rfl, rfl⟩ := commits_check.mp hc
    obtain ⟨vs, t, -, hpolls⟩ := commits_poll.mp hpoll
    refine ⟨ref, report, vs, t, h₁, hpolls, rfl, rfl, ?_, hpolls.last, fun v hv => ?_, ?_⟩
    · exact Nat.succ_le_succ
        (hpolls.length_le (ticks_timer hw) (fun t => reached_snapshot t) hinterval hstart hn)
    · obtain ⟨hunsettled, hearly⟩ := hpolls.unsettled v hv
      exact ⟨hunsettled, hearly, hpolls.slept hinterval v hv⟩
    · have hsleeps := sleeps_polls hpolls
      exact hsleeps

/-- The clock of the example shows how long was slept. -/
theorem Octo.ticks (view checks : History → String) : (Octo.world view checks).Ticks := by
  intro rest old
  show History.slept old + rest.slept ≤ History.slept (rest ++ .clock (History.slept old) :: old)
  induction rest with
  | nil => simp [History.slept]
  | cons effect rest ih =>
    cases effect with
    | call => exact ih
    | clock => exact ih
    | sleep duration =>
      show History.slept old + (duration + History.slept rest) ≤
        duration + History.slept (rest ++ .clock (History.slept old) :: old)
      linarith

/-- The checks are pending until the gate has slept. -/
def Octo.waiting : World :=
  world (fun _ => viewText) fun h => if h.slept = 0 then pendingText else passedText

/-- The gate reads the pending checks, sleeps, and reads that they have passed: seven readings are
    enough for it as it is configured. -/
theorem octo_bounded :
    ∃ r h, Commits (({} : MergeGate).check Octo.waiting Octo.prUrl Octo.head 7) [] (some r) h ∧
      r.ci = .pass ∧ History.sleeps h = [10] ∧
      ∃ v : Visit GateReport, v.report.settled = false ∧ v.slept = 10 ∧ v.time + v.slept ≤ 60 := by
  have hrun : ((({} : MergeGate).check Octo.waiting Octo.prUrl Octo.head 7).run []).toOption.map
      (fun p => (p.1.map GateReport.ci, History.sleeps p.2)) = some (some .pass, [10]) := by
    decide +kernel
  cases hresult : (({} : MergeGate).check Octo.waiting Octo.prUrl Octo.head 7).run [] with
  | error e =>
    rw [hresult] at hrun
    cases hrun
  | ok result =>
    obtain ⟨o, h⟩ := result
    rw [hresult] at hrun
    obtain ⟨ho, hsleeps⟩ := Prod.mk.inj (Option.some.inj hrun)
    obtain ⟨r, rfl, hci⟩ := Option.map_eq_some_iff.mp ho
    refine ⟨r, h, hresult, hci, hsleeps, ?_⟩
    obtain ⟨-, report, vs, t, h₁, -, -, -, -, -, hvisits, hslept⟩ :=
      (merge_gate_polling Octo.waiting (Octo.ticks _ _) {} (by norm_num) Octo.prUrl Octo.head
        []).2.2 7 r h hresult
    -- the one sleep was after the one reading that had not settled
    have hten : 10 ∈ (vs.map Visit.slept).reverse := by
      have hlist : (vs.map Visit.slept).reverse ++ [] = [10] := hslept.symm.trans hsleeps
      rw [List.append_nil] at hlist
      rw [hlist]
      exact List.mem_singleton_self _
    obtain ⟨v, hv, hvten⟩ := List.mem_map.mp (List.mem_reverse.mp hten)
    obtain ⟨hunsettled, -, -, -, hdeadline⟩ := hvisits v hv
    exact ⟨v, hunsettled, hvten, hdeadline.trans (by norm_num [Octo.waiting, Octo.world,
      History.slept])⟩

end AgentHub
