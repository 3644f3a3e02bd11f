import AgentHub.Relational.Transition
import Mathlib.Logic.Function.Basic

namespace Relational

/-!
# Waiting under a key

Waiters poll a shared state and sleep in between; whoever changes the state notifies keys
afterwards.  A waiter clears its flag before it polls, so that a notification that comes between
the poll and the sleep is still there when it falls asleep.

* `Board` — the shared state: its operations with the keys they notify, and the polls;
* `Waiting`, `Board.step` — the waiters over it.  An operation and its notifications are steps of
  their own, and so are a notification and the moment its flag is set, so other threads are
  covered as well;
* `Lawful` — what a board owes its waiters: an operation leaves every wait `Safe`, or notifies it;
* `Lawful.sound_run` — a waiter that sleeps unalerted is safe, in every interleaving.
-/

universe u

/-- A shared state with operations `ℓ` and waits `ω`. -/
structure Board (σ κ ω ℓ π ν : Type u) where
  /-- The key a wait is notified under. -/
  key : ω → κ
  /-- Whether the wait can begin. -/
  opens : ω → σ → Bool
  /-- One poll: whether it ends the wait, and what it leaves. -/
  poll : ω → π → σ → Bool × σ
  /-- What a waiter reads before it sleeps, unless its time is up. -/
  rest : ω → π → σ → Option ν
  /-- One operation. -/
  exec : ℓ → σ → σ
  /-- The keys an operation notifies, once it is done. -/
  notifies : ℓ → σ → List κ

/-- Where a waiter is in its loop; `seen` is the state it fell asleep on. -/
inductive Phase (σ ν : Type u) where
  | looping
  | cleared
  | polled
  | asleep (nap : ν) (seen : σ)
  | done

/-- A waiter, its flag, and whether setting the flag is under way. -/
structure Waiter (σ ω ν : Type u) where
  wait : ω
  phase : Phase σ ν
  flag : Bool
  scheduled : Bool

/-- The shared state, its waiters, and the notifications of operations that are done with the
    state and not yet with their notifications. -/
structure Waiting (σ κ ω ν : Type u) where
  shared : σ
  waiter : ℕ → Option (Waiter σ ω ν)
  inFlight : List κ

/-- The steps. -/
inductive Turn (κ ω ℓ π : Type u) where
  | op (l : ℓ)
  | notify (k : κ)
  | set (i : ℕ)
  | subscribe (i : ℕ) (wait : ω)
  | clear (i : ℕ)
  | poll (i : ℕ) (p : π)
  | rest (i : ℕ) (p : π)
  | wake (i : ℕ)
  | elapse (i : ℕ)
  | drop (i : ℕ)

variable {σ κ ω ℓ π ν : Type u}

/-! ### The waiters -/

namespace Waiter

/-- The flag is set, if that was under way. -/
def set (w : Waiter σ ω ν) : Waiter σ ω ν :=
  if w.scheduled then { w with flag := true, scheduled := false } else w

/-- The flag is cleared, at the top of the loop. -/
def clear (w : Waiter σ ω ν) : Waiter σ ω ν :=
  match w.phase with
  | .looping => { w with phase := .cleared, flag := false }
  | _ => w

/-- The poll is over. -/
def polled (w : Waiter σ ω ν) (found : Bool) : Waiter σ ω ν :=
  { w with phase := if found then .done else .polled }

/-- The waiter falls asleep on `s`, or its time is up. -/
def rest (B : Board σ κ ω ℓ π ν) (p : π) (s : σ) (w : Waiter σ ω ν) : Waiter σ ω ν :=
  match w.phase with
  | .polled =>
    match B.rest w.wait p s with
    | some nap => { w with phase := .asleep nap s }
    | none => { w with phase := .done }
  | _ => w

/-- The waiter wakes up, to its flag. -/
def wake (w : Waiter σ ω ν) : Waiter σ ω ν :=
  match w.phase with
  | .asleep _ _ => if w.flag then { w with phase := .looping } else w
  | _ => w

/-- The waiter wakes up, for its nap is over. -/
def elapse (w : Waiter σ ω ν) : Waiter σ ω ν :=
  match w.phase with
  | .asleep _ _ => { w with phase := .looping }
  | _ => w

/-- The waiter gives up. -/
def drop (w : Waiter σ ω ν) : Waiter σ ω ν := { w with phase := .done }

/-- A notification under `k` reaches the waiter. -/
def notified [DecidableEq κ] (B : Board σ κ ω ℓ π ν) (k : κ) (w : Waiter σ ω ν) : Waiter σ ω ν :=
  match w.phase with
  | .done => w
  | _ => if B.key w.wait = k then { w with scheduled := true } else w

end Waiter

/-- The waiter `i` does something of its own. -/
def Waiting.act (s : Waiting σ κ ω ν) (i : ℕ) (f : Waiter σ ω ν → Waiter σ ω ν) :
    Waiting σ κ ω ν :=
  { s with waiter := Function.update s.waiter i ((s.waiter i).map f) }

/-- The waiter `i` polls, if it is there and about to. -/
def Board.pollAt (B : Board σ κ ω ℓ π ν) (i : ℕ) (p : π) (s : Waiting σ κ ω ν) :
    Waiting σ κ ω ν :=
  match s.waiter i with
  | some ⟨wait, .cleared, _, _⟩ =>
    { s.act i fun w => w.polled (B.poll wait p s.shared).1 with
      shared := (B.poll wait p s.shared).2 }
  | _ => s

/-- One step. -/
def Board.step [DecidableEq κ] (B : Board σ κ ω ℓ π ν) (t : Turn κ ω ℓ π)
    (s : Waiting σ κ ω ν) : Waiting σ κ ω ν :=
  match t with
  | .op l =>
    { s with shared := B.exec l s.shared, inFlight := s.inFlight ++ B.notifies l s.shared }
  | .notify k =>
    if k ∈ s.inFlight then
      { s with
        inFlight := s.inFlight.erase k
        waiter := fun i => (s.waiter i).map (Waiter.notified B k) }
    else s
  | .set i => s.act i Waiter.set
  | .subscribe i wait =>
    if (s.waiter i).isNone ∧ B.opens wait s.shared = true then
      { s with waiter := Function.update s.waiter i (some ⟨wait, .looping, false, false⟩) }
    else s
  | .clear i => s.act i Waiter.clear
  | .poll i p => B.pollAt i p s
  | .rest i p => s.act i (Waiter.rest B p s.shared)
  | .wake i => s.act i Waiter.wake
  | .elapse i => s.act i Waiter.elapse
  | .drop i => s.act i Waiter.drop

/-- Nobody waits. -/
def Waiting.start (s : σ) : Waiting σ κ ω ν := ⟨s, fun _ => none, []⟩

/-! ### What keeps a sleeper safe -/

/-- What a board owes its waiters.  `Safe w seen s`: a waiter that fell asleep on `seen` has not
    missed anything in `s`. -/
structure Lawful (B : Board σ κ ω ℓ π ν) (I : σ → Prop) (Safe : ω → σ → σ → Prop) : Prop where
  exec : ∀ {l s}, I s → I (B.exec l s)
  poll : ∀ {w p s}, I s → I (B.poll w p s).2
  opens_exec : ∀ {w l s}, I s → B.opens w s = true → B.opens w (B.exec l s) = true
  opens_poll : ∀ {w w' p s}, I s → B.opens w s = true → B.opens w (B.poll w' p s).2 = true
  /-- A poll that finds nothing leaves the waiter safe. -/
  safe_found : ∀ {w p s}, I s → B.opens w s = true → (B.poll w p s).1 = false →
    Safe w (B.poll w p s).2 (B.poll w p s).2
  safe_now : ∀ {w seen s}, I s → Safe w seen s → Safe w s s
  /-- An operation leaves a waiter safe, or notifies it. -/
  safe_exec : ∀ {w l seen s}, I s → B.opens w s = true → Safe w seen s →
    Safe w seen (B.exec l s) ∨ B.key w ∈ B.notifies l s
  safe_poll : ∀ {w w' p seen s}, I s → B.opens w s = true → Safe w seen s →
    Safe w seen (B.poll w' p s).2

/-- The waiter is told already, or is going to be. -/
def Waiting.Alerted (B : Board σ κ ω ℓ π ν) (inFlight : List κ) (w : Waiter σ ω ν) : Prop :=
  w.flag = true ∨ w.scheduled = true ∨ B.key w.wait ∈ inFlight

/-- A waiter that has polled, or sleeps, is safe or alerted. -/
def Phase.Fine (B : Board σ κ ω ℓ π ν) (Safe : ω → σ → σ → Prop) (wait : ω) (s : σ)
    (alerted : Prop) : Phase σ ν → Prop
  | .polled => Safe wait s s ∨ alerted
  | .asleep nap seen => (∃ p, B.rest wait p seen = some nap) ∧ (Safe wait seen s ∨ alerted)
  | .looping | .cleared | .done => True

/-- The wait was opened, and its waiter is where it should be. -/
structure Waiter.Sound (B : Board σ κ ω ℓ π ν) (Safe : ω → σ → σ → Prop) (s : σ)
    (inFlight : List κ) (w : Waiter σ ω ν) : Prop where
  opens : B.opens w.wait s = true
  fine : w.phase.Fine B Safe w.wait s (Waiting.Alerted B inFlight w)

/-- Every waiter is sound. -/
structure Waiting.Sound (B : Board σ κ ω ℓ π ν) (I : σ → Prop) (Safe : ω → σ → σ → Prop)
    (s : Waiting σ κ ω ν) : Prop where
  inv : I s.shared
  waiters : ∀ {i w}, s.waiter i = some w → w.Sound B Safe s.shared s.inFlight

section

variable {B : Board σ κ ω ℓ π ν} {I : σ → Prop} {Safe : ω → σ → σ → Prop} {s s' : σ}
  {ks ks' : List κ} {w : Waiter σ ω ν}

/-- The shared state moves on; whoever is not safe any more has been alerted. -/
theorem Phase.Fine.move {wait : ω} {alerted alerted' : Prop} {phase : Phase σ ν}
    (h : phase.Fine B Safe wait s alerted) (halert : alerted → alerted')
    (hsafe : ∀ {seen}, Safe wait seen s → Safe wait seen s' ∨ alerted')
    (hnow : ∀ {seen}, Safe wait seen s' → Safe wait s' s') :
    phase.Fine B Safe wait s' alerted' := by
  cases phase with
  | polled =>
    rcases h with h | h
    · exact (hsafe h).imp_left hnow
    · exact .inr (halert h)
  | asleep nap seen =>
    obtain ⟨hrest, h⟩ := h
    refine ⟨hrest, ?_⟩
    rcases h with h | h
    · exact hsafe h
    · exact .inr (halert h)
  | looping => trivial
  | cleared => trivial
  | done => trivial

/-- Only the alert changes. -/
theorem Phase.Fine.imp {wait : ω} {alerted alerted' : Prop} {phase : Phase σ ν}
    (h : phase.Fine B Safe wait s alerted) (halert : alerted → alerted') :
    phase.Fine B Safe wait s alerted' := by
  cases phase with
  | polled => exact Or.imp_right halert h
  | asleep nap seen => exact ⟨h.1, h.2.imp_right halert⟩
  | looping => trivial
  | cleared => trivial
  | done => trivial

/-! ### Each step of a waiter -/

/-- Setting the flag makes no waiter unsound. -/
theorem Waiter.Sound.set (h : w.Sound B Safe s ks) : w.set.Sound B Safe s ks := by
  unfold Waiter.set
  split
  · exact ⟨h.opens, h.fine.imp fun _ => .inl rfl⟩
  · exact h

/-- A flag is cleared before the state is read, so that no write falls between. -/
theorem Waiter.Sound.clear (h : w.Sound B Safe s ks) : w.clear.Sound B Safe s ks := by
  unfold Waiter.clear
  split
  · exact ⟨h.opens, trivial⟩
  · exact h

/-- A waiter that found nothing rests on what it has seen. -/
theorem Waiter.Sound.rest (h : w.Sound B Safe s ks) (p : π) :
    (w.rest B p s).Sound B Safe s ks := by
  unfold Waiter.rest
  split
  · rename_i hphase
    have hfine : Safe w.wait s s ∨ Waiting.Alerted B ks w := by
      have h' := h.fine
      rw [hphase] at h'
      exact h'
    split
    · rename_i nap hnap
      exact ⟨h.opens, ⟨p, hnap⟩, hfine⟩
    · exact ⟨h.opens, trivial⟩
  · exact h

/-- A waiter that is woken has nothing to show. -/
theorem Waiter.Sound.wake (h : w.Sound B Safe s ks) : w.wake.Sound B Safe s ks := by
  unfold Waiter.wake
  split
  · split
    · exact ⟨h.opens, trivial⟩
    · exact h
  · exact h

/-- A deadline that has come asks nothing of a waiter. -/
theorem Waiter.Sound.elapse (h : w.Sound B Safe s ks) : w.elapse.Sound B Safe s ks := by
  unfold Waiter.elapse
  split
  · exact ⟨h.opens, trivial⟩
  · exact h

/-- A waiter that is gone asks nothing. -/
theorem Waiter.Sound.drop (h : w.Sound B Safe s ks) : w.drop.Sound B Safe s ks :=
  ⟨h.opens, trivial⟩

/-- A notification that is through with its waiters has alerted them. -/
theorem Waiter.Sound.notified [DecidableEq κ] (h : w.Sound B Safe s ks) (k : κ) :
    (w.notified B k).Sound B Safe s (ks.erase k) := by
  have hother (hk : B.key w.wait ≠ k) : Waiting.Alerted B ks w → Waiting.Alerted B (ks.erase k) w :=
    Or.imp_right (Or.imp_right (List.mem_erase_of_ne hk).mpr)
  unfold Waiter.notified
  split
  · rename_i hphase
    exact ⟨h.opens, by rw [hphase]; trivial⟩
  · split
    · exact ⟨h.opens, h.fine.imp fun _ => .inr (.inl rfl)⟩
    · rename_i hk
      exact ⟨h.opens, h.fine.imp (hother hk)⟩

variable {t : Waiting σ κ ω ν}

/-- An act of one waiter leaves the others as they are. -/
theorem Waiting.Sound.act (h : t.Sound B I Safe) (i : ℕ) {f : Waiter σ ω ν → Waiter σ ω ν}
    (hf : ∀ w, t.waiter i = some w → (f w).Sound B Safe t.shared t.inFlight) :
    (t.act i f).Sound B I Safe where
  inv := h.inv
  waiters := by
    intro j w hw
    by_cases hj : j = i
    · subst hj
      obtain ⟨w₀, hw₀, rfl⟩ := Option.map_eq_some_iff.mp
        ((Function.update_self j _ t.waiter).symm.trans hw)
      exact hf w₀ hw₀
    · exact h.waiters ((Function.update_of_ne hj _ t.waiter).symm.trans hw)

/-- The state moves on under all waiters at once. -/
theorem Lawful.move (hB : Lawful B I Safe) (h : t.Sound B I Safe) {s' : σ} {ks : List κ}
    (hinv : I s') (hopens : ∀ {w}, B.opens w t.shared = true → B.opens w s' = true)
    (hsafe : ∀ {w seen}, B.opens w t.shared = true → Safe w seen t.shared →
      Safe w seen s' ∨ B.key w ∈ ks) :
    ({ t with shared := s', inFlight := t.inFlight ++ ks } : Waiting σ κ ω ν).Sound B I Safe where
  inv := hinv
  waiters := by
    intro i w hw
    have hsound : w.Sound B Safe t.shared t.inFlight := h.waiters hw
    refine ⟨hopens hsound.opens,
      hsound.fine.move (fun halert => ?_) (fun hs => ?_) (hB.safe_now hinv)⟩
    · exact halert.imp_right (Or.imp_right (List.mem_append_left _))
    · exact (hsafe hsound.opens hs).imp_right fun hk => .inr (.inr (List.mem_append_right _ hk))

/-- A poll that writes keeps the waiters sound, as any write does. -/
theorem Lawful.sound_poll (hB : Lawful B I Safe) (h : t.Sound B I Safe) (i : ℕ) (p : π) :
    (B.pollAt i p t).Sound B I Safe := by
  unfold Board.pollAt
  split
  · rename_i wait flag scheduled hw
    -- the state after the poll, for everybody; then the waiter itself
    have hmoved : ({ t with
        shared := (B.poll wait p t.shared).2
        inFlight := t.inFlight ++ [] } : Waiting σ κ ω ν).Sound B I Safe :=
      hB.move h (hB.poll h.inv) (hB.opens_poll h.inv) fun hopens hsafe =>
        .inl (hB.safe_poll h.inv hopens hsafe)
    rw [List.append_nil] at hmoved
    refine hmoved.act i fun w hw' => ?_
    obtain rfl := Option.some.inj (hw.symm.trans hw')
    have hopens : B.opens wait t.shared = true := (h.waiters hw).opens
    refine ⟨hB.opens_poll h.inv hopens, ?_⟩
    cases hfound : (B.poll wait p t.shared).1 with
    | true => trivial
    | false => exact .inl (hB.safe_found h.inv hopens hfound)
  · exact h

/-- Every turn keeps the waiters sound. -/
theorem Lawful.sound_step [DecidableEq κ] (hB : Lawful B I Safe) (u : Turn κ ω ℓ π)
    (h : t.Sound B I Safe) : (B.step u t).Sound B I Safe := by
  cases u with
  | op l => exact hB.move h (hB.exec h.inv) (hB.opens_exec h.inv) (hB.safe_exec h.inv)
  | notify k =>
    unfold Board.step
    dsimp only
    split
    · refine ⟨h.inv, fun {i w} hw => ?_⟩
      obtain ⟨w₀, hw₀, rfl⟩ := Option.map_eq_some_iff.mp hw
      exact (h.waiters hw₀).notified k
    · exact h
  | set i => exact h.act i fun w hw => (h.waiters hw).set
  | subscribe i wait =>
    unfold Board.step
    dsimp only
    split
    · rename_i hopens
      refine ⟨h.inv, fun {j w} hw => ?_⟩
      by_cases hj : j = i
      · subst hj
        obtain rfl := Option.some.inj ((Function.update_self j _ t.waiter).symm.trans hw)
        exact ⟨hopens.2, trivial⟩
      · exact h.waiters ((Function.update_of_ne hj _ t.waiter).symm.trans hw)
    · exact h
  | clear i => exact h.act i fun w hw => (h.waiters hw).clear
  | poll i p => exact hB.sound_poll h i p
  | rest i p => exact h.act i fun w hw => (h.waiters hw).rest p
  | wake i => exact h.act i fun w hw => (h.waiters hw).wake
  | elapse i => exact h.act i fun w hw => (h.waiters hw).elapse
  | drop i => exact h.act i fun w hw => (h.waiters hw).drop

/-- **No sleeper is forgotten.**  In every interleaving, a waiter that sleeps is safe, or it is
    alerted. -/
theorem Lawful.sound_run [DecidableEq κ] (hB : Lawful B I Safe) {s : σ} (hs : I s)
    (ts : List (Turn κ ω ℓ π)) : (runFrom B.step (Waiting.start s) ts).Sound B I Safe :=
  run_invariant (I := fun t : Waiting σ κ ω ν => t.Sound B I Safe)
    (fun u _ ht => hB.sound_step u ht) ⟨hs, fun {_ w} hw => (Option.some_ne_none w hw.symm).elim⟩ ts

end

end Relational
