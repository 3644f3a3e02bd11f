import AgentHub.Hub.Sweeping

namespace AgentHub

open Relational

/-!
# A release is for good

Four operations write the status of an agent besides `release_agent`, and each leaves a released
one alone.  What follows for the rest of the run needs one fact about one move each.

* `assigned_move` — a new task goes to an idle agent;
* `Db.Retired` — the agent is released, and no task was made for it since; `retired_run`, that
  this stays so;
* `Db.Retired.claim`, `Db.Retired.sweep` — what a poll and a sweep make of a released agent;
* `release_permanent` — all of it, from any commit of `release_agent` on.
-/

/-- The agent `name` is released, and no task was made for it since `d₀`. -/
structure Db.Retired (d₀ d : Db) (name : String) : Prop where
  released : ∃ a, d.agents.find? name = some a ∧ a.status = .released
  noTask : ∀ id t, d.tasks.find? id = some t → t.assignee = some name → d₀.tasks.find? id ≠ none

section

variable {d₀ : Db} {s s' : Hub} {name : String}

/-- A task appears only by being assigned to an idle agent. -/
theorem assigned_move {k : Kind} (h : Move k s s') {id : String} {t : TaskRecord}
    (hnone : s.db.tasks.find? id = none) (ht : s'.db.tasks.find? id = some t) :
    ∃ a, s.db.agents.find? a.name = some a ∧ a.status = .idle ∧ t.assignee = some a.name := by
  by_cases hk : k = .assign
  · subst hk
    cases h with
    | @assign d _ agent request newId source parts expires ts ts' _ _ hagent hidle howner hfree =>
      refine ⟨agent, hagent, hidle, ?_⟩
      have hfind := Table.find?_insertOrIgnore (t := d.tasks)
        (a := request.task newId source expires ts) hfree id
      have ht' : (d.tasks.insertOrIgnore (request.task newId source expires ts)).find? id =
        some t :=
        ht
      rw [hfind] at ht'
      split at ht'
      · obtain rfl := Option.some.inj ht'
        exact howner
      · rw [hnone] at ht'
        cases ht'
  · obtain hsame | ⟨hassign, -⟩ | ⟨old, new, hold, hwrites, hrewrites⟩ := tasks_move h
    · rw [hsame, hnone] at ht
      cases ht
    · exact absurd hassign hk
    · rw [hrewrites] at ht
      split at ht
      · rename_i hid
        rw [hid, hwrites.id, hold] at hnone
        cases hnone
      · rw [hnone] at ht
        cases ht

/-- One move leaves a released agent so, and makes no task for it. -/
theorem retired_move {k : Kind} (h : Move k s s') (hs : d₀.Retired s.db name) :
    d₀.Retired s'.db name := by
  obtain ⟨a, ha, hreleased⟩ := hs.released
  constructor
  · obtain ⟨b, hb, hbecomes⟩ := (evolves_move h).agents.find? ha
    exact ⟨b, hb, hbecomes.released hreleased⟩
  · intro id t' ht' howner
    cases ht : s.db.tasks.find? id with
    | none =>
      obtain ⟨idle, hagent, hidle, hassignee⟩ := assigned_move h ht ht'
      have hname : idle.name = name := Option.some.inj (hassignee.symm.trans howner)
      obtain rfl : idle = a := Option.some.inj (hagent.symm.trans (hname ▸ ha))
      rw [hreleased] at hidle
      cases hidle
    | some t =>
      obtain ⟨u, hu, hbecomes⟩ := (evolves_move h).tasks.find? ht
      obtain rfl : u = t' := Option.some.inj (hu.symm.trans ht')
      have hsame : u.assignee = t.assignee := congrArg TaskRequest.assignee hbecomes.request
      exact hs.noTask id t ht (hsame ▸ howner)

/-- An agent once retired stays retired. -/
theorem retired_run (hs : d₀.Retired s.db name) (ls : List Call) :
    d₀.Retired (s.run ls).db name :=
  (moves_run s ls).invariant (I := fun t => d₀.Retired t.db name)
    (fun _ _ _ _ hmove h => retired_move hmove h) hs

/-- A poll for a released agent gets the release marker. -/
theorem Db.Retired.claim {c : Conn} (h : d₀.Retired c.db name) :
    Commits (claimAssignment name) c (some (.released name)) c := by
  obtain ⟨a, ha, hreleased⟩ := h.released
  rw [commits_claimAssignment]
  refine ⟨a, ha, ?_⟩
  rw [if_pos hreleased]
  exact ⟨rfl, rfl⟩

/-- A sweep does not report a released agent lost. -/
theorem Db.Retired.sweep {c c' : Conn} (h : d₀.Retired c.db name) (hc : c.db.roster.Consistent)
    {lostAfterS : ℚ} {es : List EventRecord} (hsweep : Commits (sweep lostAfterS) c es c') :
    ∀ e ∈ es, e.payload.lost? ≠ some name := by
  obtain ⟨a, ha, hreleased⟩ := h.released
  cases hcutoff : (c.clock 0).addMicros? (-seconds lostAfterS) with
  | none => exact absurd ⟨es, c', hsweep⟩ (sweep_raises hcutoff)
  | some cutoff =>
    obtain ⟨new, c₁, hc₁, -, hswept⟩ := swept_sweep hc hcutoff
    obtain ⟨rfl, rfl⟩ := Commits.unique hsweep hc₁
    intro e he hlost
    have hmem : e.payload ∈ es.map EventRecord.payload := List.mem_map_of_mem he
    rw [hswept.payloads] at hmem
    rcases List.mem_append.mp hmem with hexpiry | hloss
    · obtain ⟨t, -, heq⟩ := List.mem_map.mp hexpiry
      rw [← heq] at hlost
      cases hlost
    · obtain ⟨b, hb, heq⟩ := List.mem_map.mp hloss
      obtain ⟨hb, hsilent⟩ := List.mem_filter.mp hb
      have hlive : b.status.live := (of_decide_eq_true hsilent).1
      rw [← heq] at hlost
      have hname : b.name = name := Option.some.inj hlost
      obtain rfl : b = a := Option.some.inj ((Table.find?_of_mem hb).symm.trans (hname ▸ ha))
      rw [hreleased] at hlive
      simp [AgentStatus.live] at hlive

end

/-- What `release_agent` leaves. -/
theorem retired_releaseAgent {c c' : Conn} {name : String} {a : AgentRecord}
    (h : Commits (releaseAgent name) c a c') : c'.db.Retired c'.db name := by
  refine ⟨?_, fun id t ht _ hnone => ?_⟩
  · obtain ⟨-, agent, hagent, ⟨hreleased, hdb⟩ | ⟨-, hdb⟩⟩ := releaseAgent_cases h
    · exact ⟨agent, hdb ▸ hagent, hreleased⟩
    · refine ⟨{ agent with status := .released }, ?_, rfl⟩
      rw [hdb, Db.setStatus_agents, Table.find?_modify_self, hagent]
      rfl
  · rw [hnone] at ht
    cases ht

/-- **A release is for good.**  After any commit of `release_agent`, in every state of any run from
    there: the agent is released, a poll for it gets the release marker and changes nothing, every
    task assigned to it was there before the release, and no sweep reports it lost. -/
theorem release_permanent (u : Uuids) (before after : List Call) {name : String}
    {clock : ℕ → Moment} {a : AgentRecord} {c : Conn}
    (h : Commits (releaseAgent name) (((Hub.start u).run before).connect clock) a c) :
    let s := c.hub.run after
    (∃ a, s.db.agents.find? name = some a ∧ a.status = .released) ∧
    (∀ clock', Commits (claimAssignment name) (s.connect clock') (some (.released name))
      (s.connect clock')) ∧
    (∀ t ∈ s.db.tasks, t.assignee = some name → ∃ t₀ ∈ c.db.tasks, t₀.id = t.id) ∧
    ∀ lostAfterS clock' es c', Commits (sweep lostAfterS) (s.connect clock') es c' →
      ∀ e ∈ es, e.payload.lost? ≠ some name := by
  intro s
  have hs : c.db.Retired s.db name := retired_run (s := c.hub) (retired_releaseAgent h) after
  have hconsistent : s.db.roster.Consistent := by
    have hreleased : Moves (fun _ => True) ((Hub.start u).run before) c.hub :=
      (moves_releaseAgent h).mono fun _ _ => trivial
    exact (hreleased.trans (moves_run c.hub after)).invariant
      (I := fun t => t.db.roster.Consistent) (fun _ _ _ _ hmove h => consistent_move hmove h)
      (consistent_run u before)
  refine ⟨hs.released, fun clock' => ?_, fun t ht howner => ?_,
    fun lostAfterS clock' es c' hsweep => ?_⟩
  · exact Db.Retired.claim hs
  · obtain ⟨t₀, ht₀⟩ := Option.ne_none_iff_exists'.mp
      (hs.noTask t.id t (Table.find?_of_mem ht) howner)
    exact ⟨t₀, Table.mem_of_find? ht₀, Table.find?_key ht₀⟩
  · exact Db.Retired.sweep hs hconsistent hsweep

/-- Ada is released while she holds a task; another instance checks in under her name, and the
    sweeper comes by an hour later. -/
theorem ada_released :
    let before : List Call :=
      [⟨.initializeWorkflow "goal" {}, stoppedAt 0⟩,
        ⟨.checkIn "ada" {} (some "ada-1") {} none, stoppedAt 0⟩,
        ⟨.assignTask "ada" "implementer" "title" "instructions" 30 none none, stoppedAt 0⟩]
    let after : List Call :=
      [⟨.checkIn "ada" {} (some "ada-2") {} none, stoppedAt 1000⟩,
        ⟨.cancelTask "uuu", stoppedAt 2000⟩, ⟨.sweep 90, stoppedAt 3600000000⟩]
    ∃ a c, Commits (releaseAgent "ada")
      (((Hub.start .unary).run before).connect (stoppedAt 0)) a c ∧
      ∃ a, (c.hub.run after).db.agents.find? "ada" = some a ∧ a.status = .released := by
  intro before after
  have hok : (atomically (releaseAgent "ada")
      (((Hub.start .unary).run before).connect (stoppedAt 0))).1.toOption.isSome = true := by
    decide +kernel
  cases hres : (atomically (releaseAgent "ada")
      (((Hub.start .unary).run before).connect (stoppedAt 0))).1 with
  | error e =>
    rw [hres] at hok
    cases hok
  | ok a =>
    have hcommits := commits_of_atomically hres
    exact ⟨a, _, hcommits, (release_permanent .unary before after hcommits).1⟩

end AgentHub
