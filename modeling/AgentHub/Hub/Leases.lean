import AgentHub.Hub.Lifecycle

namespace AgentHub

open Relational

/-!
# Leases

The lease of an open task ends at its `lease_expires`.  A heartbeat moves that end forward, up to
the cap that the policy puts on the whole task; the sweeper clears a lease that has run out, and
says so once.

* `commits_renewLease` — exactly what a heartbeat does to the lease of its task;
* `Outlasts` — a lease that was cleared stays so, any other ends no earlier;
* `Db.Capped` — no lease ends after the cap; `capped_exec`, that every call keeps it;
* `Db.Noticed` — a lease that runs out is reported once;
* `lease_discipline` — all of it, along every run.
-/

/-! ### Whole milliseconds -/

/-- The number of minutes is a whole number of milliseconds. -/
def WholeMs (m : ℚ) : Prop := (m * 60000).den = 1

instance (m : ℚ) : Decidable (WholeMs m) := inferInstanceAs (Decidable (_ = _))

/-- A whole number is rounded to itself. -/
theorem roundHalfEven_intCast (n : ℤ) : roundHalfEven n = n := by
  simp [roundHalfEven]

/-- A lease of whole milliseconds is as long as was asked for. -/
theorem minutes_of_whole {m : ℚ} (h : WholeMs m) : minutes m = (m * 60000).num * 1000 := by
  have hnum : ((m * 60000).num : ℚ) = m * 60000 := Rat.den_eq_one_iff _ |>.mp h
  have hcast : m * 60000000 = (((m * 60000).num * 1000 : ℤ) : ℚ) := by
    push_cast
    rw [hnum]
    ring
  rw [minutes, hcast, roundHalfEven_intCast]

/-- Of two leases of whole milliseconds the longer is no shorter. -/
theorem minutes_le_of_whole {m m' : ℚ} (h : WholeMs m) (h' : WholeMs m') (hle : m ≤ m') :
    minutes m ≤ minutes m' := by
  have hnum : ((m * 60000).num : ℚ) = m * 60000 := Rat.den_eq_one_iff _ |>.mp h
  have hnum' : ((m' * 60000).num : ℚ) = m' * 60000 := Rat.den_eq_one_iff _ |>.mp h'
  have hcast : ((m * 60000).num : ℚ) ≤ (m' * 60000).num := by
    rw [hnum, hnum']
    linarith
  have hint : (m * 60000).num ≤ (m' * 60000).num := by exact_mod_cast hcast
  rw [minutes_of_whole h, minutes_of_whole h']
  omega

/-- A date is moved by as much as is said. -/
theorem addMicros?_us {m m' : Moment} {d : ℤ} (h : m.addMicros? d = some m') :
    (m'.us : ℤ) = m.us + d := by
  unfold Moment.addMicros? at h
  split at h
  · rename_i hrange
    obtain rfl := Option.some.inj h
    exact Int.toNat_of_nonneg hrange.1
  · cases h

/-- Whole milliseconds on top of an instant are the same on top of its stamp. -/
theorem toIso_addMicros {m m' : Moment} {n : ℤ} (h : m.addMicros? (n * 1000) = some m') :
    (m'.toIso.parse.us : ℤ) = m.toIso.parse.us + n * 1000 := by
  have hus := addMicros?_us h
  show ((m'.us / 1000 * 1000 : ℕ) : ℤ) = ((m.us / 1000 * 1000 : ℕ) : ℤ) + n * 1000
  omega

/-! ### Renewals -/

section

variable {c c' : Conn}

/-- **What a heartbeat over the protocol does to the lease of its task.**  It reads the cap; a
    lease that has run out stays, one at the cap ends there, and any other is renewed. -/
theorem commits_renewLease {task : TaskRecord} {expires : Stamp} {at' : Moment} {u : Unit} :
    Commits (renewLease task expires at' none) c u c' ↔
      ∃ capMin cap, c.db.leaseCap? task.workflowId = some capMin ∧
        task.created.parse.addMicros? (minutes capMin) = some cap ∧
        if expires.parse ≤ at' then c' = c
        else if cap ≤ at' then
          c' = { c with db := c.db.setLease task.id (some cap.toIso) at'.toIso }
        else ∃ extended, at'.addMicros? (seconds task.leaseDurationS) = some extended ∧
          let renewed := min (max extended expires.parse) cap
          if renewed = expires.parse then c' = c
          else c' = { c with db := c.db.setLease task.id (some renewed.toIso) at'.toIso } := by
  unfold renewLease leaseCapMin
  simp only [commits_bind, commits_maxTaskLeaseMin, commits_addMicros, and_assoc,
    exists_and_left, exists_eq_left]
  refine exists_congr fun capMin => and_congr_right fun _ => exists_congr fun cap =>
    and_congr_right fun _ => ?_
  by_cases hrun : expires.parse ≤ at'
  · simp [hrun]
  by_cases hcap : cap ≤ at'
  · simp [hrun, hcap]
  simp only [hrun, hcap, if_false, commits_bind, commits_addMicros, commits_ite, commits_pure,
    commits_writeDb, and_assoc, exists_and_left, exists_eq_left]
  refine exists_congr fun extended => and_congr_right fun _ => ?_
  by_cases hsame : min (max extended expires.parse) cap = expires.parse
  · simp [hsame]
  · simp [hsame]

/-- The connection after the stamps of a heartbeat. -/
def Conn.beaten (c : Conn) (name : String) (remoteAddr : Option String) : Conn :=
  { c with
    clock := fun n => c.clock (n + 1)
    db := c.db.beat name (c.clock 0).toIso remoteAddr }

/-- **When a heartbeat commits**, and what it does.  From the agent's current process it moves
    the stamps, and the lease of an open task it names rightly. -/
theorem commits_heartbeat {name workerInstanceId : String}
    {currentTaskId remoteAddr : Option String} {maxMin : Option ℚ} {accepted : Bool} :
    Commits (heartbeat name workerInstanceId currentTaskId maxMin remoteAddr) c accepted c' ↔
      ∃ agent, c.db.agents.find? name = some agent ∧
        if agent.workerInstanceId ≠ workerInstanceId ∨ agent.status = .lost then
          accepted = false ∧ c' = { c with clock := fun n => c.clock (n + 1) }
        else accepted = true ∧
          if currentTaskId = none ∨ currentTaskId = some "" ∨
            agent.currentTaskId ≠ currentTaskId then
            c' = c.beaten name remoteAddr
          else ∃ task, c.db.tasks.find? (currentTaskId.getD "") = some task ∧
            match task.leaseExpires with
            | none => c' = c.beaten name remoteAddr
            | some expires =>
              if task.assignee ≠ some name ∨ task.state.terminal then c' = c.beaten name remoteAddr
              else Commits (renewLease task expires (c.clock 0) maxMin) (c.beaten name remoteAddr)
                () c' := by
  unfold heartbeat
  simp only [commits_bind, commits_now, commits_requireAgent, and_assoc, exists_and_left,
    exists_eq_left]
  refine exists_congr fun agent => and_congr_right fun _ => ?_
  split
  · exact commits_pure
  simp only [commits_bind, commits_writeDb, exists_eq_left, exists_const]
  split
  · exact commits_pure
  simp only [commits_bind, commits_requireTask, and_assoc, exists_and_left, exists_eq_left]
  rw [← exists_and_left]
  refine exists_congr fun task => ?_
  rw [and_left_comm]
  refine and_congr_right fun _ => ?_
  cases task.leaseExpires with
  | none => exact commits_pure
  | some expires =>
    dsimp only
    split
    · exact commits_pure
    · simp only [commits_bind, commits_pure]
      constructor
      · rintro ⟨_, t, hrenew, rfl, rfl⟩
        exact ⟨rfl, hrenew⟩
      · rintro ⟨rfl, hrenew⟩
        exact ⟨(), c', hrenew, rfl, rfl⟩

/-- A renewal ends no earlier than the lease, and not after the cap. -/
theorem renewed_bounds {expires : Stamp} {cap extended : Moment} (hcap : expires.parse ≤ cap) :
    expires ≤ (min (max extended expires.parse) cap).toIso ∧
      (min (max extended expires.parse) cap).toIso.parse ≤ cap := by
  constructor
  · have hle : expires.parse ≤ min (max extended expires.parse) cap :=
      le_min (le_max_right _ _) hcap
    have hiso := Moment.toIso_mono hle
    rw [Moment.toIso_parse] at hiso
    exact hiso
  · exact (Moment.parse_toIso_le _).trans (min_le_right _ _)

end

/-! ### The cap -/

/-- A lease that was cleared stays so, any other is cleared or ends no earlier. -/
def Outlasts (lease lease' : Option Stamp) : Prop :=
  ∀ expires' ∈ lease', ∃ expires ∈ lease, expires ≤ expires'

/-- A lease outlasts itself. -/
theorem Outlasts.refl (lease : Option Stamp) : Outlasts lease lease :=
  fun expires h => ⟨expires, h, le_refl expires⟩

/-- A lease may be cleared. -/
theorem Outlasts.none (lease : Option Stamp) : Outlasts lease none := by
  intro expires h
  cases h

/-- A lease that outlasts one that outlasts a third outlasts that. -/
theorem Outlasts.trans {lease lease' lease'' : Option Stamp} (h : Outlasts lease lease')
    (h' : Outlasts lease' lease'') : Outlasts lease lease'' := by
  intro expires'' h''
  obtain ⟨expires', hmem', hle'⟩ := h' expires'' h''
  obtain ⟨expires, hmem, hle⟩ := h expires' hmem'
  exact ⟨expires, hmem, hle.trans hle'⟩

/-- The lease, if there is one, ends at most `capMin` minutes after the task's creation. -/
def TaskRecord.WithinCap (t : TaskRecord) (capMin : ℚ) : Prop :=
  ∀ expires ∈ t.leaseExpires, (expires.parse.us : ℤ) ≤ t.created.parse.us + minutes capMin

/-- The rail on leases, if it was set, is a whole number of milliseconds. -/
def WorkflowPolicy.Whole (p : WorkflowPolicy) : Prop := ∀ m ∈ p.maxTaskLeaseMin, WholeMs m

/-- Every task is one of the workflow, and its lease is within the cap. -/
structure Db.Capped (d : Db) : Prop where
  policy : ∀ w ∈ d.workflow, w.policy.Whole
  tasks : ∀ id t, d.tasks.find? id = some t → (∃ w ∈ d.workflow, w.id = t.workflowId) ∧
    ∃ capMin, d.leaseCap? t.workflowId = some capMin ∧ t.WithinCap capMin

/-- Tasks stay, and their leases outlast. -/
def Db.LeasesLast (d d' : Db) : Prop :=
  ∀ id t, d.tasks.find? id = some t →
    ∃ t', d'.tasks.find? id = some t' ∧ Outlasts t.leaseExpires t'.leaseExpires

/-- No lease has changed. -/
theorem Db.LeasesLast.refl (d : Db) : d.LeasesLast d := fun _ t ht => ⟨t, ht, .refl _⟩

/-- No lease is cut short in two steps that cut none short. -/
theorem Db.LeasesLast.trans {d d' d'' : Db} (h : d.LeasesLast d') (h' : d'.LeasesLast d'') :
    d.LeasesLast d'' := by
  intro id t ht
  obtain ⟨t', ht', hlast⟩ := h id t ht
  obtain ⟨t'', ht'', hlast'⟩ := h' id t' ht'
  exact ⟨t'', ht'', hlast.trans hlast'⟩

/-- The cap on whole milliseconds is one. -/
theorem leaseCap?_whole {d : Db} (hpolicy : ∀ w ∈ d.workflow, w.policy.Whole) {workflowId : String}
    {capMin : ℚ} (h : d.leaseCap? workflowId = some capMin) : WholeMs capMin := by
  have hdefault : WholeMs defaultMaxTaskLeaseMin := by decide +kernel
  unfold Db.leaseCap? at h
  split at h
  · exact Option.some.inj h ▸ hdefault
  rename_i w hw
  split at h
  · exact Option.some.inj h ▸ hdefault
  split at h
  · exact Option.some.inj h ▸ hdefault
  rename_i m hm
  split at h
  · exact Option.some.inj h ▸ hdefault
  split at h
  · cases h
  · exact Option.some.inj h ▸ hpolicy w hw m hm

/-- The cap is fixed with the workflow. -/
theorem leaseCap?_evolves {d d' : Db} (h : d.Evolves d') {workflowId : String}
    (hw : ∃ w ∈ d.workflow, w.id = workflowId) :
    d'.leaseCap? workflowId = d.leaseCap? workflowId := by
  obtain ⟨w, hw, rfl⟩ := hw
  obtain ⟨w', hw', hid, -, hpolicy⟩ := h.workflow w hw
  rw [Option.mem_def] at hw hw'
  simp only [Db.leaseCap?, hw, hw', hid, hpolicy]

/-- A step that keeps the policy and leaves every task within the cap keeps `Capped`. -/
theorem Db.Capped.of_evolves {d d' : Db} (hd : d.Capped) (h : d.Evolves d')
    (hpolicy : ∀ w' ∈ d'.workflow, w'.policy.Whole)
    (htasks : ∀ id t', d'.tasks.find? id = some t' → ∃ t, d.tasks.find? id = some t ∧
      ∀ capMin, d.leaseCap? t.workflowId = some capMin → t.WithinCap capMin →
        t'.WithinCap capMin) : d'.Capped := by
  refine ⟨hpolicy, fun id t' ht' => ?_⟩
  obtain ⟨t, ht, hkeeps⟩ := htasks id t' ht'
  obtain ⟨hworkflow, capMin, hcap, hwithin⟩ := hd.tasks id t ht
  obtain ⟨u, hu, hbecomes⟩ := h.tasks.find? ht
  obtain rfl : u = t' := Option.some.inj (hu.symm.trans ht')
  have hsame : u.workflowId = t.workflowId := congrArg TaskRequest.workflowId hbecomes.request
  rw [hsame]
  refine ⟨?_, capMin, (leaseCap?_evolves h hworkflow).trans hcap, hkeeps capMin hcap hwithin⟩
  obtain ⟨w, hw, hid⟩ := hworkflow
  obtain ⟨w', hw', hid', -⟩ := h.workflow w hw
  exact ⟨w', hw', hid'.trans hid⟩

/-- Only a renewal moves the end of a lease. -/
theorem TaskRecord.Writes.lease {k : Kind} {t t' : TaskRecord} (h : t.Writes k t')
    (hk : k ≠ .renew) : t'.leaseExpires = t.leaseExpires ∨ t'.leaseExpires = none := by
  cases h with
  | claim | ask | answer => exact .inl rfl
  | renew => exact absurd rfl hk
  | expire | finish => exact .inr rfl

/-- Only its creation sets the policy of a workflow. -/
theorem policy_move {k : Kind} {s s' : Hub} (h : Move k s s') (hk : k ≠ .create) :
    s'.db.workflow.map WorkflowRecord.policy = s.db.workflow.map WorkflowRecord.policy := by
  cases h with
  | create => exact absurd rfl hk
  | setWorkflowStatus w status summary rationale ts hw =>
    show Option.map _ (some _) = _
    rw [hw]
    rfl
  | checkIn _ _ _ _ _ _ _ _ _ _ _ _ hadmits =>
    exact congrArg (Option.map _) (hadmits.frame Db.workflow fun _ => rfl)
  | _ => rfl

/-- Outside of these three kinds, a move keeps the leases under their cap and cuts none short. -/
theorem capped_move {k : Kind} {s s' : Hub} (h : Move k s s') (hcreate : k ≠ .create)
    (hassign : k ≠ .assign) (hrenew : k ≠ .renew) (hs : s.db.Capped) :
    s'.db.Capped ∧ s.db.LeasesLast s'.db := by
  have hsame := policy_move h hcreate
  refine ⟨hs.of_evolves (evolves_move h) (fun w' hw' => ?_) fun id t' ht' => ?_, fun id t ht => ?_⟩
  · rw [Option.mem_def] at hw'
    rw [hw', Option.map_some] at hsame
    obtain ⟨w, hw, hpolicy⟩ := Option.map_eq_some_iff.mp hsame.symm
    rw [← hpolicy]
    exact hs.policy w hw
  · cases ht : s.db.tasks.find? id with
    | none =>
      obtain hkept | ⟨hk, -⟩ | ⟨old, new, hold, hwrites, hrewrites⟩ := tasks_move h
      · rw [hkept, ht] at ht'
        cases ht'
      · exact absurd hk hassign
      · rw [hrewrites] at ht'
        split at ht'
        · rename_i hid
          rw [hid, hwrites.id, hold] at ht
          cases ht
        · rw [ht] at ht'
          cases ht'
    | some t =>
      refine ⟨t, rfl, fun capMin _ hwithin => ?_⟩
      have hbecomes := (evolves_move h).tasks.find? ht
      obtain ⟨u, hu, hcase⟩ := task_move h ht
      obtain rfl : u = t' := Option.some.inj (hu.symm.trans ht')
      obtain ⟨v, hv, hbecomes⟩ := hbecomes
      obtain rfl : v = u := Option.some.inj (hv.symm.trans hu)
      rcases hcase with rfl | hwrites
      · exact hwithin
      · intro expires hexpires
        rw [hbecomes.created]
        rcases hwrites.lease hrenew with hlease | hlease
        · exact hwithin expires (hlease ▸ hexpires)
        · rw [hlease] at hexpires
          cases hexpires
  · obtain ⟨t', ht', rfl | hwrites⟩ := task_move h ht
    · exact ⟨t', ht', .refl _⟩
    · rcases hwrites.lease hrenew with hlease | hlease
      · exact ⟨t', ht', hlease ▸ .refl _⟩
      · exact ⟨t', ht', hlease ▸ .none _⟩

/-- **What a heartbeat over the protocol does to the tasks.**  Nothing, or it moves the end of one
    lease that has not run out, to the cap or to where `renewed_bounds` puts it. -/
theorem heartbeat_lease {c c' : Conn} {name workerInstanceId : String}
    {currentTaskId remoteAddr : Option String} {accepted : Bool}
    (h : Commits (heartbeat name workerInstanceId currentTaskId none remoteAddr) c accepted c') :
    c'.db.tasks = c.db.tasks ∨ ∃ task expires capMin cap renewed ts,
      c.db.tasks.find? task.id = some task ∧ task.leaseExpires = some expires ∧
      c.clock 0 < expires.parse ∧ c.db.leaseCap? task.workflowId = some capMin ∧
      task.created.parse.addMicros? (minutes capMin) = some cap ∧
      (cap ≤ c.clock 0 ∨ ∃ extended, renewed = (min (max extended expires.parse) cap).toIso) ∧
      c.db.Rewrites c'.db { task with leaseExpires := some renewed, updated := ts } := by
  obtain ⟨agent, -, h⟩ := commits_heartbeat.mp h
  split at h
  · obtain ⟨-, rfl⟩ := h
    exact .inl rfl
  obtain ⟨-, h⟩ := h
  split at h
  · subst h
    exact .inl rfl
  obtain ⟨task, htask, h⟩ := h
  cases hlease : task.leaseExpires with
  | none =>
    simp only [hlease] at h
    subst h
    exact .inl rfl
  | some expires =>
    simp only [hlease] at h
    split at h
    · subst h
      exact .inl rfl
    obtain ⟨capMin, cap, hcap, hend, h⟩ := commits_renewLease.mp h
    split at h
    · subst h
      exact .inl rfl
    rename_i hlive
    -- two of the ways through the renewal write: the one at the cap, and the extension
    have hfound : c.db.tasks.find? task.id = some task := by
      rw [Table.find?_key htask]
      exact htask
    have hrewrites (renewed : Stamp) : c.db.Rewrites
        ((c.beaten name remoteAddr).db.setLease task.id (some renewed) (c.clock 0).toIso)
        { task with leaseExpires := some renewed, updated := (c.clock 0).toIso } :=
      rewrites_modify hfound (Db.setLease_tasks ..) rfl
    split at h
    · rename_i hpast
      subst h
      exact .inr ⟨task, expires, capMin, cap, cap.toIso, _, hfound, hlease, lt_of_not_ge hlive,
        hcap, hend, .inl hpast, hrewrites _⟩
    · obtain ⟨extended, -, h⟩ := h
      dsimp only at h
      split at h
      · subst h
        exact .inl rfl
      · subst h
        exact .inr ⟨task, expires, capMin, cap, _, _, hfound, hlease, lt_of_not_ge hlive, hcap,
          hend, .inr ⟨extended, rfl⟩, hrewrites _⟩

/-- A heartbeat is an evolution. -/
theorem heartbeat_evolves {c c' : Conn} {name workerInstanceId : String}
    {currentTaskId remoteAddr : Option String} {maxMin : Option ℚ} {accepted : Bool}
    (h : Commits (heartbeat name workerInstanceId currentTaskId maxMin remoteAddr) c accepted c') :
    c.db.Evolves c'.db := evolves_moves (moves_heartbeat h)

/-- A heartbeat under the workflow's maximum keeps the leases under their cap. -/
theorem capped_heartbeat {c c' : Conn} {name workerInstanceId : String}
    {currentTaskId remoteAddr : Option String} {accepted : Bool} (hc : c.db.Capped)
    (h : Commits (heartbeat name workerInstanceId currentTaskId none remoteAddr) c accepted c') :
    c'.db.Capped ∧ c.db.LeasesLast c'.db := by
  have hevolves := heartbeat_evolves h
  have hpolicy : ∀ w' ∈ c'.db.workflow, w'.policy.Whole := by
    have hsame := (moves_heartbeat h).invariant
      (I := fun s => s.db.workflow.map WorkflowRecord.policy
        = c.db.workflow.map WorkflowRecord.policy)
      (fun k s s' hk hmove ih => (policy_move hmove (by rintro rfl; simp at hk)).trans ih) rfl
    intro w' hw'
    rw [Option.mem_def] at hw'
    obtain ⟨w, hw, hpolicy⟩ := Option.map_eq_some_iff.mp (hsame.symm.trans (congrArg _ hw'))
    rw [← hpolicy]
    exact hc.policy w hw
  obtain hsame | ⟨task, expires, capMin, cap, renewed, ts, htask, hlease, hlive, hcap, hend,
    hrenewed, hrewrites⟩ := heartbeat_lease h
  · refine ⟨hc.of_evolves hevolves hpolicy fun id t ht => ⟨t, hsame ▸ ht, fun _ _ h => h⟩,
      fun id t ht => ⟨t, hsame ▸ ht, .refl _⟩⟩
  -- the lease ends before the cap, so it has not run into it
  obtain ⟨-, capMin', hcap', hwithin⟩ := hc.tasks task.id task htask
  obtain rfl : capMin' = capMin := Option.some.inj (hcap'.symm.trans hcap)
  have hus := addMicros?_us hend
  have hbefore : expires.parse ≤ cap := by
    have hle := hwithin expires hlease
    rw [Moment.le_def]
    omega
  obtain hpast | ⟨extended, rfl⟩ := hrenewed
  · exact absurd (hbefore.trans hpast) (not_le_of_gt hlive)
  obtain ⟨hlater, hcapped⟩ : expires ≤ (min (max extended expires.parse) cap).toIso ∧
      (min (max extended expires.parse) cap).toIso.parse ≤ cap := renewed_bounds hbefore
  refine ⟨hc.of_evolves hevolves hpolicy fun id t' ht' => ?_, fun id t ht => ?_⟩
  · rw [hrewrites] at ht'
    split at ht'
    · rename_i hid
      obtain rfl := Option.some.inj ht'
      refine ⟨task, hid ▸ htask, fun cap' hcap' _ expires' hexpires' => ?_⟩
      obtain rfl := Option.some.inj (hcap.symm.trans hcap')
      obtain rfl := Option.some.inj hexpires'
      rw [Moment.le_def] at hcapped
      show (_ : ℤ) ≤ task.created.parse.us + _
      omega
    · exact ⟨t', ht', fun _ _ h => h⟩
  · by_cases hid : id = task.id
    · obtain rfl : task = t := Option.some.inj ((hid ▸ htask).symm.trans ht)
      refine ⟨_, by rw [hrewrites, if_pos hid], fun expires' hexpires' => ⟨expires, hlease, ?_⟩⟩
      obtain rfl := Option.some.inj hexpires'
      exact hlater
    · exact ⟨t, by rw [hrewrites, if_neg hid, ht], .refl _⟩

/-- An assignment that writes leases the new task for at most the cap. -/
theorem assignTask_lease {c c' : Conn} {agent role title instructions : String} {leaseMin : ℚ}
    {prHeadSha : Option String} {sourceEventId : Option ℕ} {t : TaskRecord}
    (h : Commits
      (assignTask agent role title instructions leaseMin prHeadSha sourceEventId) c t c') :
    c'.db.workflow = c.db.workflow ∧
      (c'.db.tasks = c.db.tasks ∨ ∃ workflow capMin expires, c.db.workflow = some workflow ∧
        c.db.leaseCap? workflow.id = some capMin ∧
        (c.clock 0).addMicros? (minutes (min leaseMin capMin)) = some expires ∧
        t.workflowId = workflow.id ∧ t.created = (c.clock 0).toIso ∧
        t.leaseExpires = some expires.toIso ∧ t.id ≠ "" ∧ c.db.tasks.find? t.id = none ∧
        c.db.Rewrites c'.db t) := by
  unfold assignTask at h
  simp only [commits_bind, commits_refuseIf, commits_now, commits_requireWorkflow,
    commits_maxTaskLeaseMin, commits_assignedBefore, and_assoc, exists_and_left, exists_eq_left,
    exists_const] at h
  obtain ⟨-, workflow, hworkflow, capMin, hcap, -, -, h⟩ := h
  cases ho : sourceEventId.bind c.db.taskFrom? with
  | some task =>
    simp only [ho] at h
    obtain ⟨-, rfl⟩ := commits_pure.mp h
    exact ⟨rfl, .inl rfl⟩
  | none =>
    simp only [ho, commits_bind, commits_requireIdle, commits_uuid4, commits_addMicros,
      commits_insertTask, commits_writeDb, commits_addMessage, commits_requireTask,
      commits_notify, commits_pure, and_assoc, exists_and_left, exists_eq_left,
      exists_const] at h
    obtain ⟨record, -, -, expires, hexpires, hfree, -, task, htask, rfl, rfl⟩ := h
    obtain rfl := Option.some.inj ((Table.find?_insertOrIgnore_self hfree).symm.trans htask)
    refine ⟨rfl, .inr ⟨workflow, capMin, expires, hworkflow, hcap, hexpires, rfl, rfl, rfl,
      c.uuids.ne_empty 0, hfree, fun id => ?_⟩⟩
    refine (Table.find?_insertOrIgnore hfree id).trans ?_
    exact if_congr eq_comm rfl rfl

/-- An assignment for whole milliseconds keeps the leases under their cap. -/
theorem capped_assignTask {c c' : Conn} {agent role title instructions : String} {leaseMin : ℚ}
    {prHeadSha : Option String} {sourceEventId : Option ℕ} {t : TaskRecord} (hc : c.db.Capped)
    (hwhole : WholeMs leaseMin)
    (h : Commits
      (assignTask agent role title instructions leaseMin prHeadSha sourceEventId) c t c') :
    c'.db.Capped ∧ c.db.LeasesLast c'.db := by
  obtain ⟨hworkflow, hsame | ⟨workflow, capMin, expires, hw, hcap, hexpires, hid, hcreated, hlease,
    -, hfree, hrewrites⟩⟩ := assignTask_lease h
  · have hcaps (id : String) : c'.db.leaseCap? id = c.db.leaseCap? id := by
      rw [Db.leaseCap?, Db.leaseCap?, hworkflow]
    refine ⟨⟨hworkflow ▸ hc.policy, fun id t ht => ?_⟩, fun id t ht => ⟨t, hsame ▸ ht, .refl _⟩⟩
    rw [hworkflow, hcaps]
    exact hc.tasks id t (hsame ▸ ht)
  have hcaps (id : String) : c'.db.leaseCap? id = c.db.leaseCap? id := by
    rw [Db.leaseCap?, Db.leaseCap?, hworkflow]
  refine ⟨⟨hworkflow ▸ hc.policy, fun id t' ht' => ?_⟩, fun id t' ht' => ⟨t', ?_, .refl _⟩⟩
  · rw [hworkflow, hcaps]
    rw [hrewrites] at ht'
    split at ht'
    · obtain rfl := Option.some.inj ht'
      refine ⟨⟨workflow, hw, hid.symm⟩, capMin, hid ▸ hcap, fun expires' hexpires' => ?_⟩
      rw [hlease] at hexpires'
      obtain rfl := Option.some.inj hexpires'
      have hwholecap := leaseCap?_whole hc.policy hcap
      have hmin : WholeMs (min leaseMin capMin) := by
        rcases min_choice leaseMin capMin with heq | heq <;> rw [heq] <;> assumption
      have hle := minutes_le_of_whole hmin hwholecap (min_le_right leaseMin capMin)
      rw [minutes_of_whole hmin] at hexpires hle
      rw [toIso_addMicros hexpires, hcreated]
      omega
    · exact hc.tasks id t' ht'
  · rw [hrewrites, if_neg, ht']
    rintro rfl
    rw [hfree] at ht'
    cases ht'

/-- **The calls of a run over the protocol**: heartbeats without a cap of their own, rails and
    leases of whole milliseconds, and no `lease_expired` queued by hand. -/
def Op.Regular : Op → Prop
  | .initializeWorkflow _ policy => policy.Whole
  | .assignTask _ _ _ _ leaseMin _ _ => WholeMs leaseMin
  | .heartbeat _ _ _ maxMin _ => maxMin = none
  | .appendEvent payload => payload.kind ≠ .leaseExpired
  | _ => True

/-- Every regular call keeps the leases under their cap, and cuts none short. -/
theorem capped_exec (l : Call) {s : Hub} (hl : l.op.Regular) (hs : s.db.Capped) :
    (l.exec s).db.Capped ∧ s.db.LeasesLast (l.exec s).db := by
  -- only these three calls write a policy or a lease; the others are moves without one
  by_cases hkinds : .create ∈ l.op.kinds ∨ .assign ∈ l.op.kinds ∨ .renew ∈ l.op.kinds
  · obtain ⟨op, clock⟩ := l
    cases op with
    | initializeWorkflow goal policy =>
      rw [Call.exec_eq rfl clock s]
      rcases atomically_cases (initializeWorkflow goal policy) (s.connect clock) with
        ⟨id, c', hc, hat⟩ | ⟨e, -, hat⟩
      · rw [hat]
        obtain ⟨-, hcase⟩ := commits_initializeWorkflow.mp hc
        cases hw : s.db.workflow with
        | some row =>
          have hw' : (s.connect clock).db.workflow = some row := hw
          simp only [hw'] at hcase
          rw [hcase.2.2.2]
          exact ⟨hs, .refl _⟩
        | none =>
          have hw' : (s.connect clock).db.workflow = none := hw
          simp only [hw'] at hcase
          -- before the workflow there are no tasks, so the new policy caps nothing
          have hnone : ∀ id t, s.db.tasks.find? id ≠ some t := by
            intro id t ht
            obtain ⟨⟨w, hmem, -⟩, -⟩ := hs.tasks id t ht
            rw [hw] at hmem
            cases hmem
          rw [hcase.2]
          refine ⟨⟨fun w hmem => ?_, fun id t ht => absurd ht (hnone id t)⟩,
            fun id t ht => absurd ht (hnone id t)⟩
          obtain rfl := Option.some.inj hmem
          exact hl
      · rw [hat]
        exact ⟨hs, .refl _⟩
    | assignTask agent role title instructions leaseMin prHeadSha sourceEventId =>
      rw [Call.exec_eq rfl clock s]
      rcases atomically_cases
          (assignTask agent role title instructions leaseMin prHeadSha sourceEventId)
          (s.connect clock) with
        ⟨t, c', hc, hat⟩ | ⟨e, -, hat⟩
      · rw [hat]
        exact capped_assignTask hs hl hc
      · rw [hat]
        exact ⟨hs, .refl _⟩
    | heartbeat name workerInstanceId currentTaskId maxMin remoteAddr =>
      obtain rfl : maxMin = none := hl
      rw [Call.exec_eq rfl clock s]
      rcases atomically_cases (heartbeat name workerInstanceId currentTaskId none remoteAddr)
          (s.connect clock) with
        ⟨accepted, c', hc, hat⟩ | ⟨e, -, hat⟩
      · rw [hat]
        exact capped_heartbeat hs hc
      · rw [hat]
        exact ⟨hs, .refl _⟩
    | _ => simp [Op.kinds] at hkinds
  · simp only [not_or] at hkinds
    refine (moves_exec l s).invariant (I := fun t => t.db.Capped ∧ s.db.LeasesLast t.db)
      (fun k t t' hk hmove hI => ?_) ⟨hs, .refl _⟩
    obtain ⟨hcapped, hlast⟩ := capped_move hmove (fun h => hkinds.1 (h ▸ hk))
      (fun h => hkinds.2.1 (h ▸ hk)) (fun h => hkinds.2.2 (h ▸ hk)) hI.1
    exact ⟨hcapped, hI.2.trans hlast⟩

/-- So does every run of regular calls. -/
theorem capped_run {s : Hub} (hs : s.db.Capped) {ls : List Call} (hls : ∀ l ∈ ls, l.op.Regular) :
    (s.run ls).db.Capped ∧ s.db.LeasesLast (s.run ls).db := by
  induction ls generalizing s with
  | nil => exact ⟨hs, .refl _⟩
  | cons l ls ih =>
    obtain ⟨hcapped, hlast⟩ := capped_exec l (hls l List.mem_cons_self) hs
    obtain ⟨hcapped', hlast'⟩ := ih hcapped fun m hm => hls m (List.mem_cons_of_mem l hm)
    exact ⟨hcapped', hlast.trans hlast'⟩

/-! ### Notices -/

/-- The task whose lease the event reports as expired. -/
def EventPayload.expiryOf : EventPayload → Option String
  | .leaseExpired taskId .. => some taskId
  | _ => none

/-- The `lease_expired` events of a task. -/
def Db.expiries (d : Db) (taskId : String) : ℕ :=
  d.payloads.countP fun p => p.expiryOf = some taskId

/-- One more event counts for the task it is about. -/
theorem expiries_append {d d' : Db} {p : EventPayload} (h : d'.payloads = d.payloads ++ [p])
    (taskId : String) :
    d'.expiries taskId = d.expiries taskId + if p.expiryOf = some taskId then 1 else 0 := by
  rw [Db.expiries, h, List.countP_append, List.countP_singleton]
  simp [Db.expiries]

/-- **What a step tells Alice about one lease.**  Nothing, or it clears the lease of the open task
    and says so; a lease that was cleared stays so, and an ended task ended. -/
structure Db.Notices (d d' : Db) (taskId : String) : Prop where
  count : d'.expiries taskId = d.expiries taskId ∨
    d'.expiries taskId = d.expiries taskId + 1 ∧
      (∃ t, d.tasks.find? taskId = some t ∧ t.isOpen ∧ t.leaseExpires ≠ none) ∧
      ∃ t', d'.tasks.find? taskId = some t' ∧ t'.leaseExpires = none
  stays : ∀ t, d.tasks.find? taskId = some t → ∃ t', d'.tasks.find? taskId = some t' ∧
    (t.leaseExpires = none → t'.leaseExpires = none) ∧ (¬ t.isOpen → ¬ t'.isOpen)

/-- A task without a lease gets none by a move. -/
theorem TaskRecord.Writes.cleared {k : Kind} {t t' : TaskRecord} (h : t.Writes k t')
    (hnone : t.leaseExpires = none) : t'.leaseExpires = none := by
  cases h with
  | claim | ask | answer => exact hnone
  | renew _ _ _ _ hexpires =>
    rw [hnone] at hexpires
    cases hexpires
  | expire | finish => rfl

/-- Every move but an event by hand clears a lease only with a notice of it. -/
theorem notices_move {k : Kind} {s s' : Hub} (h : Move k s s') (hk : k ≠ .append)
    (taskId : String) : s.db.Notices s'.db taskId := by
  refine ⟨?_, fun t ht => ?_⟩
  · have hsilent (hsame : s'.db.payloads = s.db.payloads) :
        s'.db.expiries taskId = s.db.expiries taskId := by rw [Db.expiries, Db.expiries, hsame]
    -- an event of another kind
    have hother {p : EventPayload} (hp : s'.db.payloads = s.db.payloads ++ [p])
        (hno : p.expiryOf = none) : s'.db.expiries taskId = s.db.expiries taskId := by
      rw [expiries_append hp, hno]
      rfl
    cases h with
    | append => exact absurd rfl hk
    | draw | create | setWorkflowStatus | decide | beat | renew | release | assign | answer |
      cancel | override | claim => exact .inl rfl
    | @checkIn d _ name contextId instanceId profile _ row d' ts ts₁ ts₂ _ _ hadmits =>
      have hevents : d'.events = d.events := hadmits.frame Db.events fun _ => rfl
      exact .inl (hother (payloads_append
        (congrArg (fun t : Serial EventRecord.id => t.rows ++ [_]) hevents)) rfl)
    | progress => exact .inl (hother (payloads_append rfl) rfl)
    | ask => exact .inl (hother (payloads_append rfl) rfl)
    | settle _ _ result =>
      refine .inl (hother (payloads_append rfl) ?_)
      show (Settlement.event _ _ _).expiryOf = none
      unfold Settlement.event
      split <;> rfl
    | lose => exact .inl (hother (payloads_append rfl) rfl)
    | loseTask => exact .inl (hother (payloads_append rfl) rfl)
    | lease => exact .inl (hsilent (payloads_updateWhere (Db.lease_events ..) fun _ => rfl))
    | ack => exact .inl (hsilent (payloads_updateWhere (Db.ack_events ..) fun _ => rfl))
    | @expire d u task expires ts ts' htask hopen hexpires =>
      have hpayloads : ((d.setLease task.id none ts).addEvent
          (.leaseExpired task.id task.assignee task.leaseExpires) ts').payloads
            = d.payloads ++ [.leaseExpired task.id task.assignee task.leaseExpires] := by
        simp [Db.payloads, Db.addEvent, Db.setLease]
      have hcount := expiries_append hpayloads taskId
      by_cases hid : task.id = taskId
      · subst hid
        rw [EventPayload.expiryOf, if_pos rfl] at hcount
        refine .inr ⟨hcount, ⟨task, htask, hopen, by simp [hexpires]⟩,
          { task with leaseExpires := none, updated := ts }, ?_, rfl⟩
        show (d.setLease task.id none ts).tasks.find? task.id = _
        rw [Db.setLease_tasks, Table.find?_modify_self, htask]
        rfl
      · rw [EventPayload.expiryOf, if_neg (by simpa using hid)] at hcount
        exact .inl hcount
  · obtain ⟨t', ht', rfl | hwrites⟩ := task_move h ht
    · exact ⟨t', ht', fun h => h, fun h => h⟩
    · exact ⟨t', ht', hwrites.cleared, fun hended => absurd hwrites.isOpen hended⟩

/-- What every notice keeps, a call over the protocol keeps. -/
theorem notices_exec (l : Call) {s : Hub} (hl : l.op.Regular) {taskId : String} {I : Db → Prop}
    (step : ∀ d d' : Db, d.Notices d' taskId → I d → I d') (hs : I s.db) : I (l.exec s).db := by
  by_cases hkind : .append ∈ l.op.kinds
  · obtain ⟨op, clock⟩ := l
    cases op with
    | appendEvent payload =>
      rw [Call.exec_eq rfl clock s]
      rcases atomically_cases (appendEvent payload) (s.connect clock) with
        ⟨e, c', hc, hat⟩ | ⟨e, -, hat⟩
      · obtain ⟨-, ts, hdb⟩ := appendEvent_cases hc
        have hpayloads : ((s.connect clock).db.addEvent payload ts).payloads
            = s.db.payloads ++ [payload] := by
          simp [Db.payloads, Db.addEvent, Hub.connect]
        have hno : payload.expiryOf ≠ some taskId := by
          cases payload with
          | leaseExpired => exact absurd rfl hl
          | _ => simp [EventPayload.expiryOf]
        rw [hat]
        refine step s.db _ ?_ hs
        show s.db.Notices c'.db taskId
        rw [hdb]
        refine ⟨.inl ?_, fun t ht => ⟨t, ht, fun h => h, fun h => h⟩⟩
        rw [expiries_append hpayloads, if_neg hno, Nat.add_zero]
      · rw [hat]
        exact hs
    | _ => simp [Op.kinds] at hkind
  · refine (moves_exec l s).invariant (I := fun t => I t.db)
      (fun k t t' hk hmove hI => step t.db t'.db (notices_move hmove ?_ taskId) hI) hs
    rintro rfl
    exact hkind hk

/-- What every noticed step keeps, a run of regular calls keeps. -/
theorem notices_run {s : Hub} {ls : List Call} (hls : ∀ l ∈ ls, l.op.Regular) {taskId : String}
    {I : Db → Prop} (step : ∀ d d' : Db, d.Notices d' taskId → I d → I d') (hs : I s.db) :
    I (s.run ls).db := by
  induction ls generalizing s with
  | nil => exact hs
  | cons l ls ih =>
    exact ih (fun m hm => hls m (List.mem_cons_of_mem l hm))
      (notices_exec l (hls l List.mem_cons_self) step hs)

/-- At most one notice, and none while the lease has not been cleared. -/
def Db.Noticed (d : Db) (taskId : String) : Prop :=
  d.expiries taskId ≤ 1 ∧
    ((∀ t, d.tasks.find? taskId = some t → t.leaseExpires ≠ none) → d.expiries taskId = 0)

/-- A step that says what it clears leaves at most one notice. -/
theorem noticed_step {d d' : Db} {taskId : String} (h : d.Notices d' taskId)
    (hd : d.Noticed taskId) : d'.Noticed taskId := by
  have hback (hall : ∀ t', d'.tasks.find? taskId = some t' → t'.leaseExpires ≠ none) :
      ∀ t, d.tasks.find? taskId = some t → t.leaseExpires ≠ none := by
    intro t ht hnone
    obtain ⟨t', ht', hcleared, -⟩ := h.stays t ht
    exact hall t' ht' (hcleared hnone)
  obtain hsame | ⟨hcount, ⟨t, ht, -, hlease⟩, t', ht', hnone⟩ := h.count
  · exact ⟨hsame ▸ hd.1, fun hall => hsame.trans (hd.2 (hback hall))⟩
  · have hzero : d.expiries taskId = 0 := by
      refine hd.2 fun u hu => ?_
      obtain rfl : t = u := Option.some.inj (ht.symm.trans hu)
      exact hlease
    exact ⟨by omega, fun hall => absurd hnone (hall t' ht')⟩

/-- The task has ended, after `n` notices. -/
def Db.EndedAfter (d : Db) (taskId : String) (n : ℕ) : Prop :=
  (∃ t, d.tasks.find? taskId = some t ∧ ¬ t.isOpen) ∧ d.expiries taskId = n

/-- An ended task gives no notice. -/
theorem endedAfter_step {d d' : Db} {taskId : String} {n : ℕ} (h : d.Notices d' taskId)
    (hd : d.EndedAfter taskId n) : d'.EndedAfter taskId n := by
  obtain ⟨⟨t, ht, hended⟩, hn⟩ := hd
  obtain ⟨t', ht', -, hstays⟩ := h.stays t ht
  refine ⟨⟨t', ht', hstays hended⟩, ?_⟩
  obtain hsame | ⟨-, ⟨u, hu, hopen, -⟩, -⟩ := h.count
  · exact hsame.trans hn
  · obtain rfl : t = u := Option.some.inj (ht.symm.trans hu)
    exact absurd hopen hended

/-! ### Stamps -/

/-- No agent was heard of later before than after. -/
def Db.HeardLater (d d' : Db) : Prop :=
  ∀ name a, d.agents.find? name = some a → ∃ b, d'.agents.find? name = some b ∧
    a.lastHeartbeat ≤ b.lastHeartbeat ∧ a.lastSeen ≤ b.lastSeen

/-- No stamp has moved. -/
theorem Db.HeardLater.refl (d : Db) : d.HeardLater d :=
  fun _ a ha => ⟨a, ha, le_refl _, le_refl _⟩

/-- A beat moves no stamp backwards. -/
theorem heardLater_beat {d : Db} {who : String} {ts : Stamp} {remoteAddr : Option String} :
    d.HeardLater (d.beat who ts remoteAddr) := by
  intro name a ha
  rw [Db.beat_agents, Table.find?_modify]
  by_cases hname : name = who
  · rw [if_pos hname, ha]
    exact ⟨_, rfl, le_max_left _ _, le_max_left _ _⟩
  · rw [if_neg hname, ha]
    exact ⟨a, rfl, le_refl _, le_refl _⟩

/-- **A heartbeat never moves a stamp backwards**, whatever its clock says. -/
theorem heardLater_heartbeat {c c' : Conn} {name workerInstanceId : String}
    {currentTaskId remoteAddr : Option String} {maxMin : Option ℚ} {accepted : Bool}
    (h : Commits (heartbeat name workerInstanceId currentTaskId maxMin remoteAddr) c accepted c') :
    c.db.HeardLater c'.db := by
  obtain ⟨-, agent, -, ⟨-, hdb, -⟩ | ⟨-, -, -, ts, hdb | ⟨_, _, _, _, -, -, -, -, hdb⟩⟩⟩ :=
    heartbeat_cases h
  · rw [hdb]
    exact .refl _
  · rw [hdb]
    exact heardLater_beat
  · have hagents : c'.db.agents = (c.db.beat name ts remoteAddr).agents := by rw [hdb]; rfl
    intro n a ha
    rw [hagents]
    exact heardLater_beat n a ha

/-! ### The discipline -/

/-- A heartbeat at or past the end of a lease leaves it, also before a sweep. -/
theorem heartbeat_too_late {name workerInstanceId : String}
    {currentTaskId remoteAddr : Option String}
    {clock : ℕ → Moment} {s : Hub} {id : String} {t : TaskRecord} {expires : Stamp}
    (ht : s.db.tasks.find? id = some t) (hlease : t.leaseExpires = some expires)
    (hlate : expires.parse ≤ clock 0) :
    let l : Call := ⟨.heartbeat name workerInstanceId currentTaskId none remoteAddr, clock⟩
    ∃ t', (l.exec s).db.tasks.find? id = some t' ∧ t'.leaseExpires = some expires := by
  intro l
  have hexec : l.exec s = (atomically
      (heartbeat name workerInstanceId currentTaskId none remoteAddr) (s.connect clock)).2.hub :=
    Call.exec_eq rfl clock s
  rw [hexec]
  rcases atomically_cases (heartbeat name workerInstanceId currentTaskId none remoteAddr)
      (s.connect clock) with ⟨accepted, c', hc, hat⟩ | ⟨e, -, hat⟩
  · rw [hat]
    obtain hsame | ⟨task, expires', _, _, _, _, htask, hlease', hlive, -, -, -, hrewrites⟩ :=
      heartbeat_lease hc
    · exact ⟨t, hsame.symm ▸ ht, hlease⟩
    refine ⟨t, (hrewrites id).trans ((if_neg ?_).trans ht), hlease⟩
    -- the lease that was renewed is not this one
    rintro rfl
    obtain rfl : t = task := Option.some.inj (ht.symm.trans htask)
    obtain rfl : expires = expires' := Option.some.inj (hlease.symm.trans hlease')
    exact absurd hlate (not_le_of_gt hlive)
  · rw [hat]
    exact ⟨t, ht, hlease⟩

/-- **The lease discipline.**  In every run over the protocol a lease never ends after the cap of
    its task; from any state on a lease ends no earlier as long as there is one, and once it is
    cleared there is none again; a heartbeat at or past its end leaves it; a task has at most one
    `lease_expired` event, and none that comes after its end; and a heartbeat moves no stamp of
    an agent backwards. -/
theorem lease_discipline (u : Uuids) (ls later : List Call)
    (hregular : ∀ l ∈ ls ++ later, l.op.Regular) :
    let s := (Hub.start u).run ls
    let s' := s.run later
    (∀ id t, s.db.tasks.find? id = some t → ∃ t', s'.db.tasks.find? id = some t' ∧
      (∃ capMin, s.db.leaseCap? t.workflowId = some capMin ∧ ∀ expires,
        t.leaseExpires = some expires →
          (expires.parse.us : ℤ) ≤ t.created.parse.us + minutes capMin) ∧
      (t.leaseExpires = none → t'.leaseExpires = none) ∧
      (∀ expires expires', t.leaseExpires = some expires → t'.leaseExpires = some expires' →
        expires ≤ expires') ∧
      (¬ t.isOpen → s'.db.expiries id = s.db.expiries id)) ∧
    (∀ id, s.db.expiries id ≤ 1) ∧
    ∀ name workerInstanceId currentTaskId remoteAddr clock,
      let l : Call := ⟨.heartbeat name workerInstanceId currentTaskId none remoteAddr, clock⟩
      (∀ id t expires, s.db.tasks.find? id = some t → t.leaseExpires = some expires →
        expires.parse ≤ clock 0 →
          ∃ t', (l.exec s).db.tasks.find? id = some t' ∧ t'.leaseExpires = some expires) ∧
      ∀ n a, s.db.agents.find? n = some a → ∃ b, (l.exec s).db.agents.find? n = some b ∧
        a.lastHeartbeat ≤ b.lastHeartbeat ∧ a.lastSeen ≤ b.lastSeen := by
  intro s s'
  have hbefore : ∀ l ∈ ls, l.op.Regular := fun l hl => hregular l (List.mem_append_left later hl)
  have hafter : ∀ l ∈ later, l.op.Regular := fun l hl => hregular l (List.mem_append_right ls hl)
  have h0 : (Hub.start u).db.Capped := by
    refine ⟨fun w hw => ?_, fun id t ht => ?_⟩
    · cases hw
    · cases ht
  have hcapped : s.db.Capped := (capped_run h0 hbefore).1
  have hlast : s.db.LeasesLast s'.db := (capped_run hcapped hafter).2
  refine ⟨fun id t ht => ?_, fun id => ?_,
    fun name workerInstanceId currentTaskId remoteAddr clock =>
    ⟨fun id t expires => heartbeat_too_late, ?_⟩⟩
  · obtain ⟨t', ht', houtlasts⟩ := hlast id t ht
    obtain ⟨-, capMin, hcap, hwithin⟩ := hcapped.tasks id t ht
    refine ⟨t', ht', ⟨capMin, hcap, hwithin⟩, fun hnone => ?_, fun expires expires' he he' => ?_,
      fun hended => ?_⟩
    · refine Option.eq_none_iff_forall_not_mem.mpr fun expires' he' => ?_
      obtain ⟨expires, he, -⟩ := houtlasts expires' he'
      rw [hnone] at he
      cases he
    · obtain ⟨expires₀, he₀, hle⟩ := houtlasts expires' he'
      obtain rfl : expires₀ = expires := Option.some.inj (he₀.symm.trans he)
      exact hle
    · exact (notices_run (I := fun d => d.EndedAfter id (s.db.expiries id)) hafter
        (fun _ _ => endedAfter_step) ⟨⟨t, ht, hended⟩, rfl⟩).2
  · have hstart : (Hub.start u).db.Noticed id := ⟨Nat.zero_le 1, fun _ => rfl⟩
    exact (notices_run (I := fun d => d.Noticed id) hbefore (fun _ _ => noticed_step) hstart).1
  · let beat := heartbeat name workerInstanceId currentTaskId none remoteAddr
    have hexec : Call.exec ⟨.heartbeat name workerInstanceId currentTaskId none remoteAddr, clock⟩ s
        = (atomically beat (s.connect clock)).2.hub := Call.exec_eq rfl clock s
    rw [hexec]
    rcases atomically_cases beat (s.connect clock) with ⟨accepted, c', hc, hat⟩ | ⟨e, -, hat⟩
    · rw [hat]
      exact heardLater_heartbeat hc
    · rw [hat]
      exact Db.HeardLater.refl s.db

/-- A clock that stands still at `us`, to run the hub on. -/
def stoppedAt (us : ℕ) : ℕ → Moment :=
  fun _ => if h : us < maxMicros then ⟨us, h⟩ else ⟨0, by decide⟩

/-- Ada is given a task for half an hour under a rail of one hour; her next heartbeat renews the
    lease, and a sweep at that time leaves it. -/
theorem renewed_for_ada :
    let ls : List Call :=
      [⟨.initializeWorkflow "goal" { maxTaskLeaseMin := some 60 }, stoppedAt 0⟩,
        ⟨.checkIn "ada" {} (some "ada-1") {} none, stoppedAt 0⟩,
        ⟨.assignTask "ada" "implementer" "title" "instructions" 30 none none, stoppedAt 1500⟩]
    let later : List Call :=
      [⟨.heartbeat "ada" "ada-1" (some "uuu") none none, stoppedAt 600000000⟩,
        ⟨.sweep 90, stoppedAt 600000000⟩]
    let s := (Hub.start .unary).run ls
    let s' := s.run later
    ∃ t t' expires expires', s.db.tasks.find? "uuu" = some t ∧ s'.db.tasks.find? "uuu" = some t' ∧
      t.leaseExpires = some expires ∧ t'.leaseExpires = some expires' ∧ expires ≤ expires' := by
  intro ls later s s'
  have hregular : ∀ l ∈ ls ++ later, l.op.Regular := by
    intro l hl
    simp only [ls, later, List.cons_append, List.nil_append, List.mem_cons, List.not_mem_nil,
      or_false] at hl
    rcases hl with rfl | rfl | rfl | rfl | rfl
    · intro m hm
      obtain rfl := Option.some.inj hm
      show WholeMs 60
      decide +kernel
    · trivial
    · show WholeMs 30
      decide +kernel
    · rfl
    · trivial
  have hheld : ∃ t, s.db.tasks.find? "uuu" = some t ∧ t.leaseExpires.isSome = true := by
    have hrow : ∃ t ∈ s.db.tasks.rows, t.id = "uuu" ∧ t.leaseExpires.isSome = true := by
      decide +kernel
    obtain ⟨t, ht, hid, hsome⟩ := hrow
    exact ⟨t, hid ▸ Table.find?_of_mem (Table.mem_iff.mpr ht), hsome⟩
  have hheld' : ∃ t, s'.db.tasks.find? "uuu" = some t ∧ t.leaseExpires.isSome = true := by
    have hrow : ∃ t ∈ s'.db.tasks.rows, t.id = "uuu" ∧ t.leaseExpires.isSome = true := by
      decide +kernel
    obtain ⟨t, ht, hid, hsome⟩ := hrow
    exact ⟨t, hid ▸ Table.find?_of_mem (Table.mem_iff.mpr ht), hsome⟩
  have hdiscipline := (lease_discipline .unary ls later hregular).1 "uuu"
  clear_value ls later
  obtain ⟨t, ht, hsome⟩ := hheld
  obtain ⟨t', ht', hsome'⟩ := hheld'
  obtain ⟨expires, hexpires⟩ := Option.isSome_iff_exists.mp hsome
  obtain ⟨expires', hexpires'⟩ := Option.isSome_iff_exists.mp hsome'
  obtain ⟨u, hu, -, -, hlater, -⟩ := hdiscipline t ht
  obtain rfl : u = t' := Option.some.inj (hu.symm.trans ht')
  exact ⟨t, u, expires, expires', ht, ht', hexpires, hexpires',
    hlater expires expires' hexpires hexpires'⟩

end AgentHub
