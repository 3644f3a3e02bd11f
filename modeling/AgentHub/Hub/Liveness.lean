import AgentHub.Hub.Identity
import AgentHub.Hub.Leases
import AgentHub.Hub.Ownership

namespace AgentHub

open Relational

/-!
# Staying alive

A heartbeat records that its agent is alive and renews the lease of its task, in one transaction:
where the dates of the lease leave the range of a `datetime` it does neither.

* `Db.LeaseInRange` — the dates of one renewal are in range; `heartbeat_commits_iff`, that this
  is exactly when the heartbeat of a worker on its task commits;
* `Hub.Attended` — the agent is not lost, and was last heard of at a given stamp or later;
  `attended_exec`, that every call keeps it but a sweep that finds the stamp too old;
* `heartbeat_liveness` — both, over all runs;
* `heartbeat_rolled_back` — a rail that is accepted and has no renewal in range.
-/

/-! ### One heartbeat -/

/-- The dates of a renewal at `at'` are in range: the cap of the task, and the end of the renewed
    lease unless the lease has run out or has reached the cap. -/
def Db.LeaseInRange (d : Db) (t : TaskRecord) (at' : Moment) : Prop :=
  ∀ expires ∈ t.leaseExpires, ∃ capMin ∈ d.leaseCap? t.workflowId,
    ∃ cap ∈ t.created.parse.addMicros? (minutes capMin),
      expires.parse ≤ at' ∨ cap ≤ at' ∨
        (at'.addMicros? (seconds t.leaseDurationS)).isSome = true

instance (d : Db) (t : TaskRecord) (at' : Moment) : Decidable (d.LeaseInRange t at') := by
  unfold Db.LeaseInRange; infer_instance

section

variable {c : Conn} {name : String} {a : AgentRecord} {remoteAddr : Option String}

/-- A renewal commits exactly when the times it computes are dates. -/
theorem renewLease_commits_iff {task : TaskRecord} {expires : Stamp} {at' : Moment} :
    (∃ c', Commits (renewLease task expires at' none) c () c') ↔
      ∃ capMin ∈ c.db.leaseCap? task.workflowId,
        ∃ cap ∈ task.created.parse.addMicros? (minutes capMin),
          expires.parse ≤ at' ∨ cap ≤ at' ∨
            (at'.addMicros? (seconds task.leaseDurationS)).isSome = true := by
  constructor
  · rintro ⟨c', h⟩
    obtain ⟨capMin, cap, hcap, hend, h⟩ := commits_renewLease.mp h
    refine ⟨capMin, hcap, cap, hend, ?_⟩
    by_cases hrun : expires.parse ≤ at'
    · exact .inl hrun
    by_cases hpast : cap ≤ at'
    · exact .inr (.inl hpast)
    rw [if_neg hrun, if_neg hpast] at h
    obtain ⟨extended, hextended, -⟩ := h
    exact .inr (.inr (by rw [hextended]; rfl))
  · rintro ⟨capMin, hcap, cap, hend, h⟩
    have hcommits (c' : Conn) (hc' : if expires.parse ≤ at' then c' = c
        else if cap ≤ at' then
          c' = { c with db := c.db.setLease task.id (some cap.toIso) at'.toIso }
        else ∃ extended, at'.addMicros? (seconds task.leaseDurationS) = some extended ∧
          let renewed := min (max extended expires.parse) cap
          if renewed = expires.parse then c' = c
          else c' = { c with db := c.db.setLease task.id (some renewed.toIso) at'.toIso }) :
        Commits (renewLease task expires at' none) c () c' :=
      commits_renewLease.mpr ⟨capMin, cap, hcap, hend, hc'⟩
    by_cases hrun : expires.parse ≤ at'
    · exact ⟨c, hcommits c (by rw [if_pos hrun])⟩
    by_cases hpast : cap ≤ at'
    · exact ⟨_, hcommits _ (by rw [if_neg hrun, if_pos hpast])⟩
    obtain ⟨extended, hextended⟩ :=
      Option.isSome_iff_exists.mp ((h.resolve_left hrun).resolve_left hpast)
    by_cases hsame : min (max extended expires.parse) cap = expires.parse
    · refine ⟨c, hcommits c ?_⟩
      rw [if_neg hrun, if_neg hpast]
      exact ⟨extended, hextended, by rw [if_pos hsame]⟩
    · let renewed := min (max extended expires.parse) cap
      refine ⟨{ c with db := c.db.setLease task.id (some renewed.toIso) at'.toIso },
        hcommits _ ?_⟩
      rw [if_neg hrun, if_neg hpast]
      exact ⟨extended, hextended, by rw [if_neg hsame]⟩

/-- **When the heartbeat of a worker on its task commits.** -/
theorem heartbeat_commits_iff (ha : c.db.agents.find? name = some a) (hlost : a.status ≠ .lost)
    {t : TaskRecord} (ht : c.db.tasks.find? t.id = some t) (hid : t.id ≠ "")
    (hcurrent : a.currentTaskId = some t.id) (hopen : t.isOpen)
    (hassignee : t.assignee = some name) :
    (∃ c', Commits (heartbeat name a.workerInstanceId (some t.id) none remoteAddr) c true c') ↔
      c.db.LeaseInRange t (c.clock 0) := by
  have hnamed : ¬ (some t.id = none ∨ some t.id = some "" ∨ a.currentTaskId ≠ some t.id) := by
    simp [hid, hcurrent]
  have hheld : ¬ (t.assignee ≠ some name ∨ t.state.terminal = true) := by
    have hstate : t.state.terminal = false := hopen
    simp [hassignee, hstate]
  have hcommits (c' : Conn) :
      Commits (heartbeat name a.workerInstanceId (some t.id) none remoteAddr) c true c' ↔
        t.leaseExpires.elim (c' = c.beaten name remoteAddr) fun expires =>
          Commits (renewLease t expires (c.clock 0) none) (c.beaten name remoteAddr) () c' := by
    rw [commits_heartbeat]
    constructor
    · rintro ⟨a', ha', h⟩
      obtain rfl : a = a' := Option.some.inj (ha.symm.trans ha')
      rw [if_neg (by simp [hlost]), if_neg hnamed] at h
      obtain ⟨-, t', ht', h⟩ := h
      obtain rfl : t = t' := Option.some.inj (ht.symm.trans ht')
      cases hlease : t.leaseExpires with
      | none =>
        simp only [hlease] at h
        exact h
      | some expires =>
        simp only [hlease, if_neg hheld] at h
        exact h
    · intro h
      refine ⟨a, ha, ?_⟩
      rw [if_neg (by simp [hlost]), if_neg hnamed]
      refine ⟨rfl, t, ht, ?_⟩
      cases hlease : t.leaseExpires with
      | none =>
        simp only [hlease] at h
        exact h
      | some expires =>
        simp only [hlease] at h
        dsimp only
        rw [if_neg hheld]
        exact h
  simp only [hcommits]
  cases hlease : t.leaseExpires with
  | none => simp [Db.LeaseInRange, hlease]
  | some expires =>
    simp only [Option.elim_some, renewLease_commits_iff, Db.LeaseInRange, hlease, Option.mem_def,
      Option.some.injEq, forall_eq']
    exact Iff.rfl

/-- An accepted heartbeat moves the stamps of its agent, whatever becomes of the lease. -/
theorem heartbeat_agents {c' : Conn} {workerInstanceId : String} {currentTaskId : Option String}
    {maxMin : Option ℚ}
    (h : Commits (heartbeat name workerInstanceId currentTaskId maxMin remoteAddr) c true c') :
    c'.db.agents = (c.beaten name remoteAddr).db.agents := by
  obtain ⟨agent, -, h⟩ := commits_heartbeat.mp h
  split at h
  · cases h.1
  obtain ⟨-, h⟩ := h
  split at h
  · rw [h]
  obtain ⟨task, -, h⟩ := h
  split at h
  · rw [h]
  split at h
  · rw [h]
  · obtain ⟨-, hdb | ⟨-, renewed, ts, hdb⟩⟩ := renewLease_cases h
    · rw [hdb]
    · rw [hdb]
      rfl

/-- The agent of an accepted heartbeat was heard of when it came. -/
theorem heartbeat_heard {c' : Conn} {workerInstanceId : String} {currentTaskId : Option String}
    {maxMin : Option ℚ} (ha : c.db.agents.find? name = some a)
    (h : Commits (heartbeat name workerInstanceId currentTaskId maxMin remoteAddr) c true c') :
    ∃ b, c'.db.agents.find? name = some b ∧ b.status = a.status ∧
      b.workerInstanceId = a.workerInstanceId ∧ (c.clock 0).toIso ≤ b.lastHeartbeat := by
  refine ⟨{ a with
    lastHeartbeat := max a.lastHeartbeat (c.clock 0).toIso
    lastSeen := max a.lastSeen (c.clock 0).toIso
    lastRemoteAddr := remoteAddr.or a.lastRemoteAddr }, ?_, rfl, rfl, le_max_right _ _⟩
  rw [heartbeat_agents h]
  show (c.db.beat name (c.clock 0).toIso remoteAddr).agents.find? name = _
  rw [Db.beat_agents, Table.find?_modify_self, ha]
  rfl

end

/-! ### Calls between heartbeats -/

/-- The agent is not lost; while it is live it is the process `instanceId`, last heard of at
    `last` or later. -/
def Hub.Attended (name instanceId : String) (last : Stamp) (s : Hub) : Prop :=
  ∃ a, s.db.agents.find? name = some a ∧ a.status ≠ .lost ∧
    (a.status.live → a.workerInstanceId = instanceId ∧ last ≤ a.lastHeartbeat)

/-- Of two times an agent was heard at, the later one. -/
theorem Hub.Attended.max {name instanceId : String} {last last' : Stamp} {s : Hub}
    (h : s.Attended name instanceId last) (h' : s.Attended name instanceId last') :
    s.Attended name instanceId (max last last') := by
  obtain ⟨a, ha, hlost, hlive⟩ := h
  obtain ⟨a', ha', -, hlive'⟩ := h'
  obtain rfl : a = a' := Option.some.inj (ha.symm.trans ha')
  exact ⟨a, ha, hlost, fun h => ⟨(hlive h).1, max_le (hlive h).2 (hlive' h).2⟩⟩

/-- An agent heard at a time was heard at every earlier one. -/
theorem Hub.Attended.mono {name instanceId : String} {last last' : Stamp} {s : Hub}
    (h : s.Attended name instanceId last) (hle : last' ≤ last) :
    s.Attended name instanceId last' := by
  obtain ⟨a, ha, hlost, hlive⟩ := h
  exact ⟨a, ha, hlost, fun h => ⟨(hlive h).1, hle.trans (hlive h).2⟩⟩

/-- The agent was heard of no later than it is now, and is lost only if it was. -/
structure AgentRecord.Heard (a b : AgentRecord) : Prop where
  lost : b.status = .lost → a.status = .lost
  heartbeat : a.lastHeartbeat ≤ b.lastHeartbeat

/-- An update that steps every row by `Heard` steps the row found under a name. -/
theorem heard_updateWhere {d d' : Db} {p : AgentRecord → Prop} [DecidablePred p]
    {f : AgentRecord → AgentRecord} {hf : ∀ a, (f a).name = a.name}
    (h : d'.agents = d.agents.updateWhere p f hf)
    (hstep : ∀ a : AgentRecord, a.Heard (f a)) {name : String} {a b : AgentRecord}
    (ha : d.agents.find? name = some a) (hb : d'.agents.find? name = some b) : a.Heard b := by
  rw [h, Table.find?_updateWhere, ha, Option.map_some] at hb
  obtain rfl := Option.some.inj hb
  split
  · exact hstep a
  · exact ⟨fun h => h, le_refl _⟩

/-- Ending a task is heard by its agent as nothing at all. -/
theorem heard_finish {d d' : Db} {taskId : String}
    (h : d'.agents = d.agents.updateWhere (fun a => a.currentTaskId = some taskId)
      (fun a => { a with
        status := if a.status = .busy then .idle else a.status, currentTaskId := none })
      fun _ => rfl)
    {name : String} {a b : AgentRecord} (ha : d.agents.find? name = some a)
    (hb : d'.agents.find? name = some b) : a.Heard b := by
  refine heard_updateWhere h (fun a => ⟨fun hlost => ?_, le_refl _⟩) ha hb
  by_cases hbusy : a.status = .busy
  · simp [hbusy] at hlost
  · simpa [hbusy] using hlost

/-- What is neither a check-in nor a loss loses no agent and keeps the stamps. -/
theorem heard_move {k : Kind} {s s' : Hub} (h : Move k s s') (hcheckIn : k ≠ .checkIn)
    (hlose : k ≠ .lose) (hloseTask : k ≠ .loseTask) {name : String} {a b : AgentRecord}
    (ha : s.db.agents.find? name = some a) (hb : s'.db.agents.find? name = some b) :
    a.Heard b := by
  have hsame (h : s'.db.agents = s.db.agents) : a.Heard b := by
    rw [h, ha] at hb
    obtain rfl := Option.some.inj hb
    exact ⟨fun h => h, le_refl _⟩
  cases h with
  | draw | create | setWorkflowStatus | decide | renew | ask | answer | claim | expire | append |
    lease | ack => exact hsame rfl
  | checkIn => exact absurd rfl hcheckIn
  | lose => exact absurd rfl hlose
  | loseTask => exact absurd rfl hloseTask
  | beat =>
    exact heard_updateWhere (Db.beat_agents ..) (fun a => ⟨fun h => h, le_max_left _ _⟩) ha hb
  | release =>
    exact heard_updateWhere (Db.setStatus_agents ..) (fun a => ⟨by simp, le_refl _⟩) ha hb
  | assign =>
    exact heard_updateWhere (Db.assign_agents ..) (fun a => ⟨by simp, le_refl _⟩) ha hb
  | progress =>
    exact heard_updateWhere (Db.progressAt_agents ..) (fun a => ⟨fun h => h, le_refl _⟩) ha hb
  | settle | cancel | override => exact heard_finish rfl ha hb

/-- A move that is no check-in and no loss keeps an agent attended. -/
theorem attended_move {k : Kind} {s s' : Hub} (h : Move k s s') (hcheckIn : k ≠ .checkIn)
    (hlose : k ≠ .lose) (hloseTask : k ≠ .loseTask) {name instanceId : String} {last : Stamp}
    (hs : s.Attended name instanceId last) : s'.Attended name instanceId last := by
  obtain ⟨a, ha, hlost, hattended⟩ := hs
  obtain ⟨b, hb, hstays⟩ := ((agents_move h hcheckIn) name).1 a ha
  have hheard := heard_move h hcheckIn hlose hloseTask ha hb
  refine ⟨b, hb, fun h => hlost (hheard.lost h), fun hlive => ?_⟩
  obtain ⟨hid, hlast⟩ := hattended (hstays.live hlive)
  exact ⟨hstays.instanceId.trans hid, hlast.trans hheard.heartbeat⟩

/-- A check-in under its name is refused to a live agent and leaves a released one released. -/
theorem attended_checkIn {s s' : Hub} (h : Move .checkIn s s') (hinstanced : s.db.Instanced)
    {name instanceId : String} {last : Stamp} (hs : s.Attended name instanceId last) :
    s'.Attended name instanceId last := by
  obtain ⟨a, ha, hlost, hattended⟩ := hs
  cases h with
  | @checkIn d _ who _ newId profile remoteAddr row d' ts _ _ _ _ hadmits =>
    by_cases hname : name = who
    · subst hname
      have hdead := (admits_agents hadmits hinstanced).2.1 a ha
      have hreleased : a.status = .released := by
        cases hstatus : a.status with
        | released => rfl
        | lost => exact absurd hstatus hlost
        | idle => exact absurd (.inl hstatus) hdead
        | busy => exact absurd (.inr hstatus) hdead
      cases hadmits with
      | new _ hnew =>
        rw [hnew] at ha
        cases ha
      | returned previous hprev =>
        obtain rfl : previous = a := Option.some.inj (hprev.symm.trans ha)
        have hrow : (d.readmit name (d.openTaskId previous.currentTaskId) newId profile remoteAddr
            ts).agents.find? name = some (previous.returned (d.openTaskId previous.currentTaskId)
              newId profile remoteAddr ts) := by
          rw [Db.readmit_agents, Table.find?_modify_self, hprev]
          rfl
        have hstatus : (previous.returned (d.openTaskId previous.currentTaskId) newId profile
            remoteAddr ts).status = .released := by
          simp [AgentRecord.returned, readmitted, hreleased]
        refine ⟨_, hrow, by simp [hstatus], fun hlive => ?_⟩
        rw [hstatus] at hlive
        simp [AgentStatus.live] at hlive
    · refine ⟨a, ?_, hlost, hattended⟩
      show d'.agents.find? name = some a
      rw [(admits_agents hadmits hinstanced).1 name hname]
      exact ha

/-! ### Sweeps -/

/-- The rows still to lose are those of other agents. -/
def SparesAgent (name instanceId : String) (last : Stamp) (rows : List AgentRecord) (t : Conn) :
    Prop :=
  (∀ r ∈ rows, r.name ≠ name) ∧ t.hub.Attended name instanceId last

/-- Losing one silent agent spares the attended one. -/
theorem SparesAgent.step {name instanceId : String} {last : Stamp} {row : AgentRecord}
    {rows : List AgentRecord} {t t' : Conn} {id : ℕ}
    (hI : SparesAgent name instanceId last (row :: rows) t) (h : Commits (loseAgent row) t id t') :
    SparesAgent name instanceId last rows t' := by
  obtain ⟨hrows, a, ha, hlost, hattended⟩ := hI
  refine ⟨fun r hr => hrows r (List.mem_cons_of_mem _ hr), ?_⟩
  have hother : name ≠ row.name := (hrows row List.mem_cons_self).symm
  have hmarked : (t.db.setStatus row.name .lost).agents.find? name = some a := by
    rw [Db.setStatus_agents, Table.find?_modify_ne _ hother]
    exact ha
  simp only [loseAgent, commits_bind, commits_writeDb, commits_readDb, commits_addEvent,
    and_assoc, exists_and_left, exists_eq_left, exists_const] at h
  cases hopen : (t.db.setStatus row.name .lost).openTaskId row.currentTaskId with
  | none =>
    simp only [hopen, failLost, commits_pure, true_and, exists_eq_left, exists_const] at h
    obtain ⟨-, rfl⟩ := h
    exact ⟨a, hmarked, hlost, hattended⟩
  | some taskId =>
    simp only [hopen, failLost, commits_finish, exists_eq_left, exists_const] at h
    obtain ⟨-, rfl⟩ := h
    have hfound : ((t.db.setStatus row.name .lost).finish taskId .failed
        (some (lostResult row.name)) (t.clock 0).toIso).agents.find? name
          = some (if a.currentTaskId = some taskId then
            { a with
              status := if a.status = .busy then .idle else a.status, currentTaskId := none }
            else a) := by
      rw [Db.finish_agents, Table.find?_updateWhere, hmarked]
      rfl
    refine ⟨_, hfound, ?_, ?_⟩
    · split
      · by_cases hbusy : a.status = .busy
        · simp [hbusy]
        · simpa [hbusy] using hlost
      · exact hlost
    · split
      · intro hlive
        refine hattended ?_
        by_cases hbusy : a.status = .busy
        · exact .inr hbusy
        · simpa [hbusy] using hlive
      · exact hattended

/-- **A sweep spares who was heard of after its cutoff.** -/
theorem attended_sweep {c c' : Conn} {lostAfterS : ℚ} {es : List EventRecord}
    {name instanceId : String} {last : Stamp} (hc : c.hub.Attended name instanceId last)
    (h : Commits (sweep lostAfterS) c es c')
    (hrecent : ∀ cutoff, (c.clock 0).addMicros? (-seconds lostAfterS) = some cutoff →
      cutoff.toIso < last) : c'.hub.Attended name instanceId last := by
  simp only [sweep, commits_bind, commits_now, commits_addMicros, commits_ite, commits_pure,
    commits_readDb, commits_notify, and_assoc, exists_and_left, exists_eq_left, exists_const] at h
  obtain ⟨expired, t, hexpired, cutoff, hcutoff, lost, t', hlost, h⟩ := h
  have hold := hrecent cutoff hcutoff
  -- expiring leases leaves the agents alone
  have hbefore : t.hub.Attended name instanceId last := by
    have hmoves := moves_expireLeases hexpired
    refine hmoves.invariant (I := fun s => s.Attended name instanceId last)
      (fun k s s' hk hmove hI => ?_) hc
    subst hk
    exact attended_move hmove (by simp) (by simp) (by simp) hI
  have hafter : t'.hub.Attended name instanceId last := by
    rw [loseAgents, commits_readDb_bind] at hlost
    have hspares : SparesAgent name instanceId last
        (t.db.agents.rows.filter fun a => a.silent cutoff.toIso) t := by
      refine ⟨fun r hr hname => ?_, hbefore⟩
      obtain ⟨hmem, hsilent⟩ := List.mem_filter.mp hr
      obtain ⟨hlive, hsince⟩ := of_decide_eq_true hsilent
      obtain ⟨a, ha, -, hattended⟩ := hbefore
      have hr' : t.db.agents.find? name = some r := hname ▸ Table.find?_of_mem hmem
      obtain rfl : r = a := Option.some.inj (hr'.symm.trans ha)
      exact absurd ((hattended hlive).2.trans hsince) (not_le_of_gt hold)
    exact (hlost.mapM_induction (SparesAgent name instanceId last)
      (fun _ _ _ _ _ hI hc => hI.step hc) hspares).2
  obtain ⟨-, -, rfl⟩ | ⟨-, -, rfl⟩ := h
  · exact hafter
  · exact hafter

/-- Every call attends to an agent, but for a sweep that finds its last stamp too old. -/
theorem attended_exec (l : Call) {s : Hub} (hinstanced : s.db.Instanced)
    {name instanceId : String} {last : Stamp} (hs : s.Attended name instanceId last)
    (hrecent : ∀ lostAfterS cutoff, l.op = .sweep lostAfterS →
      (l.clock 0).addMicros? (-seconds lostAfterS) = some cutoff → cutoff.toIso < last) :
    (l.exec s).Attended name instanceId last := by
  by_cases hkind : .lose ∈ l.op.kinds
  · obtain ⟨op, clock⟩ := l
    cases op with
    | sweep lostAfterS =>
      rw [Call.exec_eq rfl clock s]
      rcases atomically_cases (sweep lostAfterS) (s.connect clock) with
        ⟨es, c', hc, hat⟩ | ⟨e, -, hat⟩
      · rw [hat]
        have hc0 : (s.connect clock).hub.Attended name instanceId last := hs
        exact attended_sweep hc0 hc fun cutoff => hrecent lostAfterS cutoff rfl
      · rw [hat]
        exact hs
    | _ => simp [Op.kinds] at hkind
  · have hno : .loseTask ∉ l.op.kinds := by
      obtain ⟨op, clock⟩ := l
      cases op <;> simp_all [Op.kinds]
    have hboth := (moves_exec l s).invariant
      (I := fun t => t.db.Instanced ∧ t.Attended name instanceId last)
      (fun k t t' hk hmove hI => ⟨instanced_move hmove hI.1, ?_⟩) ⟨hinstanced, hs⟩
    · exact hboth.2
    · by_cases hcheckIn : k = .checkIn
      · subst hcheckIn
        exact attended_checkIn hmove hI.1 hI.2
      · exact attended_move hmove hcheckIn (fun h => hkind (h ▸ hk)) (fun h => hno (h ▸ hk)) hI.2

/-! ### Runs -/

/-- Every task has an id. -/
def Db.Named (d : Db) : Prop := ∀ id t, d.tasks.find? id = some t → id ≠ ""

/-- A call keeps every agent under its own name. -/
theorem named_exec (l : Call) {s : Hub} (hs : s.db.Named) : (l.exec s).db.Named := by
  by_cases hkind : .assign ∈ l.op.kinds
  · obtain ⟨op, clock⟩ := l
    cases op with
    | assignTask agent role title instructions leaseMin prHeadSha sourceEventId =>
      rw [Call.exec_eq rfl clock s]
      rcases atomically_cases
          (assignTask agent role title instructions leaseMin prHeadSha sourceEventId)
          (s.connect clock) with ⟨t, c', hc, hat⟩ | ⟨e, -, hat⟩
      · rw [hat]
        intro id t' ht'
        obtain ⟨-, hsame | ⟨_, _, _, -, -, -, -, -, -, hid, -, hrewrites⟩⟩ := assignTask_lease hc
        · exact hs id t' (hsame ▸ ht')
        · have ht'' : c'.db.tasks.find? id = some t' := ht'
          rw [hrewrites] at ht''
          split at ht''
          · rename_i heq
            exact heq ▸ hid
          · exact hs id t' ht''
      · rw [hat]
        exact hs
    | _ => simp [Op.kinds] at hkind
  · refine (moves_exec l s).invariant (I := fun t => t.db.Named) (fun k t t' hk hmove hI => ?_) hs
    intro id u hu
    obtain hsame | ⟨hassign, -⟩ | ⟨old, new, hold, hwrites, hrewrites⟩ := tasks_move hmove
    · exact hI id u (hsame ▸ hu)
    · exact absurd (hassign ▸ hk) hkind
    · rw [hrewrites] at hu
      split at hu
      · rename_i heq
        rw [heq, hwrites.id]
        exact hI old.id old hold
      · exact hI id u hu

/-- What the theorems about one heartbeat need of the state it comes in. -/
structure Hub.Sound (s : Hub) : Prop where
  roster : s.db.roster.Consistent
  instanced : s.db.Instanced
  named : s.db.Named

/-- A call keeps the hub sound. -/
theorem sound_exec (l : Call) {s : Hub} (hs : s.Sound) : (l.exec s).Sound where
  roster := (moves_exec l s).invariant (I := fun t => t.db.roster.Consistent)
    (fun _ _ _ _ hmove h => consistent_move hmove h) hs.roster
  instanced := (moves_exec l s).invariant (I := fun t => t.db.Instanced)
    (fun _ _ _ _ hmove h => instanced_move hmove h) hs.instanced
  named := named_exec l hs.named

/-- The hub is sound after every run. -/
theorem sound_run (u : Uuids) (ls : List Call) : ((Hub.start u).run ls).Sound := by
  have h0 : (Hub.start u).Sound := by
    refine ⟨consistent_start u, fun name a ha => ?_, fun id t ht => ?_⟩
    · cases ha
    · cases ht
  exact run_invariant (I := Hub.Sound) (fun l _ => sound_exec l) h0 ls

/-- What an agent has as its current task is an open task of its own. -/
theorem Hub.Sound.current {s : Hub} (hs : s.Sound) {name taskId : String} {a : AgentRecord}
    (ha : s.db.agents.find? name = some a) (hcurrent : a.currentTaskId = some taskId) :
    ∃ t, s.db.tasks.find? taskId = some t ∧ t.isOpen ∧ t.assignee = some name := by
  have hopen := hs.roster.holds (hcurrent ▸ roster_agent_of ha)
  simp only [Db.roster, Option.map_eq_some_iff, Option.filter_eq_some_iff] at hopen
  obtain ⟨t, ⟨ht, hto⟩, howner⟩ := hopen
  exact ⟨t, ht, of_decide_eq_true hto, howner⟩

/-- The call is a heartbeat of the process `instanceId`, and if it names the current task of its
    agent, the dates of that task's lease are in range. -/
def Call.Beats (l : Call) (name instanceId : String) (s : Hub) : Prop :=
  ∃ currentTaskId remoteAddr, l.op = .heartbeat name instanceId currentTaskId none remoteAddr ∧
    ∀ a t, s.db.agents.find? name = some a → a.currentTaskId = currentTaskId →
      (currentTaskId.bind s.db.tasks.find?) = some t → s.db.LeaseInRange t (l.clock 0)

/-- A heartbeat with its dates in range is attended to. -/
theorem attended_beat {l : Call} {s : Hub} (hs : s.Sound) {name instanceId : String}
    {last : Stamp} (hattended : s.Attended name instanceId last)
    (hbeats : l.Beats name instanceId s) :
    (l.exec s).Attended name instanceId (l.clock 0).toIso := by
  have hkept := attended_exec l hs.instanced hattended (by
    obtain ⟨_, _, hop, -⟩ := hbeats
    intro lostAfterS cutoff hsweep
    rw [hop] at hsweep
    cases hsweep)
  obtain ⟨a, ha, hlost, hlive⟩ := hattended
  obtain ⟨b, hb, hlost', hlive'⟩ := hkept
  refine ⟨b, hb, hlost', fun hbl => ⟨(hlive' hbl).1, ?_⟩⟩
  obtain ⟨currentTaskId, remoteAddr, hop, hrange⟩ := hbeats
  obtain ⟨op, clock⟩ := l
  obtain rfl : op = _ := hop
  have hmoves := moves_exec ⟨.heartbeat name instanceId currentTaskId none remoteAddr, clock⟩ s
  -- the agent was live before, so this is its current process
  have hal : a.status.live := by
    refine (hmoves.invariant (I := fun t => s.db.AgentsStay t.db)
      (fun k t t' hk hmove hI => hI.trans (agents_move hmove ?_)) (agentsStay_of_eq rfl) name).1 a
        ha |>.elim fun b' hb' => ?_
    · rintro rfl
      simp [Op.kinds] at hk
    · obtain rfl : b' = b := Option.some.inj (hb'.1.symm.trans hb)
      exact hb'.2.live hbl
  obtain ⟨hid, -⟩ := hlive hal
  have hcommits : ∃ c', Commits (heartbeat name instanceId currentTaskId none remoteAddr)
      (s.connect clock) true c' := by
    by_cases hnamed : currentTaskId = none ∨ currentTaskId = some "" ∨
        a.currentTaskId ≠ currentTaskId
    · refine ⟨(s.connect clock).beaten name remoteAddr, commits_heartbeat.mpr ⟨a, ha, ?_⟩⟩
      rw [if_neg (by simp [hid, hlost]), if_pos hnamed]
      exact ⟨rfl, rfl⟩
    · simp only [not_or, not_not] at hnamed
      obtain ⟨hsome, hne, hcurrent⟩ := hnamed
      obtain ⟨taskId, rfl⟩ := Option.ne_none_iff_exists'.mp hsome
      obtain ⟨t, ht, hopen, hassignee⟩ := hs.current ha hcurrent
      obtain rfl : t.id = taskId := Table.find?_key ht
      subst hid
      exact (heartbeat_commits_iff (c := s.connect clock) ha hlost ht (hs.named t.id t ht) hcurrent
        hopen hassignee).mpr (hrange a t ha hcurrent ht)
  obtain ⟨c', hc⟩ := hcommits
  obtain ⟨b', hb', -, -, hheard⟩ := heartbeat_heard (c := s.connect clock) ha hc
  have hexec : Call.exec ⟨.heartbeat name instanceId currentTaskId none remoteAddr, clock⟩ s
      = c'.hub := by
    rw [Call.exec_eq rfl clock s, atomically_of_commits hc]
  rw [hexec] at hb
  obtain rfl : b' = b := Option.some.inj (hb'.symm.trans hb)
  exact hheard

/-- **The process keeps heartbeating.**  When a sweep of the run comes, it was last heard of after
    the sweep's cutoff: before the run, at `last`, or by a heartbeat in the run whose dates were
    in range.  Stamps are compared as they are stored, in milliseconds. -/
def KeepsBeating (name instanceId : String) (last : Stamp) (s : Hub) (later : List Call) : Prop :=
  ∀ ms lostAfterS clock cutoff, ms ++ [⟨.sweep lostAfterS, clock⟩] <+: later →
    (clock 0).addMicros? (-seconds lostAfterS) = some cutoff →
      cutoff.toIso < last ∨ ∃ before beat rest, ms = before ++ beat :: rest ∧
        beat.Beats name instanceId (s.run before) ∧ cutoff.toIso < (beat.clock 0).toIso

/-- A run and one call more. -/
theorem Hub.run_concat (s : Hub) (ls : List Call) (l : Call) :
    s.run (ls ++ [l]) = l.exec (s.run ls) := runFrom_concat Call.exec s ls l

/-- Along a run in which the process keeps heartbeating, every heartbeat stays attended to. -/
theorem attended_run {s : Hub} (hs : s.Sound) {name instanceId : String} {last : Stamp}
    {later : List Call} (hbeating : KeepsBeating name instanceId last s later)
    (hattended : s.Attended name instanceId last) (ms : List Call) (hms : ms <+: later) :
    (s.run ms).Attended name instanceId last ∧
      ∀ before beat rest, ms = before ++ beat :: rest →
        beat.Beats name instanceId (s.run before) →
          (s.run ms).Attended name instanceId (beat.clock 0).toIso := by
  induction ms using List.reverseRecOn with
  | nil => exact ⟨hattended, fun before beat rest h => by simp at h⟩
  | append_singleton ms l ih =>
    obtain ⟨hlast, hbeats⟩ := ih ((List.prefix_append ms [l]).trans hms)
    have hsound : (s.run ms).Sound := run_invariant (I := Hub.Sound) (fun l _ => sound_exec l) hs ms
    rw [Hub.run_concat]
    -- the stamp that the sweep, if `l` is one, finds recent enough
    have hkeeps : ∃ stamp, (s.run ms).Attended name instanceId stamp ∧
        ∀ lostAfterS cutoff, l.op = .sweep lostAfterS →
          (l.clock 0).addMicros? (-seconds lostAfterS) = some cutoff → cutoff.toIso < stamp := by
      obtain ⟨op, clock⟩ := l
      by_cases hsweep : ∃ lostAfterS cutoff, op = .sweep lostAfterS ∧
          (clock 0).addMicros? (-seconds lostAfterS) = some cutoff
      · obtain ⟨lostAfterS, cutoff, rfl, hcutoff⟩ := hsweep
        have hrecent {stamp : Stamp} (hlt : cutoff.toIso < stamp) : ∀ lostAfterS' cutoff',
            Op.sweep lostAfterS = .sweep lostAfterS' →
              (clock 0).addMicros? (-seconds lostAfterS') = some cutoff' →
                cutoff'.toIso < stamp := by
          intro lostAfterS' cutoff' hop hcutoff'
          cases hop
          obtain rfl := Option.some.inj (hcutoff.symm.trans hcutoff')
          exact hlt
        obtain hlt | ⟨before, beat, rest, hsplit, hbeat, hlt⟩ :=
          hbeating ms lostAfterS clock cutoff hms hcutoff
        · exact ⟨last, hlast, hrecent hlt⟩
        · exact ⟨_, hbeats before beat rest hsplit hbeat, hrecent hlt⟩
      · exact ⟨last, hlast, fun lostAfterS cutoff hop hcutoff =>
          absurd ⟨lostAfterS, cutoff, hop, hcutoff⟩ hsweep⟩
    obtain ⟨stamp, hstamp, hrecent⟩ := hkeeps
    -- with a recent stamp the agent keeps its older ones
    have hcarry {older : Stamp} (holder : (s.run ms).Attended name instanceId older) :
        (l.exec (s.run ms)).Attended name instanceId older := by
      have hafter := attended_exec l hsound.instanced (hstamp.max holder)
        fun lostAfterS cutoff hop hcutoff =>
          lt_of_lt_of_le (hrecent lostAfterS cutoff hop hcutoff) (le_max_left _ _)
      exact hafter.mono (le_max_right _ _)
    refine ⟨hcarry hlast, fun before beat rest hsplit hbeat => ?_⟩
    rcases List.eq_nil_or_concat rest with rfl | ⟨rest, l', rfl⟩
    · obtain ⟨rfl, hl⟩ := List.append_inj' hsplit rfl
      obtain rfl : l = beat := by simpa using hl
      exact attended_beat hsound hlast hbeat
    · have hsplit' : ms = before ++ beat :: rest := by
        have h : ms ++ [l] = (before ++ beat :: rest) ++ [l'] := by simpa using hsplit
        exact (List.append_inj' h rfl).1
      exact hcarry (hbeats before beat rest hsplit' hbeat)

/-- **When a heartbeat keeps its worker alive.**  In every state of every run the heartbeat of an
    agent's current process on its open current task commits, and records a stamp no older than
    its clock, exactly when the dates of the lease are in range; and along every run in which the
    process keeps heartbeating with the dates in range, its agent is never lost. -/
theorem heartbeat_liveness (u : Uuids) (ls : List Call) (name : String) (a : AgentRecord)
    (ha : ((Hub.start u).run ls).db.agents.find? name = some a) (hlost : a.status ≠ .lost) :
    let s := (Hub.start u).run ls
    (∀ taskId t remoteAddr clock, a.currentTaskId = some taskId →
      s.db.tasks.find? taskId = some t → t.isOpen →
        ((∃ c', Commits (heartbeat name a.workerInstanceId (some taskId) none remoteAddr)
            (s.connect clock) true c' ∧ ∃ b, c'.db.agents.find? name = some b ∧
              (clock 0).toIso ≤ b.lastHeartbeat) ↔
          s.db.LeaseInRange t (clock 0))) ∧
    ∀ later, KeepsBeating name a.workerInstanceId a.lastHeartbeat s later →
      HoldsAlong Call.exec
        (fun s' => ∃ b, s'.db.agents.find? name = some b ∧ b.status ≠ .lost) s later := by
  intro s
  have hs : s.Sound := sound_run u ls
  refine ⟨fun taskId t remoteAddr clock hcurrent ht hopen => ?_, fun later hbeating ms hms => ?_⟩
  · obtain ⟨t', ht', -, hassignee⟩ := hs.current ha hcurrent
    obtain rfl : t = t' := Option.some.inj (ht.symm.trans ht')
    obtain rfl : t.id = taskId := Table.find?_key ht
    have hiff : (∃ c', Commits (heartbeat name a.workerInstanceId (some t.id) none remoteAddr)
        (s.connect clock) true c') ↔ s.db.LeaseInRange t (clock 0) :=
      heartbeat_commits_iff (c := s.connect clock) ha hlost ht (hs.named t.id t ht) hcurrent hopen
        hassignee
    rw [← hiff]
    constructor
    · rintro ⟨c', hc, -⟩
      exact ⟨c', hc⟩
    · rintro ⟨c', hc⟩
      obtain ⟨b, hb, -, -, hheard⟩ := heartbeat_heard (c := s.connect clock) ha hc
      exact ⟨c', hc, b, hb, hheard⟩
  · have hattended : s.Attended name a.workerInstanceId a.lastHeartbeat :=
      ⟨a, ha, hlost, fun _ => ⟨rfl, le_refl _⟩⟩
    obtain ⟨b, hb, hlost', -⟩ := (attended_run hs hbeating hattended ms hms).1
    exact ⟨b, hb, hlost'⟩

/-- Ada holds a task under the rail `maxTaskLeaseMin`. -/
def assignedUnder (maxTaskLeaseMin : ℚ) : List Call :=
  [⟨.initializeWorkflow "goal" { maxTaskLeaseMin := some maxTaskLeaseMin }, stoppedAt 0⟩,
    ⟨.checkIn "ada" {} (some "ada-1") {} none, stoppedAt 0⟩,
    ⟨.assignTask "ada" "implementer" "title" "instructions" 30 none none, stoppedAt 0⟩]

/-- Ada's heartbeat after 170 seconds, and a sweep 20 seconds later. -/
def beatThenSweep : List Call :=
  [⟨.heartbeat "ada" "ada-1" (some "uuu") none none, stoppedAt 170000000⟩,
    ⟨.sweep 180, stoppedAt 190000000⟩]

/-- Under a rail of ten minutes Ada's heartbeat commits and the sweep spares her. -/
theorem heartbeat_attended :
    let s := (Hub.start .unary).run (assignedUnder 10)
    (∃ c', Commits (heartbeat "ada" "ada-1" (some "uuu") none none)
      (s.connect (stoppedAt 170000000)) true c') ∧
    HoldsAlong Call.exec
      (fun s' => ∃ b, s'.db.agents.find? "ada" = some b ∧ b.status ≠ .lost) s beatThenSweep := by
  intro s
  have hagent : ∃ a ∈ s.db.agents.rows, a.name = "ada" ∧ a.status ≠ .lost ∧
      a.workerInstanceId = "ada-1" ∧ a.currentTaskId = some "uuu" := by
    decide +kernel
  have htask : ∃ t ∈ s.db.tasks.rows, t.id = "uuu" ∧ t.isOpen ∧
      s.db.LeaseInRange t (stoppedAt 170000000 0) := by
    decide +kernel
  have hcutoff : ∀ cutoff, (stoppedAt 190000000 0).addMicros? (-seconds 180) = some cutoff →
      cutoff.toIso < (stoppedAt 170000000 0).toIso := by
    intro cutoff h
    have hcutoff : (stoppedAt 190000000 0).addMicros? (-seconds 180) =
      some ⟨10000000, by decide⟩ := by
      decide +kernel
    obtain rfl := Option.some.inj (hcutoff.symm.trans h)
    decide +kernel
  obtain ⟨a, ha, hname, hlost, hid, hcurrent⟩ := hagent
  obtain ⟨t, ht, htid, hopen, hrange⟩ := htask
  have hfound : s.db.agents.find? "ada" = some a :=
    hname ▸ Table.find?_of_mem (Table.mem_iff.mpr ha)
  have htfound : s.db.tasks.find? "uuu" = some t := htid ▸ Table.find?_of_mem (Table.mem_iff.mpr ht)
  obtain ⟨hiff, hruns⟩ := heartbeat_liveness .unary (assignedUnder 10) "ada" a hfound hlost
  rw [hid] at hiff hruns
  refine ⟨?_, hruns beatThenSweep fun ms lostAfterS clock cutoff hms h => .inr ?_⟩
  · obtain ⟨c', hc, -⟩ :=
      (hiff "uuu" t none (stoppedAt 170000000) hcurrent htfound hopen).mpr hrange
    exact ⟨c', hc⟩
  · -- the one sweep comes after the one heartbeat
    rcases ms with - | ⟨beat, - | ⟨l, ms⟩⟩
    · simp [beatThenSweep] at hms
    · simp only [beatThenSweep, List.cons_append, List.nil_append, List.cons_prefix_cons,
        List.prefix_nil] at hms
      obtain ⟨rfl, heq, -⟩ := hms
      cases heq
      refine ⟨[], _, [], rfl, ⟨some "uuu", none, rfl, fun b u hb hbcurrent hu => ?_⟩,
        hcutoff cutoff h⟩
      have hu' : s.db.tasks.find? "uuu" = some u := hu
      obtain rfl : t = u := Option.some.inj (htfound.symm.trans hu')
      exact hrange
    · have hlen := hms.length_le
      simp [beatThenSweep] at hlen

/-- **A rail that disables heartbeats.**  A million million minutes is an accepted rail.  Under it
    the heartbeat of Ada's current process on her open current task raises, whatever it has
    recorded is rolled back, and the sweep 20 seconds after it declares her lost. -/
theorem heartbeat_rolled_back :
    let policy : WorkflowPolicy := { maxTaskLeaseMin := some 1000000000000 }
    let s := (Hub.start .unary).run (assignedUnder 1000000000000)
    policy.violations = [] ∧
    (∃ a ∈ s.db.agents.rows, a.name = "ada" ∧ a.status = .busy ∧ a.workerInstanceId = "ada-1" ∧
      a.currentTaskId = some "uuu") ∧
    (∃ t ∈ s.db.tasks.rows, t.id = "uuu" ∧ t.isOpen) ∧
    (∀ accepted c', ¬ Commits (heartbeat "ada" "ada-1" (some "uuu") none none)
      (s.connect (stoppedAt 170000000)) accepted c') ∧
    ∃ a ∈ (s.run beatThenSweep).db.agents.rows, a.name = "ada" ∧ a.status = .lost := by
  intro policy s
  refine ⟨by decide +kernel, by decide +kernel, by decide +kernel, fun accepted c' h => ?_,
    by decide +kernel⟩
  have hnone : (atomically (heartbeat "ada" "ada-1" (some "uuu") none none)
      (s.connect (stoppedAt 170000000))).1.toOption = none := by decide +kernel
  rw [atomically_of_commits h] at hnone
  cases hnone

end AgentHub
