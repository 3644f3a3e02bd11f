import AgentHub.Hub.Inbox
import AgentHub.Hub.Leases
import AgentHub.Hub.Ownership

namespace AgentHub

open Relational

/-!
# What a sweep reports

The sweeper works through two lists of rows, and each turn of a loop may change what the next one
looks at.  Here both loops are summed up, in the terms of the state before the sweep.

* `Db.Expires`, `expires_loop` — what `_expire_leases` does; `Db.Loses`, `loses_loop` — what
  `_lose_agents` does, where open tasks and their workers point at each other;
* `Db.Swept` — what a sweep ought to do; `swept_sweep`, that one which commits does it;
* `Hub.Reports` — the same of a call; `reports_iff`, when a call meets it;
* `lossesAlong` — who was lost along a run; `lostNames_run`, that the events say just that;
* `sweep_reports_once` — all of it, in every state of every run;
* `overdue_unreported` — a `lost_after_s` that is accepted and disables the sweeper.
-/

/-! ### Expired leases -/

/-- The lease of the task is overdue at `at'`. -/
def TaskRecord.dueAt (t : TaskRecord) (at' : Moment) : Prop :=
  t.isOpen ∧ ∃ expires ∈ t.leaseExpires, expires.parse ≤ at'

instance (t : TaskRecord) (at' : Moment) : Decidable (t.dueAt at') := by
  unfold TaskRecord.dueAt; infer_instance

/-- A stamp is at or before an instant exactly when it is at or before the stamp of it. -/
theorem le_toIso_iff {s : Stamp} {m : Moment} : s ≤ m.toIso ↔ s.parse ≤ m :=
  (Nat.le_div_iff_mul_le (by decide)).trans Iff.rfl

/-- The sweep's `WHERE` clause compares texts, and that compares the times. -/
theorem overdue_iff {t : TaskRecord} {at' : Moment} : t.overdue at'.toIso ↔ t.dueAt at' :=
  and_congr_right fun _ => exists_congr fun _ => and_congr_right fun _ => le_toIso_iff

/-- The report of an expired lease. -/
def TaskRecord.expiry (t : TaskRecord) : EventPayload :=
  .leaseExpired t.id t.assignee t.leaseExpires

/-- The leases of `rows` are cleared, and reported by the events `new`. -/
structure Db.Expires (d d' : Db) (rows : List TaskRecord) (new : List EventRecord) : Prop where
  frame : d' = { d with tasks := d'.tasks, events := d'.events }
  ids : d'.tasks.rows.map TaskRecord.id = d.tasks.rows.map TaskRecord.id
  tasks : ∀ id t, d.tasks.find? id = some t → ∃ t', d'.tasks.find? id = some t' ∧
    (t ∈ rows → ∃ ts, t' = { t with leaseExpires := none, updated := ts }) ∧ (t ∉ rows → t' = t)
  events : d'.events.rows = d.events.rows ++ new
  payloads : new.map EventRecord.payload = rows.map TaskRecord.expiry
  queued : ∀ e ∈ new, e.isNew

section

variable {c c' : Conn}

/-- Reporting one expired lease takes the next event number and writes one event. -/
theorem commits_expireLease {row : TaskRecord} {id : ℕ} :
    Commits (expireLease row) c id c' ↔
      id = c.db.events.seq + 1 ∧ c' = { c with
        clock := fun n => c.clock (n + 2)
        db := (c.db.setLease row.id none (c.clock 0).toIso).addEvent row.expiry
          (c.clock 1).toIso } := by
  simp [expireLease, TaskRecord.expiry]

/-- **The first loop**, over rows of the table. -/
theorem expires_loop {rows : List TaskRecord} {ids : List ℕ}
    (h : Commits (rows.mapM expireLease) c ids c') (hnodup : (rows.map TaskRecord.id).Nodup)
    (hrows : ∀ r ∈ rows, c.db.tasks.find? r.id = some r) :
    c'.uuids = c.uuids ∧ c'.notified = c.notified ∧
      ∃ new, c.db.Expires c'.db rows new ∧ ids = new.map EventRecord.id := by
  induction rows generalizing c ids with
  | nil =>
    obtain ⟨rfl, rfl⟩ := commits_mapM_nil.mp h
    refine ⟨rfl, rfl, [], ⟨rfl, rfl, ?_, ?_, rfl, ?_⟩, rfl⟩
    · exact fun id t ht => ⟨t, ht, fun hmem => absurd hmem (List.not_mem_nil), fun _ => rfl⟩
    · exact (List.append_nil _).symm
    · exact fun e he => absurd he List.not_mem_nil
  | cons row rows ih =>
    obtain ⟨id, t, ids', hrow, hrest, rfl⟩ := commits_mapM_cons.mp h
    obtain ⟨rfl, rfl⟩ := commits_expireLease.mp hrow
    rw [List.map_cons, List.nodup_cons] at hnodup
    have hne : ∀ r ∈ rows, r.id ≠ row.id := fun r hr heq =>
      hnodup.1 (heq ▸ List.mem_map_of_mem hr)
    -- the later rows are untouched by this turn, since no id occurs twice
    obtain ⟨huuids, hnotified, new, hexpires, rfl⟩ := ih hrest hnodup.2 fun r hr => by
      show (c.db.setLease row.id none (c.clock 0).toIso).tasks.find? r.id = some r
      rw [Db.setLease_tasks, Table.find?_modify_ne _ (hne r hr)]
      exact hrows r (List.mem_cons_of_mem row hr)
    have hids : (c.db.setLease row.id none (c.clock 0).toIso).tasks.rows.map TaskRecord.id =
        c.db.tasks.rows.map TaskRecord.id := by
      rw [Db.setLease_tasks]
      exact Table.keys_modify ..
    refine ⟨huuids, hnotified,
      { id := c.db.events.seq + 1, payload := row.expiry, ts := (c.clock 1).toIso } :: new,
      ⟨hexpires.frame, hexpires.ids.trans hids, fun id t ht => ?_, ?_, ?_, ?_⟩, rfl⟩
    · have hid : t.id = id := Table.find?_key ht
      by_cases heq : id = row.id
      · -- the row of this turn, which is not among those of the later ones
        have hrow := hrows row List.mem_cons_self
        obtain rfl : row = t := Option.some.inj (hrow.symm.trans (heq ▸ ht))
        have hfound : (c.db.setLease row.id none (c.clock 0).toIso).tasks.find? id =
            some { row with leaseExpires := none, updated := (c.clock 0).toIso } := by
          rw [Db.setLease_tasks, heq, Table.find?_modify_self, hrow]
          rfl
        obtain ⟨t', ht', -, hsame⟩ := hexpires.tasks id _ hfound
        have hnot : { row with leaseExpires := none, updated := (c.clock 0).toIso } ∉ rows :=
          fun hmem => hne _ hmem rfl
        exact ⟨t', ht', fun _ => ⟨_, hsame hnot⟩, fun h => absurd List.mem_cons_self h⟩
      · have hfound : (c.db.setLease row.id none (c.clock 0).toIso).tasks.find? id = some t := by
          rw [Db.setLease_tasks, Table.find?_modify_ne _ heq]
          exact ht
        obtain ⟨t', ht', hcleared, hsame⟩ := hexpires.tasks id t hfound
        refine ⟨t', ht', fun hmem => ?_, fun hmem => ?_⟩
        · rcases List.mem_cons.mp hmem with rfl | hmem
          · exact absurd hid.symm heq
          · exact hcleared hmem
        · exact hsame fun h => hmem (List.mem_cons_of_mem row h)
    · rw [hexpires.events]
      exact List.append_assoc _ [_] new
    · rw [List.map_cons, List.map_cons, hexpires.payloads]
    · intro e he
      rcases List.mem_cons.mp he with rfl | he
      · exact ⟨rfl, rfl, rfl⟩
      · exact hexpires.queued e he

/-- Reporting a list of expired leases never fails. -/
theorem expireLoop_commits (rows : List TaskRecord) (c : Conn) :
    ∃ ids c', Commits (rows.mapM expireLease) c ids c' := by
  induction rows generalizing c with
  | nil => exact ⟨[], c, commits_mapM_nil.mpr ⟨rfl, rfl⟩⟩
  | cons row rows ih =>
    obtain ⟨ids, c', h⟩ := ih _
    exact ⟨_, c', commits_mapM_cons.mpr ⟨_, _, _, commits_expireLease.mpr ⟨rfl, rfl⟩, h, rfl⟩⟩

end

/-! ### Lost agents -/

/-- The agent, lost and holding nothing. -/
def AgentRecord.lost (a : AgentRecord) : AgentRecord :=
  { a with status := .lost, currentTaskId := none }

/-- The task, failed because its worker `name` was lost. -/
def TaskRecord.lostWith (t : TaskRecord) (name : String) (ts : Stamp) : TaskRecord :=
  { t with
    state := .failed, updated := ts, leaseExpires := none, result := some (lostResult name) }

/-- The report of a lost agent. -/
def AgentRecord.loss (a : AgentRecord) : EventPayload :=
  .agentLost a.name a.currentTaskId a.lastHeartbeat

/-- The agents `rows` are lost, what they held has failed, and the events `new` report it. -/
structure Db.Loses (d d' : Db) (rows : List AgentRecord) (new : List EventRecord) : Prop where
  frame : d' = { d with agents := d'.agents, tasks := d'.tasks, events := d'.events }
  ids : d'.tasks.rows.map TaskRecord.id = d.tasks.rows.map TaskRecord.id
  agents : d'.agents.rows = d.agents.rows.map fun a => if a ∈ rows then a.lost else a
  tasks : ∀ id t, d.tasks.find? id = some t → ∃ t', d'.tasks.find? id = some t' ∧
    (∀ r ∈ rows, r.currentTaskId = some id → ∃ ts, t' = t.lostWith r.name ts) ∧
    ((∀ r ∈ rows, r.currentTaskId ≠ some id) → t' = t)
  events : d'.events.rows = d.events.rows ++ new
  payloads : new.map EventRecord.payload = rows.map AgentRecord.loss
  queued : ∀ e ∈ new, e.isNew

section

variable {c c' : Conn}

/-- The writes of one turn: the agent is lost, and so is its task. -/
def Db.lose (d : Db) (row : AgentRecord) (ts : Stamp) : Db :=
  row.currentTaskId.elim (d.setStatus row.name .lost) fun id =>
    (d.setStatus row.name .lost).finish id .failed (some (lostResult row.name)) ts

/-- One turn of the second loop, on an agent and the open task it holds. -/
theorem commits_loseAgent {row : AgentRecord} {id : ℕ}
    (hheld : c.db.openTaskId row.currentTaskId = row.currentTaskId) :
    Commits (loseAgent row) c id c' → id = c.db.events.seq + 1 ∧ c'.uuids = c.uuids ∧
      c'.notified = c.notified ∧
      ∃ ts ts', c'.db = (c.db.lose row ts).addEvent row.loss ts' := by
  intro h
  have hlookup : (c.db.setStatus row.name .lost).openTaskId row.currentTaskId =
    row.currentTaskId := hheld
  simp only [loseAgent, commits_bind, commits_writeDb, commits_readDb, commits_addEvent,
    and_assoc, exists_and_left, exists_eq_left, exists_const, hlookup] at h
  cases hcurrent : row.currentTaskId with
  | none =>
    simp only [hcurrent, failLost, commits_pure, true_and, exists_eq_left, exists_const] at h
    obtain ⟨rfl, rfl⟩ := h
    refine ⟨rfl, rfl, rfl, (c.clock 0).toIso, (c.clock 0).toIso, ?_⟩
    rw [Db.lose, AgentRecord.loss, hcurrent]
    rfl
  | some taskId =>
    simp only [hcurrent, failLost, commits_finish, exists_eq_left, exists_const] at h
    obtain ⟨rfl, rfl⟩ := h
    refine ⟨rfl, rfl, rfl, (c.clock 0).toIso, (c.clock 1).toIso, ?_⟩
    rw [Db.lose, AgentRecord.loss, hcurrent]
    rfl

/-- The writes of one turn touch the agent and the task it holds. -/
theorem lose_writes {d : Db} (hd : d.roster.Consistent) {row : AgentRecord}
    (hrow : d.agents.find? row.name = some row) (ts : Stamp) :
    (d.lose row ts).agents.rows = d.agents.rows.map (fun a => if a = row then a.lost else a) ∧
      d.lose row ts =
        { d with agents := (d.lose row ts).agents, tasks := (d.lose row ts).tasks } ∧
      (d.lose row ts).tasks.rows.map TaskRecord.id = d.tasks.rows.map TaskRecord.id ∧
      ∀ id t, d.tasks.find? id = some t → ∃ t', (d.lose row ts).tasks.find? id = some t' ∧
        (row.currentTaskId = some id → t' = t.lostWith row.name ts) ∧
        (row.currentTaskId ≠ some id → t' = t) := by
  have hname : ∀ a ∈ d.agents.rows, a.name = row.name ↔ a = row := fun a ha =>
    ⟨fun h => Table.eq_of_key_eq ha (Table.mem_of_find? hrow) h, fun h => h ▸ rfl⟩
  cases hcurrent : row.currentTaskId with
  | none =>
    rw [Db.lose, hcurrent]
    refine ⟨List.map_congr_left fun a ha => ?_, rfl, rfl,
      fun id t ht => ⟨t, ht, ?_, fun _ => rfl⟩⟩
    · by_cases heq : a = row
      · subst heq
        show (if a.name = a.name then { a with status := .lost } else a) =
          if a = a then a.lost else a
        rw [if_pos rfl, if_pos rfl, AgentRecord.lost, ← hcurrent]
      · show (if a.name = row.name then { a with status := .lost } else a) =
          if a = row then a.lost else a
        rw [if_neg (mt (hname a ha).mp heq), if_neg heq]
    · simp
  | some taskId =>
    rw [Db.lose, hcurrent]
    -- nobody else holds the task
    have hothers : ∀ a ∈ d.agents.rows, a.currentTaskId = some taskId → a = row := by
      intro a ha hheld
      have hmine := hd.holds (hcurrent ▸ roster_agent_of hrow)
      have htheirs := hd.holds (hheld ▸ roster_agent_of (Table.find?_of_mem ha))
      have hsame : a.name = row.name :=
        Option.some.inj (Option.some.inj (htheirs.symm.trans hmine))
      exact (hname a ha).mp hsame
    refine ⟨?_, rfl, ?_, fun id t ht => ?_⟩
    · show ((d.agents.rows.map fun a =>
          if a.name = row.name then { a with status := .lost } else a).map
        fun a => if a.currentTaskId = some taskId then
          { a with status := if a.status = .busy then .idle else a.status, currentTaskId := none }
          else a) = _
      rw [List.map_map]
      refine List.map_congr_left fun a ha => ?_
      by_cases heq : a = row
      · subst heq
        simp [hcurrent, AgentRecord.lost]
      · have hheld : a.currentTaskId ≠ some taskId := fun h => heq (hothers a ha h)
        simp [mt (hname a ha).mp heq, heq, hheld]
    · rw [Option.elim_some, Db.finish_tasks, Db.setStatus_tasks]
      exact Table.keys_modify ..
    · rw [Option.elim_some, Db.finish_tasks, Db.setStatus_tasks]
      by_cases hid : id = taskId
      · subst hid
        refine ⟨t.lostWith row.name ts, ?_, fun _ => rfl, fun h => absurd rfl h⟩
        rw [Table.find?_modify_self, ht]
        rfl
      · refine ⟨t, ?_, fun h => absurd (Option.some.inj h).symm hid, fun _ => rfl⟩
        rw [Table.find?_modify_ne _ hid]
        exact ht

/-- One turn keeps agents and tasks pointing at each other. -/
theorem consistent_loseAgent {row : AgentRecord} {id : ℕ} (hc : c.db.roster.Consistent)
    (hrow : c.db.agents.find? row.name = some row) (hlive : row.status.live)
    (h : Commits (loseAgent row) c id c') : c'.db.roster.Consistent := by
  have h0 : PendingLosses c [row] c := by
    refine ⟨.refl, List.nodup_singleton _, fun r hr => ?_⟩
    rw [List.mem_singleton.mp hr]
    exact ⟨row, hrow, hlive, rfl, rfl⟩
  exact (h0.step h).1.invariant (I := fun s => s.db.roster.Consistent)
    (fun _ _ _ _ hmove hI => consistent_move hmove hI) hc

/-- **The second loop**, over live rows of the table. -/
theorem loses_loop {rows : List AgentRecord} {ids : List ℕ}
    (h : Commits (rows.mapM loseAgent) c ids c') (hc : c.db.roster.Consistent)
    (hnodup : (rows.map AgentRecord.name).Nodup)
    (hrows : ∀ r ∈ rows, c.db.agents.find? r.name = some r ∧ r.status.live) :
    c'.uuids = c.uuids ∧ c'.notified = c.notified ∧
      ∃ new, c.db.Loses c'.db rows new ∧ ids = new.map EventRecord.id := by
  induction rows generalizing c ids with
  | nil =>
    obtain ⟨rfl, rfl⟩ := commits_mapM_nil.mp h
    refine ⟨rfl, rfl, [], ⟨rfl, rfl, ?_, ?_, ?_, rfl, ?_⟩, rfl⟩
    · simp
    · exact fun id t ht => ⟨t, ht, fun r hr => absurd hr List.not_mem_nil, fun _ => rfl⟩
    · exact (List.append_nil _).symm
    · exact fun e he => absurd he List.not_mem_nil
  | cons row rows ih =>
    obtain ⟨id, t, ids', hturn, hrest, rfl⟩ := commits_mapM_cons.mp h
    obtain ⟨hrow, hlive⟩ := hrows row List.mem_cons_self
    have hconsistent := consistent_loseAgent hc hrow hlive hturn
    obtain ⟨rfl, hu, hn, ts, ts', hdb⟩ := commits_loseAgent (hc.openTaskId hrow) hturn
    obtain ⟨hagents, hframe, hids, htasks⟩ := lose_writes hc hrow ts
    rw [List.map_cons, List.nodup_cons] at hnodup
    have hne : ∀ r ∈ rows, r.name ≠ row.name := fun r hr heq =>
      hnodup.1 (heq ▸ List.mem_map_of_mem hr)
    have hagents' : t.db.agents.rows =
        c.db.agents.rows.map (fun a => if a = row then a.lost else a) := by
      rw [hdb]
      exact hagents
    -- the later rows are untouched by this turn, since no name occurs twice
    have hkept : ∀ r ∈ rows, t.db.agents.find? r.name = some r := by
      intro r hr
      have hmem := Table.mem_of_find? (hrows r (List.mem_cons_of_mem row hr)).1
      refine Table.find?_eq_some_iff.mpr ⟨?_, rfl⟩
      rw [Table.mem_iff, hagents']
      refine List.mem_map.mpr ⟨r, hmem, if_neg fun heq => ?_⟩
      exact hne r hr (congrArg AgentRecord.name heq)
    obtain ⟨hu', hn', new, hloses, rfl⟩ := ih hrest hconsistent hnodup.2 fun r hr =>
      ⟨hkept r hr, (hrows r (List.mem_cons_of_mem row hr)).2⟩
    refine ⟨hu'.trans hu, hn'.trans hn,
      { id := c.db.events.seq + 1, payload := row.loss, ts := ts' } :: new,
      ⟨?_, ?_, ?_, fun id x hx => ?_, ?_, ?_, ?_⟩, rfl⟩
    · rw [hloses.frame, hdb, hframe]
      rfl
    · rw [hloses.ids, hdb]
      exact hids
    · rw [hloses.agents, hagents', List.map_map]
      refine List.map_congr_left fun a _ => ?_
      by_cases heq : a = row
      · have hnot : row.lost ∉ rows := fun hmem => hne _ hmem rfl
        simp [heq, hnot]
      · simp [heq]
    · -- a task of this turn or of a later one, or of nobody who is lost
      obtain ⟨x', hx', hfailed, hsame⟩ := htasks id x hx
      have hx'' : t.db.tasks.find? id = some x' := by
        rw [hdb]
        exact hx'
      obtain ⟨y, hy, hfailed', hsame'⟩ := hloses.tasks id x' hx''
      refine ⟨y, hy, fun r hr hheld => ?_, fun hnone => ?_⟩
      · by_cases hmine : row.currentTaskId = some id
        · -- failed in this turn; nobody else holds the task
          have hothers : ∀ r ∈ rows, r.currentTaskId ≠ some id := by
            intro r hr hheld
            have hagent := (hrows r (List.mem_cons_of_mem row hr)).1
            have hsame : some r.name = some row.name := Option.some.inj
              ((hc.holds (hheld ▸ roster_agent_of hagent)).symm.trans
                (hc.holds (hmine ▸ roster_agent_of hrow)))
            exact hne r hr (Option.some.inj hsame)
          rcases List.mem_cons.mp hr with rfl | hr
          · exact ⟨ts, (hsame' hothers).trans (hfailed hmine)⟩
          · exact absurd hheld (hothers r hr)
        · rcases List.mem_cons.mp hr with rfl | hr
          · exact absurd hheld hmine
          · obtain ⟨ts'', hy'⟩ := hfailed' r hr hheld
            exact ⟨ts'', by rw [hy', hsame hmine]⟩
      · have hmine := hnone row List.mem_cons_self
        rw [hsame' fun r hr => hnone r (List.mem_cons_of_mem row hr), hsame hmine]
    · rw [hloses.events, hdb, hframe]
      exact List.append_assoc _ [_] new
    · rw [List.map_cons, List.map_cons, hloses.payloads]
    · intro e he
      rcases List.mem_cons.mp he with rfl | he
      · exact ⟨rfl, rfl, rfl⟩
      · exact hloses.queued e he

/-- Reporting a list of silent agents never fails. -/
theorem loseLoop_commits (rows : List AgentRecord) (c : Conn) :
    ∃ ids c', Commits (rows.mapM loseAgent) c ids c' := by
  induction rows generalizing c with
  | nil => exact ⟨[], c, commits_mapM_nil.mpr ⟨rfl, rfl⟩⟩
  | cons row rows ih =>
    have hturn : ∃ id t, Commits (loseAgent row) c id t := by
      simp only [loseAgent, commits_bind, commits_writeDb, commits_readDb, commits_addEvent,
        and_assoc, exists_and_left, exists_eq_left, exists_const]
      cases (c.db.setStatus row.name .lost).openTaskId row.currentTaskId with
      | none => simp [failLost]
      | some taskId => simp [failLost]
    obtain ⟨id, t, hturn⟩ := hturn
    obtain ⟨ids, c', h⟩ := ih t
    exact ⟨_, c', commits_mapM_cons.mpr ⟨_, _, _, hturn, h, rfl⟩⟩

end

/-! ### What a sweep ought to do -/

/-- The agent is live, and its last heartbeat is at or before `cutoff`, in microseconds. -/
def AgentRecord.silentSince (a : AgentRecord) (cutoff : ℤ) : Prop :=
  a.status.live ∧ (a.lastHeartbeat.parse.us : ℤ) ≤ cutoff

instance (a : AgentRecord) (cutoff : ℤ) : Decidable (a.silentSince cutoff) :=
  inferInstanceAs (Decidable (_ ∧ _))

/-- What a sweep at `at'` ought to do, where agents that were silent since `cutoff` are lost. -/
structure Db.Swept (d d' : Db) (at' : Moment) (cutoff : ℤ) (new : List EventRecord) : Prop where
  /-- Nothing but agents, tasks and events is written, and no task is added. -/
  frame : d' = { d with agents := d'.agents, tasks := d'.tasks, events := d'.events }
  ids : d'.tasks.rows.map TaskRecord.id = d.tasks.rows.map TaskRecord.id
  /-- The silent agents are lost, and no others change. -/
  agents : d'.agents.rows = d.agents.rows.map fun a => if a.silentSince cutoff then a.lost else a
  /-- The open task of a silent agent has failed, and says why. -/
  failed : ∀ a ∈ d.agents, a.silentSince cutoff → ∀ t ∈ d.tasks, t.isOpen →
    t.assignee = some a.name → ∃ ts, d'.tasks.find? t.id = some (t.lostWith a.name ts)
  /-- Any other task loses an overdue lease, and changes in nothing else. -/
  others : ∀ t ∈ d.tasks,
    (∀ a ∈ d.agents, a.silentSince cutoff → t.isOpen → t.assignee ≠ some a.name) →
    if t.dueAt at' then
      ∃ ts, d'.tasks.find? t.id = some { t with leaseExpires := none, updated := ts }
    else d'.tasks.find? t.id = some t
  /-- One event for each overdue lease, and one for each silent agent. -/
  payloads : new.map EventRecord.payload =
    (d.tasks.rows.filter fun t => t.dueAt at').map TaskRecord.expiry ++
      (d.agents.rows.filter fun a => a.silentSince cutoff).map AgentRecord.loss
  events : d'.events.rows = d.events.rows ++ new
  queued : ∀ e ∈ new, e.isNew

/-- The date before which an agent must have been heard of to count as silent. -/
def cutoffUs (at' : Moment) (lostAfterS : ℚ) : ℤ := at'.us - seconds lostAfterS

/-- Silence by the stored texts is silence by the clock. -/
theorem silent_iff {a : AgentRecord} {at' cutoff : Moment} {lostAfterS : ℚ}
    (h : at'.addMicros? (-seconds lostAfterS) = some cutoff) :
    a.silent cutoff.toIso ↔ a.silentSince (cutoffUs at' lostAfterS) := by
  refine and_congr_right fun _ => le_toIso_iff.trans ?_
  have hus := addMicros?_us h
  rw [Moment.le_def, cutoffUs]
  omega

section

variable {c c' : Conn} {lostAfterS : ℚ}

/-- Both loops, one after the other. -/
theorem swept_of_loops {d d₁ d₂ : Db} (hd : d.roster.Consistent) {at' : Moment} {cutoff : ℤ}
    {new₁ new₂ : List EventRecord}
    (hexpires : d.Expires d₁ (d.tasks.rows.filter fun t => t.dueAt at') new₁)
    (hloses : d₁.Loses d₂ (d.agents.rows.filter fun a => a.silentSince cutoff) new₂) :
    d.Swept d₂ at' cutoff (new₁ ++ new₂) := by
  have hsilent {a : AgentRecord} :
      a ∈ (d.agents.rows.filter fun a => a.silentSince cutoff) ↔
        a ∈ d.agents ∧ a.silentSince cutoff := by
    simp [Table.mem_iff]
  have hdue {t : TaskRecord} :
      t ∈ (d.tasks.rows.filter fun t => t.dueAt at') ↔ t ∈ d.tasks ∧ t.dueAt at' := by
    simp [Table.mem_iff]
  -- who is the assignee of an open task holds it
  have hholds {a : AgentRecord} {t : TaskRecord} (ha : a ∈ d.agents) (ht : t ∈ d.tasks)
      (hopen : t.isOpen) (howner : t.assignee = some a.name) : a.currentTaskId = some t.id := by
    obtain ⟨b, hb, hname, hcurrent, -⟩ := hd.task_held ht hopen
    obtain rfl : b = a := Table.eq_of_key_eq hb ha (Option.some.inj (hname.symm.trans howner))
    exact hcurrent
  have hheld {a : AgentRecord} {t : TaskRecord} (ha : a ∈ d.agents) (ht : t ∈ d.tasks)
      (hcurrent : a.currentTaskId = some t.id) : t.isOpen ∧ t.assignee = some a.name := by
    have hopen := hd.holds (hcurrent ▸ roster_agent_of (Table.find?_of_mem ha))
    simp only [Db.roster, Option.map_eq_some_iff, Option.filter_eq_some_iff] at hopen
    obtain ⟨t', ⟨ht', hto⟩, howner⟩ := hopen
    obtain rfl : t = t' := Option.some.inj ((Table.find?_of_mem ht).symm.trans ht')
    exact ⟨of_decide_eq_true hto, howner⟩
  have hagents : d₁.agents = d.agents := by rw [hexpires.frame]
  constructor
  · rw [hloses.frame, hexpires.frame]
  · rw [hloses.ids, hexpires.ids]
  · rw [hloses.agents, hagents]
    refine List.map_congr_left fun a ha => ?_
    by_cases h : a.silentSince cutoff
    · rw [if_pos h, if_pos (hsilent.mpr ⟨ha, h⟩)]
    · rw [if_neg h, if_neg fun hmem => h (hsilent.mp hmem).2]
  · intro a ha hlost t ht hopen howner
    obtain ⟨t₁, ht₁, hcleared, hsame⟩ := hexpires.tasks t.id t (Table.find?_of_mem ht)
    obtain ⟨t₂, ht₂, hfailed, -⟩ := hloses.tasks t.id t₁ ht₁
    obtain ⟨ts, hts⟩ := hfailed a (hsilent.mpr ⟨ha, hlost⟩) (hholds ha ht hopen howner)
    refine ⟨ts, ?_⟩
    rw [ht₂, hts]
    by_cases h : t ∈ d.tasks.rows.filter fun t => t.dueAt at'
    · obtain ⟨ts', hts'⟩ := hcleared h
      rw [hts']
      rfl
    · rw [hsame h]
  · intro t ht hspared
    obtain ⟨t₁, ht₁, hcleared, hsame⟩ := hexpires.tasks t.id t (Table.find?_of_mem ht)
    obtain ⟨t₂, ht₂, -, hsame₂⟩ := hloses.tasks t.id t₁ ht₁
    have hkept : t₂ = t₁ := by
      refine hsame₂ fun a ha hcurrent => ?_
      obtain ⟨ha', hlost⟩ := hsilent.mp ha
      obtain ⟨hopen, howner⟩ := hheld ha' ht hcurrent
      exact hspared a ha' hlost hopen howner
    rw [ht₂, hkept]
    split
    · rename_i h
      obtain ⟨ts, hts⟩ := hcleared (hdue.mpr ⟨ht, h⟩)
      exact ⟨ts, by rw [hts]⟩
    · rename_i h
      rw [hsame fun hmem => h (hdue.mp hmem).2]
  · rw [List.map_append, hexpires.payloads, hloses.payloads]
  · rw [hloses.events, hexpires.events, List.append_assoc]
  · intro e he
    rcases List.mem_append.mp he with he | he
    · exact hexpires.queued e he
    · exact hloses.queued e he

/-- **A sweep whose cutoff is a date commits, and does what it ought to.**  It returns the events
    it queued. -/
theorem swept_sweep (hc : c.db.roster.Consistent) {cutoff : Moment}
    (hcutoff : (c.clock 0).addMicros? (-seconds lostAfterS) = some cutoff) :
    ∃ new c', Commits (sweep lostAfterS) c new c' ∧ c'.uuids = c.uuids ∧
      c.db.Swept c'.db (c.clock 0) (cutoffUs (c.clock 0) lostAfterS) new := by
  have hdueRows : (c.db.tasks.rows.filter fun t => t.overdue (c.clock 0).toIso) =
      c.db.tasks.rows.filter fun t => t.dueAt (c.clock 0) :=
    List.filter_congr fun t _ => decide_eq_decide.mpr overdue_iff
  have hsilentRows : (c.db.agents.rows.filter fun a => a.silent cutoff.toIso) =
      c.db.agents.rows.filter fun a => a.silentSince (cutoffUs (c.clock 0) lostAfterS) :=
    List.filter_congr fun a _ => decide_eq_decide.mpr (silent_iff hcutoff)
  -- the first loop
  obtain ⟨ids₁, t, hloop₁⟩ := expireLoop_commits
    (c.db.tasks.rows.filter fun t => t.dueAt (c.clock 0))
    { c with clock := fun n => c.clock (n + 1) }
  obtain ⟨huuids₁, -, new₁, hexpires, hids₁⟩ := expires_loop hloop₁
    (c.db.tasks.nodup.sublist (List.filter_sublist.map _))
    fun r hr => Table.find?_of_mem (List.mem_filter.mp hr).1
  have hagents : t.db.agents = c.db.agents := by rw [hexpires.frame]
  have hconsistent : t.db.roster.Consistent := by
    have hexpired : Commits (expireLeases (c.clock 0).toIso)
        { c with clock := fun n => c.clock (n + 1) } ids₁ t := by
      rw [expireLeases, commits_readDb_bind, hdueRows]
      exact hloop₁
    exact (moves_expireLeases hexpired).invariant (I := fun s => s.db.roster.Consistent)
      (fun _ _ _ _ hmove hI => consistent_move hmove hI) hc
  -- the second loop, over the agents as they were
  obtain ⟨ids₂, t', hloop₂⟩ := loseLoop_commits
    (c.db.agents.rows.filter fun a => a.silentSince (cutoffUs (c.clock 0) lostAfterS)) t
  obtain ⟨huuids₂, -, new₂, hloses, hids₂⟩ := loses_loop hloop₂ hconsistent
    (c.db.agents.nodup.sublist (List.filter_sublist.map _)) fun r hr => by
      obtain ⟨hmem, hsilent⟩ := List.mem_filter.mp hr
      rw [hagents]
      exact ⟨Table.find?_of_mem hmem, (of_decide_eq_true hsilent).1⟩
  have hswept := swept_of_loops hc hexpires hloses
  have hrows : (t'.db.events.rows.filter fun e => e.id ∈ ids₁ ++ ids₂) = new₁ ++ new₂ := by
    have hsorted := t'.db.events.sorted
    rw [hswept.events, List.map_append, List.pairwise_append] at hsorted
    rw [hswept.events, List.filter_append, hids₁, hids₂, ← List.map_append]
    have hold :
        (c.db.events.rows.filter fun e => e.id ∈ (new₁ ++ new₂).map EventRecord.id) = [] := by
      rw [List.filter_eq_nil_iff]
      intro e he hmem
      have hlt := hsorted.2.2 e.id (List.mem_map_of_mem he) e.id (of_decide_eq_true hmem)
      omega
    have hnew : ((new₁ ++ new₂).filter fun e => e.id ∈ (new₁ ++ new₂).map EventRecord.id) =
        new₁ ++ new₂ := by
      rw [List.filter_eq_self]
      exact fun e he => decide_eq_true (List.mem_map_of_mem he)
    rw [hold, hnew, List.nil_append]
  have hsweep {es : List EventRecord} {c' : Conn}
      (h : (ids₁ ++ ids₂ = [] ∧ es = [] ∧ c' = t') ∨ (ids₁ ++ ids₂ ≠ [] ∧
        es = (t'.db.events.rows.filter fun e => e.id ∈ ids₁ ++ ids₂) ∧
        c' = { t' with notified := t'.notified ++ [.events] })) :
      Commits (sweep lostAfterS) c es c' := by
    rw [sweep]
    refine commits_bind.mpr ⟨_, _, commits_now.mpr ⟨rfl, rfl⟩, ?_⟩
    refine commits_bind.mpr ⟨ids₁, t, ?_, ?_⟩
    · rw [expireLeases, commits_readDb_bind, hdueRows]
      exact hloop₁
    refine commits_bind.mpr ⟨cutoff, t, commits_addMicros.mpr ⟨hcutoff, rfl⟩, ?_⟩
    refine commits_bind.mpr ⟨ids₂, t', ?_, ?_⟩
    · rw [loseAgents, commits_readDb_bind, hagents, hsilentRows]
      exact hloop₂
    · rcases h with ⟨hnone, rfl, rfl⟩ | ⟨hsome, rfl, rfl⟩
      · simp [hnone]
      · simp [hsome]
  by_cases hnone : ids₁ ++ ids₂ = []
  · have hempty : new₁ ++ new₂ = [] := by
      rw [hids₁, hids₂, ← List.map_append, List.map_eq_nil_iff] at hnone
      exact hnone
    rw [hempty] at hswept
    exact ⟨[], t', hsweep (.inl ⟨hnone, rfl, rfl⟩), huuids₂.trans huuids₁, hswept⟩
  · exact ⟨new₁ ++ new₂, _, hsweep (.inr ⟨hnone, hrows.symm, rfl⟩), huuids₂.trans huuids₁, hswept⟩

/-- A sweep whose cutoff is no date raises. -/
theorem sweep_raises (h : (c.clock 0).addMicros? (-seconds lostAfterS) = none) :
    ¬ ∃ es c', Commits (sweep lostAfterS) c es c' := by
  rintro ⟨es, c', hc⟩
  simp only [sweep, commits_bind, commits_now, commits_addMicros, and_assoc, exists_and_left,
    exists_eq_left] at hc
  obtain ⟨_, t, -, cutoff, hcutoff, -⟩ := hc
  rw [h] at hcutoff
  cases hcutoff

/-- A sweep that finds nothing writes nothing. -/
theorem sweep_nothing {cutoff : Moment}
    (hcutoff : (c.clock 0).addMicros? (-seconds lostAfterS) = some cutoff)
    (hdue : ∀ t ∈ c.db.tasks, ¬ t.dueAt (c.clock 0))
    (hsilent : ∀ a ∈ c.db.agents, ¬ a.silentSince (cutoffUs (c.clock 0) lostAfterS)) :
    Commits (sweep lostAfterS) c [] { c with clock := fun n => c.clock (n + 1) } := by
  have hdueRows : (c.db.tasks.rows.filter fun t => t.overdue (c.clock 0).toIso) = [] := by
    rw [List.filter_eq_nil_iff]
    intro t ht h
    exact hdue t ht (overdue_iff.mp (of_decide_eq_true h))
  have hsilentRows : (c.db.agents.rows.filter fun a => a.silent cutoff.toIso) = [] := by
    rw [List.filter_eq_nil_iff]
    intro a ha h
    exact hsilent a ha ((silent_iff hcutoff).mp (of_decide_eq_true h))
  simp only [sweep, commits_bind, commits_now, commits_addMicros, expireLeases, loseAgents,
    commits_readDb, and_assoc, exists_and_left, exists_eq_left]
  refine ⟨[], { c with clock := fun n => c.clock (n + 1) }, ?_, cutoff, hcutoff, [], ?_⟩
  · rw [hdueRows, commits_mapM_nil]
    exact ⟨rfl, rfl⟩
  · refine ⟨{ c with clock := fun n => c.clock (n + 1) }, ?_, ?_⟩
    · rw [hsilentRows, commits_mapM_nil]
      exact ⟨rfl, rfl⟩
    · simp

end

/-! ### A call of the sweeper -/

section

variable {s : Hub} {lostAfterS : ℚ} {clock : ℕ → Moment}

/-- The sweep of `s` does what it ought to. -/
def Hub.Reports (s : Hub) (lostAfterS : ℚ) (clock : ℕ → Moment) : Prop :=
  ∃ new, s.db.Swept ((Call.mk (.sweep lostAfterS) clock).exec s).db (clock 0)
    (cutoffUs (clock 0) lostAfterS) new

/-- The cutoff of the sweep is a date, or there is nothing to report. -/
def Hub.Sweepable (s : Hub) (lostAfterS : ℚ) (clock : ℕ → Moment) : Prop :=
  (0 ≤ cutoffUs (clock 0) lostAfterS ∧ cutoffUs (clock 0) lostAfterS < maxMicros) ∨
    (∀ t ∈ s.db.tasks.rows, ¬ t.dueAt (clock 0)) ∧
      ∀ a ∈ s.db.agents.rows, ¬ a.silentSince (cutoffUs (clock 0) lostAfterS)

instance (s : Hub) (lostAfterS : ℚ) (clock : ℕ → Moment) :
    Decidable (s.Sweepable lostAfterS clock) := by
  unfold Hub.Sweepable; infer_instance

/-- The cutoff is a date exactly while its microseconds are in range. -/
theorem addMicros?_cutoff {at' : Moment} :
    (at'.addMicros? (-seconds lostAfterS)).isSome = true ↔
      0 ≤ cutoffUs at' lostAfterS ∧ cutoffUs at' lostAfterS < maxMicros := by
  unfold Moment.addMicros?
  split
  · rename_i h
    exact iff_of_true rfl h
  · rename_i h
    exact iff_of_false (by simp) h

/-- A sweep whose cutoff is no date raises, and leaves the hub as it was. -/
theorem exec_sweep_of_none (h : (clock 0).addMicros? (-seconds lostAfterS) = none) :
    (Call.mk (.sweep lostAfterS) clock).exec s = s := by
  have hexec : (Call.mk (.sweep lostAfterS) clock).exec s =
    (atomically (sweep lostAfterS) (s.connect clock)).2.hub := Call.exec_eq rfl clock s
  obtain ⟨es, c', hc, -⟩ | ⟨e, -, h'⟩ := atomically_cases (sweep lostAfterS) (s.connect clock)
  · exact absurd ⟨es, c', hc⟩ (sweep_raises h)
  · rw [hexec, h']
    rfl

/-- A sweep that commits leaves what its transaction wrote. -/
theorem exec_sweep_of_commits {es : List EventRecord} {c' : Conn}
    (h : Commits (sweep lostAfterS) (s.connect clock) es c') :
    (Call.mk (.sweep lostAfterS) clock).exec s = c'.hub := by
  have hexec : (Call.mk (.sweep lostAfterS) clock).exec s =
    (atomically (sweep lostAfterS) (s.connect clock)).2.hub := Call.exec_eq rfl clock s
  rw [hexec, atomically_of_commits h]

/-- A state in which nothing is to be reported is as a sweep ought to leave it. -/
theorem swept_nothing {d : Db} {at' : Moment} {cutoff : ℤ}
    (hdue : ∀ t ∈ d.tasks.rows, ¬ t.dueAt at')
    (hsilent : ∀ a ∈ d.agents.rows, ¬ a.silentSince cutoff) : d.Swept d at' cutoff [] := by
  constructor
  · rfl
  · rfl
  · have hsame : (d.agents.rows.map fun a => if a.silentSince cutoff then a.lost else a) =
        d.agents.rows.map id := List.map_congr_left fun a ha => if_neg (hsilent a ha)
    rw [hsame, List.map_id]
  · exact fun a ha hlost => absurd hlost (hsilent a ha)
  · intro t ht _
    rw [if_neg (hdue t ht)]
    exact Table.find?_of_mem ht
  · have hnoTask : (d.tasks.rows.filter fun t => t.dueAt at') = [] :=
      List.filter_eq_nil_iff.mpr fun t ht h => hdue t ht (of_decide_eq_true h)
    have hnoAgent : (d.agents.rows.filter fun a => a.silentSince cutoff) = [] :=
      List.filter_eq_nil_iff.mpr fun a ha h => hsilent a ha (of_decide_eq_true h)
    rw [hnoTask, hnoAgent]
    rfl
  · exact (List.append_nil _).symm
  · exact fun e he => absurd he List.not_mem_nil

/-- **When a sweep does what it ought to.** -/
theorem reports_iff (hs : s.db.roster.Consistent) :
    s.Reports lostAfterS clock ↔ s.Sweepable lostAfterS clock := by
  cases hcutoff : (clock 0).addMicros? (-seconds lostAfterS) with
  | some cutoff =>
    have hdate := addMicros?_cutoff.mp (by rw [hcutoff]; rfl)
    refine iff_of_true ?_ (.inl hdate)
    obtain ⟨new, c', hc, -, hswept⟩ := swept_sweep (c := s.connect clock) hs hcutoff
    refine ⟨new, ?_⟩
    rw [exec_sweep_of_commits hc]
    exact hswept
  | none =>
    rw [Hub.Reports, exec_sweep_of_none hcutoff]
    constructor
    · rintro ⟨new, hswept⟩
      -- nothing is queued, so there was nothing to report
      have hnew : new = [] := by
        have hrows := hswept.events
        exact List.self_eq_append_right.mp hrows
      have hpayloads := hswept.payloads
      rw [hnew, List.map_nil, eq_comm, List.append_eq_nil_iff, List.map_eq_nil_iff,
        List.map_eq_nil_iff, List.filter_eq_nil_iff, List.filter_eq_nil_iff] at hpayloads
      exact .inr ⟨fun t ht h => hpayloads.1 t ht (decide_eq_true h),
        fun a ha h => hpayloads.2 a ha (decide_eq_true h)⟩
    · rintro (hdate | ⟨hdue, hsilent⟩)
      · have hsome := addMicros?_cutoff.mpr hdate
        rw [hcutoff] at hsome
        cases hsome
      · exact ⟨[], swept_nothing hdue hsilent⟩

/-- What a sweep leaves has nothing to report at the same reading. -/
theorem Db.Swept.settled {d d' : Db} {at' : Moment} {cutoff : ℤ} {new : List EventRecord}
    (h : d.Swept d' at' cutoff new) :
    (∀ t ∈ d'.tasks, ¬ t.dueAt at') ∧ ∀ a ∈ d'.agents, ¬ a.silentSince cutoff := by
  constructor
  · intro t' ht' hdue
    have hid : t'.id ∈ d.tasks.rows.map TaskRecord.id := h.ids ▸ List.mem_map_of_mem ht'
    obtain ⟨t, ht, heq⟩ := List.mem_map.mp hid
    have hfound : d'.tasks.find? t.id = some t' := heq ▸ Table.find?_of_mem ht'
    by_cases hlost : ∃ a ∈ d.agents, a.silentSince cutoff ∧ t.isOpen ∧ t.assignee = some a.name
    · obtain ⟨a, ha, hsilent, hopen, howner⟩ := hlost
      obtain ⟨ts, hts⟩ := h.failed a ha hsilent t ht hopen howner
      obtain rfl := Option.some.inj (hfound.symm.trans hts)
      exact absurd hdue.1 (by simp [TaskRecord.isOpen, TaskRecord.lostWith, TaskState.terminal])
    · have hothers := h.others t ht fun a ha hsilent hopen howner =>
        hlost ⟨a, ha, hsilent, hopen, howner⟩
      split at hothers
      · obtain ⟨ts, hts⟩ := hothers
        obtain rfl := Option.some.inj (hfound.symm.trans hts)
        obtain ⟨-, expires, hexpires, -⟩ := hdue
        cases hexpires
      · rename_i hnot
        obtain rfl := Option.some.inj (hfound.symm.trans hothers)
        exact hnot hdue
  · intro a' ha' hsilent
    have hmem : a' ∈ d.agents.rows.map fun a => if a.silentSince cutoff then a.lost else a :=
      h.agents ▸ ha'
    obtain ⟨a, ha, rfl⟩ := List.mem_map.mp hmem
    by_cases hlost : a.silentSince cutoff
    · rw [if_pos hlost] at hsilent
      simp [AgentRecord.silentSince, AgentRecord.lost, AgentStatus.live] at hsilent
    · rw [if_neg hlost] at hsilent
      exact hlost hsilent

/-- **A second sweep at the same reading** finds nothing and changes nothing. -/
theorem sweep_again (hs : s.db.roster.Consistent) {clock' : ℕ → Moment}
    (hclock : clock' 0 = clock 0) {s' : Hub}
    (hs' : s' = (Call.mk (.sweep lostAfterS) clock).exec s) :
    (Call.mk (.sweep lostAfterS) clock').exec s' = s' ∧
      ∀ es, (atomically (sweep lostAfterS) (s'.connect clock')).1 = .ok es → es = [] := by
  cases hcutoff : (clock 0).addMicros? (-seconds lostAfterS) with
  | none =>
    have hcutoff' : (clock' 0).addMicros? (-seconds lostAfterS) = none := hclock ▸ hcutoff
    refine ⟨exec_sweep_of_none hcutoff', fun es hes => ?_⟩
    exact absurd ⟨es, _, commits_of_atomically hes⟩ (sweep_raises (c := s'.connect clock') hcutoff')
  | some cutoff =>
    obtain ⟨new, c', hc, -, hswept⟩ := swept_sweep (c := s.connect clock) hs hcutoff
    obtain rfl : s' = c'.hub := hs'.trans (exec_sweep_of_commits hc)
    obtain ⟨hdue, hsilent⟩ := hswept.settled
    have hcutoff' : (clock' 0).addMicros? (-seconds lostAfterS) = some cutoff := hclock ▸ hcutoff
    have hdue' : ∀ t ∈ c'.db.tasks, ¬ t.dueAt (clock' 0) := by
      rw [hclock]
      exact hdue
    have hsilent' : ∀ a ∈ c'.db.agents, ¬ a.silentSince (cutoffUs (clock' 0) lostAfterS) := by
      rw [hclock]
      exact hsilent
    have hagain := sweep_nothing (c := c'.hub.connect clock') hcutoff' hdue' hsilent'
    refine ⟨(exec_sweep_of_commits hagain).trans rfl, fun es hes => ?_⟩
    rw [atomically_of_commits hagain] at hes
    exact (Except.ok.inj hes).symm

end

/-! ### Losses along a run -/

/-- Who an event reports lost. -/
def EventPayload.lost? : EventPayload → Option String
  | .agentLost agent _ _ => some agent
  | _ => none

/-- Who the events report lost, oldest first. -/
def Db.lostNames (d : Db) : List String := d.events.rows.filterMap fun e => e.payload.lost?

/-- Who was live in `s` and is lost in `s'`. -/
def Hub.losses (s s' : Hub) : List String :=
  (s.db.agents.rows.filter fun a =>
    a.status.live ∧ ∃ b ∈ s'.db.agents.find? a.name, b.status = .lost).map AgentRecord.name

/-- Who a caller of `append_event` says is lost: the only report that is no sweeper's. -/
def Op.reported : Op → List String
  | .appendEvent payload => payload.lost?.toList
  | _ => []

/-- Who was lost along a run, call after call. -/
def lossesAlong : Hub → List Call → List String
  | _, [] => []
  | s, l :: ls => s.losses (l.exec s) ++ l.op.reported ++ lossesAlong (l.exec s) ls

/-- Nobody is lost who was not. -/
def Db.LosesNobody (d d' : Db) : Prop :=
  d.agents.Evolves (fun a b => b.status = .lost → a.status = .lost) d'.agents

/-- A write that leaves the agents alone loses nobody. -/
theorem losesNobody_of_eq {d d' : Db} (h : d'.agents = d.agents) : d.LosesNobody d' := by
  unfold Db.LosesNobody
  rw [h]
  exact Table.Evolves.refl (fun _ hlost => hlost) _

/-- Ending a task loses nobody. -/
theorem losesNobody_finish {d : Db} {taskId : String} {state : TaskState} {result : Option Json}
    {ts : Stamp} : d.LosesNobody (d.finish taskId state result ts) := by
  refine Table.evolves_updateWhere (fun _ h => h) (Db.finish_agents ..) fun a _ _ hlost => ?_
  by_cases hbusy : a.status = .busy
  · simp [hbusy] at hlost
  · simpa [hbusy] using hlost

/-- **Only the sweeper loses an agent.** -/
theorem losesNobody_move {k : Kind} {s s' : Hub} (h : Move k s s') (hk : k ∉ [.lose, .loseTask]) :
    s.db.LosesNobody s'.db := by
  cases h with
  | draw | create | setWorkflowStatus | decide | renew | ask | answer | claim | expire | append |
    lease | ack => exact losesNobody_of_eq rfl
  | lose => exact absurd List.mem_cons_self hk
  | loseTask => exact absurd (List.mem_cons_of_mem _ List.mem_cons_self) hk
  | @checkIn d u name contextId instanceId profile remoteAddr row d' ts ts₁ ts₂ _ _ hadmits =>
    have hadmitted : d.LosesNobody d' := by
      cases hadmits with
      | new _ hnew => exact Table.evolves_insertOrIgnore (fun _ h => h) hnew
      | returned previous hprev =>
        refine Table.evolves_modify (fun _ h => h) (Db.readmit_agents ..) fun a _ hlost => ?_
        unfold AgentRecord.returned readmitted at hlost
        split at hlost
        · cases hlost
        · split at hlost
          · cases hlost
          · cases hlost
    exact hadmitted
  | beat => exact Table.evolves_modify (fun _ h => h) (Db.beat_agents ..) fun _ _ h => h
  | release =>
    refine Table.evolves_modify (fun _ h => h) (Db.setStatus_agents ..) fun _ _ hlost => ?_
    cases hlost
  | assign =>
    refine Table.evolves_modify (fun _ h => h) (Db.assign_agents ..) fun _ _ hlost => ?_
    cases hlost
  | progress => exact Table.evolves_modify (fun _ h => h) (Db.progressAt_agents ..) fun _ _ h => h
  | @settle d _ task worker result row ts ts₁ =>
    have hended : d.LosesNobody (d.finish task.id result.state (some (.obj result.payload)) ts₁) :=
      losesNobody_finish
    exact hended
  | cancel => exact losesNobody_finish
  | @override d _ task contextId note state ts ts' =>
    have hended : d.LosesNobody (d.finish task.id state
        (some (.obj [("status", .str state.value), ("summary", .str note)])) ts') :=
      losesNobody_finish
    exact hended

/-- **Only the sweeper reports a loss**, callers of `append_event` apart. -/
theorem lostNames_move {k : Kind} {s s' : Hub} (h : Move k s s')
    (hk : k ∉ [.lose, .loseTask, .append]) : s'.db.lostNames = s.db.lostNames := by
  have hadd {d d' : Db} {payload : EventPayload} {ts : Stamp}
      (hevents : d'.events = (d.addEvent payload ts).events) (hnone : payload.lost? = none) :
      d'.lostNames = d.lostNames := by
    rw [Db.lostNames, hevents, Db.addEvent_events, Serial.rows_append, List.filterMap_append]
    simp [Db.lostNames, hnone]
  have hrewrite {d d' : Db} {p : EventRecord → Prop} [DecidablePred p]
      {f : EventRecord → EventRecord} {hf : ∀ e, (f e).id = e.id}
      (hevents : d'.events = d.events.updateWhere p f hf) (hsame : ∀ e, (f e).payload = e.payload) :
      d'.lostNames = d.lostNames := by
    rw [Db.lostNames, hevents]
    show (d.events.rows.map fun e => if p e then f e else e).filterMap
      (fun e => e.payload.lost?) = _
    rw [List.filterMap_map]
    refine List.filterMap_congr fun e _ => ?_
    show (if p e then f e else e).payload.lost? = e.payload.lost?
    split
    · rw [hsame]
    · rfl
  cases h with
  | draw | create | setWorkflowStatus | decide | beat | renew | release | assign | answer | cancel |
    override | claim => rfl
  | lose | loseTask | append => simp at hk
  | @checkIn d u name contextId instanceId profile remoteAddr row d' ts ts₁ ts₂ _ _ hadmits =>
    have hevents : d'.events = d.events := hadmits.frame Db.events fun _ => rfl
    have hsame : d'.lostNames = d.lostNames := by rw [Db.lostNames, hevents, Db.lostNames]
    refine Eq.trans ?_ hsame
    have hnone : (EventPayload.agentCheckedIn name profile contextId instanceId).lost? = none := rfl
    exact hadd rfl hnone
  | progress => exact hadd rfl rfl
  | ask => exact hadd rfl rfl
  | settle _ _ result =>
    refine hadd rfl ?_
    unfold Settlement.event
    split
    · rfl
    · rfl
  | expire => exact hadd rfl rfl
  | lease => exact hrewrite (Db.lease_events ..) fun _ => rfl
  | ack => exact hrewrite (Db.ack_events ..) fun _ => rfl

/-! ### The account of a run -/

/-- No call but a sweep loses anybody. -/
theorem losesNobody_exec {l : Call} {s : Hub} (hl : ∀ k ∈ l.op.kinds, k ∉ [.lose, .loseTask]) :
    s.db.LosesNobody (l.exec s).db :=
  (moves_exec l s).invariant (I := fun t => s.db.LosesNobody t.db)
    (fun _ _ _ hk hmove ih =>
      Table.Evolves.trans (fun _ _ _ hab hbc h => hab (hbc h)) ih
        (losesNobody_move hmove (hl _ hk)))
    (losesNobody_of_eq rfl)

/-- No call but a sweep adds to the loss reports. -/
theorem lostNames_exec {l : Call} {s : Hub}
    (hl : ∀ k ∈ l.op.kinds, k ∉ [.lose, .loseTask, .append]) :
    (l.exec s).db.lostNames = s.db.lostNames :=
  (moves_exec l s).invariant (I := fun t => t.db.lostNames = s.db.lostNames)
    (fun _ _ _ hk hmove ih => (lostNames_move hmove (hl _ hk)).trans ih) rfl

/-- Where nobody is lost, there are no losses to report. -/
theorem losses_of_losesNobody {s s' : Hub} (h : s.db.LosesNobody s'.db) : s.losses s' = [] := by
  rw [Hub.losses, List.map_eq_nil_iff, List.filter_eq_nil_iff]
  intro a ha hlost
  obtain ⟨hlive, b, hb, hstatus⟩ := of_decide_eq_true hlost
  obtain ⟨b', hb', hback⟩ := Table.Evolves.find? h (Table.find?_of_mem ha)
  obtain rfl : b' = b := Option.some.inj (hb'.symm.trans hb)
  rw [hback hstatus] at hlive
  simp [AgentStatus.live] at hlive

/-- A sweep loses whom it reports. -/
theorem Db.Swept.losses {s s' : Hub} {at' : Moment} {cutoff : ℤ} {new : List EventRecord}
    (h : s.db.Swept s'.db at' cutoff new) :
    s.losses s' = (s.db.agents.rows.filter fun a => a.silentSince cutoff).map AgentRecord.name := by
  rw [Hub.losses]
  refine congrArg _ (List.filter_congr fun a ha => decide_eq_decide.mpr ?_)
  have hmem : (if a.silentSince cutoff then a.lost else a) ∈ s'.db.agents := by
    rw [Table.mem_iff, h.agents]
    exact List.mem_map_of_mem (f := fun a => if a.silentSince cutoff then a.lost else a) ha
  have hname : (if a.silentSince cutoff then a.lost else a).name = a.name := by
    split
    · rfl
    · rfl
  have hfound := Table.find?_of_mem hmem
  rw [hname] at hfound
  constructor
  · rintro ⟨hlive, b, hb, hlost⟩
    obtain rfl := Option.some.inj (hfound.symm.trans hb)
    by_contra hnot
    rw [if_neg hnot] at hlost
    rw [hlost] at hlive
    simp [AgentStatus.live] at hlive
  · intro hsilent
    refine ⟨hsilent.1, _, hfound, ?_⟩
    rw [if_pos hsilent]
    rfl

/-- A sweep adds one report for each agent it found silent, in row order. -/
theorem Db.Swept.lostNames {d d' : Db} {at' : Moment} {cutoff : ℤ} {new : List EventRecord}
    (h : d.Swept d' at' cutoff new) :
    d'.lostNames = d.lostNames ++
      (d.agents.rows.filter fun a => a.silentSince cutoff).map AgentRecord.name := by
  have hpayloads := congrArg (List.filterMap EventPayload.lost?) h.payloads
  rw [List.filterMap_append, List.filterMap_map, List.filterMap_map, List.filterMap_map]
    at hpayloads
  have hexpiries : (d.tasks.rows.filter fun t => t.dueAt at').filterMap
      (EventPayload.lost? ∘ TaskRecord.expiry) = [] := by
    rw [List.filterMap_eq_nil_iff]
    exact fun _ _ => rfl
  have hlosses : (d.agents.rows.filter fun a => a.silentSince cutoff).filterMap
      (EventPayload.lost? ∘ AgentRecord.loss) =
        (d.agents.rows.filter fun a => a.silentSince cutoff).map AgentRecord.name := by
    rw [← List.filterMap_eq_map]
    rfl
  rw [Db.lostNames, h.events, List.filterMap_append]
  rw [hexpiries, hlosses, List.nil_append] at hpayloads
  exact congrArg _ hpayloads

/-- `append_event` always commits. -/
theorem exec_appendEvent (payload : EventPayload) (clock : ℕ → Moment) (s : Hub) :
    ((Call.mk (.appendEvent payload) clock).exec s).db = s.db.addEvent payload (clock 0).toIso := by
  have hexec : (Call.mk (.appendEvent payload) clock).exec s =
    (atomically (appendEvent payload) (s.connect clock)).2.hub := Call.exec_eq rfl clock s
  let e : EventRecord := { id := s.db.events.seq + 1, payload, ts := (clock 0).toIso }
  have hfound : (s.db.addEvent payload (clock 0).toIso).events.find? e.id = some e := by
    refine Serial.find?_of_mem ?_
    rw [Db.addEvent_events, Serial.mem_append]
    exact .inr rfl
  have hcommits : Commits (appendEvent payload) (s.connect clock) e
      { s.connect clock with
        clock := fun n => clock (n + 1)
        db := s.db.addEvent payload (clock 0).toIso
        notified := [.events] } := by
    simp only [appendEvent, commits_bind, commits_addEvent, commits_readDb, commits_orRaise,
      commits_notify, commits_pure, and_assoc, exists_and_left, exists_eq_left, exists_const]
    exact ⟨e, hfound, rfl, rfl⟩
  rw [hexec, atomically_of_commits hcommits]
  rfl

/-- What one call reports is what it loses. -/
theorem lostNames_step {s : Hub} (hs : s.db.roster.Consistent) (l : Call) :
    (l.exec s).db.lostNames = s.db.lostNames ++ (s.losses (l.exec s) ++ l.op.reported) := by
  obtain ⟨op, clock⟩ := l
  cases op
  case sweep lostAfterS =>
    show _ = _ ++ (_ ++ [])
    rw [List.append_nil]
    cases hcutoff : (clock 0).addMicros? (-seconds lostAfterS) with
    | none =>
      rw [exec_sweep_of_none hcutoff, losses_of_losesNobody (losesNobody_of_eq rfl),
        List.append_nil]
    | some cutoff =>
      obtain ⟨new, c', hc, -, hswept⟩ := swept_sweep (c := s.connect clock) hs hcutoff
      rw [exec_sweep_of_commits hc]
      have hhub : s.db.Swept c'.hub.db (clock 0) (cutoffUs (clock 0) lostAfterS) new := hswept
      rw [hhub.losses, hhub.lostNames]
  case appendEvent payload =>
    have hagents := congrArg Db.agents (exec_appendEvent payload clock s)
    rw [losses_of_losesNobody (losesNobody_of_eq hagents), exec_appendEvent, Op.reported,
      Db.lostNames,
      Db.addEvent_events, Serial.rows_append, List.filterMap_append]
    cases hlost : payload.lost? with
    | none => simp [Db.lostNames, hlost]
    | some name => simp [Db.lostNames, hlost]
  all_goals
    rw [losses_of_losesNobody (losesNobody_exec (by simp [Op.kinds])),
      lostNames_exec (by simp [Op.kinds])]
    exact (List.append_nil _).symm

/-- **The losses reported are the losses**, in the order they happened. -/
theorem lostNames_run {s : Hub} (hs : s.db.roster.Consistent) (ls : List Call) :
    (s.run ls).db.lostNames = s.db.lostNames ++ lossesAlong s ls := by
  induction ls generalizing s with
  | nil => exact (List.append_nil _).symm
  | cons l ls ih =>
    have hnext : (l.exec s).db.roster.Consistent :=
      (moves_exec l s).invariant (I := fun t => t.db.roster.Consistent)
        (fun _ _ _ _ hmove h => consistent_move hmove h) hs
    show ((l.exec s).run ls).db.lostNames = _
    rw [ih hnext, lostNames_step hs l, lossesAlong]
    simp only [List.append_assoc]

/-- **The sweeper reports each loss and each expiry once**, in every state of every run.  A sweep
    marks, fails and reports what it ought to, and that exactly once, if and only if its cutoff is
    a date or there is nothing to report; one that commits returns what it queued; a second one at
    the same reading finds nothing and changes nothing; and over the whole run the losses reported
    are the changes from live to lost. -/
theorem sweep_reports_once (u : Uuids) (ls : List Call) :
    let s := (Hub.start u).run ls
    (∀ lostAfterS clock, s.Reports lostAfterS clock ↔ s.Sweepable lostAfterS clock) ∧
    (∀ lostAfterS clock es c', Commits (sweep lostAfterS) (s.connect clock) es c' →
      c'.db.events.rows = s.db.events.rows ++ es ∧
        s.db.Swept c'.db (clock 0) (cutoffUs (clock 0) lostAfterS) es) ∧
    (∀ lostAfterS clock clock', clock' 0 = clock 0 →
      let s' := (Call.mk (.sweep lostAfterS) clock).exec s
      (Call.mk (.sweep lostAfterS) clock').exec s' = s' ∧
        ∀ es, (atomically (sweep lostAfterS) (s'.connect clock')).1 = .ok es → es = []) ∧
    s.db.lostNames = lossesAlong (Hub.start u) ls := by
  intro s
  have hs : s.db.roster.Consistent := consistent_run u ls
  refine ⟨fun lostAfterS clock => reports_iff hs, fun lostAfterS clock es c' hc => ?_,
    fun lostAfterS clock clock' hclock => sweep_again hs hclock rfl, ?_⟩
  · cases hcutoff : (clock 0).addMicros? (-seconds lostAfterS) with
    | none => exact absurd ⟨es, c', hc⟩ (sweep_raises hcutoff)
    | some cutoff =>
      obtain ⟨new, c₁, hc₁, -, hswept⟩ := swept_sweep (c := s.connect clock) hs hcutoff
      obtain ⟨rfl, rfl⟩ := Commits.unique hc hc₁
      exact ⟨hswept.events, hswept⟩
  · have haccount := lostNames_run (consistent_start u) ls
    rw [show (Hub.start u).db.lostNames = [] from rfl, List.nil_append] at haccount
    exact haccount

/-- A silence of that many seconds is allowed, and ends before the first date there is: the sweep
    raises, and an expired lease is not reported. -/
theorem overdue_unreported :
    let s := (Hub.start .unary).run
      [⟨.initializeWorkflow "goal" {}, stoppedAt 0⟩,
        ⟨.checkIn "ada" {} (some "ada-1") {} none, stoppedAt 0⟩,
        ⟨.assignTask "ada" "implementer" "title" "instructions" 30 none none, stoppedAt 0⟩]
    let clock := stoppedAt 3600000000
    (∃ t ∈ s.db.tasks.rows, t.dueAt (clock 0)) ∧ ¬ s.Reports (10 ^ 12) clock ∧
      (Call.mk (.sweep (10 ^ 12)) clock).exec s = s := by
  intro s clock
  have hcutoff : (clock 0).addMicros? (-seconds (10 ^ 12)) = none := by decide +kernel
  refine ⟨by decide +kernel, fun hreports => ?_, exec_sweep_of_none hcutoff⟩
  have hsweepable := (reports_iff (consistent_run _ _)).mp hreports
  revert hsweepable
  decide +kernel

end AgentHub
