import AgentHub.Hub.Ledger
import AgentHub.Hub.Workflow

namespace AgentHub

open Relational

/-!
# Agents

`check_in`, `heartbeat` and `release_agent`: how a worker enters the hub, stays alive in it and
is told to leave.  A check-in is the only way in, also for a worker that was lost; a heartbeat
renews the lease of the task it names, up to the policy's cap.
-/

/-- The agent takes part in the workflow: `idle` or `busy`. -/
def AgentStatus.live (s : AgentStatus) : Prop := s = .idle ∨ s = .busy

instance (s : AgentStatus) : Decidable s.live := inferInstanceAs (Decidable (_ ∨ _))

/-! ### Check-in -/

/-- `_readmitted`: the status of a worker that has just announced itself again. -/
def readmitted (previous : AgentStatus) (openTask : Option String) : AgentStatus :=
  if previous = .released then .released
  else if openTask.isSome then .busy
  else .idle

/-- `owner` works in the workspace that `name` asks for. -/
def Occupies (owner : AgentRecord) (workspaceId name : String) : Prop :=
  owner.profile.workspaceId = some workspaceId ∧ owner.status.live ∧ owner.name ≠ name

instance (owner : AgentRecord) (workspaceId name : String) :
    Decidable (Occupies owner workspaceId name) := by
  unfold Occupies; infer_instance

/-- No other live agent works in the profile's workspace. -/
def requireWorkspaceFree (name : String) (profile : AgentProfile) : Txn Unit :=
  match profile.workspaceId with
  | none => pure ()
  | some workspaceId => do
    match (← readDb).agents.rows.find? (fun owner => Occupies owner workspaceId name) with
    | none => pure ()
    | some owner =>
      raise .duplicateAgent s!"workspace {workspaceId} is occupied by live agent {owner.name}"

/-- The row of a worker that checks in for the first time. -/
def newAgent (name contextId instanceId : String) (profile : AgentProfile)
    (remoteAddr : Option String) (ts : Stamp) : AgentRecord :=
  { name, contextId, profile
    status := .idle
    lastSeen := ts
    workerInstanceId := instanceId
    lastHeartbeat := ts
    lastProgressAt := none
    currentTaskId := none
    checkinRemoteAddr := remoteAddr
    lastRemoteAddr := remoteAddr }

/-- The row of a worker that checks in again, still holding `current`. -/
def AgentRecord.returned (a : AgentRecord) (current : Option String) (instanceId : String)
    (profile : AgentProfile) (remoteAddr : Option String) (ts : Stamp) : AgentRecord :=
  { a with
    profile
    status := readmitted a.status current
    lastSeen := ts
    workerInstanceId := instanceId
    lastHeartbeat := ts
    lastProgressAt := if a.status = .lost then none else a.lastProgressAt
    currentTaskId := current
    checkinRemoteAddr := remoteAddr
    lastRemoteAddr := remoteAddr }

/-- An agent that returns keeps its name. -/
theorem AgentRecord.returned_name (a : AgentRecord) (current : Option String)
    (instanceId : String) (profile : AgentProfile) (remoteAddr : Option String) (ts : Stamp) :
    (a.returned current instanceId profile remoteAddr ts).name = a.name := rfl

/-- The write of a re-admission. -/
@[simps] def Db.readmit (d : Db) (name : String) (current : Option String) (instanceId : String)
    (profile : AgentProfile) (remoteAddr : Option String) (ts : Stamp) : Db :=
  { d with
    agents := d.agents.modify name
      (fun a => a.returned current instanceId profile remoteAddr ts)
      fun a => a.returned_name current instanceId profile remoteAddr ts }

/-- Insert the agent, or re-admit it on its own context.  Returns the context id. -/
def admitAgent (name instanceId : String) (profile : AgentProfile) (remoteAddr : Option String)
    (ts : Stamp) : Txn String := do
  match (← readDb).agents.find? name with
  | none =>
    let contextId ← uuid4
    insertAgent (newAgent name contextId instanceId profile remoteAddr ts)
    return contextId
  | some previous =>
    refuseIf (previous.status.live ∧ previous.workerInstanceId ≠ "") .duplicateAgent
      s!"agent {name} already has a live worker instance"
    -- Only a task that is still open survives the re-admission.
    let current := (← readDb).openTaskId previous.currentTaskId
    writeDb fun d => d.readmit name current instanceId profile remoteAddr ts
    return previous.contextId

/-- The transcript message of a check-in. -/
def readyParts (profile : AgentProfile) : List Part := [⟨"READY", .checkIn profile⟩]

/-- `worker_instance_id or uuid4().hex`: an empty id counts as none. -/
def instanceIdOrNew (workerInstanceId : Option String) : Txn String :=
  match workerInstanceId with
  | none | some "" => uuid4
  | some id => pure id

/-- `check_in`. -/
def checkIn (name : String) (profile : AgentProfile := {})
    (workerInstanceId : Option String := none) (op : Ledgered AgentRecord := {})
    (remoteAddr : Option String := none) : Txn (Mutation AgentRecord) := do
  let ts ← nowIso
  let instanceId ← instanceIdOrNew workerInstanceId
  match ← replay name op with
  | some responseJson => return .replayed responseJson
  | none =>
    requireWorkspaceFree name profile
    let contextId ← admitAgent name instanceId profile remoteAddr ts
    let _ ← addMessage none contextId name .toAlice (readyParts profile)
    let _ ← addEvent (.agentCheckedIn name profile contextId instanceId)
    let agent ← requireAgent name
    let result ← record name op agent
    notify .events
    return result

/-- How a check-in at `ts` changes the agents, and the context it is then known by. -/
inductive Admits (d : Db) (name instanceId : String) (profile : AgentProfile)
    (remoteAddr : Option String) (ts : Stamp) : String → Db → Prop
  | new (contextId : String) (hnew : d.agents.find? name = none)
      (hcontext : ∀ a ∈ d.agents, a.contextId ≠ contextId) :
      Admits d name instanceId profile remoteAddr ts contextId
        { d with
          agents := d.agents.insertOrIgnore
            (newAgent name contextId instanceId profile remoteAddr ts) }
  | returned (previous : AgentRecord) (hprev : d.agents.find? name = some previous)
      (hnot : ¬ (previous.status.live ∧ previous.workerInstanceId ≠ "")) :
      Admits d name instanceId profile remoteAddr ts previous.contextId
        (d.readmit name (d.openTaskId previous.currentTaskId) instanceId profile remoteAddr ts)

/-- An admission writes the agent table only. -/
theorem Admits.frame {β : Type} {d d' : Db} {name instanceId contextId : String}
    {profile : AgentProfile} {remoteAddr : Option String} {ts : Stamp}
    (h : Admits d name instanceId profile remoteAddr ts contextId d') (f : Db → β)
    (hf : ∀ agents, f { d with agents } = f d) : f d' = f d := by
  cases h with
  | new => exact hf _
  | returned => exact hf _

/-- The message and the event of a check-in. -/
def Db.announce (d : Db) (name contextId instanceId : String) (profile : AgentProfile)
    (ts ts' : Stamp) : Db :=
  (d.addMessage none contextId name .toAlice (readyParts profile) ts).addEvent
    (.agentCheckedIn name profile contextId instanceId) ts'

section

variable {c c' : Conn} {name instanceId : String} {profile : AgentProfile}
  {remoteAddr : Option String}

/-- A workspace is free unless another live agent is in it. -/
theorem commits_requireWorkspaceFree {u : Unit} :
    Commits (requireWorkspaceFree name profile) c u c' ↔
      (∀ w ∈ profile.workspaceId, ∀ a ∈ c.db.agents, ¬ Occupies a w name) ∧ c' = c := by
  unfold requireWorkspaceFree
  cases profile.workspaceId with
  | none => simp
  | some w =>
    cases hfind : c.db.agents.rows.find? (fun owner => Occupies owner w name) with
    | none =>
      have hfree : ∀ a ∈ c.db.agents, ¬ Occupies a w name := by
        simpa [Table.mem_iff] using hfind
      simpa [hfind] using fun _ => hfree
    | some owner =>
      have hmem : owner ∈ c.db.agents := List.mem_of_find?_eq_some hfind
      have hocc : Occupies owner w name := by simpa using List.find?_some hfind
      rw [commits_readDb_bind, hfind]
      constructor
      · intro h
        exact absurd h commits_raise
      · rintro ⟨h, -⟩
        exact absurd hocc (h w rfl owner hmem)

/-- An instance id given is used; otherwise one is drawn. Neither is empty. -/
theorem instanceIdOrNew_cases {workerInstanceId : Option String}
    (h : Commits (instanceIdOrNew workerInstanceId) c instanceId c') :
    (∀ id ∈ workerInstanceId, id ≠ "" → instanceId = id) ∧ instanceId ≠ "" ∧
      c'.uuids.Within c.uuids ∧ c'.db = c.db := by
  unfold instanceIdOrNew at h
  split at h
  · obtain ⟨rfl, rfl⟩ := commits_uuid4.mp h
    exact ⟨by simp, c.uuids.ne_empty 0, c.uuids.rest_within, rfl⟩
  · obtain ⟨rfl, rfl⟩ := commits_uuid4.mp h
    exact ⟨by simp, c.uuids.ne_empty 0, c.uuids.rest_within, rfl⟩
  · rename_i id hne
    obtain ⟨rfl, rfl⟩ := commits_pure.mp h
    exact ⟨by simp, fun h => hne (by rw [h]), .refl _, rfl⟩

/-- There is always an instance id to go on with. -/
theorem instanceIdOrNew_commits (workerInstanceId : Option String) (c : Conn) :
    ∃ instanceId c', Commits (instanceIdOrNew workerInstanceId) c instanceId c' ∧
      c'.db = c.db := by
  unfold instanceIdOrNew
  split
  · exact ⟨_, _, commits_uuid4.mpr ⟨rfl, rfl⟩, rfl⟩
  · exact ⟨_, _, commits_uuid4.mpr ⟨rfl, rfl⟩, rfl⟩
  · exact ⟨_, c, commits_pure.mpr ⟨rfl, rfl⟩, rfl⟩

/-- What an admission writes, in its three cases. -/
theorem admit_cases {ts : Stamp} {contextId : String}
    (h : Commits (admitAgent name instanceId profile remoteAddr ts) c contextId c') :
    Admits c.db name instanceId profile remoteAddr ts contextId c'.db ∧
      c'.uuids.Within c.uuids ∧ c'.clock = c.clock ∧ c'.notified = c.notified := by
  unfold admitAgent at h
  rw [commits_readDb_bind] at h
  cases hprev : c.db.agents.find? name with
  | none =>
    simp only [hprev, commits_bind, commits_uuid4, commits_insertAgent, commits_pure] at h
    obtain ⟨_, _, ⟨rfl, rfl⟩, _, _, ⟨hcontext, -, rfl⟩, rfl, rfl⟩ := h
    exact ⟨.new _ hprev hcontext, c.uuids.rest_within, rfl, rfl⟩
  | some previous =>
    simp only [hprev, commits_bind, commits_refuseIf, commits_readDb, commits_writeDb,
      commits_pure] at h
    obtain ⟨_, _, ⟨hnot, ht⟩, _, _, ⟨rfl, rfl⟩, _, _, rfl, rfl, rfl⟩ := h
    subst ht
    exact ⟨.returned previous hprev hnot, .refl _, rfl, rfl⟩

/-- **What a check-in does.**  It is answered from the ledger, or it admits the agent and
    announces it with one message, one event and its ledger row. -/
theorem checkIn_cases {workerInstanceId : Option String} {op : Ledgered AgentRecord}
    {m : Mutation AgentRecord}
    (h : Commits (checkIn name profile workerInstanceId op remoteAddr) c m c') :
    c'.uuids.Within c.uuids ∧
      ((∃ id hash row, op.entry? = some (id, hash) ∧
          c.db.operations.find? (name, id) = some row ∧ row.payloadHash = hash ∧
          m = .replayed row.responseJson ∧ c'.db = c.db) ∨
        ∃ instanceId contextId d agent row ts ts₁ ts₂ ts₃,
          (∀ id ∈ workerInstanceId, id ≠ "" → instanceId = id) ∧ instanceId ≠ "" ∧
          (∀ id hash, op.entry? = some (id, hash) → c.db.operations.find? (name, id) = none) ∧
          (∀ w ∈ profile.workspaceId, ∀ a ∈ c.db.agents, ¬ Occupies a w name) ∧
          Admits c.db name instanceId profile remoteAddr ts contextId d ∧
          PartsFit (readyParts profile) ∧
          d.agents.find? name = some agent ∧
          row = op.row? name agent ts₃ ∧ (∀ r ∈ row, c.db.operations.find? r.key = none) ∧
          m = op.outcome agent ∧
          c'.db = (d.announce name contextId instanceId profile ts₁ ts₂).record row) := by
  unfold checkIn at h
  rw [commits_bind] at h
  obtain ⟨ts, t₁, h₁, h⟩ := h
  obtain ⟨rfl, rfl⟩ := commits_nowIso.mp h₁
  rw [commits_bind] at h
  obtain ⟨instanceId, t₂, h₂, h⟩ := h
  obtain ⟨hid, hne, hwithin, hdb⟩ := instanceIdOrNew_cases h₂
  rw [commits_bind] at h
  obtain ⟨o, t₃, h₃, h⟩ := h
  obtain ⟨rfl, ⟨rfl, hfresh⟩ | ⟨id, hash, row, hentry, hrow, hhash, rfl⟩⟩ := commits_replay.mp h₃
  · rw [hdb] at hfresh
    simp only [commits_bind, commits_requireWorkspaceFree, commits_addMessage, commits_addEvent,
      commits_requireAgent, commits_notify, commits_pure] at h
    obtain ⟨_, _, ⟨hspace, rfl⟩, contextId, t₄, hadmit, _, _, ⟨hfit, -, rfl⟩, _, _, ⟨-, rfl⟩,
      agent, _, ⟨hagent, rfl⟩, result, t₅, hrecord, _, _, rfl, rfl, rfl⟩ := h
    obtain ⟨hadmits, hwithin', -, -⟩ := admit_cases hadmit
    obtain ⟨row, hrow, houtcome, hfree, hdb', huuids, -⟩ := record_cases hrecord
    rw [hdb] at hspace hadmits
    refine ⟨?_, .inr ⟨instanceId, contextId, t₄.db, agent, row, _, _, _, _, hid, hne, hfresh,
      hspace,
      hadmits, hfit, hagent, hrow, ?_, houtcome, hdb'⟩⟩
    · rw [huuids]
      exact hwithin'.trans hwithin
    · intro r hr
      rw [← (hadmits.frame Db.operations fun _ => rfl)]
      exact hfree r hr
  · obtain ⟨rfl, rfl⟩ := commits_pure.mp h
    exact ⟨hwithin, .inl ⟨id, hash, row, hentry, hdb ▸ hrow, hhash, rfl, hdb⟩⟩

end

/-! ### Heartbeats -/

/-- The stamps of an accepted heartbeat: neither moves backwards. -/
@[simps] def Db.beat (d : Db) (name : String) (ts : Stamp) (remoteAddr : Option String) : Db :=
  { d with agents := d.agents.modify name fun a =>
      { a with
        lastHeartbeat := max a.lastHeartbeat ts
        lastSeen := max a.lastSeen ts
        lastRemoteAddr := remoteAddr.or a.lastRemoteAddr } }

/-- `UPDATE task SET lease_expires, updated`. -/
@[simps] def Db.setLease (d : Db) (taskId : String) (expires : Option Stamp) (updated : Stamp) :
    Db :=
  { d with tasks := d.tasks.modify taskId fun t => { t with leaseExpires := expires, updated } }

/-- `max_task_lease_min or self._max_task_lease_min(…)`: zero counts as none. -/
def leaseCapMin (maxMin : Option ℚ) (workflowId : String) : Txn ℚ :=
  match maxMin with
  | none => maxTaskLeaseMin workflowId
  | some value => if value = 0 then maxTaskLeaseMin workflowId else pure value

/-- The lease rule of a heartbeat at `at'`: a lease that has run out stays as it is, any other is
    renewed for its duration, never shortened and never beyond the cap. -/
def renewLease (task : TaskRecord) (expires : Stamp) (at' : Moment)
    (maxMin : Option ℚ) : Txn Unit := do
  let capMinutes ← leaseCapMin maxMin task.workflowId
  let cap ← addMicros task.created.parse (minutes capMinutes)
  if expires.parse ≤ at' then
    return ()
  if cap ≤ at' then
    writeDb fun d => d.setLease task.id (some cap.toIso) at'.toIso
    return ()
  let extended ← addMicros at' (seconds task.leaseDurationS)
  let renewed := min (max extended expires.parse) cap
  if renewed = expires.parse then
    return ()
  writeDb fun d => d.setLease task.id (some renewed.toIso) at'.toIso

/-- `heartbeat`: `false` from a process that is not the agent's current one. -/
def heartbeat (name workerInstanceId : String) (currentTaskId : Option String)
    (maxMin : Option ℚ := none) (remoteAddr : Option String := none) : Txn Bool := do
  let at' ← now
  let agent ← requireAgent name
  if agent.workerInstanceId ≠ workerInstanceId ∨ agent.status = .lost then
    return false
  writeDb fun d => d.beat name at'.toIso remoteAddr
  if currentTaskId = none ∨ currentTaskId = some "" ∨ agent.currentTaskId ≠ currentTaskId then
    return true
  let task ← requireTask (currentTaskId.getD "")
  match task.leaseExpires with
  | none => return true
  | some expires =>
    if task.assignee ≠ some name ∨ task.state.terminal then
      return true
    renewLease task expires at' maxMin
    return true

/-! ### Release -/

/-- `UPDATE agent SET status`. -/
@[simps] def Db.setStatus (d : Db) (name : String) (status : AgentStatus) : Db :=
  { d with agents := d.agents.modify name fun a => { a with status } }

/-- `release_agent`: a released agent stays released. -/
def releaseAgent (name : String) : Txn AgentRecord := do
  let agent ← requireAgent name
  if agent.status = .released then
    return agent
  writeDb fun d => d.setStatus name .released
  let released ← requireAgent name
  notify (.context agent.contextId)
  return released

section

variable {c c' : Conn} {name : String}

/-- Reading the lease cap writes nothing. -/
theorem leaseCapMin_cases {maxMin : Option ℚ} {workflowId : String} {cap : ℚ}
    (h : Commits (leaseCapMin maxMin workflowId) c cap c') : c' = c := by
  unfold leaseCapMin at h
  split at h
  · exact (commits_maxTaskLeaseMin.mp h).2
  · split at h
    · exact (commits_maxTaskLeaseMin.mp h).2
    · exact (commits_pure.mp h).2

/-- **What a heartbeat does to the lease of the task it names.**  Nothing, or it moves the end
    of a lease that has not run out. -/
theorem renewLease_cases {task : TaskRecord} {expires : Stamp} {at' : Moment} {maxMin : Option ℚ}
    {u : Unit} (h : Commits (renewLease task expires at' maxMin) c u c') :
    c'.uuids = c.uuids ∧
      (c'.db = c.db ∨
        at' < expires.parse ∧
          ∃ renewed ts, c'.db = c.db.setLease task.id (some renewed) ts) := by
  unfold renewLease at h
  rw [commits_bind] at h
  obtain ⟨capMinutes, t₁, h₁, h⟩ := h
  obtain rfl := leaseCapMin_cases h₁
  rw [commits_bind] at h
  obtain ⟨cap, t₂, h₂, h⟩ := h
  obtain ⟨-, rfl⟩ := commits_addMicros.mp h₂
  split at h
  · obtain ⟨-, rfl⟩ := commits_pure.mp h
    exact ⟨rfl, .inl rfl⟩
  rename_i hlive
  split at h
  · simp only [commits_bind, commits_writeDb, commits_pure] at h
    obtain ⟨_, _, rfl, -, rfl⟩ := h
    exact ⟨rfl, .inr ⟨lt_of_not_ge hlive, _, _, rfl⟩⟩
  rw [commits_bind] at h
  obtain ⟨extended, t₃, h₃, h⟩ := h
  obtain ⟨-, rfl⟩ := commits_addMicros.mp h₃
  dsimp only at h
  split at h
  · obtain ⟨-, rfl⟩ := commits_pure.mp h
    exact ⟨rfl, .inl rfl⟩
  · obtain rfl := commits_writeDb.mp h
    exact ⟨rfl, .inr ⟨lt_of_not_ge hlive, _, _, rfl⟩⟩

/-- **What a heartbeat does.**  From another process than the agent's current one, or for a lost
    agent, nothing; otherwise it moves the stamps, and perhaps the lease of the agent's task. -/
theorem heartbeat_cases {workerInstanceId : String} {currentTaskId remoteAddr : Option String}
    {maxMin : Option ℚ} {accepted : Bool}
    (h : Commits (heartbeat name workerInstanceId currentTaskId maxMin remoteAddr) c accepted c') :
    c'.uuids = c.uuids ∧
      ∃ agent, c.db.agents.find? name = some agent ∧
        ((accepted = false ∧ c'.db = c.db ∧
            (agent.workerInstanceId ≠ workerInstanceId ∨ agent.status = .lost)) ∨
          accepted = true ∧ agent.workerInstanceId = workerInstanceId ∧ agent.status ≠ .lost ∧
            ∃ ts, c'.db = c.db.beat name ts remoteAddr ∨
              ∃ task expires renewed ts', c.db.tasks.find? task.id = some task ∧ task.isOpen ∧
                task.assignee = some name ∧ task.leaseExpires = some expires ∧
                c'.db = (c.db.beat name ts remoteAddr).setLease task.id (some renewed) ts') := by
  unfold heartbeat at h
  rw [commits_bind] at h
  obtain ⟨at', t₁, h₁, h⟩ := h
  obtain ⟨rfl, rfl⟩ := commits_now.mp h₁
  let ts := (c.clock 0).toIso
  rw [commits_bind] at h
  obtain ⟨agent, t₂, h₂, h⟩ := h
  obtain ⟨hagent, rfl⟩ := commits_requireAgent.mp h₂
  split at h
  · rename_i hstale
    obtain ⟨rfl, rfl⟩ := commits_pure.mp h
    exact ⟨rfl, agent, hagent, .inl ⟨rfl, rfl, hstale⟩⟩
  rename_i hcurrent
  obtain ⟨hinstance, hlost⟩ := not_or.mp hcurrent
  rw [commits_bind] at h
  obtain ⟨_, t₃, h₃, h⟩ := h
  obtain rfl := commits_writeDb.mp h₃
  split at h
  · obtain ⟨rfl, rfl⟩ := commits_pure.mp h
    exact ⟨rfl, agent, hagent, .inr ⟨rfl, not_not.mp hinstance, hlost, ts, .inl rfl⟩⟩
  rw [commits_bind] at h
  obtain ⟨task, t₄, h₄, h⟩ := h
  obtain ⟨htask, rfl⟩ := commits_requireTask.mp h₄
  split at h
  · obtain ⟨rfl, rfl⟩ := commits_pure.mp h
    exact ⟨rfl, agent, hagent, .inr ⟨rfl, not_not.mp hinstance, hlost, ts, .inl rfl⟩⟩
  rename_i expires hexpires
  split at h
  · obtain ⟨rfl, rfl⟩ := commits_pure.mp h
    exact ⟨rfl, agent, hagent, .inr ⟨rfl, not_not.mp hinstance, hlost, ts, .inl rfl⟩⟩
  rename_i hopen
  obtain ⟨hassignee, hopen⟩ := not_or.mp hopen
  rw [commits_bind] at h
  obtain ⟨_, t₅, h₅, h⟩ := h
  obtain ⟨rfl, rfl⟩ := commits_pure.mp h
  obtain ⟨huuids, hdb | ⟨-, renewed, ts', hdb⟩⟩ := renewLease_cases h₅
  · exact ⟨huuids, agent, hagent, .inr ⟨rfl, not_not.mp hinstance, hlost, ts, .inl hdb⟩⟩
  · refine ⟨huuids, agent, hagent, .inr ⟨rfl, not_not.mp hinstance, hlost, ts, .inr ?_⟩⟩
    have hid : task.id = currentTaskId.getD "" := Table.find?_key htask
    exact ⟨task, expires, renewed, ts', hid ▸ htask, Bool.eq_false_of_not_eq_true hopen,
      not_not.mp hassignee,
      hexpires, hdb⟩

/-- A release marks the agent, unless it is marked already. -/
theorem releaseAgent_cases {a : AgentRecord} (h : Commits (releaseAgent name) c a c') :
    c'.uuids = c.uuids ∧
      ∃ agent, c.db.agents.find? name = some agent ∧
        ((agent.status = .released ∧ c'.db = c.db) ∨
          agent.status ≠ .released ∧ c'.db = c.db.setStatus name .released) := by
  unfold releaseAgent at h
  rw [commits_bind] at h
  obtain ⟨agent, t₁, h₁, h⟩ := h
  obtain ⟨hagent, rfl⟩ := commits_requireAgent.mp h₁
  split at h
  · rename_i hreleased
    obtain ⟨-, rfl⟩ := commits_pure.mp h
    exact ⟨rfl, agent, hagent, .inl ⟨hreleased, rfl⟩⟩
  · rename_i hstatus
    simp only [commits_bind, commits_writeDb, commits_requireAgent, commits_notify,
      commits_pure] at h
    obtain ⟨_, _, rfl, _, _, ⟨-, rfl⟩, _, _, rfl, -, rfl⟩ := h
    exact ⟨rfl, agent, hagent, .inr ⟨hstatus, rfl⟩⟩

end

end AgentHub
