import AgentHub.Hub.Tasks

namespace AgentHub

open Relational

/-!
# Alice's inbox and the sweeper

Events are leased to Alice under a fresh delivery id and acknowledged by that id.  The sweeper
expires overdue leases and declares silent agents lost; it is the one operation that writes in
a loop.
-/

/-! ### The inbox -/

/-- `DEFAULT_EVENT_LEASE_S`. -/
def defaultEventLeaseS : ℚ := 600

/-- `append_event`. -/
def appendEvent (payload : EventPayload) : Txn EventRecord := do
  let id ← addEvent payload
  let event ← orRaise ((← readDb).events.find? id) .valueError "no row"
  notify .events
  return event

/-- The event is out under `deliveryId`. -/
def EventRecord.deliveredAs (e : EventRecord) (deliveryId : String) : Prop :=
  e.deliveryId = some deliveryId ∧ e.state = .delivered

instance (e : EventRecord) (deliveryId : String) : Decidable (e.deliveredAs deliveryId) :=
  inferInstanceAs (Decidable (_ ∧ _))

/-- `UPDATE event SET state = 'acked'`. -/
@[simps] def Db.ack (d : Db) (deliveryId : String) (ts : Stamp) : Db :=
  { d with
    events := d.events.updateWhere (fun e => e.deliveredAs deliveryId)
      fun e => { e with state := .acked, ackedAt := some ts } }

/-- `ack_event`: whoever holds the newest delivery may acknowledge it, however late. -/
def ackEvent (deliveryId : Option String) : Txn Bool :=
  match deliveryId with
  | none | some "" => return false
  | some id => do
    let ts ← nowIso
    match (← readDb).events.first? fun e => e.deliveredAs id with
    | none => return false
    | some _ =>
      writeDb fun d => d.ack id ts
      return true

/-- The event may be leased at `ts`: it is new, or its last lease has run out. -/
def EventRecord.leasable (e : EventRecord) (ts : Stamp) : Prop :=
  e.state = .queued ∨ e.state = .delivered ∧ ∃ expires ∈ e.deliveryExpires, expires ≤ ts

instance (e : EventRecord) (ts : Stamp) : Decidable (e.leasable ts) := by
  unfold EventRecord.leasable; infer_instance

/-- The event after one more delivery. -/
def EventRecord.leased (e : EventRecord) (deliveryId : String) (ts expires : Stamp) :
    EventRecord :=
  { e with
    state := .delivered
    deliveryId := some deliveryId
    deliveryAttempts := e.deliveryAttempts + 1
    deliveredAt := some ts
    deliveryExpires := some expires }

/-- A leased event keeps its number. -/
theorem EventRecord.leased_id (e : EventRecord) (deliveryId : String) (ts expires : Stamp) :
    (e.leased deliveryId ts expires).id = e.id := rfl

/-- `UPDATE event SET state = 'delivered'`. -/
@[simps] def Db.lease (d : Db) (eventId : ℕ) (deliveryId : String) (ts expires : Stamp) : Db :=
  { d with
    events := d.events.updateWhere (fun e => e.id = eventId)
      (fun e => e.leased deliveryId ts expires) fun e => e.leased_id deliveryId ts expires }

/-- `lease_next_event`: lease the oldest event that is new or whose lease has run out. -/
def leaseNextEvent (leaseS : Option ℚ := none) (defaultLeaseS : ℚ := defaultEventLeaseS) :
    Txn (Option EventRecord) := do
  let at' ← now
  let expires ← addMicros at' (seconds (leaseS.getD defaultLeaseS))
  let deliveryId ← uuid4
  match (← readDb).events.first? fun e => e.leasable at'.toIso with
  | none => return none
  | some row =>
    writeDb fun d => d.lease row.id deliveryId at'.toIso expires.toIso
    let updated ← orRaise ((← readDb).events.find? row.id) .valueError "no row"
    return some updated

section

variable {c c' : Conn}

/-- An appended event draws no id, and is stamped once. -/
theorem appendEvent_cases {payload : EventPayload} {e : EventRecord}
    (h : Commits (appendEvent payload) c e c') :
    c'.uuids = c.uuids ∧ ∃ ts, c'.db = c.db.addEvent payload ts := by
  simp only [appendEvent, commits_bind, commits_addEvent, commits_readDb, commits_orRaise,
    commits_notify, commits_pure, and_assoc, exists_and_left, exists_eq_left, exists_const] at h
  obtain ⟨_, -, -, rfl⟩ := h
  exact ⟨rfl, _, rfl⟩

/-- **What an acknowledgement does.**  It acknowledges what is out under its id, and with
    nothing out under that id it does nothing. -/
theorem commits_ackEvent {deliveryId : Option String} {acked : Bool} :
    Commits (ackEvent deliveryId) c acked c' ↔
      match deliveryId with
      | none | some "" => acked = false ∧ c' = c
      | some id =>
        if ∃ e ∈ c.db.events, e.deliveredAs id then
          acked = true ∧ c' = { c with
            clock := fun n => c.clock (n + 1), db := c.db.ack id (c.clock 0).toIso }
        else acked = false ∧ c' = { c with clock := fun n => c.clock (n + 1) } := by
  unfold ackEvent
  split
  · simp
  · simp
  rename_i id _
  simp only [commits_bind, commits_nowIso, commits_readDb, and_assoc, exists_and_left,
    exists_eq_left]
  cases hfirst : c.db.events.first? fun e => e.deliveredAs id with
  | none =>
    have hno : ¬ ∃ e ∈ c.db.events, e.deliveredAs id := by
      simpa using Serial.first?_eq_none_iff.mp hfirst
    rw [if_neg hno, commits_pure]
  | some e =>
    have hyes : ∃ e ∈ c.db.events, e.deliveredAs id :=
      ⟨e, Serial.mem_of_first? hfirst,
        Serial.of_first? (p := fun e : EventRecord => e.deliveredAs id) hfirst⟩
    rw [if_pos hyes]
    simp [and_comm]

/-- An acknowledgement names a delivery that is out, or it does nothing. -/
theorem commits_ackEvent_some {id : String} (hne : id ≠ "") {acked : Bool} :
    Commits (ackEvent (some id)) c acked c' ↔
      if ∃ e ∈ c.db.events, e.deliveredAs id then
        acked = true ∧ c' = { c with
          clock := fun n => c.clock (n + 1), db := c.db.ack id (c.clock 0).toIso }
      else acked = false ∧ c' = { c with clock := fun n => c.clock (n + 1) } := by
  rw [commits_ackEvent]
  split
  · rename_i h
    cases h
  · rename_i h
    exact absurd (Option.some.inj h) hne
  · rename_i h
    obtain rfl := Option.some.inj h
    exact Iff.rfl

/-- **What a lease does.**  It delivers the oldest leasable event under the next uuid, if there
    is one. -/
theorem commits_leaseNextEvent {leaseS : Option ℚ} {defaultLeaseS : ℚ} {o : Option EventRecord} :
    Commits (leaseNextEvent leaseS defaultLeaseS) c o c' ↔
      ∃ expires, (c.clock 0).addMicros? (seconds (leaseS.getD defaultLeaseS)) = some expires ∧
        match c.db.events.first? fun e => e.leasable (c.clock 0).toIso with
        | none =>
          o = none ∧ c' = { c with clock := fun n => c.clock (n + 1), uuids := c.uuids.rest }
        | some row =>
          o = some (row.leased c.uuids.head (c.clock 0).toIso expires.toIso) ∧
            c' = { c with
              clock := fun n => c.clock (n + 1)
              uuids := c.uuids.rest
              db := c.db.lease row.id c.uuids.head (c.clock 0).toIso expires.toIso } := by
  unfold leaseNextEvent
  simp only [commits_bind, commits_now, commits_addMicros, commits_uuid4, commits_readDb,
    and_assoc, exists_and_left, exists_eq_left]
  refine exists_congr fun expires => and_congr_right fun _ => ?_
  cases hfirst : c.db.events.first? fun e => e.leasable (c.clock 0).toIso with
  | none => simp
  | some row =>
    have hrow : c.db.events.find? row.id = some row :=
      Serial.find?_of_mem (Serial.mem_of_first? hfirst)
    simp [Serial.find?_updateWhere, hrow, and_comm]

end

/-! ### The sweeper -/

/-- The task's lease has run out at `ts`. -/
def TaskRecord.overdue (t : TaskRecord) (ts : Stamp) : Prop :=
  t.isOpen ∧ ∃ expires ∈ t.leaseExpires, expires ≤ ts

instance (t : TaskRecord) (ts : Stamp) : Decidable (t.overdue ts) := by
  unfold TaskRecord.overdue; infer_instance

/-- One turn of `_expire_leases`: clear the lease and report it. -/
def expireLease (row : TaskRecord) : Txn ℕ := do
  let updated ← nowIso
  writeDb fun d => d.setLease row.id none updated
  addEvent (.leaseExpired row.id row.assignee row.leaseExpires)

/-- `_expire_leases`. -/
def expireLeases (ts : Stamp) : Txn (List ℕ) := do
  ((← readDb).tasks.rows.filter fun t => t.overdue ts).mapM expireLease

/-- The agent is live and has not been heard of since `cutoff`. -/
def AgentRecord.silent (a : AgentRecord) (cutoff : Stamp) : Prop :=
  a.status.live ∧ a.lastHeartbeat ≤ cutoff

instance (a : AgentRecord) (cutoff : Stamp) : Decidable (a.silent cutoff) :=
  inferInstanceAs (Decidable (_ ∧ _))

/-- `LOST_REASON`. -/
def lostReason : String := "worker_lost"

/-- The result of a task whose worker was lost. -/
def lostResult (name : String) : Json :=
  .obj [("status", .str TaskState.failed.value),
        ("summary", .str s!"worker {name} stopped heartbeating"),
        ("reason", .str lostReason), ("artifacts", .arr [])]

/-- Fail the task of a lost worker, if it holds one. -/
def failLost (name : String) (taskId : Option String) : Txn Unit :=
  match taskId with
  | none => pure ()
  | some id => finish id .failed (some (lostResult name))

/-- One turn of `_lose_agents`, on the row as it was fetched. -/
def loseAgent (agent : AgentRecord) : Txn ℕ := do
  writeDb fun d => d.setStatus agent.name .lost
  let taskId := (← readDb).openTaskId agent.currentTaskId
  failLost agent.name taskId
  addEvent (.agentLost agent.name taskId agent.lastHeartbeat)

/-- `_lose_agents`. -/
def loseAgents (cutoff : Stamp) : Txn (List ℕ) := do
  ((← readDb).agents.rows.filter fun a => a.silent cutoff).mapM loseAgent

/-- `sweep`. -/
def sweep (lostAfterS : ℚ) : Txn (List EventRecord) := do
  let at' ← now
  let expired ← expireLeases at'.toIso
  let cutoff ← addMicros at' (-seconds lostAfterS)
  let lost ← loseAgents cutoff.toIso
  let emitted := expired ++ lost
  if emitted = [] then
    return []
  let events := (← readDb).events.rows.filter fun e => e.id ∈ emitted
  notify .events
  return events

end AgentHub
