import AgentHub.Hub.Inbox
import Mathlib.Data.List.Sort

namespace AgentHub

open Relational

/-!
# What Alice reads of the hub

`get_state` is all that a restarted Alice has to go by: the workflow, the agents, the tasks without
their instructions, and the events that were delivered and not acknowledged.

* `HubState`, `Db.state`, `getState` — the answer of `get_state`;
* `mem_state_tasks`, `mem_state_agents`, `mem_state_unacked` — what it lists.
-/

/-- A task as `get_state` shows it, without its instructions. -/
structure TaskSummary where
  id : String
  workflowId : String
  assignee : Option String
  role : String
  title : String
  state : TaskState
  leaseExpires : Option Stamp
  leaseDurationS : ℚ
  result : Option Json
  created : Stamp
  updated : Stamp
  prHeadSha : Option String
  sourceEventId : Option ℕ

/-- What a summary shows of a task. -/
def TaskRecord.toSummary (t : TaskRecord) : TaskSummary where
  id := t.id
  workflowId := t.workflowId
  assignee := t.assignee
  role := t.role
  title := t.title
  state := t.state
  leaseExpires := t.leaseExpires
  leaseDurationS := t.leaseDurationS
  result := t.result
  created := t.created
  updated := t.updated
  prHeadSha := t.prHeadSha
  sourceEventId := t.sourceEventId

/-- `_age_seconds`. -/
def ageSeconds (value : Stamp) (at' : Moment) : ℚ :=
  max 0 ((at'.us - value.ms * 1000 : ℚ) / 1000000)

/-- An agent as `get_state` shows it. -/
structure AgentSummary extends AgentRecord where
  modelMismatch : Bool
  heartbeatAgeS : ℚ
  progressAgeS : Option ℚ

/-- What a summary shows of an agent at a time. -/
def AgentRecord.toSummary (a : AgentRecord) (at' : Moment) : AgentSummary where
  toAgentRecord := a
  modelMismatch := a.profile.modelMismatch
  heartbeatAgeS := ageSeconds a.lastHeartbeat at'
  progressAgeS := a.lastProgressAt.map fun ts => ageSeconds ts at'

/-- The answer of `get_state`. -/
structure HubState where
  workflow : Option WorkflowRecord
  agents : List AgentSummary
  tasks : List TaskSummary
  queuedEvents : ℕ
  unackedDelivered : List EventRecord

/-- The answer of `get_state` at a time. -/
def Db.state (d : Db) (at' : Moment) : HubState where
  workflow := d.workflow
  agents := (d.agents.rows.insertionSort fun a b => a.name ≤ b.name).map (·.toSummary at')
  tasks := (d.tasks.rows.insertionSort fun a b => a.created ≤ b.created).map (·.toSummary)
  queuedEvents := d.events.rows.countP fun e => e.state = .queued
  unackedDelivered := d.events.rows.filter fun e => e.state = .delivered

/-- `get_state`: all of it is read in one transaction. -/
def getState : Txn HubState := do
  let at' ← now
  return (← readDb).state at'

section

variable {d : Db} {at' : Moment} {c c' : Conn}

/-- `get_state` reads the clock once and writes nothing. -/
theorem commits_getState {s : HubState} :
    Commits getState c s c' ↔
      s = c.db.state (c.clock 0) ∧ c' = { c with clock := fun n => c.clock (n + 1) } := by
  simp [getState, and_comm]

/-- The tasks shown are the tasks there are. -/
theorem mem_state_tasks {t : TaskSummary} :
    t ∈ (d.state at').tasks ↔ ∃ row ∈ d.tasks, row.toSummary = t := by
  rw [Db.state, List.mem_map]
  simp only [List.mem_insertionSort, Table.mem_iff]

/-- The agents shown are the agents there are. -/
theorem mem_state_agents {a : AgentSummary} :
    a ∈ (d.state at').agents ↔ ∃ row ∈ d.agents, row.toSummary at' = a := by
  rw [Db.state, List.mem_map]
  simp only [List.mem_insertionSort, Table.mem_iff]

/-- The events shown as unacknowledged are those delivered. -/
theorem mem_state_unacked {e : EventRecord} :
    e ∈ (d.state at').unackedDelivered ↔ e ∈ d.events ∧ e.state = .delivered := by
  rw [Db.state, List.mem_filter, Serial.mem_iff, decide_eq_true_iff]

end

end AgentHub
