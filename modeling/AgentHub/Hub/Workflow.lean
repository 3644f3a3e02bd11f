import AgentHub.Hub.Statements

namespace AgentHub

open Relational

/-!
# The workflow and its audit log

`initialize_workflow` creates the one workflow or confirms it; `set_workflow_status` and
`log_decision` write the audit log; `_max_task_lease_min` reads the rail that caps every lease.
-/

/-- `DEFAULT_GOAL`. -/
def defaultGoal : String := "Drive the assigned GitHub issue to a merged pull request."

/-- `DEFAULT_LEASE_MIN`. -/
def defaultLeaseMin : ℚ := 30

/-- `DEFAULT_MAX_TASK_LEASE_MIN`. -/
def defaultMaxTaskLeaseMin : ℚ := 120

/-- The least number that `float()` refuses with `OverflowError`. -/
def floatOverflow : ℚ := 2 ^ 1024 - 2 ^ 970

/-- `_validated_workflow_policy`. -/
def validatedWorkflowPolicy (policy : WorkflowPolicy) : Txn WorkflowPolicy := do
  let details := "; ".intercalate
    (policy.violations.map fun field => s!"{field}: Input should be greater than 0")
  refuseIf (policy.violations ≠ []) .invalidPolicy
    (s!"invalid workflow policy: {details}. Correct the policy and retry initialize_workflow " ++
      "before assigning work.")
  return policy

/-- `initialize_workflow`: create the workflow once, or confirm the stored prompt. -/
def initializeWorkflow (goal : String := defaultGoal) (policy : WorkflowPolicy := {}) :
    Txn String := do
  let requested ← validatedWorkflowPolicy policy
  match (← readDb).workflow with
  | none =>
    let id ← uuid4
    let created ← nowIso
    writeDb fun d => { d with
      workflow := some { id, goal, status := .active, policy := requested, created } }
    return id
  | some row =>
    refuseIf (row.goal ≠ goal ∨ row.policy ≠ requested) .conflict
      (s!"workflow is already initialized with status={pyRepr row.status.value}, " ++
        s!"goal={pyRepr row.goal}, and a different goal or policy; use get_state to resume it, " ++
        "or use a fresh HUB_STATE_DIR for a different workflow")
    return row.id

/-- The policy's cap on a lease, or the default; `none` where `float()` overflows. -/
def Db.leaseCap? (d : Db) (workflowId : String) : Option ℚ :=
  match d.workflow with
  | none => some defaultMaxTaskLeaseMin
  | some row =>
    if row.id ≠ workflowId then some defaultMaxTaskLeaseMin
    else match row.policy.maxTaskLeaseMin with
      | none => some defaultMaxTaskLeaseMin
      | some value =>
        if value ≤ 0 then some defaultMaxTaskLeaseMin
        else if floatOverflow ≤ value then none
        else some value

/-- `_max_task_lease_min`. -/
def maxTaskLeaseMin (workflowId : String) : Txn ℚ := do
  orRaise ((← readDb).leaseCap? workflowId) .overflowError "int too large to convert to float"

/-- `INSERT INTO decision`, stamped `ts`. -/
@[simps] def Db.addDecision (d : Db) (summary rationale : String) (key : Option String)
    (ts : Stamp) : Db :=
  { d with decisions := d.decisions.append fun id => { id, ts, summary, rationale, key } }

/-- Append to the audit log, and return the new row id. -/
def insertDecision (summary rationale : String) (key : Option String) : Txn ℕ := do
  let ts ← nowIso
  writeDb fun d => d.addDecision summary rationale key ts
  return (← readDb).decisions.seq

/-- `set_workflow_status`: the status and its explanation in one step. -/
def setWorkflowStatus (status : WorkflowStatus) (summary : String) : Txn Unit := do
  let row ← requireWorkflow "set_workflow_status"
  if row.status = status then return ()
  writeDb fun d => { d with workflow := d.workflow.map fun w => { w with status } }
  let _ ← insertDecision summary s!"Workflow status set to {status.value}" none
  return ()

/-- The decision logged under `key`. -/
def Db.decisionUnder? (d : Db) (key : Option String) : Option DecisionRecord :=
  key.bind fun k => d.decisions.first? fun r => r.key = some k

/-- `log_decision`: a decision under a key is logged once. -/
def logDecision (summary rationale : String) (key : Option String := none) : Txn ℕ := do
  match (← readDb).decisionUnder? key with
  | some row => return row.id
  | none => insertDecision summary rationale key

section

variable {c c' : Conn}

/-- A policy is accepted unchanged, and only without violations. -/
@[simp] theorem commits_validatedWorkflowPolicy {policy requested : WorkflowPolicy} :
    Commits (validatedWorkflowPolicy policy) c requested c' ↔
      policy.violations = [] ∧ requested = policy ∧ c' = c := by
  simp only [validatedWorkflowPolicy, commits_bind, commits_refuseIf, commits_pure, not_not]
  constructor
  · rintro ⟨_, _, ⟨hok, rfl⟩, rfl, rfl⟩
    exact ⟨hok, rfl, rfl⟩
  · rintro ⟨hok, rfl, rfl⟩
    exact ⟨(), _, ⟨hok, rfl⟩, rfl, rfl⟩

/-- Creating the workflow, or confirming it without a write. -/
theorem commits_initializeWorkflow {goal : String} {policy : WorkflowPolicy} {id : String} :
    Commits (initializeWorkflow goal policy) c id c' ↔
      policy.violations = [] ∧
        match c.db.workflow with
        | none =>
          id = c.uuids.head ∧ c' = { c with
            clock := fun n => c.clock (n + 1)
            uuids := c.uuids.rest
            db := { c.db with
              workflow := some ⟨c.uuids.head, goal, .active, policy, (c.clock 0).toIso⟩ } }
        | some row => row.goal = goal ∧ row.policy = policy ∧ id = row.id ∧ c' = c := by
  unfold initializeWorkflow
  cases h : c.db.workflow with
  | none => simp [h, and_comm]
  | some row => simp [h, and_assoc, and_comm (a := c' = c)]

/-- The lease cap is the workflow's own. -/
@[simp] theorem commits_maxTaskLeaseMin {workflowId : String} {cap : ℚ} :
    Commits (maxTaskLeaseMin workflowId) c cap c' ↔
      c.db.leaseCap? workflowId = some cap ∧ c' = c := by
  simp [maxTaskLeaseMin, and_comm]

/-- A decision takes the next number and one reading of the clock. -/
@[simp] theorem commits_insertDecision {summary rationale : String} {key : Option String}
    {id : ℕ} :
    Commits (insertDecision summary rationale key) c id c' ↔
      id = c.db.decisions.seq + 1 ∧ c' = { c with
        clock := fun n => c.clock (n + 1)
        db := c.db.addDecision summary rationale key (c.clock 0).toIso } := by
  simp [insertDecision, and_comm]

/-- A status that is already set is left alone; a new one comes with one audit entry. -/
theorem commits_setWorkflowStatus {status : WorkflowStatus} {summary : String} {u : Unit} :
    Commits (setWorkflowStatus status summary) c u c' ↔
      ∃ row, c.db.workflow = some row ∧
        if row.status = status then c' = c
        else c' = { c with
          clock := fun n => c.clock (n + 1)
          db := { c.db with workflow := some { row with status } }.addDecision summary
            s!"Workflow status set to {status.value}" none (c.clock 0).toIso } := by
  unfold setWorkflowStatus
  cases h : c.db.workflow with
  | none => simp [h]
  | some row => by_cases hs : row.status = status <;> simp [h, hs]

/-- A decision under a known key is not logged again. -/
theorem commits_logDecision {summary rationale : String} {key : Option String} {id : ℕ} :
    Commits (logDecision summary rationale key) c id c' ↔
      match c.db.decisionUnder? key with
      | some row => id = row.id ∧ c' = c
      | none => Commits (insertDecision summary rationale key) c id c' := by
  unfold logDecision
  cases h : c.db.decisionUnder? key with
  | none => simp [h]
  | some row => simp [h, and_comm]

end

end AgentHub
