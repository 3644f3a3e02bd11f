import AgentHub.Alice.State
import AgentHub.Hub.Lifecycle
import AgentHub.Effects.Program

namespace AgentHub

open Relational Effects

/-!
# The reference Alice

`drive_one_task_with_backend` of the mock orchestrator, as the sequence of its calls of the hub.  An
Alice keeps nothing between two processes: what one of them knows is in the hub, and the next one
starts over from `get_state`.

* `Tool`, `Tool.exec` — the calls; a call that raises changes nothing and ends the process;
* `hub` — the hub with the calls of everyone else in between;
* `awaitCheckIn`, `awaitResult` — the two loops; how many turns they make before the deadline is not
  the program's choice, so it is asked for;
* `driveOneTask` — `drive_one_task_with_backend`.
-/

/-- Nobody but Alice hands out work, releases a worker, sets the status of the workflow, or takes
    from her inbox; and nothing is put there by hand. -/
def Op.isAlices : Op → Bool
  | .assignTask .. | .releaseAgent .. | .setWorkflowStatus .. | .leaseNextEvent .. | .ackEvent .. |
    .appendEvent .. => true
  | _ => false

namespace Alice

/-! ### The calls -/

/-- The calls of an `AliceBackend`, with `wait_for_event` in its parts, and the number of turns a
    loop makes before its deadline. -/
inductive Tool where
  | initializeWorkflow (goal : String) (policy : WorkflowPolicy)
  | getState
  | ackEvent (deliveryId : String)
  | leaseNextEvent
  | turns
  | logDecision (summary rationale key : String)
  | assignTask (agent role title instructions : String) (eventId : ℕ)
  | reply (taskId text : String) (messageId : ℕ)
  | releaseAgent (agent : String)
  | setWorkflowStatus (status : WorkflowStatus) (summary : String)

/-- What a call returns. -/
@[reducible] def Tool.Answer : Tool → Type
  | .initializeWorkflow .. => String
  | .getState => HubState
  | .ackEvent _ | .reply .. => Bool
  | .leaseNextEvent => Option EventRecord
  | .turns | .logDecision .. => ℕ
  | .assignTask .. => TaskRecord
  | .releaseAgent _ => AgentRecord
  | .setWorkflowStatus .. => Unit

/-- The transaction commits with this result, at some time. -/
def Serves {α : Type} (x : Txn α) (s : Hub) (a : α) (s' : Hub) : Prop :=
  ∃ clock c', Commits x (s.connect clock) a c' ∧ s' = c'.hub

/-- What a call does when it returns. -/
def Tool.exec : (t : Tool) → Hub → t.Answer → Hub → Prop
  | .initializeWorkflow goal policy => Serves (AgentHub.initializeWorkflow goal policy)
  | .getState => Serves AgentHub.getState
  | .ackEvent deliveryId => Serves (AgentHub.ackEvent (some deliveryId))
  | .leaseNextEvent => Serves (AgentHub.leaseNextEvent)
  | .turns => fun s _ s' => s' = s
  | .logDecision summary rationale key => Serves (AgentHub.logDecision summary rationale (some key))
  | .assignTask agent role title instructions eventId =>
    Serves (AgentHub.assignTask agent role title instructions defaultLeaseMin none (some eventId))
  | .reply taskId text messageId => Serves (AgentHub.reply taskId text messageId)
  | .releaseAgent agent => Serves (AgentHub.releaseAgent agent)
  | .setWorkflowStatus status summary => Serves (AgentHub.setWorkflowStatus status summary)

/-- The calls of this Alice, and those of everyone else in between. -/
def hub : Semantics Tool Tool.Answer Hub where
  exec := Tool.exec
  rely s s' := ∃ l : Call, l.op.isAlices = false ∧ s' = l.exec s

/-- The programs of an Alice. -/
abbrev Script (A : Type) := Program Tool Tool.Answer A

/-- A tool call, whose answer the script ends with. -/
def perform (t : Tool) : Script t.Answer := Program.perform t

/-- The end of a script that gives up. -/
def raise {A : Type} (message : String) : Script A := Program.raise message

end Alice

/-! ### What she looks for -/

/-- `_find_agent`: the worker, unless it was released. -/
def HubState.findAgent (s : HubState) (name : String) : Option AgentSummary :=
  s.agents.find? fun a => a.name = name ∧ a.status ≠ .released

/-- `_find_task`: the first task of the worker that was not canceled. -/
def HubState.findTask (s : HubState) (assignee : String) : Option TaskSummary :=
  s.tasks.find? fun t => t.assignee = some assignee ∧
    t.state ∈ [.working, .submitted, .inputRequired, .completed, .failed]

/-- The event is a check-in of the worker. -/
def EventPayload.checksIn (p : EventPayload) (name : String) : Bool :=
  match p with
  | .agentCheckedIn agent .. => agent = name
  | _ => false

/-- A check-in of the worker that an earlier Alice took and did not acknowledge. -/
def HubState.checkInOf (s : HubState) (name : String) : Option EventRecord :=
  s.unackedDelivered.find? fun e => e.payload.checksIn name

namespace Alice

/-- The arguments of `drive_one_task_with_backend`; the timeout is its literal. -/
structure Errand where
  agent : String
  role : String := "implementer"
  title : String := "Fix issue #1"
  instructions : String := "Implement the requested changes and add tests."
  timeoutS : String := "60.0"
  harness : Option String := none
  goal : String := defaultGoal
  policy : WorkflowPolicy := {}

/-- `repr` of a string or `None`. -/
def pyReprOption : Option String → String
  | none => "None"
  | some s => pyRepr s

/-- `_check_harness`. -/
def checkHarness (w : Errand) (checkedIn : Option String) : Script Unit :=
  if w.harness ≠ none ∧ checkedIn ≠ w.harness then
    raise (s!"Worker {pyRepr w.agent} checked in with harness {pyReprOption checkedIn}, " ++
      s!"expected {pyReprOption w.harness}")
  else return ()

/-! ### The inbox -/

/-- The polls of `wait_for_event`. -/
def pollEvents : ℕ → Script (Option EventRecord)
  | 0 => return none
  | polls + 1 => do
    match ← perform .leaseNextEvent with
    | some event => return some event
    | none => pollEvents polls

/-- `wait_for_event`: the prior delivery is acknowledged first, and there is one poll at least. -/
def waitForEvent (ack : Option String) : Script (Option EventRecord) := do
  match ack with
  | some deliveryId => let _ ← perform (.ackEvent deliveryId)
  | none => pure ()
  let polls ← perform .turns
  pollEvents (polls + 1)

/-! ### Waiting for the worker -/

/-- The check-in she acts on: the harness it reported and the id of its event. -/
structure CheckedIn where
  harness : Option String
  eventId : ℕ

/-- The loop that waits for the check-in: what it found, and the delivery to acknowledge next. -/
def awaitCheckIn (w : Errand) : ℕ → Option String → Script (Option CheckedIn × Option String)
  | 0, last => return (none, last)
  | turns + 1, last => do
    let state ← perform .getState
    match ← waitForEvent last with
    | none =>
      -- another Alice may have taken the event and died
      match state.findAgent w.agent, state.checkInOf w.agent with
      | some known, some source => return (some ⟨some known.profile.harness, source.id⟩, last)
      | _, _ => awaitCheckIn w turns last
    | some event =>
      match event.payload with
      | .agentCheckedIn agent profile _ _ =>
        if agent = w.agent then
          return (some ⟨some profile.harness, event.id⟩, event.deliveryId)
        else awaitCheckIn w turns event.deliveryId
      | _ => awaitCheckIn w turns event.deliveryId

/-! ### Waiting for the result -/

/-- `result_data`: the result in the row of the task, or the event about it. -/
inductive Outcome where
  | stored (result : Option Json)
  | told (payload : EventPayload)

/-- The loop that answers questions until the task has ended. -/
def awaitResult (w : Errand) (taskId : String) :
    ℕ → Option String → Script (Option Outcome × Option String)
  | 0, last => return (none, last)
  | turns + 1, last => do
    match ← waitForEvent last with
    | none =>
      let state ← perform .getState
      match state.findTask w.agent with
      | some current =>
        if current.id = taskId ∧ current.state ∈ [.completed, .failed] then
          return (some (.stored current.result), last)
        else awaitResult w taskId turns last
      | none => awaitResult w taskId turns last
    | some event =>
      match event.payload with
      | .workerQuestion question _ _ messageId => do
        let _ ← perform (.reply question "Approved. Proceed with the proposed design." messageId)
        awaitResult w taskId turns event.deliveryId
      | payload =>
        if payload.resultOf = some taskId then
          return (some (.told payload), event.deliveryId)
        else awaitResult w taskId turns event.deliveryId

/-- The end of the lifecycle: the last delivery is acknowledged, the worker released, and the
    workflow done. -/
def conclude (w : Errand) (taskId : String) (last : Option String) : Script Outcome := do
  let turns ← perform .turns
  let (result, last) ← awaitResult w taskId turns last
  match result with
  | none => raise s!"Task {taskId} did not finish within {w.timeoutS}s"
  | some outcome => do
    match last with
    | none | some "" => pure ()
    | some deliveryId => let _ ← waitForEvent (some deliveryId)
    let _ ← perform (.releaseAgent w.agent)
    perform (.setWorkflowStatus .done s!"Task {taskId} finished successfully")
    return outcome

/-! ### The lifecycle -/

/-- The key of the audit entry of an assignment. -/
def assignKey (eventId : ℕ) : String := s!"event:{eventId}:assign"

/-- `drive_one_task_with_backend`. -/
def driveOneTask (w : Errand) : Script Outcome := do
  let _ ← perform (.initializeWorkflow w.goal w.policy)
  let state ← perform .getState
  match state.findTask w.agent with
  | some task => do
    checkHarness w ((state.findAgent w.agent).map fun known => known.profile.harness)
    conclude w task.id none
  | none => do
    let turns ← perform .turns
    let (found, last) ← awaitCheckIn w turns none
    match found with
    | none => raise s!"Worker {pyRepr w.agent} did not check in within {w.timeoutS}s"
    | some checkedIn => do
      checkHarness w checkedIn.harness
      let _ ← perform (.logDecision s!"Assigned task to {w.agent} for role {w.role}"
        s!"Initial assignment for role {w.role}" (assignKey checkedIn.eventId))
      let task ← perform (.assignTask w.agent w.role w.title w.instructions checkedIn.eventId)
      conclude w task.id last

end Alice

end AgentHub
