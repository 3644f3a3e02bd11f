import Mathlib.Data.Rat.Defs

namespace AgentHub

/-!
# The shared data model

The closed enumerations, the worker identity profile and the workflow policy that the hub and
the worker client share.  Each enumeration keeps the text its members have on the wire and in
the database as `value`.
-/

/-- A profile field nobody reported. -/
def unknown : String := "unknown"

/-- `ALICE`: the name of the supervisor in the records of the hub and in the report. -/
def alice : String := "alice"

/-- `MAX_MESSAGE_PART_BYTES`. -/
def maxMessagePartBytes : ℕ := 16 * 1024

/-- `MAX_TYPED_RESULT_BYTES`. -/
def maxTypedResultBytes : ℕ := 32 * 1024

/-! ### Enumerations -/

/-- The states of a workflow. -/
inductive WorkflowStatus where
  | active | paused | done | escalated
deriving DecidableEq

/-- The text stored for a workflow's state. -/
def WorkflowStatus.value : WorkflowStatus → String
  | .active => "active"
  | .paused => "paused"
  | .done => "done"
  | .escalated => "escalated"

/-- The states of an agent. -/
inductive AgentStatus where
  | idle | busy | released | lost
deriving DecidableEq

/-- The text stored for an agent's state. -/
def AgentStatus.value : AgentStatus → String
  | .idle => "idle"
  | .busy => "busy"
  | .released => "released"
  | .lost => "lost"

/-- The states of a task. -/
inductive TaskState where
  | submitted | working | inputRequired | completed | failed | canceled
deriving DecidableEq

/-- The text stored for a task's state. -/
def TaskState.value : TaskState → String
  | .submitted => "submitted"
  | .working => "working"
  | .inputRequired => "input-required"
  | .completed => "completed"
  | .failed => "failed"
  | .canceled => "canceled"

/-- `TERMINAL_STATES`. -/
def TaskState.terminal : TaskState → Bool
  | .completed | .failed | .canceled => true
  | .submitted | .working | .inputRequired => false

/-- The kinds of events Alice is told of. -/
inductive EventKind where
  | agentCheckedIn | taskProgress | taskCompleted | taskFailed | workerQuestion | leaseExpired
  | agentLost
deriving DecidableEq

/-- The text stored for an event's kind. -/
def EventKind.value : EventKind → String
  | .agentCheckedIn => "agent_checked_in"
  | .taskProgress => "task_progress"
  | .taskCompleted => "task_completed"
  | .taskFailed => "task_failed"
  | .workerQuestion => "worker_question"
  | .leaseExpired => "lease_expired"
  | .agentLost => "agent_lost"

/-- The states of an event: not handed out, handed out, done with. -/
inductive EventState where
  | queued | delivered | acked
deriving DecidableEq

/-- The text stored for an event's state. -/
def EventState.value : EventState → String
  | .queued => "queued"
  | .delivered => "delivered"
  | .acked => "acked"

/-- Roles with a typed result body. -/
inductive TaskRole where
  | implementer | reviewer | rebase
deriving DecidableEq

/-- The text stored for a role. -/
def TaskRole.value : TaskRole → String
  | .implementer => "implementer"
  | .reviewer => "reviewer"
  | .rebase => "rebase"

/-- `TaskRole(role)`; `none` for a role without a typed body. -/
def TaskRole.ofValue? : String → Option TaskRole
  | "implementer" => some .implementer
  | "reviewer" => some .reviewer
  | "rebase" => some .rebase
  | _ => none

/-- Where an agent's model name comes from. -/
inductive ModelSource where
  | declared | env | unknown
deriving DecidableEq

/-- The text stored for the source of a model name. -/
def ModelSource.value : ModelSource → String
  | .declared => "declared"
  | .env => "env"
  | .unknown => "unknown"

/-- The source that a text stands for. -/
def ModelSource.ofValue? : String → Option ModelSource
  | "declared" => some .declared
  | "env" => some .env
  | "unknown" => some .unknown
  | _ => none

/-! ### Profile -/

/-- A worker's self-reported identity. -/
structure AgentProfile where
  harness : String := unknown
  harnessVersion : String := unknown
  provider : String := unknown
  model : String := unknown
  modelSource : ModelSource := .unknown
  capabilities : List String := []
  workspaceId : Option String := none
  declaredModel : String := unknown
deriving DecidableEq

/-- `_model_mismatch`: a configured model the runtime contradicts. -/
def AgentProfile.modelMismatch (p : AgentProfile) : Bool :=
  p.modelSource == .env && p.declaredModel != unknown && p.declaredModel != p.model

/-! ### Workflow policy -/

/-- The worker-pairing rails; a field that was not set is `none`. -/
structure RolePolicy where
  reviewerHarnessDiffers : Option Bool := none
  reviewerProviderDiffers : Option Bool := none
  implementerCapabilities : Option (List String) := none
  reviewerCapabilities : Option (List String) := none
deriving DecidableEq

/-- How a pull request may be merged. -/
inductive MergeMethod where
  | merge | squash | rebase
deriving DecidableEq

/-- The create-once policy as stored: only the rails that were supplied. -/
structure WorkflowPolicy where
  maxReviewRounds : Option ℤ := none
  mergeMethod : Option MergeMethod := none
  allowNoCi : Option Bool := none
  rolePolicy : Option RolePolicy := none
  pairingWaitS : Option ℚ := none
  maxWallMinutes : Option ℚ := none
  maxTaskLeaseMin : Option ℚ := none
deriving DecidableEq

/-- The supplied rails that are not above zero, by the names of their fields. -/
def WorkflowPolicy.violations (p : WorkflowPolicy) : List String :=
  (if p.maxReviewRounds.any (· ≤ 0) then ["max_review_rounds"] else [])
    ++ (if p.pairingWaitS.any (· ≤ 0) then ["pairing_wait_s"] else [])
    ++ (if p.maxWallMinutes.any (· ≤ 0) then ["max_wall_minutes"] else [])
    ++ (if p.maxTaskLeaseMin.any (· ≤ 0) then ["max_task_lease_min"] else [])

/-- The empty policy breaks no rail, nor do the documented defaults. -/
example : WorkflowPolicy.violations {} = [] ∧
    WorkflowPolicy.violations
      { maxReviewRounds := some 3, pairingWaitS := some 120,
        maxTaskLeaseMin := some 120 } = [] := by
  decide +kernel

end AgentHub
