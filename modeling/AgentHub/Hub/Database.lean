import AgentHub.Common.Clock
import AgentHub.Common.Results
import AgentHub.Relational.Serial
import AgentHub.Relational.Table
import AgentHub.Relational.Transaction
import Mathlib.Tactic.Simps.Basic

namespace AgentHub

open Relational

/-!
# The hub's durable state

The rows of the seven tables the store works on, and the connection a store operation runs
its statements on.

* `Db` — the tables: `agents`, `tasks` and `operations` under their primary keys, `messages`,
  `events` and `decisions` under rising ids, and the one workflow;
* `Conn` — the database together with what an operation takes from outside: the clock readings
  and the fresh uuids still to come, and the wakeup keys it has notified;
* `Txn` — a store operation.  It may raise, and raising rolls it back.
-/

/-! ### Rows -/

/-- `WorkflowRecord`. -/
structure WorkflowRecord where
  id : String
  goal : String
  status : WorkflowStatus
  policy : WorkflowPolicy
  created : Stamp
deriving DecidableEq

/-- `AgentRecord`. -/
structure AgentRecord where
  name : String
  status : AgentStatus
  contextId : String
  lastSeen : Stamp
  workerInstanceId : String
  lastHeartbeat : Stamp
  lastProgressAt : Option Stamp
  currentTaskId : Option String
  profile : AgentProfile
  checkinRemoteAddr : Option String
  lastRemoteAddr : Option String
deriving DecidableEq

/-- `TaskRecord`. -/
structure TaskRecord where
  id : String
  workflowId : String
  assignee : Option String
  role : String
  title : String
  instructions : String
  state : TaskState
  leaseExpires : Option Stamp
  leaseDurationS : ℚ
  result : Option Json
  created : Stamp
  updated : Stamp
  prHeadSha : Option String
  sourceEventId : Option ℕ
deriving DecidableEq

/-- The task has not ended: its state is one of `OPEN_STATES`. -/
def TaskRecord.isOpen (t : TaskRecord) : Prop := t.state.terminal = false

instance (t : TaskRecord) : Decidable t.isOpen := inferInstanceAs (Decidable (_ = _))

/-- `direction` of a message. -/
inductive Direction where
  | toAlice | fromAlice
deriving DecidableEq

/-- The metadata of a stored text part, by its `hub.kind`. -/
inductive PartMeta where
  | assignment (role title : String) (prHeadSha : Option String)
  | stateOverride
  | checkIn (profile : AgentProfile)
  | progress
  | question (retryAsMessageId : String)
  | reply
  | result (status : TaskState)
deriving DecidableEq

/-- `text_part`: a text part with its metadata. -/
structure Part where
  text : String
  metadata : PartMeta
deriving DecidableEq

/-- `MessageRecord`. -/
structure MessageRecord where
  id : ℕ
  taskId : Option String
  contextId : String
  sender : String
  direction : Direction
  parts : List Part
  ts : Stamp
deriving DecidableEq

/-- What an event tells Alice, by its kind. -/
inductive EventPayload where
  | agentCheckedIn (agent : String) (profile : AgentProfile) (contextId workerInstanceId : String)
  | taskProgress (taskId agent note : String)
  | taskCompleted (taskId agent summary : String) (result : Fields)
  | taskFailed (taskId agent summary : String) (result : Fields)
  | workerQuestion (taskId agent question : String) (messageId : ℕ)
  | leaseExpired (taskId : String) (agent : Option String) (leaseExpires : Option Stamp)
  | agentLost (agent : String) (taskId : Option String) (lastHeartbeat : Stamp)
deriving DecidableEq

/-- The kind of the event a payload makes. -/
def EventPayload.kind : EventPayload → EventKind
  | .agentCheckedIn .. => .agentCheckedIn
  | .taskProgress .. => .taskProgress
  | .taskCompleted .. => .taskCompleted
  | .taskFailed .. => .taskFailed
  | .workerQuestion .. => .workerQuestion
  | .leaseExpired .. => .leaseExpired
  | .agentLost .. => .agentLost

/-- `EventRecord`. -/
structure EventRecord where
  id : ℕ
  payload : EventPayload
  ts : Stamp
  state : EventState := .queued
  deliveryId : Option String := none
  deliveryAttempts : ℕ := 0
  deliveredAt : Option Stamp := none
  deliveryExpires : Option Stamp := none
  ackedAt : Option Stamp := none
deriving DecidableEq

/-- `DecisionRecord`. -/
structure DecisionRecord where
  id : ℕ
  ts : Stamp
  summary : String
  rationale : String
  key : Option String
deriving DecidableEq

/-- One row of the mutation ledger. -/
structure OperationRecord where
  actor : String
  operationId : String
  payloadHash : String
  responseJson : String
  created : Stamp
deriving DecidableEq

/-- The primary key of the ledger. -/
def OperationRecord.key (o : OperationRecord) : String × String := (o.actor, o.operationId)

/-- The durable state.  There is at most one workflow: it is inserted only into an empty
    table. -/
structure Db where
  workflow : Option WorkflowRecord
  agents : Table AgentRecord.name
  tasks : Table TaskRecord.id
  messages : Serial MessageRecord.id
  events : Serial EventRecord.id
  decisions : Serial DecisionRecord.id
  operations : Table OperationRecord.key
deriving DecidableEq

/-- A fresh database of the current version. -/
def Db.empty : Db :=
  ⟨none, Table.empty, Table.empty, Serial.empty, Serial.empty, Serial.empty, Table.empty⟩

/-! ### The wire form of a stored part -/

/-- `_profile_fields`, under the key prefix of the place that stores them. -/
def profileFields (pre : String) (p : AgentProfile) : Fields :=
  [(pre ++ "harness", .str p.harness), (pre ++ "harness_version", .str p.harnessVersion),
   (pre ++ "provider", .str p.provider), (pre ++ "model", .str p.model),
   (pre ++ "model_source", .str p.modelSource.value),
   (pre ++ "declared_model", .str p.declaredModel),
   (pre ++ "model_mismatch", .bool p.modelMismatch),
   (pre ++ "capabilities", listJson .str p.capabilities),
   (pre ++ "workspace_id", optStrJson p.workspaceId)]

/-- `metadata` of a part. -/
def PartMeta.toFields : PartMeta → Fields
  | .assignment role title head =>
    [("hub.kind", .str "assignment"), ("hub.role", .str role), ("hub.title", .str title)]
      ++ (head.toList.map fun sha => ("hub.pr_head_sha", .str sha))
  | .stateOverride => [("hub.kind", .str "state_override")]
  | .checkIn profile => ("hub.kind", .str "check_in") :: profileFields "hub." profile
  | .progress => [("hub.kind", .str "progress")]
  | .question sentAs =>
    [("hub.kind", .str "question"), ("hub.retry_as_message_id", .str sentAs)]
  | .reply => [("hub.kind", .str "reply")]
  | .result status => [("hub.kind", .str "result"), ("hub.status", .str status.value)]

/-- A part as it stands in `parts_json`. -/
def Part.toJson (p : Part) : Json :=
  .obj [("kind", .str "text"), ("text", .str p.text), ("metadata", .obj p.metadata.toFields)]

/-- The part is a question. -/
def Part.isQuestion (p : Part) : Bool :=
  match p.metadata with
  | .question _ => true
  | _ => false

/-- The part is the question first sent as `sentAs`. -/
def Part.asks (p : Part) (sentAs : String) : Bool := p.metadata == .question sentAs

/-! ### Errors -/

/-- What a store operation raises: the refusals of the store, and the exceptions Python and
    SQLite raise below it. -/
inductive ErrorKind where
  | notFound | conflict | idempotencyConflict | duplicateAgent | payloadTooLarge | invalidPolicy
  | valueError | validationError | overflowError | integrityError
deriving DecidableEq

/-- `HubStoreError`: its kind and its text. -/
structure StoreError where
  kind : ErrorKind
  message : String
deriving DecidableEq

/-! ### Connections -/

/-- `context_key`, `task_key` and `EVENT_KEY`. -/
inductive SignalKey where
  | context (contextId : String)
  | task (taskId : String)
  | events
deriving DecidableEq

/-- The uuids still to be drawn: no two of them alike, none of them empty. -/
structure Uuids where
  next : ℕ → String
  injective : Function.Injective next
  ne_empty : ∀ n, next n ≠ ""

namespace Uuids

/-- The uuid the next call of `uuid4` returns. -/
def head (u : Uuids) : String := u.next 0

/-- What is left after one call of `uuid4`. -/
def rest (u : Uuids) : Uuids where
  next n := u.next (n + 1)
  injective _ _ h := Nat.succ_injective (u.injective h)
  ne_empty n := u.ne_empty (n + 1)

/-- `id` has not been drawn and never will be. -/
def Misses (u : Uuids) (id : String) : Prop := ∀ n, u.next n ≠ id

/-- `u'` is what some calls of `uuid4` leave of `u`. -/
def Within (u' u : Uuids) : Prop := ∀ id, u.Misses id → u'.Misses id

/-- The same ids. -/
theorem Within.refl (u : Uuids) : u.Within u := fun _ h => h

/-- The ids after the first. -/
theorem rest_within (u : Uuids) : u.rest.Within u := fun _ h n => h (n + 1)

/-- Fewer ids than fewer. -/
theorem Within.trans {u u' u'' : Uuids} (h : u''.Within u') (h' : u'.Within u) : u''.Within u :=
  fun id hid => h id (h' id hid)

/-- A uuid that was drawn is never drawn again. -/
theorem rest_misses_head (u : Uuids) : u.rest.Misses u.head :=
  fun _ h => absurd (u.injective h) (Nat.succ_ne_zero _)

/-- Uuids of rising length, to run the hub on. -/
def unary : Uuids where
  next n := String.ofList (List.replicate (n + 1) 'u')
  injective m n h := by simpa using congrArg String.length h
  ne_empty n h := by simpa using congrArg String.length h

end Uuids

/-- The state a store operation works on. -/
structure Conn where
  db : Db
  clock : ℕ → Moment
  uuids : Uuids
  notified : List SignalKey

/-- A store operation. -/
abbrev Txn := Transaction StoreError Conn

/-- `raise HubStoreError(kind, message)`. -/
def raise {α : Type} (kind : ErrorKind) (message : String) : Txn α := throw ⟨kind, message⟩

/-- `self._now()`: the next reading of the clock. -/
def now : Txn Moment :=
  modifyGet fun c => (c.clock 0, { c with clock := fun n => c.clock (n + 1) })

/-- `self._now_iso()`. -/
def nowIso : Txn Stamp := Moment.toIso <$> now

/-- `uuid4().hex`: the next fresh uuid. -/
def uuid4 : Txn String :=
  modifyGet fun c => (c.uuids.head, { c with uuids := c.uuids.rest })

/-- `self.signals.notify(key)`. -/
def notify (key : SignalKey) : Txn Unit :=
  modify fun c => { c with notified := c.notified ++ [key] }

/-- Read the database. -/
def readDb : Txn Db := do return (← get).db

/-- Write the database. -/
def writeDb (f : Db → Db) : Txn Unit := modify fun c => { c with db := f c.db }

/-- `moment + timedelta(microseconds=d)`. -/
def addMicros (m : Moment) (d : ℤ) : Txn Moment :=
  match m.addMicros? d with
  | some m' => pure m'
  | none => raise .overflowError "date value out of range"

section Commits

variable {c c' : Conn}

/-- What raises does not commit. -/
@[simp] theorem commits_raise {α : Type} {kind : ErrorKind} {message : String} {a : α} :
    ¬ Commits (raise kind message : Txn α) c a c' := commits_throw

/-- The clock is read once. -/
@[simp] theorem commits_now {m : Moment} :
    Commits now c m c' ↔
      m = c.clock 0 ∧ c' = { c with clock := fun n => c.clock (n + 1) } := by
  rw [now, commits_modifyGet, Prod.mk.injEq, eq_comm, eq_comm (a := c')]

/-- The clock is read once, as a timestamp. -/
@[simp] theorem commits_nowIso {s : Stamp} :
    Commits nowIso c s c' ↔
      s = (c.clock 0).toIso ∧ c' = { c with clock := fun n => c.clock (n + 1) } := by
  simp [nowIso, and_comm]

/-- The next id is drawn. -/
@[simp] theorem commits_uuid4 {u : String} :
    Commits uuid4 c u c' ↔
      u = c.uuids.head ∧ c' = { c with uuids := c.uuids.rest } := by
  rw [uuid4, commits_modifyGet, Prod.mk.injEq, eq_comm, eq_comm (a := c')]

/-- A key is put down to be notified after the commit. -/
@[simp] theorem commits_notify {key : SignalKey} {u : Unit} :
    Commits (notify key) c u c' ↔ c' = { c with notified := c.notified ++ [key] } :=
  commits_modify

/-- The tables are read as they are. -/
@[simp] theorem commits_readDb {d : Db} : Commits readDb c d c' ↔ d = c.db ∧ c' = c := by
  simp [readDb, and_comm]

/-- A program that starts with a read goes on with what the database is. -/
theorem commits_readDb_bind {α : Type} {f : Db → Txn α} {a : α} :
    Commits (readDb >>= f) c a c' ↔ Commits (f c.db) c a c' := by
  simp only [commits_bind, commits_readDb, and_assoc, exists_and_left, exists_eq_left]

/-- The tables are written. -/
@[simp] theorem commits_writeDb {f : Db → Db} {u : Unit} :
    Commits (writeDb f) c u c' ↔ c' = { c with db := f c.db } :=
  commits_modify

/-- A date is moved, where it stays one. -/
@[simp] theorem commits_addMicros {m m' : Moment} {d : ℤ} :
    Commits (addMicros m d) c m' c' ↔ m.addMicros? d = some m' ∧ c' = c := by
  unfold addMicros
  cases m.addMicros? d with
  | none => simp
  | some m'' => simp [eq_comm]

end Commits

end AgentHub
