import AgentHub.Common.Models
import AgentHub.Relational.Sql

namespace AgentHub.Migration

open Relational.Sql

/-!
# The schemas of the hub

The schema this version of the hub declares, and the schemas of the versions it migrates, as
the dumps of those versions have them.

* `TableName`, `ColumnName`, `IndexName` — the names in use, in any version;
* `schemaTables`, `schemaIndexes` — `SCHEMA`;
* `shipped` — the schema of a database of version 1 to 11.
-/

/-- `SCHEMA_VERSION`. -/
def schemaVersion : ℕ := 12

/-! ### Names -/

/-- The tables of any version, and the name under which a table is rebuilt. -/
inductive TableName where
  | workflow | agent | task | message | event | decision | operation | callLog
  /-- `{table}__rebuilding`. -/
  | rebuilding (t : TableName)
deriving DecidableEq

/-- The columns of any version. -/
inductive ColumnName where
  | id | goal | status | policyJson | created | name | capabilitiesJson | contextId | lastSeen
  | workerInstanceId | lastHeartbeat | lastProgressAt | currentTaskId | runtime | harness
  | harnessVersion | provider | model | modelSource | workspaceId | declaredModel
  | checkinRemoteAddr | lastRemoteAddr | workflowId | assignee | role | title | instructions
  | state | leaseExpires | leaseDurationS | resultJson | updated | prHeadSha | sourceEventId
  | taskId | sender | direction | partsJson | ts | kind | payloadJson | consumed | deliveryId
  | deliveryAttempts | deliveredAt | deliveryExpires | ackedAt | summary | rationale | key
  | actor | operationId | payloadHash | responseJson | boundary | tool | outcome | bytesIn
  | bytesOut | contentBytes | repeatBytes | started | finished
deriving DecidableEq

/-- The indexes of any version. -/
inductive IndexName where
  | taskWorkflowState | taskAssignee | taskSourceEventId | messageContextTs | eventInbox
  | eventStateId | eventDeliveryId | decisionKey | callLogActor
deriving DecidableEq

/-- A column of the hub's database. -/
abbrev HubColumn := Column ColumnName

/-- The declaration of one of its tables. -/
abbrev HubShape := Shape ColumnName TableName

/-- The declaration of one of its indexes. -/
abbrev HubIndex := IndexDef ColumnName TableName

/-- What `sqlite_master` and `user_version` say of it. -/
abbrev HubSchema := Schema ColumnName TableName IndexName

/-- A statement of the migration. -/
abbrev HubStmt := Stmt ColumnName TableName IndexName

/-- An expression over the columns of a row. -/
abbrev HubExpr := Expr ColumnName

/-- A database of the hub, of any version. -/
abbrev HubDatabase := Database ColumnName TableName IndexName

/-! ### Columns -/

/-- `name TEXT`. -/
def text (k : ColumnName) : HubColumn := { name := k, type := .text }

/-- `name INTEGER`. -/
def integer (k : ColumnName) : HubColumn := { name := k, type := .integer }

/-- `id INTEGER PRIMARY KEY AUTOINCREMENT`. -/
def serialId : HubColumn := { name := .id, type := .integer, key := .autoincrement }

/-- `NOT NULL`. -/
def required (c : HubColumn) : HubColumn := { c with notNull := true }

/-- `DEFAULT v`. -/
def defaulting (v : Value) (c : HubColumn) : HubColumn := { c with default := v }

/-- `CHECK (name IN (…))`. -/
def among (values : List String) (c : HubColumn) : HubColumn :=
  { c with oneOf := values.map .text }

/-- `TEXT NOT NULL DEFAULT 'unknown'`. -/
def profileField (k : ColumnName) : HubColumn := defaulting (.text unknown) (required (text k))

/-- The texts of `WorkflowStatus`. -/
def workflowStatuses : List String :=
  [.active, .paused, .done, .escalated].map WorkflowStatus.value

/-- The texts of `AgentStatus`. -/
def agentStatuses : List String := [.idle, .busy, .released, .lost].map AgentStatus.value

/-- The texts of `TaskState`. -/
def taskStates : List String :=
  [.submitted, .working, .inputRequired, .completed, .failed, .canceled].map TaskState.value

/-- The texts of `EventKind`. -/
def eventKinds : List String :=
  [.agentCheckedIn, .taskProgress, .taskCompleted, .taskFailed, .workerQuestion, .leaseExpired,
    .agentLost].map EventKind.value

/-- The texts of `EventState`. -/
def eventStates : List String := [.queued, .delivered, .acked].map EventState.value

/-- The texts of `ModelSource`. -/
def modelSources : List String := [.declared, .env, .unknown].map ModelSource.value

/-- `_BASE_PROFILE_COLUMNS`. -/
def baseProfileColumns : List HubColumn :=
  [profileField .harness, profileField .harnessVersion, profileField .provider,
    profileField .model, among modelSources (profileField .modelSource), text .workspaceId]

/-- `DECLARED_MODEL_COLUMNS`. -/
def declaredModelColumns : List HubColumn := [defaulting (.text unknown) (text .declaredModel)]

/-- `PEER_ADDRESS_COLUMNS`. -/
def peerAddressColumns : List HubColumn := [text .checkinRemoteAddr, text .lastRemoteAddr]

/-- `worker_instance_id` of an agent: the empty text before a check-in names one. -/
def workerInstanceId : HubColumn := defaulting (.text "") (required (text .workerInstanceId))

/-- `last_heartbeat` of an agent. -/
def lastHeartbeat : HubColumn := defaulting (.text "") (required (text .lastHeartbeat))

/-- `last_progress_at` of an agent. -/
def lastProgressAt : HubColumn := text .lastProgressAt

/-- `lease_duration_s` of a task: half an hour, where nothing else is said. -/
def leaseDurationS : HubColumn :=
  { name := .leaseDurationS, type := .real, notNull := true, default := .int 1800 }

/-- `pr_head_sha` of a task. -/
def prHeadSha : HubColumn := text .prHeadSha

/-- `source_event_id` of a task. -/
def sourceEventId : HubColumn := integer .sourceEventId

/-- The delivery columns of an event, before its time stamp. -/
def deliveryColumns : List HubColumn :=
  [among eventStates (defaulting (.text EventState.queued.value) (required (text .state))),
    text .deliveryId, defaulting (.int 0) (required (integer .deliveryAttempts)),
    text .deliveredAt, text .deliveryExpires, text .ackedAt]

/-! ### Tables -/

/-- `workflow`. -/
def workflowShape : HubShape :=
  { columns :=
      [{ text .id with key := .primary }, required (text .goal),
        among workflowStatuses (required (text .status)),
        defaulting (.text "\x7b\x7d") (required (text .policyJson)), required (text .created)] }

/-- An agent: what comes before and after its current task. -/
def agentShape (liveness profile : List HubColumn) : HubShape :=
  { columns :=
      [{ text .name with key := .primary },
        defaulting (.text "[]") (required (text .capabilitiesJson)),
        among agentStatuses (required (text .status)), { text .contextId with key := .unique },
        required (text .lastSeen)] ++ liveness ++ [text .currentTaskId] ++ profile
    foreignKeys := [⟨.currentTaskId, .task, .id, .setNull⟩] }

/-- A task: its lease, and what comes after its time stamps. -/
def taskShape (lease appended : List HubColumn)
    (foreignKeys : List (ForeignKey ColumnName TableName)) : HubShape :=
  { columns :=
      [{ text .id with key := .primary }, required (text .workflowId), text .assignee,
        required (text .role), required (text .title), required (text .instructions),
        among taskStates (required (text .state)), text .leaseExpires] ++ lease ++
        [text .resultJson, required (text .created), required (text .updated)] ++ appended
    foreignKeys :=
      [⟨.workflowId, .workflow, .id, .cascade⟩, ⟨.assignee, .agent, .name, .setNull⟩] ++
        foreignKeys }

/-- `message`. -/
def messageShape : HubShape :=
  { columns :=
      [serialId, text .taskId, required (text .contextId), required (text .sender),
        among ["to_alice", "from_alice"] (required (text .direction)),
        required (text .partsJson), required (text .ts)]
    foreignKeys := [⟨.taskId, .task, .id, .cascade⟩] }

/-- An event: how it is delivered. -/
def eventShape (delivery : List HubColumn) : HubShape :=
  { columns :=
      [serialId, among eventKinds (required (text .kind)), required (text .payloadJson)] ++
        delivery ++ [required (text .ts)] }

/-- A decision: its key. -/
def decisionShape (key : List HubColumn) : HubShape :=
  { columns :=
      [serialId, required (text .ts), required (text .summary), required (text .rationale)] ++
        key }

/-- `operation`: the ledger of the worker mutations. -/
def operationShape : HubShape :=
  { columns :=
      [required (text .actor), required (text .operationId), required (text .payloadHash),
        required (text .responseJson), required (text .created)]
    primaryKey := [.actor, .operationId] }

/-- `call_log`: one row for each call of an agent. -/
def callLogShape : HubShape :=
  { columns :=
      [serialId, among ["a2a", "mcp"] (required (text .boundary)), required (text .actor),
        required (text .tool), required (text .outcome), integer .status,
        required (integer .bytesIn), required (integer .bytesOut), integer .contentBytes,
        integer .repeatBytes, text .taskId, text .workflowId, required (text .started),
        required (text .finished)] }

/-- The columns by which the life of an agent is told. -/
def livenessColumns : List HubColumn := [workerInstanceId, lastHeartbeat, lastProgressAt]

/-- The event a task was assigned on. -/
def sourceEventKey : ForeignKey ColumnName TableName := ⟨.sourceEventId, .event, .id, .noAction⟩

/-- `SCHEMA`: the tables. -/
def schemaTables : List (TableName × HubShape) :=
  [(.workflow, workflowShape),
    (.agent, agentShape livenessColumns
      (baseProfileColumns ++ declaredModelColumns ++ peerAddressColumns)),
    (.task, taskShape [leaseDurationS] [prHeadSha, sourceEventId] [sourceEventKey]),
    (.message, messageShape), (.event, eventShape deliveryColumns),
    (.decision, decisionShape [text .key]), (.operation, operationShape),
    (.callLog, callLogShape)]

/-! ### Indexes -/

/-- Tasks by workflow and state. -/
def taskWorkflowState : IndexName × HubIndex :=
  (.taskWorkflowState, { table := .task, columns := [.workflowId, .state] })

/-- Tasks by assignee. -/
def taskAssignee : IndexName × HubIndex :=
  (.taskAssignee, { table := .task, columns := [.assignee] })

/-- At most one task for an event. -/
def taskSourceEventId : IndexName × HubIndex :=
  (.taskSourceEventId,
    { table := .task, columns := [.sourceEventId], unique := true,
      partialOn := some .sourceEventId })

/-- Messages by conversation and time. -/
def messageContextTs : IndexName × HubIndex :=
  (.messageContextTs, { table := .message, columns := [.contextId, .ts] })

/-- Events by the flag of the old inbox. -/
def eventInbox : IndexName × HubIndex :=
  (.eventInbox, { table := .event, columns := [.consumed, .id] })

/-- Events by state, as the inbox reads them. -/
def eventStateId : IndexName × HubIndex :=
  (.eventStateId, { table := .event, columns := [.state, .id] })

/-- Events by the id of their delivery. -/
def eventDeliveryId : IndexName × HubIndex :=
  (.eventDeliveryId, { table := .event, columns := [.deliveryId] })

/-- At most one decision for a key. -/
def decisionKey : IndexName × HubIndex :=
  (.decisionKey, { table := .decision, columns := [.key], unique := true,
                   partialOn := some .key })

/-- Calls by actor and tool. -/
def callLogActor : IndexName × HubIndex :=
  (.callLogActor, { table := .callLog, columns := [.actor, .tool] })

/-- `SCHEMA`: the indexes, `_index_statements`. -/
def schemaIndexes : List (IndexName × HubIndex) :=
  [taskWorkflowState, taskAssignee, taskSourceEventId, messageContextTs, eventStateId,
    eventDeliveryId, decisionKey, callLogActor]

/-! ### The versions that were shipped -/

/-- `agent` in the dump of version `v`. -/
def shippedAgent (v : ℕ) : HubShape :=
  agentShape (if 5 ≤ v then livenessColumns else []) <|
    if v = 1 then []
    else if v = 2 then [text .runtime]
    else if v ≤ 10 then baseProfileColumns
    else baseProfileColumns ++ declaredModelColumns

/-- `task` in the dump of version `v`. -/
def shippedTask (v : ℕ) : HubShape :=
  taskShape (if 5 ≤ v then [leaseDurationS] else [])
    (if v ≤ 6 then [] else if v ≤ 8 then [prHeadSha] else [prHeadSha, sourceEventId])
    (if v ≤ 8 then [] else [sourceEventKey])

/-- `consumed INTEGER NOT NULL DEFAULT 0 CHECK (consumed IN (0, 1))`. -/
def consumedFlag : HubColumn :=
  { name := .consumed, type := .integer, notNull := true, default := .int 0,
    oneOf := [.int 0, .int 1] }

/-- `event` in the dump of version `v`. -/
def shippedEvent (v : ℕ) : HubShape :=
  eventShape (if v ≤ 5 then [consumedFlag] else deliveryColumns)

/-- `decision` in the dump of version `v`. -/
def shippedDecision (v : ℕ) : HubShape :=
  decisionShape <|
    if v ≤ 5 then [] else if v ≤ 7 then [{ text .key with key := .unique }] else [text .key]

/-- The dump of version `v`, for `v` from 1 to 11. -/
def shipped (v : ℕ) : HubSchema where
  tables :=
    [(.workflow, workflowShape), (.agent, shippedAgent v), (.task, shippedTask v),
      (.message, messageShape), (.event, shippedEvent v), (.decision, shippedDecision v)] ++
      (if 4 ≤ v then [(.operation, operationShape)] else []) ++
      (if 10 ≤ v then [(.callLog, callLogShape)] else [])
  indexes :=
    [taskWorkflowState, taskAssignee, messageContextTs] ++
      (if v ≤ 5 then [eventInbox] else [eventStateId, eventDeliveryId, decisionKey]) ++
      (if 9 ≤ v then [taskSourceEventId] else []) ++
      (if 10 ≤ v then [callLogActor] else [])
  version := v

end AgentHub.Migration
