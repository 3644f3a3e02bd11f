import AgentHub.Migration.Schema
import AgentHub.Relational.Symbolic

namespace AgentHub.Migration

open Relational Relational.Sql

/-!
# `initialize_database`

The migration as the commands it sends.  A function of the source is one block of commands, or
several where it reads the columns of a table in between.

* `migrateAgentProfile` … `migratePeerAddresses` — the steps of the first connection, which is
  in Python's legacy mode: `ALTER TABLE` and `CREATE` commit at once until the first `UPDATE`
  opens a transaction;
* `rebuildDriftedTables` — the second connection, one transaction;
* `initializeDatabase` — the whole program, chosen by the version on disk.
-/

/-- A command of the hub's scripts. -/
abbrev HubCommand := Command HubStmt

/-- A program of the hub's `initialize`. -/
abbrev HubProgram := Engine.Program HubStmt HubSchema

/-- `ALTER TABLE t ADD COLUMN …` for the columns that are not there. -/
def addMissing (t : TableName) (columns : List ColumnName) (specs : List HubColumn) :
    List HubCommand :=
  (specs.filter fun c => c.name ∉ columns).map fun c => .execute (.addColumn t c)

/-- An index statement of `SCHEMA`. -/
def createIndex (i : IndexName × HubIndex) : HubCommand := .execute (.createIndex i.1 i.2)

/-! ### The steps of the first connection -/

/-- `trim(coalesce(runtime, '')) != ''`. -/
def runtimeRecorded : HubExpr :=
  .ne (.trim (.coalesce (.col .runtime) (.lit (.text "")))) (.lit (.text ""))

/-- `_migrate_agent_profile`. -/
def migrateAgentProfile (s : HubSchema) : List HubCommand :=
  let columns := s.columns .agent
  addMissing .agent columns baseProfileColumns ++
    if .runtime ∈ columns then
      [.execute (.update .agent [(.harness, .trim (.col .runtime))] runtimeRecorded),
        .execute (.dropColumn .agent .runtime)]
    else []

/-- `_migrate_operation_table`. -/
def migrateOperationTable : HubProgram :=
  [fun _ => [.execute (.createTable .operation operationShape)],
    fun s =>
      if .created ∉ s.columns .operation then
        [.execute (.addColumn .operation (defaulting (.text "") (required (text .created))))]
      else []]

/-- `max(0, (julianday(lease_expires) - julianday(created)) * 86400)`. -/
def leaseWindow : HubExpr :=
  .max (.lit (.int 0))
    (.mul (.sub (.julianday (.col .leaseExpires)) (.julianday (.col .created)))
      (.lit (.int 86400)))

/-- Where SQLite can derive the lease window. -/
def leaseDated : HubExpr :=
  .and (.and (.isNotNull (.col .leaseExpires))
    (.isNotNull (.julianday (.col .leaseExpires)))) (.isNotNull (.julianday (.col .created)))

/-- The condition of an `UPDATE` without `WHERE`. -/
def everyRow : HubExpr := .lit (.int 1)

/-- `_migrate_worker_heartbeat`. -/
def migrateWorkerHeartbeat : HubProgram :=
  [fun s =>
      let columns := s.columns .agent
      addMissing .agent columns [workerInstanceId] ++
      (if .lastHeartbeat ∉ columns then
        [.execute (.addColumn .agent lastHeartbeat),
          .execute (.update .agent [(.lastHeartbeat, .col .lastSeen)] everyRow)]
      else []) ++
      addMissing .agent columns [lastProgressAt],
    fun s =>
      if .leaseDurationS ∉ s.columns .task then
        [.execute (.addColumn .task leaseDurationS),
          .execute (.update .task [(.leaseDurationS, leaseWindow)] leaseDated)]
      else []]

/-- `_migrate_event_delivery`. -/
def migrateEventDelivery (s : HubSchema) : List HubCommand :=
  let columns := s.columns .event
  addMissing .event columns deliveryColumns ++ [.execute (.dropIndex .eventInbox)] ++
    (if .consumed ∈ columns then
      [.execute (.update .event
          [(.state, .lit (.text EventState.acked.value)), (.ackedAt, .col .ts),
            (.deliveryAttempts, .lit (.int 1))] (.eq (.col .consumed) (.lit (.int 1)))),
        .execute (.dropColumn .event .consumed)]
    else []) ++
    [createIndex eventStateId, createIndex eventDeliveryId]

/-- `_migrate_decision_key`. -/
def migrateDecisionKey (s : HubSchema) : List HubCommand :=
  addMissing .decision (s.columns .decision) [text .key] ++ [createIndex decisionKey]

/-- `_migrate_task_pr_head_sha`. -/
def migrateTaskPrHeadSha (s : HubSchema) : List HubCommand :=
  addMissing .task (s.columns .task) [prHeadSha]

/-- `_migrate_task_source_event_id`. -/
def migrateTaskSourceEventId (s : HubSchema) : List HubCommand :=
  addMissing .task (s.columns .task) [sourceEventId]

/-- `_migrate_call_log`. -/
def migrateCallLog (_ : HubSchema) : List HubCommand :=
  [.execute (.createTable .callLog callLogShape), createIndex callLogActor]

/-- `_migrate_declared_model`. -/
def migrateDeclaredModel (s : HubSchema) : List HubCommand :=
  addMissing .agent (s.columns .agent) declaredModelColumns

/-- `_migrate_peer_addresses`. -/
def migratePeerAddresses (s : HubSchema) : List HubCommand :=
  addMissing .agent (s.columns .agent) peerAddressColumns

/-! ### The rebuild -/

/-- `_rebuild_table`. -/
def rebuildTable (t : TableName) (old canonical : HubShape) : List HubCommand :=
  let scratch := TableName.rebuilding t
  [.execute (.readMark t),
    .execute (.dropTable scratch true),
    .execute (.renameTable t scratch),
    .execute (.createTable t canonical),
    -- only columns both shapes have
    .execute (.insertFrom t scratch (old.names.filter fun k => k ∈ canonical.names)),
    .execute (.dropTable scratch false),
    .execute (.restoreMark t)]

/-- `REBUILT_TABLES`. -/
def rebuiltTables : List TableName := [.agent, .task, .event, .decision]

/-- A table whose text is not the one `SCHEMA` has, with both. -/
def drifted? (s : HubSchema) (t : TableName) : Option (TableName × HubShape × HubShape) := do
  let old ← s.shape? t
  let canonical ← schemaTables.lookup t
  if old = canonical then none else some (t, old, canonical)

/-- `_rebuild_drifted_tables`, with `_rebuild_all`. -/
def rebuildDriftedTables (s : HubSchema) : List HubCommand :=
  let drifted := rebuiltTables.filterMap (drifted? s)
  [.begin] ++ drifted.flatMap (fun d => rebuildTable d.1 d.2.1 d.2.2) ++
    (if drifted = [] then [] else schemaIndexes.map createIndex ++ [.check]) ++ [.commit]

/-! ### The program -/

/-- The script `SCHEMA`, on an empty file. -/
def createSchema : List HubCommand :=
  (schemaTables.map fun p => .execute (.createTable p.1 p.2)) ++ schemaIndexes.map createIndex

/-- The first connection. -/
def migrateColumns : HubProgram :=
  [migrateAgentProfile] ++ migrateOperationTable ++ migrateWorkerHeartbeat ++
    [migrateEventDelivery, migrateDecisionKey, migrateTaskPrHeadSha, migrateTaskSourceEventId,
      migrateCallLog, migrateDeclaredModel, migratePeerAddresses, fun _ => [.commit]]

/-- `PRAGMA user_version = 12`. -/
def stampVersion : HubCommand := .execute (.setVersion schemaVersion)

/-- `initialize_database`, by the version it finds. -/
def initializeDatabase (s : HubSchema) : HubProgram :=
  if s.version = schemaVersion then []
  else if s.version = 0 then [fun _ => createSchema ++ [stampVersion]]
  else if schemaVersion < s.version then [fun _ => [.raise]]
  else migrateColumns ++ [rebuildDriftedTables, fun _ => [stampVersion]]

section Run

variable (julianday : Value → Option ℚ)

/-- What an uninterrupted run of `initialize_database` leaves on disk, and whether it
    returned. -/
def runInitialize (d : HubDatabase) : HubDatabase × Bool :=
  (sqlite julianday).outcome Store.schema (initializeDatabase d.schema) d

/-- What is on disk when a run is interrupted after `n` statements. -/
def interruptInitialize (n : ℕ) (d : HubDatabase) : HubDatabase :=
  (sqlite julianday).interrupted Store.schema (initializeDatabase d.schema) n d

end Run

end AgentHub.Migration
