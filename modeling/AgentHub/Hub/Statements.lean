import AgentHub.Hub.Database

namespace AgentHub

open Relational

/-!
# The statements store operations share

The private helpers of the store: lookups that refuse, transcript and event inserts, the state
writes, and the two halves of the mutation ledger.  Each comes with the one equation its
callers need, the condition under which it commits and the connection it leaves; a proof about
an operation cites these and never unfolds a helper.
-/

/-- `repr` of a string, for the messages that quote one. -/
def pyRepr (s : String) : String :=
  let quote : Char := if s.toList.contains '\'' && !s.toList.contains '"' then '"' else '\''
  let escape (c : Char) : List Char :=
    if c = quote || c = '\\' then ['\\', c]
    else if c = '\n' then ['\\', 'n']
    else if c = '\r' then ['\\', 'r']
    else if c = '\t' then ['\\', 't']
    else [c]
  String.ofList (quote :: s.toList.flatMap escape ++ [quote])

/-- Raise if `p` holds. -/
def refuseIf (p : Prop) [Decidable p] (kind : ErrorKind) (message : String) : Txn Unit :=
  if p then raise kind message else pure ()

/-- A check that refuses passes where its condition fails. -/
@[simp] theorem commits_refuseIf {p : Prop} [Decidable p] {kind : ErrorKind} {message : String}
    {c c' : Conn} {u : Unit} : Commits (refuseIf p kind message) c u c' ↔ ¬ p ∧ c' = c := by
  unfold refuseIf
  by_cases h : p <;> simp [h]

/-- The value, or raise when there is none. -/
def orRaise {α : Type} (o : Option α) (kind : ErrorKind) (message : String) : Txn α :=
  match o with
  | some a => pure a
  | none => raise kind message

/-- A value that has to be there is there. -/
@[simp] theorem commits_orRaise {α : Type} {o : Option α} {kind : ErrorKind} {message : String}
    {c c' : Conn} {a : α} : Commits (orRaise o kind message) c a c' ↔ o = some a ∧ c' = c := by
  cases o with
  | none => simp [orRaise]
  | some b => simp [orRaise, eq_comm]

/-- A computation that does not touch the database. -/
def ofExcept {α : Type} (x : Except StoreError α) : Txn α :=
  match x with
  | .ok a => pure a
  | .error e => throw e

/-- A checked value is the value, or it raises. -/
@[simp] theorem commits_ofExcept {α : Type} {x : Except StoreError α} {c c' : Conn} {a : α} :
    Commits (ofExcept x) c a c' ↔ x = .ok a ∧ c' = c := by
  cases x with
  | ok b => simp [ofExcept, eq_comm]
  | error e => simp [ofExcept]

/-! ### Lookups that refuse -/

/-- `_require_agent`. -/
def requireAgent (name : String) : Txn AgentRecord := do
  orRaise ((← readDb).agents.find? name) .notFound s!"unknown agent: {name}"

/-- `_require_task`. -/
def requireTask (taskId : String) : Txn TaskRecord := do
  orRaise ((← readDb).tasks.find? taskId) .notFound s!"unknown task: {taskId}"

/-- `_require_open_task`. -/
def requireOpenTask (taskId : String) : Txn TaskRecord := do
  let task ← requireTask taskId
  refuseIf (¬ task.isOpen) .conflict s!"task {taskId} is already {task.state.value}"
  return task

/-- `_task_context_id`. -/
def taskContextId (task : TaskRecord) : Txn String :=
  match task.assignee with
  | none => pure ""
  | some name => AgentRecord.contextId <$> requireAgent name

/-- `_require_workflow`. -/
def requireWorkflow (operation : String) : Txn WorkflowRecord := do
  orRaise (← readDb).workflow .conflict
    s!"workflow is not initialized; call initialize_workflow(goal, policy) before {operation}"

/-- `_open_task_id`: the task id, only while that task is still open. -/
def Db.openTaskId (d : Db) (taskId : Option String) : Option String :=
  taskId.filter fun id => decide (∃ t ∈ d.tasks.find? id, t.isOpen)

section

variable {c c' : Conn}

/-- The agent is looked up. -/
@[simp] theorem commits_requireAgent {name : String} {a : AgentRecord} :
    Commits (requireAgent name) c a c' ↔ c.db.agents.find? name = some a ∧ c' = c := by
  simp [requireAgent, and_comm]

/-- The task is looked up. -/
@[simp] theorem commits_requireTask {taskId : String} {t : TaskRecord} :
    Commits (requireTask taskId) c t c' ↔ c.db.tasks.find? taskId = some t ∧ c' = c := by
  simp [requireTask, and_comm]

/-- The task is looked up, and is open. -/
@[simp] theorem commits_requireOpenTask {taskId : String} {t : TaskRecord} :
    Commits (requireOpenTask taskId) c t c' ↔
      c.db.tasks.find? taskId = some t ∧ t.isOpen ∧ c' = c := by
  simp only [requireOpenTask, commits_bind, commits_requireTask, commits_refuseIf, commits_pure,
    not_not]
  constructor
  · rintro ⟨t', _, ⟨ht, rfl⟩, _, _, ⟨hopen, rfl⟩, rfl, rfl⟩
    exact ⟨ht, hopen, rfl⟩
  · rintro ⟨ht, hopen, rfl⟩
    exact ⟨t, _, ⟨ht, rfl⟩, (), _, ⟨hopen, rfl⟩, rfl, rfl⟩

/-- The context a task's messages carry: that of its assignee, if it has one. -/
@[simp] theorem commits_taskContextId {t : TaskRecord} {context : String} :
    Commits (taskContextId t) c context c' ↔
      (match t.assignee with
        | none => context = ""
        | some name => ∃ a, c.db.agents.find? name = some a ∧ context = a.contextId) ∧ c' = c := by
  unfold taskContextId
  cases t.assignee with
  | none => simp
  | some name =>
    simp only [commits_map, commits_requireAgent]
    constructor
    · rintro ⟨a, ⟨ha, rfl⟩, rfl⟩
      exact ⟨⟨a, ha, rfl⟩, rfl⟩
    · rintro ⟨⟨a, ha, rfl⟩, rfl⟩
      exact ⟨a, ⟨ha, rfl⟩, rfl⟩

/-- The workflow is looked up. -/
@[simp] theorem commits_requireWorkflow {operation : String} {w : WorkflowRecord} :
    Commits (requireWorkflow operation) c w c' ↔ c.db.workflow = some w ∧ c' = c := by
  simp [requireWorkflow, and_comm]

end

/-- The id of an open task, where one is given. -/
theorem Db.openTaskId_eq_some_iff {d : Db} {taskId : Option String} {id : String} :
    d.openTaskId taskId = some id ↔
      taskId = some id ∧ ∃ t, d.tasks.find? id = some t ∧ t.isOpen := by
  simp [Db.openTaskId, Option.filter_eq_some_iff]

/-! ### Transcript and events -/

/-- A part above the cap, with its position. -/
def oversizedPart? (parts : List Part) : Option (Part × ℕ) :=
  (parts.zipIdx 1).find? fun p => maxMessagePartBytes < p.1.toJson.sizeBytes

/-- Every part is within `MAX_MESSAGE_PART_BYTES`. -/
def PartsFit (parts : List Part) : Prop := oversizedPart? parts = none

instance (parts : List Part) : Decidable (PartsFit parts) := inferInstanceAs (Decidable (_ = _))

/-- The advice both size refusals end with, about what to send instead. -/
def tooLarge (what : String) (size maximum : ℕ) (instead : String) : String :=
  s!"{what} is {size} bytes; maximum is {maximum} bytes. Store work product in GitHub and {instead}"

/-- `INSERT INTO message`, stamped `ts`. -/
@[simps] def Db.addMessage (d : Db) (taskId : Option String) (contextId sender : String)
    (direction : Direction) (parts : List Part) (ts : Stamp) : Db :=
  { d with
    messages := d.messages.append
      fun id => { id, taskId, contextId, sender, direction, parts, ts } }

/-- `INSERT INTO event`, stamped `ts`. -/
@[simps] def Db.addEvent (d : Db) (payload : EventPayload) (ts : Stamp) : Db :=
  { d with events := d.events.append fun id => { id, payload, ts } }

/-- `_add_message`. -/
def addMessage (taskId : Option String) (contextId sender : String) (direction : Direction)
    (parts : List Part) : Txn ℕ := do
  match oversizedPart? parts with
  | some (part, index) =>
    raise .payloadTooLarge (tooLarge s!"message part {index}" part.toJson.sizeBytes
      maxMessagePartBytes "send a URL or compact reference instead.")
  | none =>
    let ts ← nowIso
    writeDb fun d => d.addMessage taskId contextId sender direction parts ts
    return (← readDb).messages.seq

/-- `_add_event`. -/
def addEvent (payload : EventPayload) : Txn ℕ := do
  let ts ← nowIso
  writeDb fun d => d.addEvent payload ts
  return (← readDb).events.seq

section

variable {c c' : Conn}

/-- A message that fits gets the next id and the time. -/
@[simp] theorem commits_addMessage {taskId : Option String} {contextId sender : String}
    {direction : Direction} {parts : List Part} {id : ℕ} :
    Commits (addMessage taskId contextId sender direction parts) c id c' ↔
      PartsFit parts ∧ id = c.db.messages.seq + 1 ∧
        c' = { c with
          clock := fun n => c.clock (n + 1)
          db := c.db.addMessage taskId contextId sender direction parts (c.clock 0).toIso } := by
  unfold addMessage PartsFit
  cases oversizedPart? parts with
  | some p => simp
  | none => simp [and_comm]

/-- An event gets the next id and the time. -/
@[simp] theorem commits_addEvent {payload : EventPayload} {id : ℕ} :
    Commits (addEvent payload) c id c' ↔
      id = c.db.events.seq + 1 ∧
        c' = { c with
          clock := fun n => c.clock (n + 1)
          db := c.db.addEvent payload (c.clock 0).toIso } := by
  simp [addEvent, and_comm]

end

/-! ### State writes -/

/-- `UPDATE task SET state, updated`. -/
@[simps] def Db.setState (d : Db) (taskId : String) (state : TaskState) (updated : Stamp) : Db :=
  { d with tasks := d.tasks.modify taskId fun t => { t with state, updated } }

/-- The two updates of `_finish`: end the task, and free whoever holds it. -/
@[simps] def Db.finish (d : Db) (taskId : String) (state : TaskState) (result : Option Json)
    (updated : Stamp) : Db :=
  { d with
    tasks := d.tasks.modify taskId fun t =>
      { t with state, updated, leaseExpires := none, result }
    agents := d.agents.updateWhere (fun a => a.currentTaskId = some taskId) fun a =>
      { a with status := if a.status = .busy then .idle else a.status, currentTaskId := none } }

/-- `UPDATE agent SET last_progress_at`. -/
@[simps] def Db.progressAt (d : Db) (name : String) (ts : Stamp) : Db :=
  { d with agents := d.agents.modify name fun a => { a with lastProgressAt := some ts } }

/-- Ending a task closes it, and only it. -/
theorem Db.openTaskId_finish {d : Db} {taskId : String} {state : TaskState} {result : Option Json}
    {ts : Stamp} (hstate : state.terminal = true) (o : Option String) :
    (d.finish taskId state result ts).openTaskId o
      = (d.openTaskId o).filter fun id => id ≠ taskId := by
  ext id
  simp only [Db.openTaskId_eq_some_iff, Option.filter_eq_some_iff, Db.finish_tasks,
    Table.find?_modify, decide_eq_true_eq]
  by_cases hid : id = taskId
  · simp only [hid, if_true, ne_eq, not_true_eq_false, and_false, iff_false, not_and, not_exists,
      Option.map_eq_some_iff]
    rintro - _ ⟨t, -, rfl⟩
    simp [TaskRecord.isOpen, hstate]
  · simp [hid]

/-- `_set_state`. -/
def setState (taskId : String) (state : TaskState) : Txn Unit := do
  let updated ← nowIso
  writeDb fun d => d.setState taskId state updated

/-- `_finish`: apply a terminal state, clear the lease and free the assignee. -/
def finish (taskId : String) (state : TaskState) (payload : Option Json) : Txn Unit := do
  let updated ← nowIso
  writeDb fun d => d.finish taskId state payload updated

/-- `_record_progress_at`. -/
def recordProgressAt (name : String) : Txn Unit := do
  let at' ← nowIso
  writeDb fun d => d.progressAt name at'

/-- `INSERT INTO agent`, under its primary key and the uniqueness of `context_id`. -/
def insertAgent (agent : AgentRecord) : Txn Unit := do
  let d ← readDb
  refuseIf (∃ a ∈ d.agents.rows, a.contextId = agent.contextId) .integrityError
    "UNIQUE constraint failed: agent.context_id"
  let agents ← orRaise (d.agents.insert? agent) .integrityError
    "UNIQUE constraint failed: agent.name"
  writeDb fun d => { d with agents }

/-- `INSERT INTO task`. -/
def insertTask (task : TaskRecord) : Txn Unit := do
  let tasks ← orRaise ((← readDb).tasks.insert? task) .integrityError
    "UNIQUE constraint failed: task.id"
  writeDb fun d => { d with tasks }

/-- `INSERT INTO operation`. -/
def insertOperation (row : OperationRecord) : Txn Unit := do
  let operations ← orRaise ((← readDb).operations.insert? row) .integrityError
    "UNIQUE constraint failed: operation.actor, operation.operation_id"
  writeDb fun d => { d with operations }

section

variable {c c' : Conn} {u : Unit}

/-- The state of a task and the time of the change are written. -/
@[simp] theorem commits_setState {taskId : String} {state : TaskState} :
    Commits (setState taskId state) c u c' ↔
      c' = { c with
        clock := fun n => c.clock (n + 1)
        db := c.db.setState taskId state (c.clock 0).toIso } := by
  simp [setState]

/-- A task is finished at the time that is read. -/
@[simp] theorem commits_finish {taskId : String} {state : TaskState} {payload : Option Json} :
    Commits (finish taskId state payload) c u c' ↔
      c' = { c with
        clock := fun n => c.clock (n + 1)
        db := c.db.finish taskId state payload (c.clock 0).toIso } := by
  simp [finish]

/-- The progress of an agent is dated. -/
@[simp] theorem commits_recordProgressAt {name : String} :
    Commits (recordProgressAt name) c u c' ↔
      c' = { c with
        clock := fun n => c.clock (n + 1)
        db := c.db.progressAt name (c.clock 0).toIso } := by
  simp [recordProgressAt]

/-- A new agent needs a free name and a free context. -/
@[simp] theorem commits_insertAgent {agent : AgentRecord} :
    Commits (insertAgent agent) c u c' ↔
      (∀ a ∈ c.db.agents, a.contextId ≠ agent.contextId) ∧
        c.db.agents.find? agent.name = none ∧
          c' = { c with db := { c.db with agents := c.db.agents.insertOrIgnore agent } } := by
  simp [insertAgent, Table.mem_iff, Table.insert?_eq_some_iff, and_assoc]

/-- A new task needs a free id. -/
@[simp] theorem commits_insertTask {task : TaskRecord} :
    Commits (insertTask task) c u c' ↔
      c.db.tasks.find? task.id = none ∧
        c' = { c with db := { c.db with tasks := c.db.tasks.insertOrIgnore task } } := by
  simp [insertTask, Table.insert?_eq_some_iff, and_assoc]

/-- A new ledger row needs a free key. -/
@[simp] theorem commits_insertOperation {row : OperationRecord} :
    Commits (insertOperation row) c u c' ↔
      c.db.operations.find? row.key = none ∧
        c' = { c with db := { c.db with operations := c.db.operations.insertOrIgnore row } } := by
  simp [insertOperation, Table.insert?_eq_some_iff, and_assoc]

end

end AgentHub
