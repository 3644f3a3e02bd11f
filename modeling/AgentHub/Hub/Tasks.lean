import AgentHub.Hub.Agents
import Mathlib.Data.List.MinMax

namespace AgentHub

open Relational

/-!
# Tasks

A task from its assignment to its end: `assign_task`, the claim a waiting worker makes, progress
notes, questions and replies, the typed result, and the two ways Alice ends it herself.
-/

/-! ### Assignment -/

/-- What an assignment asks for.  A redelivered one must ask for the same. -/
structure TaskRequest where
  workflowId : String
  assignee : Option String
  role : String
  title : String
  instructions : String
  leaseDurationS : ℚ
  prHeadSha : Option String
deriving DecidableEq

/-- What was asked for in the assignment that created this task. -/
def TaskRecord.request (t : TaskRecord) : TaskRequest where
  workflowId := t.workflowId
  assignee := t.assignee
  role := t.role
  title := t.title
  instructions := t.instructions
  leaseDurationS := t.leaseDurationS
  prHeadSha := t.prHeadSha

/-- A task that has just been assigned. -/
def TaskRequest.task (r : TaskRequest) (id : String) (sourceEventId : Option ℕ)
    (expires ts : Stamp) : TaskRecord where
  id := id
  workflowId := r.workflowId
  assignee := r.assignee
  role := r.role
  title := r.title
  instructions := r.instructions
  state := .submitted
  leaseExpires := some expires
  leaseDurationS := r.leaseDurationS
  result := none
  created := ts
  updated := ts
  prHeadSha := r.prHeadSha
  sourceEventId := sourceEventId

/-- What `assign_task` asks for, once the lease is capped. -/
def assignmentRequest (workflowId agent role title instructions : String) (effectiveMin : ℚ)
    (prHeadSha : Option String) : TaskRequest where
  workflowId := workflowId
  assignee := some agent
  role := role
  title := title
  instructions := instructions
  leaseDurationS := effectiveMin * 60
  prHeadSha := prHeadSha.map String.toLower

/-- The task a source event was answered with. -/
def Db.taskFrom? (d : Db) (sourceEventId : ℕ) : Option TaskRecord :=
  d.tasks.rows.find? fun t => t.sourceEventId = some sourceEventId

/-- The replay check of `assign_task`: the task this event was already answered with. -/
def assignedBefore (sourceEventId : Option ℕ) (request : TaskRequest) :
    Txn (Option TaskRecord) :=
  match sourceEventId with
  | none => return none
  | some eventId => do
    let d ← readDb
    refuseIf (d.events.find? eventId = none) .notFound s!"unknown source event: {eventId}"
    match d.taskFrom? eventId with
    | none => return none
    | some task =>
      refuseIf (request ≠ task.request) .idempotencyConflict
        s!"source event {eventId} already assigned task {task.id} with a different payload"
      return some task

/-- The agent, if it is there to take work. -/
def requireIdle (name : String) : Txn AgentRecord := do
  let agent ← requireAgent name
  if agent.status = .idle then
    return agent
  match (← readDb).openTaskId agent.currentTaskId with
  | some held =>
    raise .conflict s!"agent {name} already holds task {held}"
  | none =>
    raise .conflict (s!"agent {name} is {agent.status.value}, not idle; it must check in again " ++
      "before it can be given work")

/-- `UPDATE agent SET status = 'busy', current_task_id`. -/
@[simps] def Db.setBusy (d : Db) (name taskId : String) : Db :=
  { d with agents := d.agents.modify name fun a =>
      { a with status := .busy, currentTaskId := some taskId } }

/-- The transcript message of an assignment. -/
def assignmentParts (r : TaskRequest) : List Part :=
  [⟨r.instructions, .assignment r.role r.title r.prHeadSha⟩]

/-- `assign_task`. -/
def assignTask (agent role title instructions : String) (leaseMin : ℚ := defaultLeaseMin)
    (prHeadSha : Option String := none) (sourceEventId : Option ℕ := none) :
    Txn TaskRecord := do
  refuseIf (∃ sha ∈ prHeadSha, isSha40 sha = false) .valueError
    "pr_head_sha must be a 40-character hex commit SHA"
  let at' ← now
  let workflow ← requireWorkflow "assign_task"
  let capMin ← maxTaskLeaseMin workflow.id
  let effectiveMin := min leaseMin capMin
  let request :=
    assignmentRequest workflow.id agent role title instructions effectiveMin prHeadSha
  match ← assignedBefore sourceEventId request with
  | some task => return task
  | none =>
    let record ← requireIdle agent
    let taskId ← uuid4
    let expires ← addMicros at' (minutes effectiveMin)
    insertTask (request.task taskId sourceEventId expires.toIso at'.toIso)
    writeDb fun d => d.setBusy agent taskId
    let _ ← addMessage (some taskId) record.contextId "alice" .fromAlice
      (assignmentParts request)
    let task ← requireTask taskId
    notify (.context record.contextId)
    return task

/-- The writes of an assignment. -/
@[simps] def Db.assign (d : Db) (task : TaskRecord) (agent contextId : String)
    (parts : List Part) (ts : Stamp) : Db :=
  { d with
    tasks := d.tasks.insertOrIgnore task
    agents := d.agents.modify agent fun a =>
      { a with status := .busy, currentTaskId := some task.id }
    messages := d.messages.append fun id =>
      { id, taskId := some task.id, contextId, sender := "alice", direction := .fromAlice,
        parts, ts } }

section

variable {c c' : Conn}

/-- A task found for the source event has to be of the same request. -/
theorem commits_assignedBefore {sourceEventId : Option ℕ} {request : TaskRequest}
    {o : Option TaskRecord} :
    Commits (assignedBefore sourceEventId request) c o c' ↔
      c' = c ∧ (∀ e ∈ sourceEventId, c.db.events.find? e ≠ none) ∧
        o = sourceEventId.bind c.db.taskFrom? ∧ ∀ t ∈ o, request = t.request := by
  unfold assignedBefore
  cases sourceEventId with
  | none => simp +contextual [and_comm]
  | some e =>
    rw [commits_readDb_bind]
    cases hfrom : c.db.taskFrom? e with
    | none =>
      simp only [commits_bind, commits_refuseIf, commits_pure]
      constructor
      · rintro ⟨_, _, ⟨hknown, rfl⟩, rfl, rfl⟩
        exact ⟨rfl, by simpa using hknown, by simp [hfrom], by simp⟩
      · rintro ⟨rfl, hknown, ho, -⟩
        exact ⟨(), _, ⟨hknown e rfl, rfl⟩, by simpa [hfrom] using ho, rfl⟩
    | some t =>
      simp only [commits_bind, commits_refuseIf, commits_pure, not_not]
      constructor
      · rintro ⟨_, _, ⟨hknown, rfl⟩, _, _, ⟨hrequest, rfl⟩, rfl, rfl⟩
        exact ⟨rfl, by simpa using hknown, by simp [hfrom], by simpa using hrequest⟩
      · rintro ⟨rfl, hknown, ho, hrequest⟩
        obtain rfl : o = some t := by simpa [hfrom] using ho
        exact ⟨(), _, ⟨hknown e rfl, rfl⟩, (), _, ⟨hrequest t rfl, rfl⟩, rfl, rfl⟩

/-- Only an idle agent is assigned a task. -/
theorem commits_requireIdle {name : String} {a : AgentRecord} :
    Commits (requireIdle name) c a c' ↔
      c.db.agents.find? name = some a ∧ a.status = .idle ∧ c' = c := by
  unfold requireIdle
  simp only [commits_bind, commits_requireAgent, commits_ite, commits_pure, commits_readDb]
  constructor
  · rintro ⟨agent, _, ⟨hagent, rfl⟩, ⟨hidle, rfl, rfl⟩ | ⟨-, _, _, ⟨rfl, rfl⟩, h⟩⟩
    · exact ⟨hagent, hidle, rfl⟩
    · split at h <;> exact absurd h commits_raise
  · rintro ⟨hagent, hidle, rfl⟩
    exact ⟨a, _, ⟨hagent, rfl⟩, .inl ⟨hidle, rfl, rfl⟩⟩

/-- **What an assignment does.**  It is recognised as the answer already given to its source
    event, or it gives an idle agent a new task. -/
theorem assignTask_cases {agent role title instructions : String} {leaseMin : ℚ}
    {prHeadSha : Option String} {sourceEventId : Option ℕ} {t : TaskRecord}
    (h : Commits
      (assignTask agent role title instructions leaseMin prHeadSha sourceEventId) c t c') :
    c'.uuids.Within c.uuids ∧ ∃ workflow capMin request,
      (∀ sha ∈ prHeadSha, isSha40 sha = true) ∧
      c.db.workflow = some workflow ∧ c.db.leaseCap? workflow.id = some capMin ∧
      request = assignmentRequest workflow.id agent role title instructions
        (min leaseMin capMin) prHeadSha ∧
      (∀ e ∈ sourceEventId, c.db.events.find? e ≠ none) ∧
      ((sourceEventId.bind c.db.taskFrom? = some t ∧ t.request = request ∧ c'.db = c.db) ∨
        sourceEventId.bind c.db.taskFrom? = none ∧
          ∃ record taskId expires ts ts', c.db.agents.find? agent = some record ∧
            record.status = .idle ∧ c.db.tasks.find? taskId = none ∧
            PartsFit (assignmentParts request) ∧
            t = request.task taskId sourceEventId expires ts ∧
            c'.db = c.db.assign t agent record.contextId (assignmentParts request) ts') := by
  unfold assignTask at h
  simp only [commits_bind, commits_refuseIf, commits_now, commits_requireWorkflow,
    commits_maxTaskLeaseMin, commits_assignedBefore, and_assoc, exists_and_left, exists_eq_left,
    exists_const] at h
  obtain ⟨hsha, workflow, hworkflow, capMin, hcap, hknown, hrequest, h⟩ := h
  have hsha' : ∀ sha ∈ prHeadSha, isSha40 sha = true := by simpa using hsha
  cases ho : sourceEventId.bind c.db.taskFrom? with
  | some task =>
    simp only [ho] at h
    obtain ⟨rfl, rfl⟩ := commits_pure.mp h
    exact ⟨.refl _, workflow, capMin, _, hsha', hworkflow, hcap, rfl, hknown,
      .inl ⟨rfl, (hrequest t ho).symm, rfl⟩⟩
  | none =>
    simp only [ho, commits_bind, commits_requireIdle, commits_uuid4, commits_addMicros,
      commits_insertTask, commits_writeDb, commits_addMessage, commits_requireTask,
      commits_notify, commits_pure, and_assoc, exists_and_left, exists_eq_left,
      exists_const] at h
    obtain ⟨record, hrecord, hidle, expires, -, hfree, hfit, task, htask, rfl, rfl⟩ := h
    obtain rfl := Option.some.inj ((Table.find?_insertOrIgnore_self hfree).symm.trans htask)
    exact ⟨c.uuids.rest_within, workflow, capMin, _, hsha', hworkflow, hcap, rfl, hknown,
      .inr ⟨rfl, record, c.uuids.head, expires.toIso, _, _, hrecord, hidle, hfree, hfit, rfl, rfl⟩⟩

end

/-! ### Claims -/

/-- What a waiting worker is handed. -/
inductive Claim where
  | task (task : TaskRecord)
  | released (agent : String)
deriving DecidableEq

/-- The oldest task submitted to `name`. -/
def Db.submittedTo? (d : Db) (name : String) : Option TaskRecord :=
  (d.tasks.rows.filter fun t => t.assignee = some name ∧ t.state = .submitted).argmin
    TaskRecord.created

/-- `_claim_assignment`: the poll of a worker's assignment wait. -/
def claimAssignment (name : String) : Txn (Option Claim) := do
  let agent ← requireAgent name
  if agent.status = .released then
    return some (.released name)
  match (← readDb).submittedTo? name with
  | none => return none
  | some row =>
    setState row.id .working
    return some (.task (← requireTask row.id))

section

variable {c c' : Conn} {name : String}

/-- The task found is submitted, and for the agent asked about. -/
theorem Db.submittedTo?_mem {d : Db} {t : TaskRecord} (h : d.submittedTo? name = some t) :
    d.tasks.find? t.id = some t ∧ t.assignee = some name ∧ t.state = .submitted := by
  have hmem := List.argmin_mem h
  simp only [List.mem_filter, decide_eq_true_eq] at hmem
  exact ⟨Table.find?_of_mem hmem.1, hmem.2⟩

/-- Nothing is found when no task is submitted for the agent. -/
theorem Db.submittedTo?_eq_none_iff {d : Db} :
    d.submittedTo? name = none ↔
      ∀ t ∈ d.tasks, ¬ (t.assignee = some name ∧ t.state = .submitted) := by
  simp [Db.submittedTo?, List.argmin_eq_none, Table.mem_iff]

/-- **What a claim does.**  A released agent gets the release; any other gets its submitted task,
    which is then `working`, or nothing. -/
theorem commits_claimAssignment {o : Option Claim} :
    Commits (claimAssignment name) c o c' ↔
      ∃ agent, c.db.agents.find? name = some agent ∧
        if agent.status = .released then o = some (.released name) ∧ c' = c
        else match c.db.submittedTo? name with
          | none => o = none ∧ c' = c
          | some t =>
            o = some (.task { t with state := .working, updated := (c.clock 0).toIso }) ∧
              c' = { c with
                clock := fun n => c.clock (n + 1)
                db := c.db.setState t.id .working (c.clock 0).toIso } := by
  unfold claimAssignment
  simp only [commits_bind, commits_requireAgent, and_assoc, exists_and_left, exists_eq_left]
  refine exists_congr fun agent => and_congr_right fun _ => ?_
  by_cases hstatus : agent.status = .released
  · simp [hstatus]
  · simp only [hstatus, if_false]
    rw [commits_readDb_bind]
    cases ht : c.db.submittedTo? name with
    | none => simp
    | some t =>
      have hfound := (Db.submittedTo?_mem ht).1
      simp [hfound, and_comm]

end

/-! ### Progress -/

/-- `record_progress`. -/
def recordProgress (taskId agent note : String) (op : Ledgered Unit := {}) :
    Txn (Mutation Unit) := do
  match ← replay agent op with
  | some responseJson => return .replayed responseJson
  | none =>
    let task ← requireOpenTask taskId
    let worker ← requireAgent agent
    let _ ← addMessage (some task.id) worker.contextId agent .toAlice [⟨note, .progress⟩]
    let _ ← addEvent (.taskProgress task.id agent note)
    recordProgressAt agent
    let result ← record agent op ()
    notify .events
    return result

/-- The writes of a progress note. -/
@[simps] def Db.progress (d : Db) (taskId agent contextId note : String) (ts ts' ts'' : Stamp) :
    Db :=
  { d with
    messages := d.messages.append fun id =>
      { id, taskId := some taskId, contextId, sender := agent, direction := .toAlice,
        parts := [⟨note, .progress⟩], ts }
    events := d.events.append fun id =>
      { id, payload := .taskProgress taskId agent note, ts := ts' }
    agents := (d.progressAt agent ts'').agents }

/-- **What a progress note does.**  It is answered from the ledger, or it adds one message and
    one event on an open task. -/
theorem recordProgress_cases {c c' : Conn} {taskId agent note : String} {op : Ledgered Unit}
    {m : Mutation Unit} (h : Commits (recordProgress taskId agent note op) c m c') :
    c'.uuids = c.uuids ∧
      ((∃ id hash row, op.entry? = some (id, hash) ∧
          c.db.operations.find? (agent, id) = some row ∧ row.payloadHash = hash ∧
          m = .replayed row.responseJson ∧ c'.db = c.db) ∨
        ∃ task worker row ts ts₁ ts₂ ts₃,
          (∀ id hash, op.entry? = some (id, hash) → c.db.operations.find? (agent, id) = none) ∧
          c.db.tasks.find? taskId = some task ∧ task.isOpen ∧
          c.db.agents.find? agent = some worker ∧ PartsFit [⟨note, .progress⟩] ∧
          row = op.row? agent () ts₃ ∧ (∀ r ∈ row, c.db.operations.find? r.key = none) ∧
          m = op.outcome () ∧
          c'.db = (c.db.progress taskId agent worker.contextId note ts ts₁ ts₂).record row) := by
  unfold recordProgress at h
  simp only [commits_bind, commits_replay, and_assoc, exists_and_left, exists_eq_left] at h
  obtain ⟨o, ⟨rfl, hfresh⟩ | ⟨id, hash, hentry, row, hrow, hhash, rfl⟩, h⟩ := h
  · simp only [commits_bind, commits_requireOpenTask, commits_requireAgent, commits_addMessage,
      commits_addEvent, commits_recordProgressAt, commits_notify, commits_pure, and_assoc,
      exists_and_left, exists_eq_left, exists_const] at h
    obtain ⟨task, htask, hopen, worker, hworker, hfit, result, t, hrecord, rfl, rfl⟩ := h
    obtain ⟨row, hrow, hm, hfree, hdb, huuids, -⟩ := record_cases hrecord
    have hid : task.id = taskId := Table.find?_key htask
    exact ⟨huuids, .inr ⟨task, worker, row, _, _, _, _, hfresh, htask, hopen, hworker, hfit, hrow,
      hfree, hm, hid ▸ hdb⟩⟩
  · obtain ⟨rfl, rfl⟩ := commits_pure.mp h
    exact ⟨rfl, .inl ⟨id, hash, row, hentry, hrow, hhash, rfl, rfl⟩⟩

/-! ### Questions and replies -/

/-- The message is part of the task's transcript, and from a worker. -/
def MessageRecord.reports (m : MessageRecord) (taskId : String) : Prop :=
  m.taskId = some taskId ∧ m.direction = .toAlice

instance (m : MessageRecord) (taskId : String) : Decidable (m.reports taskId) :=
  inferInstanceAs (Decidable (_ ∧ _))

/-- `_asked_question`: the question already asked under `sentAs`. -/
def Db.askedQuestion (d : Db) (taskId sentAs : String) : Option ℕ :=
  if sentAs = "" then none
  else (d.messages.first? fun m => m.reports taskId ∧ m.parts.any (·.asks sentAs)).map
    MessageRecord.id

/-- The newest question on the task. -/
def Db.newestQuestion (d : Db) (taskId : String) : Option ℕ :=
  (d.messages.last? fun m => m.reports taskId ∧ m.parts.any Part.isQuestion).map MessageRecord.id

/-- `pending_reply`: Alice's first message on the task after the one with id `after`. -/
def Db.pendingReply (d : Db) (taskId : String) (after : ℕ) : Option MessageRecord :=
  d.messages.first? fun m => m.taskId = some taskId ∧ m.direction = .fromAlice ∧ after < m.id

/-- The transcript message of a question. -/
def questionParts (question sentAs : String) : List Part := [⟨question, .question sentAs⟩]

/-- `open_question`: park the task, or recognise a question already asked under `sentAs`. -/
def openQuestion (taskId agent question sentAs : String) : Txn ℕ := do
  let task ← requireOpenTask taskId
  let worker ← requireAgent agent
  match (← readDb).askedQuestion task.id sentAs with
  | some asked => return asked
  | none =>
    let messageId ← addMessage (some task.id) worker.contextId agent .toAlice
      (questionParts question sentAs)
    setState task.id .inputRequired
    let _ ← addEvent (.workerQuestion task.id agent question messageId)
    notify .events
    return messageId

/-- `reply`: answer the newest question, once. -/
def reply (taskId text : String) (messageId : ℕ) : Txn Bool := do
  let task ← requireTask taskId
  if task.state ≠ .inputRequired then
    return false
  let d ← readDb
  if d.newestQuestion task.id ≠ some messageId then
    return false
  if (d.pendingReply task.id messageId).isSome then
    return false
  let contextId ← taskContextId task
  let _ ← addMessage (some task.id) contextId "alice" .fromAlice [⟨text, .reply⟩]
  setState task.id .working
  notify (.task taskId)
  return true

/-- The writes of a question. -/
@[simps] def Db.ask (d : Db) (taskId agent contextId question sentAs : String)
    (ts ts' ts'' : Stamp) : Db :=
  { d with
    messages := d.messages.append fun id =>
      { id, taskId := some taskId, contextId, sender := agent, direction := .toAlice,
        parts := questionParts question sentAs, ts }
    tasks := d.tasks.modify taskId fun t => { t with state := .inputRequired, updated := ts' }
    events := d.events.append fun id =>
      { id, ts := ts'',
        payload := .workerQuestion taskId agent question (d.messages.seq + 1) } }

/-- The writes of a reply. -/
@[simps] def Db.answer (d : Db) (taskId contextId text : String) (ts ts' : Stamp) : Db :=
  { d with
    messages := d.messages.append fun id =>
      { id, taskId := some taskId, contextId, sender := "alice", direction := .fromAlice,
        parts := [⟨text, .reply⟩], ts }
    tasks := d.tasks.modify taskId fun t => { t with state := .working, updated := ts' } }

section

variable {c c' : Conn} {taskId : String}

/-- **What a question does.**  A question already asked is recognised; any other parks its task
    and is queued for Alice. -/
theorem openQuestion_cases {agent question sentAs : String} {id : ℕ}
    (h : Commits (openQuestion taskId agent question sentAs) c id c') :
    c'.uuids = c.uuids ∧ ∃ task worker, c.db.tasks.find? taskId = some task ∧ task.isOpen ∧
      c.db.agents.find? agent = some worker ∧
      ((c.db.askedQuestion taskId sentAs = some id ∧ c'.db = c.db) ∨
        c.db.askedQuestion taskId sentAs = none ∧ id = c.db.messages.seq + 1 ∧
          PartsFit (questionParts question sentAs) ∧ ∃ ts ts' ts'',
            c'.db = c.db.ask taskId agent worker.contextId question sentAs ts ts' ts'') := by
  unfold openQuestion at h
  simp only [commits_bind, commits_requireOpenTask, commits_requireAgent, commits_readDb,
    and_assoc, exists_and_left, exists_eq_left] at h
  obtain ⟨task, htask, hopen, worker, hworker, h⟩ := h
  obtain rfl : task.id = taskId := Table.find?_key htask
  cases hasked : c.db.askedQuestion task.id sentAs with
  | some asked =>
    simp only [hasked, commits_pure] at h
    obtain ⟨rfl, rfl⟩ := h
    exact ⟨rfl, task, worker, htask, hopen, hworker, .inl ⟨rfl, rfl⟩⟩
  | none =>
    simp only [hasked, commits_bind, commits_addMessage, commits_setState, commits_addEvent,
      commits_notify, commits_pure, and_assoc, exists_and_left, exists_eq_left,
      exists_const] at h
    obtain ⟨hfit, rfl, rfl⟩ := h
    exact ⟨rfl, task, worker, htask, hopen, hworker, .inr ⟨rfl, rfl, hfit, _, _, _, rfl⟩⟩

/-- `reply` applies exactly to the newest question of a task that waits for one. -/
def Db.Answerable (d : Db) (taskId : String) (messageId : ℕ) : Prop :=
  (∃ t ∈ d.tasks.find? taskId, t.state = .inputRequired) ∧
    d.newestQuestion taskId = some messageId ∧ d.pendingReply taskId messageId = none

instance (d : Db) (taskId : String) (messageId : ℕ) :
    Decidable (d.Answerable taskId messageId) := by
  unfold Db.Answerable; infer_instance

/-- **What a reply does.**  It answers the newest question, once, and outside of its guards it
    does nothing. -/
theorem commits_reply {text : String} {messageId : ℕ} {applied : Bool} :
    Commits (reply taskId text messageId) c applied c' ↔
      ∃ task, c.db.tasks.find? taskId = some task ∧
        if c.db.Answerable taskId messageId then
          applied = true ∧ PartsFit [⟨text, .reply⟩] ∧ ∃ contextId,
            Commits (taskContextId task) c contextId c ∧
            c' = { c with
              clock := fun n => c.clock (n + 2)
              db := c.db.answer taskId contextId text (c.clock 0).toIso (c.clock 1).toIso
              notified := c.notified ++ [.task taskId] }
        else applied = false ∧ c' = c := by
  unfold reply
  simp only [commits_bind, commits_requireTask, and_assoc, exists_and_left, exists_eq_left]
  refine exists_congr fun task => and_congr_right fun htask => ?_
  obtain rfl : task.id = taskId := Table.find?_key htask
  have hanswer : c.db.Answerable task.id messageId ↔ task.state = .inputRequired ∧
      c.db.newestQuestion task.id = some messageId ∧
        c.db.pendingReply task.id messageId = none := by
    simp [Db.Answerable, htask]
  by_cases hstate : task.state = .inputRequired
  case neg => simp [hanswer, hstate]
  by_cases hnewest : c.db.newestQuestion task.id = some messageId
  case neg => simp [hanswer, hstate, hnewest, commits_ite]
  cases hpending : c.db.pendingReply task.id messageId with
  | some m => simp [hanswer, hstate, hnewest, hpending, commits_ite]
  | none =>
    rw [if_pos (hanswer.mpr ⟨hstate, hnewest, hpending⟩)]
    simp [hstate, hnewest, hpending]
    constructor
    · rintro ⟨contextId, hcontext, hfit, rfl, rfl⟩
      exact ⟨rfl, hfit, contextId, hcontext, rfl⟩
    · rintro ⟨rfl, hfit, contextId, hcontext, rfl⟩
      exact ⟨contextId, hcontext, hfit, rfl, rfl⟩

end

/-! ### Results -/

/-- What `submit_result` is given as the result. -/
inductive ResultArg where
  | typed (result : TaskResult)
  | mapping (body : Fields)
  | status (state : TaskState)

/-- The terminal state a typed result stands for. -/
def TaskResult.state : TaskResult → TaskState
  | .implementer r => if r.outcome = .completed then .completed else .failed
  | .reviewer r =>
    if r.verdict = .approved ∨ r.verdict = .changesRequested then .completed else .failed
  | .rebase r => if r.outcome = .completed then .completed else .failed

/-- The size cap on a typed result. -/
def requireResultFits (body : Fields) : Except StoreError Unit :=
  if maxTypedResultBytes < (Json.obj body).sizeBytes then
    .error ⟨.payloadTooLarge, tooLarge "typed result" (Json.obj body).sizeBytes
      maxTypedResultBytes "submit only references and compact metadata."⟩
  else .ok ()

/-- What a result comes to: the terminal state, the stored payload and the summary. -/
structure Settlement where
  state : TaskState
  payload : Fields
  summary : String
deriving DecidableEq

/-- How this result ends its task. -/
def TaskResult.settle (r : TaskResult) : Settlement := ⟨r.state, r.dump, r.summary⟩

/-- The payload of a result that is only a state. -/
def statusPayload (state : TaskState) (summary : String) (artifacts : List Fields) : Fields :=
  [("status", .str state.value), ("summary", .str summary), ("artifacts", listJson .obj artifacts)]

/-- A refused result mapping. -/
def invalidResult (model : String) : StoreError := ⟨.validationError, s!"invalid {model}"⟩

/-- The first half of `submit_result`: read the result, before the database is touched. -/
def settlement (arg : Option ResultArg) (summary : String) (artifacts : List Fields) :
    Except StoreError Settlement :=
  match arg with
  | none => .error ⟨.conflict, "submit_result requires result or status"⟩
  | some (.typed r) => .ok r.settle
  | some (.mapping b) => do
    requireResultFits b
    if (b.lookup "outcome").isSome then
      match ImplementerResult.validate b with
      | some r => .ok (TaskResult.implementer r).settle
      | none => .error (invalidResult "ImplementerResult")
    else if (b.lookup "verdict").isSome then
      match ReviewerResult.validate b with
      | some r => .ok (TaskResult.reviewer r).settle
      | none => .error (invalidResult "ReviewerResult")
    else
      .error ⟨.conflict, "result mapping must contain 'outcome' or 'verdict'"⟩
  | some (.status state) =>
    if state ≠ .completed ∧ state ≠ .failed then
      .error ⟨.conflict, s!"a result must be completed or failed, got {state.value}"⟩
    else .ok ⟨state, statusPayload state summary artifacts, summary⟩

/-- `_result_transcript_part`: the echo of a result, within the part cap. -/
def resultPart (summary : String) (state : TaskState) : Part :=
  if (Part.toJson ⟨summary, .result state⟩).sizeBytes ≤ maxMessagePartBytes then
    ⟨summary, .result state⟩
  else ⟨"Typed result recorded; full summary is retained in the task result.", .result state⟩

/-- The event a result queues. -/
def Settlement.event (s : Settlement) (taskId agent : String) : EventPayload :=
  if s.state = .completed then .taskCompleted taskId agent s.summary s.payload
  else .taskFailed taskId agent s.summary s.payload

/-- `submit_result`. -/
def submitResult (taskId agent : String) (result : Option ResultArg := none)
    (summary : String := "") (artifacts : List Fields := []) (status : Option TaskState := none)
    (op : Ledgered TaskRecord := {}) : Txn (Mutation TaskRecord) := do
  let settled ← ofExcept (settlement (result.or (status.map .status)) summary artifacts)
  ofExcept (requireResultFits settled.payload)
  match ← replay agent op with
  | some responseJson => return .replayed responseJson
  | none =>
    let task ← requireOpenTask taskId
    let worker ← requireAgent agent
    let _ ← addMessage (some task.id) worker.contextId agent .toAlice
      [resultPart settled.summary settled.state]
    finish task.id settled.state (some (.obj settled.payload))
    let _ ← addEvent (settled.event task.id agent)
    let finished ← requireTask task.id
    let result ← record agent op finished
    notify .events
    return result

/-- The writes of a result. -/
@[simps] def Db.settle (d : Db) (taskId agent contextId : String) (s : Settlement)
    (ts ts' ts'' : Stamp) : Db :=
  let ended := d.finish taskId s.state (some (.obj s.payload)) ts'
  { ended with
    messages := d.messages.append fun id =>
      { id, taskId := some taskId, contextId, sender := agent, direction := .toAlice,
        parts := [resultPart s.summary s.state], ts }
    events := d.events.append fun id => { id, payload := s.event taskId agent, ts := ts'' } }

section

variable {c c' : Conn} {taskId : String}

/-- A result fits when its JSON is no longer than the limit. -/
theorem requireResultFits_eq_ok {body : Fields} {u : Unit} :
    requireResultFits body = .ok u ↔ (Json.obj body).sizeBytes ≤ maxTypedResultBytes := by
  simp [requireResultFits]

/-- Every result ends its task. -/
theorem TaskResult.state_terminal (r : TaskResult) : r.state.terminal = true := by
  cases r <;> simp only [TaskResult.state] <;> split <;> rfl

/-- A result ends its task: it is completed or failed. -/
theorem settlement_terminal {arg : Option ResultArg} {summary : String} {artifacts : List Fields}
    {s : Settlement} (h : settlement arg summary artifacts = .ok s) : s.state.terminal = true := by
  unfold settlement at h
  split at h
  · cases h
  · cases h
    exact TaskResult.state_terminal _
  · rename_i b
    cases hfits : requireResultFits b with
    | error e => rw [hfits] at h; cases h
    | ok u =>
      rw [hfits] at h
      simp only [bind, Except.bind] at h
      split at h
      · split at h
        · cases h
          exact TaskResult.state_terminal (.implementer _)
        · cases h
      · split at h
        · split at h
          · cases h
            exact TaskResult.state_terminal (.reviewer _)
          · cases h
        · cases h
  · split at h
    · cases h
    · rename_i state hstate
      cases h
      cases state <;> simp_all [TaskState.terminal]

/-- **What a result does.**  It is answered from the ledger, or it ends an open task with one
    message and one event. -/
theorem submitResult_cases {agent summary : String} {result : Option ResultArg}
    {artifacts : List Fields} {status : Option TaskState} {op : Ledgered TaskRecord}
    {m : Mutation TaskRecord}
    (h : Commits (submitResult taskId agent result summary artifacts status op) c m c') :
    c'.uuids = c.uuids ∧ ∃ s,
      settlement (result.or (status.map .status)) summary artifacts = .ok s ∧
      (Json.obj s.payload).sizeBytes ≤ maxTypedResultBytes ∧
      ((∃ id hash row, op.entry? = some (id, hash) ∧
          c.db.operations.find? (agent, id) = some row ∧ row.payloadHash = hash ∧
          m = .replayed row.responseJson ∧ c'.db = c.db) ∨
        ∃ task worker finished row ts ts₁ ts₂ ts₃,
          (∀ id hash, op.entry? = some (id, hash) → c.db.operations.find? (agent, id) = none) ∧
          c.db.tasks.find? taskId = some task ∧ task.isOpen ∧
          c.db.agents.find? agent = some worker ∧ PartsFit [resultPart s.summary s.state] ∧
          finished = { task with
            state := s.state, updated := ts₁, leaseExpires := none
            result := some (.obj s.payload) } ∧
          row = op.row? agent finished ts₃ ∧
          (∀ r ∈ row, c.db.operations.find? r.key = none) ∧
          m = op.outcome finished ∧
          c'.db = (c.db.settle taskId agent worker.contextId s ts ts₁ ts₂).record row) := by
  unfold submitResult at h
  simp only [commits_bind, commits_ofExcept, requireResultFits_eq_ok, commits_replay, and_assoc,
    exists_and_left, exists_eq_left, exists_const] at h
  obtain ⟨s, hs, hfits, o, ⟨rfl, hfresh⟩ | ⟨id, hash, hentry, row, hrow, hhash, rfl⟩, h⟩ := h
  · simp only [commits_bind, commits_requireOpenTask, commits_requireAgent, commits_addMessage,
      commits_finish, commits_addEvent, commits_requireTask, commits_notify, commits_pure,
      and_assoc, exists_and_left, exists_eq_left, exists_const] at h
    obtain ⟨task, htask, hopen, worker, hworker, hfit, finished, hfinished, result', t, hrecord,
      rfl, rfl⟩ := h
    obtain ⟨row, hrow, hm, hfree, hdb, huuids, -⟩ := record_cases hrecord
    obtain rfl : task.id = taskId := Table.find?_key htask
    refine ⟨huuids, s, hs, hfits, .inr ⟨task, worker, finished, row, _, _, _, _, hfresh, htask,
      hopen, hworker, hfit, ?_, hrow, hfree, hm, hdb⟩⟩
    simpa [htask, eq_comm] using hfinished
  · obtain ⟨rfl, rfl⟩ := commits_pure.mp h
    exact ⟨rfl, s, hs, hfits, .inl ⟨id, hash, row, hentry, hrow, hhash, rfl, rfl⟩⟩

end

/-! ### Ending a task from Alice's side -/

/-- `cancel_task`. -/
def cancelTask (taskId : String) : Txn TaskRecord := do
  let task ← requireOpenTask taskId
  let contextId ← taskContextId task
  finish task.id .canceled none
  let canceled ← requireTask task.id
  notify (.task taskId)
  if contextId = "" then
    return canceled
  notify (.context contextId)
  return canceled

/-- `set_task_state`: the manual override. -/
def setTaskState (taskId : String) (state : TaskState) (note : String) : Txn TaskRecord := do
  refuseIf (state ≠ .canceled ∧ state ≠ .failed) .conflict
    "manual overrides accept only canceled or failed"
  let task ← requireOpenTask taskId
  let contextId ← taskContextId task
  let _ ← addMessage (some taskId) contextId "alice" .fromAlice [⟨note, .stateOverride⟩]
  finish taskId state
    (some (.obj [("status", .str state.value), ("summary", .str note)]))
  let result ← requireTask taskId
  notify (.task taskId)
  notify (.context contextId)
  return result

/-- The writes of a manual override. -/
@[simps] def Db.override (d : Db) (taskId contextId note : String) (state : TaskState)
    (ts ts' : Stamp) : Db :=
  { d.finish taskId state (some (.obj [("status", .str state.value), ("summary", .str note)]))
      ts' with
    messages := d.messages.append fun id =>
      { id, taskId := some taskId, contextId, sender := "alice", direction := .fromAlice,
        parts := [⟨note, .stateOverride⟩], ts } }

section

variable {c c' : Conn} {taskId : String} {t : TaskRecord}

/-- **What a cancel does.**  It ends an open task. -/
theorem cancelTask_cases (h : Commits (cancelTask taskId) c t c') :
    c'.uuids = c.uuids ∧ ∃ task ts, c.db.tasks.find? taskId = some task ∧ task.isOpen ∧
      c'.db = c.db.finish taskId .canceled none ts := by
  unfold cancelTask at h
  simp only [commits_bind, commits_requireOpenTask, commits_taskContextId, commits_finish,
    commits_requireTask, commits_notify, commits_ite, commits_pure, and_assoc, exists_and_left,
    exists_eq_left, exists_const] at h
  obtain ⟨task, htask, hopen, contextId, -, canceled, -, h⟩ := h
  obtain rfl : task.id = taskId := Table.find?_key htask
  obtain ⟨-, -, rfl⟩ | ⟨-, -, rfl⟩ := h
  all_goals exact ⟨rfl, task, _, htask, hopen, rfl⟩

/-- **What an override does.**  It ends an open task and leaves a note on it. -/
theorem setTaskState_cases {state : TaskState} {note : String}
    (h : Commits (setTaskState taskId state note) c t c') :
    c'.uuids = c.uuids ∧ state.terminal = true ∧ ∃ task contextId ts ts',
      c.db.tasks.find? taskId = some task ∧ task.isOpen ∧ PartsFit [⟨note, .stateOverride⟩] ∧
      c'.db = c.db.override taskId contextId note state ts ts' := by
  unfold setTaskState at h
  simp only [commits_bind, commits_refuseIf, commits_requireOpenTask, commits_taskContextId,
    commits_addMessage, commits_finish, commits_requireTask, commits_notify, commits_pure,
    and_assoc, exists_and_left, exists_eq_left, exists_const] at h
  obtain ⟨hstate, task, htask, hopen, contextId, -, hfit, result, -, rfl, rfl⟩ := h
  have hterminal : state.terminal = true := by
    cases state <;> simp_all [TaskState.terminal]
  exact ⟨rfl, hterminal, task, contextId, _, _, htask, hopen, hfit, rfl⟩

end

end AgentHub
