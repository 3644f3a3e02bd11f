import AgentHub.Hub.Events
import Mathlib.Logic.Relation

namespace AgentHub

open Relational Relation

/-!
# What an operation can do to the durable state

Every committed operation is a chain of moves, and a move is the smallest change that leaves the
tables consistent: one row of the ledger with its message and its event, one claim, one lost
agent.  An invariant of the hub is proved once, over moves, and what an operation never does is
read off the kinds of its moves.

* `Hub` — what persists between operations: the tables, and the uuids not drawn yet;
* `Move` — one constructor for each `Kind` of change, with the guard it is made under;
* `Moves K` — a chain of moves of the kinds `K`, and `moves_*`: the chain of each operation.
-/

/-- The durable state between two operations. -/
@[ext] structure Hub where
  db : Db
  uuids : Uuids

/-- What a connection leaves in the hub. -/
def Conn.hub (c : Conn) : Hub := ⟨c.db, c.uuids⟩

/-- The kinds of change. -/
inductive Kind where
  | draw | create | setWorkflowStatus | decide | checkIn | beat | renew | release | assign
  | progress | ask | answer | settle | cancel | override | claim | expire | lose | loseTask
  | append | lease | ack
deriving DecidableEq

/-- One change of the durable state. -/
inductive Move : Kind → Hub → Hub → Prop
  /-- Uuids drawn and not stored under a delivery. -/
  | draw {d u u'} (h : u'.Within u) : Move .draw ⟨d, u⟩ ⟨d, u'⟩
  /-- The workflow is created. -/
  | create {d u} (w : WorkflowRecord) (hnone : d.workflow = none) :
      Move .create ⟨d, u⟩ ⟨{ d with workflow := some w }, u⟩
  /-- The workflow changes its status, with an audit entry. -/
  | setWorkflowStatus {d u} (w : WorkflowRecord) (status : WorkflowStatus)
      (summary rationale : String) (ts : Stamp) (hw : d.workflow = some w) :
      Move .setWorkflowStatus ⟨d, u⟩
        ⟨{ d with workflow := some { w with status } }.addDecision summary rationale none ts, u⟩
  /-- A decision is logged, under a key nobody used before. -/
  | decide {d u} (summary rationale : String) (key : Option String) (ts : Stamp)
      (hkey : d.decisionUnder? key = none) :
      Move .decide ⟨d, u⟩ ⟨d.addDecision summary rationale key ts, u⟩
  /-- A worker checks in. -/
  | checkIn {d u} (name contextId instanceId : String) (profile : AgentProfile)
      (remoteAddr : Option String) (row : Option OperationRecord) (d' : Db)
      (ts ts₁ ts₂ : Stamp) (hinstance : instanceId ≠ "")
      (hspace : ∀ w ∈ profile.workspaceId, ∀ a ∈ d.agents, ¬ Occupies a w name)
      (hadmits : Admits d name instanceId profile remoteAddr ts contextId d')
      (hrow : ∀ r ∈ row, r.actor = name ∧ d.operations.find? r.key = none) :
      Move .checkIn ⟨d, u⟩ ⟨(d'.announce name contextId instanceId profile ts₁ ts₂).record row, u⟩
  /-- A heartbeat moves the stamps of a live agent. -/
  | beat {d u} (agent : AgentRecord) (ts : Stamp) (remoteAddr : Option String)
      (hagent : d.agents.find? agent.name = some agent) (hlost : agent.status ≠ .lost) :
      Move .beat ⟨d, u⟩ ⟨d.beat agent.name ts remoteAddr, u⟩
  /-- A heartbeat renews the lease of an open task. -/
  | renew {d u} (task : TaskRecord) (expires renewed ts : Stamp)
      (htask : d.tasks.find? task.id = some task) (hopen : task.isOpen)
      (hexpires : task.leaseExpires = some expires) :
      Move .renew ⟨d, u⟩ ⟨d.setLease task.id (some renewed) ts, u⟩
  /-- Alice releases an agent. -/
  | release {d u} (agent : AgentRecord) (hagent : d.agents.find? agent.name = some agent)
      (hstatus : agent.status ≠ .released) :
      Move .release ⟨d, u⟩ ⟨d.setStatus agent.name .released, u⟩
  /-- An idle agent is given a new task. -/
  | assign {d u} (agent : AgentRecord) (request : TaskRequest) (id : String)
      (sourceEventId : Option ℕ) (parts : List Part) (expires ts ts' : Stamp)
      (workflow : WorkflowRecord)
      (hworkflow : d.workflow = some workflow ∧ request.workflowId = workflow.id)
      (hagent : d.agents.find? agent.name = some agent) (hidle : agent.status = .idle)
      (hassignee : request.assignee = some agent.name) (hfree : d.tasks.find? id = none)
      (hsource : sourceEventId.bind d.taskFrom? = none)
      (hknown : ∀ e ∈ sourceEventId, d.events.find? e ≠ none)
      (hparts : ∀ p ∈ parts, p.isQuestion = false) :
      Move .assign ⟨d, u⟩ ⟨d.assign (request.task id sourceEventId expires ts) agent.name
        agent.contextId parts ts', u⟩
  /-- A worker reports progress on an open task. -/
  | progress {d u} (task : TaskRecord) (worker : AgentRecord) (note : String)
      (row : Option OperationRecord) (ts ts₁ ts₂ : Stamp)
      (htask : d.tasks.find? task.id = some task) (hopen : task.isOpen)
      (hworker : d.agents.find? worker.name = some worker)
      (hrow : ∀ r ∈ row, r.actor = worker.name ∧ d.operations.find? r.key = none) :
      Move .progress ⟨d, u⟩
        ⟨(d.progress task.id worker.name worker.contextId note ts ts₁ ts₂).record row, u⟩
  /-- A worker asks a question on an open task, under an id not used on it before. -/
  | ask {d u} (task : TaskRecord) (worker : AgentRecord) (question sentAs : String)
      (ts ts₁ ts₂ : Stamp) (htask : d.tasks.find? task.id = some task) (hopen : task.isOpen)
      (hworker : d.agents.find? worker.name = some worker)
      (hnew : d.askedQuestion task.id sentAs = none) :
      Move .ask ⟨d, u⟩ ⟨d.ask task.id worker.name worker.contextId question sentAs ts ts₁ ts₂, u⟩
  /-- Alice answers the newest question. -/
  | answer {d u} (taskId contextId text : String) (messageId : ℕ) (ts ts' : Stamp)
      (hanswerable : d.Answerable taskId messageId) :
      Move .answer ⟨d, u⟩ ⟨d.answer taskId contextId text ts ts', u⟩
  /-- A worker ends an open task with a result. -/
  | settle {d u} (task : TaskRecord) (worker : AgentRecord) (s : Settlement)
      (row : Option OperationRecord) (ts ts₁ ts₂ : Stamp)
      (htask : d.tasks.find? task.id = some task) (hopen : task.isOpen)
      (hworker : d.agents.find? worker.name = some worker) (hstate : s.state.terminal = true)
      (hrow : ∀ r ∈ row, r.actor = worker.name ∧ d.operations.find? r.key = none) :
      Move .settle ⟨d, u⟩
        ⟨(d.settle task.id worker.name worker.contextId s ts ts₁ ts₂).record row, u⟩
  /-- Alice cancels an open task. -/
  | cancel {d u} (task : TaskRecord) (ts : Stamp) (htask : d.tasks.find? task.id = some task)
      (hopen : task.isOpen) : Move .cancel ⟨d, u⟩ ⟨d.finish task.id .canceled none ts, u⟩
  /-- Alice ends an open task herself. -/
  | override {d u} (task : TaskRecord) (contextId note : String) (state : TaskState)
      (ts ts' : Stamp) (htask : d.tasks.find? task.id = some task) (hopen : task.isOpen)
      (hstate : state.terminal = true) :
      Move .override ⟨d, u⟩ ⟨d.override task.id contextId note state ts ts', u⟩
  /-- A waiting worker claims its submitted task. -/
  | claim {d u} (agent : AgentRecord) (task : TaskRecord) (ts : Stamp)
      (hagent : d.agents.find? agent.name = some agent) (hstatus : agent.status ≠ .released)
      (htask : d.submittedTo? agent.name = some task) :
      Move .claim ⟨d, u⟩ ⟨d.setState task.id .working ts, u⟩
  /-- The sweeper expires the lease of an open task. -/
  | expire {d u} (task : TaskRecord) (expires ts ts' : Stamp)
      (htask : d.tasks.find? task.id = some task) (hopen : task.isOpen)
      (hexpires : task.leaseExpires = some expires) :
      Move .expire ⟨d, u⟩ ⟨(d.setLease task.id none ts).addEvent
        (.leaseExpired task.id task.assignee task.leaseExpires) ts', u⟩
  /-- The sweeper loses a live agent that holds no open task. -/
  | lose {d u} (agent : AgentRecord) (ts : Stamp)
      (hagent : d.agents.find? agent.name = some agent) (hlive : agent.status.live)
      (hnone : d.openTaskId agent.currentTaskId = none) :
      Move .lose ⟨d, u⟩ ⟨(d.setStatus agent.name .lost).addEvent
        (.agentLost agent.name none agent.lastHeartbeat) ts, u⟩
  /-- The sweeper loses a live agent and fails the open task it holds. -/
  | loseTask {d u} (agent : AgentRecord) (taskId : String) (ts ts' : Stamp)
      (hagent : d.agents.find? agent.name = some agent) (hlive : agent.status.live)
      (hopen : d.openTaskId agent.currentTaskId = some taskId) :
      Move .loseTask ⟨d, u⟩ ⟨(((d.setStatus agent.name .lost).finish taskId .failed
        (some (lostResult agent.name)) ts).addEvent
        (.agentLost agent.name (some taskId) agent.lastHeartbeat) ts'), u⟩
  /-- An event is queued. -/
  | append {d u} (payload : EventPayload) (ts : Stamp) :
      Move .append ⟨d, u⟩ ⟨d.addEvent payload ts, u⟩
  /-- The oldest leasable event is delivered. -/
  | lease {d u} (event : EventRecord) (ts expires : Stamp)
      (hfirst : (d.events.first? fun e => e.leasable ts) = some event) :
      Move .lease ⟨d, u⟩ ⟨d.lease event.id u.head ts expires, u.rest⟩
  /-- A delivery is acknowledged. -/
  | ack {d u} (id : String) (ts : Stamp) (hne : id ≠ "")
      (hout : ∃ e ∈ d.events, e.deliveredAs id) : Move .ack ⟨d, u⟩ ⟨d.ack id ts, u⟩

/-- A chain of moves of the kinds `K`. -/
def Moves (K : Kind → Prop) : Hub → Hub → Prop :=
  ReflTransGen fun s s' => ∃ k, K k ∧ Move k s s'

section

variable {K K' : Kind → Prop} {k : Kind} {s s' s'' : Hub}

/-- No move at all. -/
theorem Moves.refl : Moves K s s := ReflTransGen.refl

/-- A run of moves, and one more. -/
theorem Moves.and (h : Moves K s s') (hk : K k) (hmove : Move k s' s'') : Moves K s s'' :=
  ReflTransGen.tail h ⟨k, hk, hmove⟩

/-- One move is a run. -/
theorem Move.single (h : Move k s s') : Moves (· = k) s s' := Moves.refl.and rfl h

/-- Two runs of moves, one after the other. -/
theorem Moves.trans (h : Moves K s s') (h' : Moves K s' s'') : Moves K s s'' :=
  ReflTransGen.trans h h'

/-- A run of moves of some kinds is one of more kinds. -/
theorem Moves.mono (hK : ∀ k, K k → K' k) (h : Moves K s s') : Moves K' s s' :=
  ReflTransGen.mono (fun s s' (hmove : ∃ k, K k ∧ Move k s s') =>
    hmove.imp fun k hmove => ⟨hK k hmove.1, hmove.2⟩) _ _ h

/-- What every move of these kinds keeps, every chain of them keeps. -/
theorem Moves.invariant {I : Hub → Prop} (step : ∀ k s s', K k → Move k s s' → I s → I s')
    (h : Moves K s s') (hI : I s) : I s' := by
  induction h with
  | refl => exact hI
  | tail _ hmove ih =>
    obtain ⟨k, hk, hmove⟩ := hmove
    exact step k _ _ hk hmove ih

end

/-- A row of the ledger that a mutation by `actor` writes is under that actor. -/
theorem Ledgered.row?_actor {α : Type} {op : Ledgered α} {actor : String} {value : α}
    {created : Stamp} {r : OperationRecord} (h : r ∈ op.row? actor value created) :
    r.actor = actor := by
  unfold Ledgered.row? at h
  split at h
  · obtain rfl := Option.some.inj h
    rfl
  · cases h

/-! ### The chain of each operation -/

section

variable {c c' : Conn} {k : Kind} {ks : List Kind}

/-- A call that leaves the tables alone draws ids at most. -/
theorem moves_of_eq (hdb : c'.db = c.db) (huuids : c'.uuids.Within c.uuids) :
    Moves (· ∈ .draw :: ks) c.hub c'.hub := by
  rw [Conn.hub, Conn.hub, hdb]
  exact Moves.refl.and List.mem_cons_self (.draw huuids)

/-- A call that draws ids and writes by one move. -/
theorem moves_of_move {d : Db} (h : Move k ⟨c.db, c.uuids⟩ ⟨d, c.uuids⟩) (hdb : c'.db = d)
    (huuids : c'.uuids.Within c.uuids) : Moves (· ∈ .draw :: k :: ks) c.hub c'.hub := by
  rw [Conn.hub, Conn.hub, hdb]
  have hmove : Moves (· ∈ .draw :: k :: ks) ⟨c.db, c.uuids⟩ ⟨d, c.uuids⟩ :=
    Moves.refl.and (List.mem_cons_of_mem _ List.mem_cons_self) h
  exact hmove.and List.mem_cons_self (.draw huuids)

/-- The same ids are still to be drawn. -/
theorem within_of_eq {u u' : Uuids} (h : u' = u) : u'.Within u := h ▸ .refl u

/-- `initialize_workflow` creates the workflow. -/
theorem moves_initializeWorkflow {goal id : String} {policy : WorkflowPolicy}
    (h : Commits (initializeWorkflow goal policy) c id c') :
    Moves (· ∈ [.draw, .create]) c.hub c'.hub := by
  obtain ⟨-, h⟩ := commits_initializeWorkflow.mp h
  cases hw : c.db.workflow with
  | none =>
    simp only [hw] at h
    obtain ⟨-, rfl⟩ := h
    exact moves_of_move (.create _ hw) rfl c.uuids.rest_within
  | some row =>
    simp only [hw] at h
    obtain ⟨-, -, -, rfl⟩ := h
    exact .refl

/-- `set_workflow_status` moves the workflow only. -/
theorem moves_setWorkflowStatus {status : WorkflowStatus} {summary : String} {u : Unit}
    (h : Commits (setWorkflowStatus status summary) c u c') :
    Moves (· = .setWorkflowStatus) c.hub c'.hub := by
  obtain ⟨row, hrow, h⟩ := commits_setWorkflowStatus.mp h
  split at h
  · rw [h]
    exact .refl
  · rw [h]
    exact (Move.setWorkflowStatus row status _ _ _ hrow).single

/-- `log_decision` records a decision, unless its key has one. -/
theorem moves_logDecision {summary rationale : String} {key : Option String} {id : ℕ}
    (h : Commits (logDecision summary rationale key) c id c') :
    Moves (· = .decide) c.hub c'.hub := by
  rw [commits_logDecision] at h
  cases hkey : c.db.decisionUnder? key with
  | some row =>
    simp only [hkey] at h
    obtain ⟨-, rfl⟩ := h
    exact .refl
  | none =>
    simp only [hkey, commits_insertDecision] at h
    obtain ⟨-, rfl⟩ := h
    exact (Move.decide _ _ _ _ hkey).single

/-- `check_in` draws ids, and writes as a check-in does or not at all. -/
theorem moves_checkIn {name : String} {profile : AgentProfile} {instanceId : Option String}
    {op : Ledgered AgentRecord} {remoteAddr : Option String} {m : Mutation AgentRecord}
    (h : Commits (checkIn name profile instanceId op remoteAddr) c m c') :
    Moves (· ∈ [.draw, .checkIn]) c.hub c'.hub := by
  obtain ⟨huuids, ⟨_, _, _, -, -, -, -, hdb⟩ | ⟨instanceId, contextId, d, agent, row, ts, ts₁, ts₂,
    ts₃, -, hinstance, -, hspace, hadmits, -, -, hrow, hfree, -, hdb⟩⟩ := checkIn_cases h
  · exact moves_of_eq hdb huuids
  · refine moves_of_move (.checkIn name contextId instanceId profile remoteAddr row d ts ts₁ ts₂
      hinstance hspace hadmits fun r hr => ⟨?_, hfree r hr⟩) hdb huuids
    exact Ledgered.row?_actor (hrow ▸ hr)

/-- `heartbeat` beats, and may renew a lease. -/
theorem moves_heartbeat {name instanceId : String} {taskId remoteAddr : Option String}
    {maxMin : Option ℚ} {accepted : Bool}
    (h : Commits (heartbeat name instanceId taskId maxMin remoteAddr) c accepted c') :
    Moves (· ∈ [.draw, .beat, .renew]) c.hub c'.hub := by
  obtain ⟨huuids, agent, hagent, ⟨-, hdb, -⟩ | ⟨-, -, hlost, ts, h⟩⟩ := heartbeat_cases h
  · exact moves_of_eq hdb (within_of_eq huuids)
  obtain rfl : agent.name = name := Table.find?_key hagent
  have hbeat : Move .beat ⟨c.db, c.uuids⟩ ⟨c.db.beat agent.name ts remoteAddr, c.uuids⟩ :=
    .beat agent ts remoteAddr hagent hlost
  obtain hdb | ⟨task, expires, renewed, ts', htask, hopen, -, hexpires, hdb⟩ := h
  · exact moves_of_move hbeat hdb (within_of_eq huuids)
  · have hrenew : Move .renew ⟨c.db.beat agent.name ts remoteAddr, c.uuids⟩
        ⟨(c.db.beat agent.name ts remoteAddr).setLease task.id (some renewed) ts', c.uuids⟩ :=
      .renew task expires renewed ts' htask hopen hexpires
    rw [Conn.hub, Conn.hub, hdb, huuids]
    exact (Moves.refl.and (by simp) hbeat).and (by simp) hrenew

/-- `release_agent` releases the agent. -/
theorem moves_releaseAgent {name : String} {a : AgentRecord}
    (h : Commits (releaseAgent name) c a c') : Moves (· ∈ [.draw, .release]) c.hub c'.hub := by
  obtain ⟨huuids, agent, hagent, ⟨-, hdb⟩ | ⟨hstatus, hdb⟩⟩ := releaseAgent_cases h
  · exact moves_of_eq hdb (within_of_eq huuids)
  · obtain rfl : agent.name = name := Table.find?_key hagent
    exact moves_of_move (.release agent hagent hstatus) hdb (within_of_eq huuids)

/-- `assign_task` creates the task. -/
theorem moves_assignTask {agent role title instructions : String} {leaseMin : ℚ}
    {prHeadSha : Option String} {sourceEventId : Option ℕ} {t : TaskRecord}
    (h : Commits
      (assignTask agent role title instructions leaseMin prHeadSha sourceEventId) c t c') :
    Moves (· ∈ [.draw, .assign]) c.hub c'.hub := by
  obtain ⟨huuids, workflow, capMin, request, -, hworkflow, -, hrequest, hknown,
    ⟨-, -, hdb⟩ | ⟨hsource, record, id, expires, ts, ts', hrecord, hidle, hfree, -, ht, hdb⟩⟩ :=
    assignTask_cases h
  · exact moves_of_eq hdb huuids
  · obtain rfl : record.name = agent := Table.find?_key hrecord
    subst ht
    refine moves_of_move (.assign record request id sourceEventId _ expires ts ts' workflow
      ⟨hworkflow, ?_⟩ hrecord hidle ?_ hfree hsource hknown ?_) hdb huuids
    · rw [hrequest]; rfl
    · rw [hrequest]; rfl
    · simp [assignmentParts, Part.isQuestion]

/-- `claim_assignment` claims the oldest task, if there is one. -/
theorem moves_claimAssignment {name : String} {o : Option Claim}
    (h : Commits (claimAssignment name) c o c') : Moves (· = .claim) c.hub c'.hub := by
  obtain ⟨agent, hagent, h⟩ := commits_claimAssignment.mp h
  split at h
  · rw [h.2]
    exact .refl
  rename_i hstatus
  obtain rfl : agent.name = name := Table.find?_key hagent
  cases ht : c.db.submittedTo? agent.name with
  | none =>
    simp only [ht] at h
    rw [h.2]
    exact .refl
  | some t =>
    simp only [ht] at h
    rw [h.2]
    exact (Move.claim agent t _ hagent hstatus ht).single

/-- `record_progress` reports progress, or is answered from the ledger. -/
theorem moves_recordProgress {taskId agent note : String} {op : Ledgered Unit} {m : Mutation Unit}
    (h : Commits (recordProgress taskId agent note op) c m c') :
    Moves (· ∈ [.draw, .progress]) c.hub c'.hub := by
  obtain ⟨huuids, ⟨_, _, _, -, -, -, -, hdb⟩ | ⟨task, worker, row, ts, ts₁, ts₂, ts₃, -, htask,
    hopen, hworker, -, hrow, hfree, -, hdb⟩⟩ := recordProgress_cases h
  · exact moves_of_eq hdb (within_of_eq huuids)
  · obtain rfl : task.id = taskId := Table.find?_key htask
    obtain rfl : worker.name = agent := Table.find?_key hworker
    refine moves_of_move (.progress task worker note row ts ts₁ ts₂ htask hopen hworker
      fun r hr => ⟨?_, hfree r hr⟩) hdb (within_of_eq huuids)
    exact Ledgered.row?_actor (hrow ▸ hr)

/-- `open_question` asks, or finds the question asked. -/
theorem moves_openQuestion {taskId agent question sentAs : String} {id : ℕ}
    (h : Commits (openQuestion taskId agent question sentAs) c id c') :
    Moves (· ∈ [.draw, .ask]) c.hub c'.hub := by
  obtain ⟨huuids, task, worker, htask, hopen, hworker,
    ⟨-, hdb⟩ | ⟨hnew, -, -, ts, ts', ts'', hdb⟩⟩ := openQuestion_cases h
  · exact moves_of_eq hdb (within_of_eq huuids)
  · obtain rfl : task.id = taskId := Table.find?_key htask
    obtain rfl : worker.name = agent := Table.find?_key hworker
    exact moves_of_move (.ask task worker question sentAs ts ts' ts'' htask hopen hworker hnew) hdb
      (within_of_eq huuids)

/-- `reply` answers a question, or is refused. -/
theorem moves_reply {taskId text : String} {messageId : ℕ} {applied : Bool}
    (h : Commits (reply taskId text messageId) c applied c') :
    Moves (· = .answer) c.hub c'.hub := by
  obtain ⟨task, -, h⟩ := commits_reply.mp h
  split at h
  · rename_i hanswerable
    obtain ⟨-, -, contextId, -, rfl⟩ := h
    exact (Move.answer taskId contextId text messageId _ _ hanswerable).single
  · rw [h.2]
    exact .refl

/-- `submit_result` settles the task, or is answered from the ledger. -/
theorem moves_submitResult {taskId agent summary : String} {result : Option ResultArg}
    {artifacts : List Fields} {status : Option TaskState} {op : Ledgered TaskRecord}
    {m : Mutation TaskRecord}
    (h : Commits (submitResult taskId agent result summary artifacts status op) c m c') :
    Moves (· ∈ [.draw, .settle]) c.hub c'.hub := by
  obtain ⟨huuids, s, hs, -, ⟨_, _, _, -, -, -, -, hdb⟩ | ⟨task, worker, finished, row, ts, ts₁, ts₂,
    ts₃, -, htask, hopen, hworker, -, -, hrow, hfree, -, hdb⟩⟩ := submitResult_cases h
  · exact moves_of_eq hdb (within_of_eq huuids)
  · obtain rfl : task.id = taskId := Table.find?_key htask
    obtain rfl : worker.name = agent := Table.find?_key hworker
    refine moves_of_move (.settle task worker s row ts ts₁ ts₂ htask hopen hworker
      (settlement_terminal hs) fun r hr => ⟨?_, hfree r hr⟩) hdb (within_of_eq huuids)
    exact Ledgered.row?_actor (hrow ▸ hr)

/-- `cancel_task` cancels the task. -/
theorem moves_cancelTask {taskId : String} {t : TaskRecord}
    (h : Commits (cancelTask taskId) c t c') : Moves (· ∈ [.draw, .cancel]) c.hub c'.hub := by
  obtain ⟨huuids, task, ts, htask, hopen, hdb⟩ := cancelTask_cases h
  obtain rfl : task.id = taskId := Table.find?_key htask
  exact moves_of_move (.cancel task ts htask hopen) hdb (within_of_eq huuids)

/-- `set_task_state` overrides the state of the task. -/
theorem moves_setTaskState {taskId note : String} {state : TaskState} {t : TaskRecord}
    (h : Commits (setTaskState taskId state note) c t c') :
    Moves (· ∈ [.draw, .override]) c.hub c'.hub := by
  obtain ⟨huuids, hstate, task, contextId, ts, ts', htask, hopen, -, hdb⟩ := setTaskState_cases h
  obtain rfl : task.id = taskId := Table.find?_key htask
  exact moves_of_move (.override task contextId note state ts ts' htask hopen hstate) hdb
    (within_of_eq huuids)

/-- `append_event` queues one event. -/
theorem moves_appendEvent {payload : EventPayload} {e : EventRecord}
    (h : Commits (appendEvent payload) c e c') : Moves (· ∈ [.draw, .append]) c.hub c'.hub := by
  obtain ⟨huuids, ts, hdb⟩ := appendEvent_cases h
  exact moves_of_move (.append payload ts) hdb (within_of_eq huuids)

/-- `ack_event` acknowledges what is out under the id. -/
theorem moves_ackEvent {deliveryId : Option String} {acked : Bool}
    (h : Commits (ackEvent deliveryId) c acked c') : Moves (· = .ack) c.hub c'.hub := by
  rw [commits_ackEvent] at h
  split at h
  · rw [h.2]
    exact .refl
  · rw [h.2]
    exact .refl
  · rename_i id hne
    split at h
    · rename_i hout
      rw [h.2]
      exact (Move.ack id _ (fun h => hne (by rw [h])) hout).single
    · rw [h.2]
      exact .refl

/-- `lease_next_event` leases the oldest leasable event under a new id. -/
theorem moves_leaseNextEvent {leaseS : Option ℚ} {defaultLeaseS : ℚ} {o : Option EventRecord}
    (h : Commits (leaseNextEvent leaseS defaultLeaseS) c o c') :
    Moves (· ∈ [.draw, .lease]) c.hub c'.hub := by
  obtain ⟨expires, -, h⟩ := commits_leaseNextEvent.mp h
  cases hfirst : c.db.events.first? fun e => e.leasable (c.clock 0).toIso with
  | none =>
    simp only [hfirst] at h
    rw [h.2]
    exact moves_of_eq rfl c.uuids.rest_within
  | some row =>
    simp only [hfirst] at h
    rw [h.2]
    exact Moves.refl.and (by simp) (.lease row _ _ hfirst)

/-! ### The sweeper's loops

The rows a loop works through are fetched before its first turn, so its invariant says what of a
fetched row is still true when its turn comes. -/

/-- The rows of `_expire_leases` still to come are as they were fetched. -/
def PendingLeases (c : Conn) (rows : List TaskRecord) (t : Conn) : Prop :=
  Moves (· = .expire) c.hub t.hub ∧ (rows.map TaskRecord.id).Nodup ∧
    ∀ r ∈ rows, t.db.tasks.find? r.id = some r ∧ r.isOpen ∧ r.leaseExpires.isSome = true

/-- One turn of the loop over the overdue leases. -/
theorem PendingLeases.step {row : TaskRecord} {rows : List TaskRecord} {t t' : Conn} {id : ℕ}
    (hI : PendingLeases c (row :: rows) t) (h : Commits (expireLease row) t id t') :
    PendingLeases c rows t' := by
  obtain ⟨hmoves, hnodup, hrows⟩ := hI
  simp only [expireLease, commits_bind, commits_nowIso, commits_writeDb, commits_addEvent,
    and_assoc, exists_and_left, exists_eq_left, exists_const] at h
  obtain ⟨-, rfl⟩ := h
  obtain ⟨hrow, hopen, hexpires⟩ := hrows row List.mem_cons_self
  obtain ⟨expires, hexpires⟩ := Option.isSome_iff_exists.mp hexpires
  rw [List.map_cons, List.nodup_cons] at hnodup
  refine ⟨hmoves.and rfl (.expire row expires _ _ hrow hopen hexpires), hnodup.2, fun r hr => ?_⟩
  have hne : r.id ≠ row.id := fun h => hnodup.1 (h ▸ List.mem_map_of_mem hr)
  obtain ⟨hfound, hrest⟩ := hrows r (List.mem_cons_of_mem _ hr)
  refine ⟨?_, hrest⟩
  simpa [Table.find?_modify_ne _ hne] using hfound

/-- The first half of a sweep expires leases and does nothing else. -/
theorem moves_expireLeases {ts : Stamp} {ids : List ℕ}
    (h : Commits (expireLeases ts) c ids c') : Moves (· = .expire) c.hub c'.hub := by
  rw [expireLeases, commits_readDb_bind] at h
  have h0 : PendingLeases c (c.db.tasks.rows.filter fun t => t.overdue ts) c := by
    refine ⟨.refl, ?_, fun r hr => ?_⟩
    · exact c.db.tasks.nodup.sublist (List.filter_sublist.map _)
    · obtain ⟨hmem, hdue⟩ := List.mem_filter.mp hr
      obtain ⟨hopen, expires, hexpires, -⟩ := of_decide_eq_true hdue
      exact ⟨Table.find?_of_mem hmem, hopen, by rw [Option.mem_def.mp hexpires]; rfl⟩
  exact (h.mapM_induction (PendingLeases c) (fun _ _ _ _ _ hI hc => hI.step hc) h0).1

/-- The rows of `_lose_agents` still to come are live, and hold the open task they were fetched
    with unless it has been failed with an earlier row. -/
def PendingLosses (c : Conn) (rows : List AgentRecord) (t : Conn) : Prop :=
  Moves (· ∈ [.lose, .loseTask]) c.hub t.hub ∧ (rows.map AgentRecord.name).Nodup ∧
    ∀ r ∈ rows, ∃ a, t.db.agents.find? r.name = some a ∧ a.status.live ∧
      a.lastHeartbeat = r.lastHeartbeat ∧
      t.db.openTaskId a.currentTaskId = t.db.openTaskId r.currentTaskId

/-- One turn of the loop over the silent agents. -/
theorem PendingLosses.step {row : AgentRecord} {rows : List AgentRecord} {t t' : Conn} {id : ℕ}
    (hI : PendingLosses c (row :: rows) t) (h : Commits (loseAgent row) t id t') :
    PendingLosses c rows t' := by
  obtain ⟨hmoves, hnodup, hrows⟩ := hI
  obtain ⟨a, ha, hlive, hbeat, htask⟩ := hrows row List.mem_cons_self
  rw [List.map_cons, List.nodup_cons] at hnodup
  have hrest : ∀ r ∈ rows, r.name ≠ row.name ∧ r ∈ row :: rows := fun r hr =>
    ⟨fun h => hnodup.1 (h ▸ List.mem_map_of_mem hr), List.mem_cons_of_mem _ hr⟩
  -- what the pass read of the agent still holds, but for a task ended by an earlier turn
  have hname : a.name = row.name := Table.find?_key ha
  simp only [loseAgent, commits_bind, commits_writeDb, commits_readDb, commits_addEvent,
    and_assoc, exists_and_left, exists_eq_left, exists_const] at h
  have hlookup : (t.db.setStatus row.name .lost).openTaskId row.currentTaskId =
    t.db.openTaskId row.currentTaskId := rfl
  rw [hlookup, ← htask] at h
  cases hopen : t.db.openTaskId a.currentTaskId with
  | none =>
    simp only [hopen, failLost, commits_pure, true_and, exists_eq_left, exists_const] at h
    obtain ⟨-, rfl⟩ := h
    have hmove := Move.lose (u := t.uuids) a (t.clock 0).toIso (hname ▸ ha) hlive hopen
    rw [hname, hbeat] at hmove
    refine ⟨hmoves.and (by simp) hmove, hnodup.2, fun r hr => ?_⟩
    obtain ⟨a', ha', hlive', hbeat', htask'⟩ := hrows r (hrest r hr).2
    refine ⟨a', ?_, hlive', hbeat', htask'⟩
    simpa [Table.find?_modify_ne _ (hrest r hr).1] using ha'
  | some taskId =>
    simp only [hopen, failLost, commits_finish, exists_eq_left, exists_const] at h
    obtain ⟨-, rfl⟩ := h
    have hmove := Move.loseTask (u := t.uuids) a taskId (t.clock 0).toIso (t.clock 1).toIso
      (hname ▸ ha) hlive hopen
    rw [hname, hbeat] at hmove
    refine ⟨hmoves.and (by simp) hmove, hnodup.2, fun r hr => ?_⟩
    obtain ⟨a', ha', hlive', hbeat', htask'⟩ := hrows r (hrest r hr).2
    have hfound : (t.db.agents.modify row.name fun a => { a with status := .lost }).find? r.name
        = some a' := by
      rw [Table.find?_modify_ne _ (hrest r hr).1, ha']
    have hfinish : ∀ o, ((t.db.setStatus row.name .lost).finish taskId .failed
        (some (lostResult row.name)) (t.clock 0).toIso).openTaskId o
          = (t.db.openTaskId o).filter fun id => id ≠ taskId := Db.openTaskId_finish rfl
    by_cases hheld : a'.currentTaskId = some taskId
    · -- the task failed with `row` was also recorded here: it is not open any more
      refine ⟨{ a' with status := if a'.status = .busy then .idle else a'.status,
                        currentTaskId := none }, ?_, ?_, hbeat', ?_⟩
      · simp [Table.find?_updateWhere, hfound, hheld]
      · obtain hidle | hbusy := hlive'
        · exact .inl (by simp [hidle])
        · exact .inl (by simp [hbusy])
      · have hgone : (t.db.openTaskId r.currentTaskId).filter (fun id => id ≠ taskId) = none := by
          rw [← htask', hheld, Db.openTaskId, Option.filter_filter]
          simp
        exact ((hfinish r.currentTaskId).trans hgone).symm
    · refine ⟨a', ?_, hlive', hbeat', ?_⟩
      · simp [Table.find?_updateWhere, hfound, hheld]
      · exact (hfinish _).trans ((congrArg _ htask').trans (hfinish _).symm)

/-- The second half of a sweep loses agents, and the tasks they had. -/
theorem moves_loseAgents {cutoff : Stamp} {ids : List ℕ}
    (h : Commits (loseAgents cutoff) c ids c') : Moves (· ∈ [.lose, .loseTask]) c.hub c'.hub := by
  rw [loseAgents, commits_readDb_bind] at h
  have h0 : PendingLosses c (c.db.agents.rows.filter fun a => a.silent cutoff) c := by
    refine ⟨.refl, ?_, fun r hr => ?_⟩
    · exact c.db.agents.nodup.sublist (List.filter_sublist.map _)
    · obtain ⟨hmem, hsilent⟩ := List.mem_filter.mp hr
      exact ⟨r, Table.find?_of_mem hmem, (of_decide_eq_true hsilent).1, rfl, rfl⟩
  exact (h.mapM_induction (PendingLosses c) (fun _ _ _ _ _ hI hc => hI.step hc) h0).1

/-- `sweep` expires leases and loses agents. -/
theorem moves_sweep {lostAfterS : ℚ} {es : List EventRecord}
    (h : Commits (sweep lostAfterS) c es c') :
    Moves (· ∈ [.expire, .lose, .loseTask]) c.hub c'.hub := by
  simp only [sweep, commits_bind, commits_now, commits_addMicros, commits_ite, commits_pure,
    commits_readDb, commits_notify, and_assoc, exists_and_left, exists_eq_left, exists_const] at h
  obtain ⟨expired, t, hexpired, cutoff, -, lost, t', hlost, h⟩ := h
  have hexpire : Moves (· ∈ [.expire, .lose, .loseTask]) c.hub t.hub :=
    (moves_expireLeases hexpired).mono fun k hk => by simp [hk]
  have hlose : Moves (· ∈ [.expire, .lose, .loseTask]) t.hub t'.hub :=
    (moves_loseAgents hlost).mono fun k hk => List.mem_cons_of_mem _ hk
  have hmoves : Moves (· ∈ [.expire, .lose, .loseTask]) c.hub t'.hub := hexpire.trans hlose
  obtain ⟨-, -, rfl⟩ | ⟨-, -, rfl⟩ := h
  · exact hmoves
  · exact hmoves

end

end AgentHub
