import AgentHub.Hub.Evolution

namespace AgentHub

open Relational

/-!
# Redelivered actions of Alice

Alice may be handed the same event twice and then does again what she did for it.  Each of her
actions is recognised the second time, by its own guard, whatever workers, the sweeper and the
inbox did in between.

* `Action` — her redeliverable actions; `Op.fromWorker` — what may happen in between;
* `assignTask_again`, `reply_again`, `releaseAgent_again`, `setWorkflowStatus_again`,
  `logDecision_again` — the second call, from the guard the first one leaves behind;
* `redelivery_idempotent` — the law for all of them.
-/

/-- An action that Alice repeats when its event is delivered again. -/
inductive Action where
  | assignTask (agent role title instructions : String) (leaseMin : ℚ)
      (prHeadSha : Option String) (sourceEventId : ℕ)
  | reply (taskId text : String) (messageId : ℕ)
  | releaseAgent (name : String)
  | setWorkflowStatus (status : WorkflowStatus) (summary : String)
  | logDecision (summary rationale key : String)

/-- What an action reports: whether it took effect, and the task it assigned. -/
structure Report where
  applied : Bool
  task : Option TaskRecord
deriving DecidableEq

/-- The program of an action. -/
def perform : Action → Txn Report
  | .assignTask agent role title instructions leaseMin prHeadSha sourceEventId => do
    let t ← assignTask agent role title instructions leaseMin prHeadSha (some sourceEventId)
    return ⟨true, some t⟩
  | .reply taskId text messageId => do
    let applied ← reply taskId text messageId
    return ⟨applied, none⟩
  | .releaseAgent name => do
    let _ ← releaseAgent name
    return ⟨true, none⟩
  | .setWorkflowStatus status summary => do
    setWorkflowStatus status summary
    return ⟨true, none⟩
  | .logDecision summary rationale key => do
    let _ ← logDecision summary rationale (some key)
    return ⟨true, none⟩

/-- Operations of workers, of the sweeper and of the inbox. -/
def Op.fromWorker : Op → Prop
  | .checkIn .. | .heartbeat .. | .claimAssignment .. | .recordProgress .. | .openQuestion ..
  | .submitResult .. | .cancelTask .. | .sweep .. | .leaseNextEvent .. | .ackEvent .. => True
  | _ => False

instance (op : Op) : Decidable op.fromWorker := by
  cases op <;> unfold Op.fromWorker <;> infer_instance

/-! ### Workers leave the workflow alone -/

/-- Only creating a workflow and setting its status move the workflow. -/
theorem workflow_move {k : Kind} {s s' : Hub} (h : Move k s s')
    (hk : k ∉ [.create, .setWorkflowStatus]) : s'.db.workflow = s.db.workflow := by
  cases h with
  | create | setWorkflowStatus => simp at hk
  | checkIn _ _ _ _ _ _ _ _ _ _ _ _ hadmits => exact hadmits.frame Db.workflow fun _ => rfl
  | _ => rfl

/-- A worker's calls make no workflow move. -/
theorem Op.fromWorker.kinds {op : Op} (hop : op.fromWorker) :
    ∀ k ∈ op.kinds, k ∉ [.create, .setWorkflowStatus] := by
  cases op <;> first | exact False.elim hop | simp [Op.kinds]

/-- Nothing a worker, the sweeper or the inbox does changes the workflow. -/
theorem workflow_run {ls : List Call} (hls : ∀ l ∈ ls, l.op.fromWorker) (s : Hub) :
    (s.run ls).db.workflow = s.db.workflow := by
  induction ls generalizing s with
  | nil => rfl
  | cons l ls ih =>
    refine (ih (fun l' hl' => hls l' (List.mem_cons_of_mem _ hl')) (l.exec s)).trans ?_
    exact (moves_exec l s).invariant (I := fun t => t.db.workflow = s.db.workflow)
      (fun k t t' hk hmove h =>
        (workflow_move hmove ((hls l List.mem_cons_self).kinds k hk)).trans h) rfl

/-! ### What an action leaves behind, and the second call -/

/-- The event was answered with an assignment of `request`. -/
def Db.Answered (d : Db) (eventId : ℕ) (agent role title instructions : String) (leaseMin : ℚ)
    (prHeadSha : Option String) (taskId : String) : Prop :=
  (∀ sha ∈ prHeadSha, isSha40 sha = true) ∧ d.events.find? eventId ≠ none ∧
    ∃ workflow capMin t, d.workflow = some workflow ∧ d.leaseCap? workflow.id = some capMin ∧
      d.taskFrom? eventId = some t ∧ t.id = taskId ∧
      t.request = assignmentRequest workflow.id agent role title instructions
        (min leaseMin capMin) prHeadSha

section

variable {c c' : Conn} {d d' : Db} {agent role title instructions : String} {leaseMin : ℚ}
  {prHeadSha : Option String} {eventId : ℕ}

/-- The task just created is the one found for the event it answers. -/
theorem Db.taskFrom?_assign {task : TaskRecord} {contextId : String} {parts : List Part}
    {ts : Stamp} (hnone : d.taskFrom? eventId = none) (hfree : d.tasks.find? task.id = none)
    (hsource : task.sourceEventId = some eventId) :
    (d.assign task agent contextId parts ts).taskFrom? eventId = some task := by
  have hrows : (d.assign task agent contextId parts ts).tasks.rows = d.tasks.rows ++ [task] :=
    Table.rows_insertOrIgnore hfree
  have hold : d.tasks.rows.find? (fun t => t.sourceEventId = some eventId) = none := hnone
  rw [Db.taskFrom?, hrows, List.find?_append, hold]
  simp [hsource]

/-- An assignment leaves the event answered by its task. -/
theorem answered_of_assignTask {t : TaskRecord}
    (h : Commits
      (assignTask agent role title instructions leaseMin prHeadSha (some eventId)) c t c') :
    c'.db.Answered eventId agent role title instructions leaseMin prHeadSha t.id := by
  obtain ⟨-, workflow, capMin, request, hsha, hworkflow, hcap, hrequest, hknown,
    ⟨hfrom, ht, hdb⟩ | ⟨hnone, record, id, expires, ts, ts', -, -, hfree, -, ht, hdb⟩⟩ :=
    assignTask_cases h
  · rw [hdb]
    exact ⟨hsha, hknown eventId rfl, workflow, capMin, t, hworkflow, hcap, hfrom, rfl,
      ht.trans hrequest⟩
  · have hid : t.id = id := by rw [ht]; rfl
    have hsource : t.sourceEventId = some eventId := by rw [ht]; rfl
    have hreq : t.request = request := by rw [ht]; rfl
    rw [hdb]
    exact ⟨hsha, hknown eventId rfl, workflow, capMin, t, hworkflow, hcap,
      Db.taskFrom?_assign hnone (hid ▸ hfree) hsource, rfl, hreq.trans hrequest⟩

/-- The cap on a lease is fixed with the workflow's id and policy. -/
theorem leaseCap?_congr {w w' : WorkflowRecord} (hw : d.workflow = some w)
    (hw' : d'.workflow = some w') (hid : w'.id = w.id) (hpolicy : w'.policy = w.policy)
    (workflowId : String) : d'.leaseCap? workflowId = d.leaseCap? workflowId := by
  simp [Db.leaseCap?, hw, hw', hid, hpolicy]

/-- An event once answered stays answered by the same task. -/
theorem Db.Answered.evolves {taskId : String}
    (h : d.Answered eventId agent role title instructions leaseMin prHeadSha taskId)
    (hd : d.Evolves d') :
    d'.Answered eventId agent role title instructions leaseMin prHeadSha taskId := by
  obtain ⟨hsha, hevent, w, capMin, t, hw, hcap, hfrom, hid, hrequest⟩ := h
  obtain ⟨w', hw', hwid, -, hpolicy⟩ := hd.workflow w hw
  obtain ⟨t', hfrom', hid', hbecomes⟩ := Relational.Evolves.find?
    (p := fun t : TaskRecord => t.sourceEventId = some eventId)
    (fun a b hab => by rw [hab.2.source]) hd.tasks hfrom
  refine ⟨hsha, ?_, w', capMin, t', hw', ?_, hfrom', hid'.trans hid, ?_⟩
  · obtain ⟨e, he⟩ := Option.ne_none_iff_exists'.mp hevent
    obtain ⟨e', he', -⟩ := hd.events.find? he
    rw [he']
    simp
  · rw [leaseCap?_congr hw hw' hwid hpolicy, hwid, hcap]
  · rw [hbecomes.request, hrequest, hwid]

/-- An event already answered is answered with the same task, and nothing is written. -/
theorem assignTask_again {taskId : String}
    (h : c.db.Answered eventId agent role title instructions leaseMin prHeadSha taskId) :
    ∃ t c', Commits
      (assignTask agent role title instructions leaseMin prHeadSha (some eventId)) c t c' ∧
      c'.hub = c.hub ∧ c.db.tasks.find? taskId = some t := by
  obtain ⟨hsha, hevent, w, capMin, t, hw, hcap, hfrom, rfl, hrequest⟩ := h
  have hmem : t ∈ c.db.tasks := List.mem_of_find?_eq_some hfrom
  refine ⟨t, { c with clock := fun n => c.clock (n + 1) }, ?_, rfl, Table.find?_of_mem hmem⟩
  unfold assignTask
  simp only [commits_bind, commits_refuseIf, commits_now, commits_requireWorkflow,
    commits_maxTaskLeaseMin, commits_assignedBefore, and_assoc, exists_and_left, exists_eq_left,
    exists_const]
  refine ⟨by simpa using hsha, w, hw, capMin, hcap, ?_, ?_, ?_⟩
  · rintro _ ⟨⟩
    exact hevent
  · simp only [Option.bind_some, hfrom, Option.mem_def, Option.some.injEq, forall_eq']
    exact hrequest.symm
  · simp only [Option.bind_some, hfrom]
    exact commits_pure.mpr ⟨rfl, rfl⟩

/-- An answer to a question is in the transcript, after it. -/
theorem answered_of_reply {taskId text : String} {messageId : ℕ}
    (h : Commits (reply taskId text messageId) c true c') :
    (∃ t, c'.db.tasks.find? taskId = some t) ∧
      (c'.db.pendingReply taskId messageId).isSome = true := by
  obtain ⟨task, htask, h⟩ := commits_reply.mp h
  split at h
  · rename_i hanswerable
    obtain ⟨-, -, contextId, -, rfl⟩ := h
    refine ⟨⟨_, by simp [htask]; rfl⟩, ?_⟩
    obtain ⟨q, hq, rfl⟩ : ∃ q, _ = some q ∧ MessageRecord.id q = messageId := by
      simpa [Db.newestQuestion] using hanswerable.2.1
    have hle := Serial.key_le_seq (Serial.mem_of_last? hq)
    have hlt : q.id < c.db.messages.seq + 1 := Nat.lt_succ_of_le hle
    rw [Db.pendingReply, Db.answer_messages, Serial.first?_append, Option.isSome_or]
    simp [hlt]
  · cases h.1

/-- A reply already given is given again without a write. -/
theorem reply_again {taskId text : String} {messageId : ℕ} {t : TaskRecord}
    (ht : c.db.tasks.find? taskId = some t)
    (hpending : (c.db.pendingReply taskId messageId).isSome = true) :
    Commits (reply taskId text messageId) c false c := by
  refine commits_reply.mpr ⟨t, ht, ?_⟩
  have hno : ¬ c.db.Answerable taskId messageId := by
    rintro ⟨-, -, hnone⟩
    rw [hnone] at hpending
    cases hpending
  rw [if_neg hno]
  exact ⟨rfl, rfl⟩

/-- A release leaves the agent released. -/
theorem released_of_releaseAgent {name : String} {a : AgentRecord}
    (h : Commits (releaseAgent name) c a c') :
    ∃ a, c'.db.agents.find? name = some a ∧ a.status = .released := by
  obtain ⟨-, agent, hagent, ⟨hreleased, hdb⟩ | ⟨-, hdb⟩⟩ := releaseAgent_cases h
  · exact ⟨agent, hdb ▸ hagent, hreleased⟩
  · exact ⟨{ agent with status := .released }, by rw [hdb]; simp [hagent], rfl⟩

/-- A released agent is released again without a write. -/
theorem releaseAgent_again {name : String} {a : AgentRecord}
    (ha : c.db.agents.find? name = some a) (hreleased : a.status = .released) :
    Commits (releaseAgent name) c a c := by
  simp [releaseAgent, ha, hreleased]

/-- The workflow has the status that was set. -/
theorem status_of_setWorkflowStatus {status : WorkflowStatus} {summary : String} {u : Unit}
    (h : Commits (setWorkflowStatus status summary) c u c') :
    ∃ w, c'.db.workflow = some w ∧ w.status = status := by
  obtain ⟨row, hrow, h⟩ := commits_setWorkflowStatus.mp h
  split at h
  · rename_i hstatus
    exact ⟨row, h ▸ hrow, hstatus⟩
  · exact ⟨{ row with status }, by rw [h]; rfl, rfl⟩

/-- Setting the status it has leaves the workflow alone. -/
theorem setWorkflowStatus_again {status : WorkflowStatus} {summary : String} {w : WorkflowRecord}
    (hw : c.db.workflow = some w) (hstatus : w.status = status) :
    Commits (setWorkflowStatus status summary) c () c :=
  commits_setWorkflowStatus.mpr ⟨w, hw, by rw [if_pos hstatus]⟩

/-- A logged decision is found under its key. -/
theorem logged_of_logDecision {summary rationale key : String} {id : ℕ}
    (h : Commits (logDecision summary rationale (some key)) c id c') :
    (c'.db.decisionUnder? (some key)).isSome = true := by
  rw [commits_logDecision] at h
  cases hrow : c.db.decisionUnder? (some key) with
  | some row =>
    rw [hrow] at h
    obtain ⟨-, rfl⟩ := h
    rw [hrow]
    rfl
  | none =>
    rw [hrow] at h
    obtain ⟨-, rfl⟩ := commits_insertDecision.mp h
    rw [Db.decisionUnder?, Option.bind_some, Db.addDecision_decisions, Serial.first?_append,
      Option.isSome_or]
    simp

/-- A decision is logged once under its key. -/
theorem logDecision_again {summary rationale key : String}
    (h : (c.db.decisionUnder? (some key)).isSome = true) :
    ∃ id, Commits (logDecision summary rationale (some key)) c id c := by
  obtain ⟨row, hrow⟩ := Option.isSome_iff_exists.mp h
  refine ⟨row.id, commits_logDecision.mpr ?_⟩
  rw [hrow]
  exact ⟨rfl, rfl⟩

end

/-! ### The law for all actions -/

/-- What an action leaves behind when it takes effect. -/
def Db.Done (d : Db) (task : Option TaskRecord) : Action → Prop
  | .assignTask agent role title instructions leaseMin prHeadSha sourceEventId =>
    ∃ t, task = some t ∧
      d.Answered sourceEventId agent role title instructions leaseMin prHeadSha t.id
  | .reply taskId _ messageId =>
    task = none ∧ (∃ t, d.tasks.find? taskId = some t) ∧
      (d.pendingReply taskId messageId).isSome = true
  | .releaseAgent name =>
    task = none ∧ ∃ a, d.agents.find? name = some a ∧ a.status = .released
  | .setWorkflowStatus status _ => task = none ∧ ∃ w, d.workflow = some w ∧ w.status = status
  | .logDecision _ _ key => task = none ∧ (d.decisionUnder? (some key)).isSome = true

/-- A committed action is done. -/
theorem done_of_perform {a : Action} {c c' : Conn} {task : Option TaskRecord}
    (h : Commits (perform a) c ⟨true, task⟩ c') : c'.db.Done task a := by
  cases a with
  | assignTask =>
    obtain ⟨t, _, ht, h⟩ := commits_bind.mp h
    obtain ⟨hreport, rfl⟩ := commits_pure.mp h
    exact ⟨t, congrArg Report.task hreport, answered_of_assignTask ht⟩
  | reply =>
    obtain ⟨applied, _, happlied, h⟩ := commits_bind.mp h
    obtain ⟨hreport, rfl⟩ := commits_pure.mp h
    obtain rfl : true = applied := congrArg Report.applied hreport
    exact ⟨congrArg Report.task hreport, answered_of_reply happlied⟩
  | releaseAgent =>
    obtain ⟨_, _, hrelease, h⟩ := commits_bind.mp h
    obtain ⟨hreport, rfl⟩ := commits_pure.mp h
    exact ⟨congrArg Report.task hreport, released_of_releaseAgent hrelease⟩
  | setWorkflowStatus =>
    obtain ⟨_, _, hset, h⟩ := commits_bind.mp h
    obtain ⟨hreport, rfl⟩ := commits_pure.mp h
    exact ⟨congrArg Report.task hreport, status_of_setWorkflowStatus hset⟩
  | logDecision =>
    obtain ⟨_, _, hlog, h⟩ := commits_bind.mp h
    obtain ⟨hreport, rfl⟩ := commits_pure.mp h
    exact ⟨congrArg Report.task hreport, logged_of_logDecision hlog⟩

/-- A message after `messageId` from Alice stays there. -/
theorem Db.Evolves.pendingReply {d d' : Db} (hd : d.Evolves d') {taskId : String}
    {messageId : ℕ} {m : MessageRecord} (hm : d.pendingReply taskId messageId = some m) :
    d'.pendingReply taskId messageId = some m := by
  obtain ⟨m', hm', -, rfl⟩ := hd.messages.first? (fun a b _ hab => by rw [hab]) hm
  exact hm'

/-- A decision under a key stays the one found there. -/
theorem Db.Evolves.decisionUnder? {d d' : Db} (hd : d.Evolves d') {key : Option String}
    {r : DecisionRecord} (hr : d.decisionUnder? key = some r) :
    d'.decisionUnder? key = some r := by
  cases key with
  | none => cases hr
  | some k =>
    obtain ⟨r', hr', -, rfl⟩ := hd.decisions.first? (fun a b _ hab => by rw [hab]) hr
    exact hr'

/-- What an action leaves behind stays, while the workflow is left alone. -/
theorem Db.Done.evolves {a : Action} {task : Option TaskRecord} {d d' : Db} (h : d.Done task a)
    (hd : d.Evolves d') (hworkflow : d'.workflow = d.workflow) : d'.Done task a := by
  cases a with
  | assignTask =>
    obtain ⟨t, htask, hanswered⟩ := h
    exact ⟨t, htask, hanswered.evolves hd⟩
  | reply =>
    obtain ⟨htask, ⟨t, ht⟩, hpending⟩ := h
    obtain ⟨t', ht', -⟩ := hd.tasks.find? ht
    obtain ⟨m, hm⟩ := Option.isSome_iff_exists.mp hpending
    exact ⟨htask, ⟨t', ht'⟩, by rw [hd.pendingReply hm]; rfl⟩
  | releaseAgent =>
    obtain ⟨htask, agent, hagent, hreleased⟩ := h
    obtain ⟨agent', hagent', hbecomes⟩ := hd.agents.find? hagent
    exact ⟨htask, agent', hagent', hbecomes.released hreleased⟩
  | setWorkflowStatus =>
    obtain ⟨htask, w, hw, hstatus⟩ := h
    exact ⟨htask, w, hworkflow.trans hw, hstatus⟩
  | logDecision =>
    obtain ⟨htask, hlogged⟩ := h
    obtain ⟨r, hr⟩ := Option.isSome_iff_exists.mp hlogged
    exact ⟨htask, by rw [hd.decisionUnder? hr]; rfl⟩

/-- An action that is done is recognised: it commits, writes nothing, and reports the task it
    assigned as that task is now. -/
theorem perform_again {a : Action} {task : Option TaskRecord} {c : Conn} (h : c.db.Done task a) :
    ∃ r c', Commits (perform a) c r c' ∧ c'.hub = c.hub ∧
      ∀ t ∈ task, ∃ t', r.task = some t' ∧ t'.id = t.id ∧
        c.db.tasks.find? t.id = some t' := by
  cases a with
  | assignTask =>
    obtain ⟨t, rfl, hanswered⟩ := h
    obtain ⟨t', c', hcommits, hhub, ht'⟩ := assignTask_again hanswered
    refine ⟨⟨true, some t'⟩, c', commits_bind.mpr ⟨t', c', hcommits, by simp⟩, hhub, ?_⟩
    rintro _ ⟨⟩
    exact ⟨t', rfl, Table.find?_key ht', ht'⟩
  | reply taskId text messageId =>
    obtain ⟨rfl, ⟨t, ht⟩, hpending⟩ := h
    exact ⟨⟨false, none⟩, c,
      commits_bind.mpr ⟨false, c, reply_again ht hpending, by simp⟩, rfl, by simp⟩
  | releaseAgent =>
    obtain ⟨rfl, agent, hagent, hreleased⟩ := h
    exact ⟨⟨true, none⟩, c,
      commits_bind.mpr ⟨agent, c, releaseAgent_again hagent hreleased, by simp⟩, rfl, by simp⟩
  | setWorkflowStatus =>
    obtain ⟨rfl, w, hw, hstatus⟩ := h
    exact ⟨⟨true, none⟩, c,
      commits_bind.mpr ⟨(), c, setWorkflowStatus_again hw hstatus, by simp⟩, rfl, by simp⟩
  | logDecision =>
    obtain ⟨rfl, hlogged⟩ := h
    obtain ⟨id, hlog⟩ := logDecision_again hlogged
    exact ⟨⟨true, none⟩, c, commits_bind.mpr ⟨id, c, hlog, by simp⟩, rfl, by simp⟩

/-- **Redelivery is idempotent.**  Alice's action took effect in a reachable state; workers, the
    sweeper and the inbox then did anything.  The same action again commits and leaves the hub
    exactly as it is, and a repeated assignment reports the original task as it is now. -/
theorem redelivery_idempotent (u : Uuids) (before : List Call) (a : Action)
    (first again : ℕ → Moment) {task : Option TaskRecord} {c : Conn}
    (heffect : Commits (perform a) (((Hub.start u).run before).connect first) ⟨true, task⟩ c)
    (between : List Call) (hbetween : ∀ l ∈ between, l.op.fromWorker) :
    ∃ r c', Commits (perform a) ((c.hub.run between).connect again) r c' ∧
      c'.hub = c.hub.run between ∧
      ∀ t ∈ task, ∃ t', r.task = some t' ∧ t'.id = t.id ∧
        (c.hub.run between).db.tasks.find? t.id = some t' := by
  have hdone : c.db.Done task a := done_of_perform heffect
  have hlater : (c.hub.run between).db.Done task a :=
    hdone.evolves (evolves_run c.hub between) (workflow_run hbetween c.hub)
  exact perform_again (c := (c.hub.run between).connect again) hlater

/-- Ada is assigned a task for the event of her check-in, and claims it before the event comes
    again. -/
theorem redelivered_assignment :
    let a := Action.assignTask "ada" "implementer" "Fix it" "See issue 7" 30 none 1
    let s := (Hub.start .unary).run
      [⟨.initializeWorkflow "goal" {}, stoppedClock⟩,
        ⟨.checkIn "ada" {} (some "ada-1") {} none, stoppedClock⟩]
    let c := (atomically (perform a) (s.connect stoppedClock)).2
    let s' := c.hub.run [⟨.claimAssignment "ada", stoppedClock⟩]
    ∃ r c', Commits (perform a) (s'.connect stoppedClock) r c' ∧ c'.hub = s' ∧
      ∀ t ∈ c.db.tasks.rows.head?, ∃ t', r.task = some t' ∧ t'.id = t.id ∧
        s'.db.tasks.find? t.id = some t' :=
  redelivery_idempotent .unary _ _ _ _ (commits_of_atomically (by decide +kernel)) _
    (by simp [Op.fromWorker])

end AgentHub
