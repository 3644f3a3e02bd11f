import AgentHub.Common.Union
import AgentHub.Hub.Fencing

namespace AgentHub

open Relational

/-!
# The way of a typed result

A result is read three times on its way: the worker's tool reads its parameter as a union of the
three models, the client dumps what that gave, and the hub reads the dump under the model of the
task's role.  Whatever the first reading dropped, the last one cannot bring back.

* `Submitter.submission` — the request `WorkerHubClient.submit_result` sends;
* `submitResultTool` — the tool, the client and the hub, as one step;
* `commits_submission` — when the hub accepts a submission, and what it stores;
* `typed_result_unweakened` — exactly when the stored result is the one the body states.
-/

/-! ### The client -/

/-- The text survives the stripping of a metadata field. -/
def IsToken (s : String) : Prop := strip s = s ∧ s ≠ ""

/-- A worker that has checked in, and the ids of one submission. -/
structure Submitter where
  contextId : String
  instanceId : String
  operationId : String
  messageId : String
  context_ne : contextId ≠ ""
  instance_token : IsToken instanceId
  operation_token : IsToken operationId

/-- The status the client derives from a body. -/
def terminalStatus (body : Fields) : String :=
  if body.lookup "outcome" = some (.str "completed") ∨
      body.lookup "verdict" = some (.str "approved")
      ∨ body.lookup "verdict" = some (.str "changes_requested") then "completed"
  else "failed"

/-- A text part of a message, as it is measured. -/
def textPart (text : String) : A2APart where
  text? := some text
  wire := .obj [("kind", .str "text"), ("text", .str text)]

namespace Submitter

variable (w : Submitter)

/-- The metadata of a submission. -/
def metadata (t : TaskResult) : Fields :=
  [("hub.kind", .str "result"), ("hub.status", .str (terminalStatus t.dump)),
   ("hub.schema_version", .num "1"), ("hub.operation_id", .str w.operationId),
   ("hub.result", .obj t.dump), ("hub.artifacts", .arr []),
   ("hub.worker_instance_id", .str w.instanceId)]

/-- `WorkerHubClient.submit_result`: the message it sends. -/
def submission (taskId : String) (t : TaskResult) : A2AMessage where
  messageId := w.messageId
  contextId := some w.contextId
  taskId := some taskId
  parts := [textPart t.summary]
  metadata := w.metadata t

/-- The agent is the worker's, it is current, and it is not lost. -/
def Speaks (d : Db) (agent : AgentRecord) : Prop :=
  d.agentByContext? w.contextId = some agent ∧ agent.workerInstanceId = w.instanceId ∧
    agent.status ≠ .lost

end Submitter

/-! ### The submission, read by the hub -/

/-- A token is read from its field as it is. -/
theorem fieldText?_token {metadata : Fields} {key s : String} (h : IsToken s)
    (hlookup : metadata.lookup key = some (.str s)) : fieldText? metadata key = some s := by
  simp [fieldText?, hlookup, Json.asStr?, h.1, h.2]

/-- The summary of a dump is its own, so the text of the message never replaces it. -/
theorem withSummary_dump (t : TaskResult) (text : String) (htext : t.summary = "" → text = "") :
    withSummary t.dump text = t.dump := by
  have hsummary : t.dump.lookup "summary" = some (.str t.summary) := by
    cases t <;> rfl
  unfold withSummary
  rw [if_neg]
  rintro ⟨hfalsy, hne⟩
  rw [hsummary] at hfalsy
  apply hne
  apply htext
  by_contra hnonempty
  simp [Json.falsy, hnonempty] at hfalsy

section

variable {w : Submitter} {taskId : String} {t : TaskResult} {c c' : Conn}

/-- The submission's text is the summary without the blanks around it. -/
@[simp] theorem submission_text : (w.submission taskId t).text = strip t.summary := by
  simp [A2AMessage.text, Submitter.submission, textPart, String.join]

/-- The worker's message speaks for its agent. -/
theorem commits_resolveAgent_submission {agent : AgentRecord} :
    Commits (resolveAgent (w.submission taskId t)) c agent c' ↔ w.Speaks c.db agent ∧ c' = c := by
  have hcontext : (w.submission taskId t).context? = some w.contextId := by
    simp [A2AMessage.context?, Submitter.submission, w.context_ne]
  have hinstance : (w.submission taskId t).instance? = some w.instanceId :=
    fieldText?_token w.instance_token rfl
  simp only [resolveAgent, hcontext, commits_bind, commits_store, commits_readDb, commits_orRefuse,
    commits_requireCurrentInstance, hinstance, and_assoc, exists_and_left, exists_eq_left,
    Submitter.Speaks]
  constructor
  · rintro ⟨b, hb, hid, hlost, rfl, rfl⟩
    exact ⟨hb, (Option.some.inj hid).symm, hlost, rfl⟩
  · rintro ⟨hb, hid, hlost, rfl⟩
    exact ⟨agent, hb, congrArg some hid.symm, hlost, rfl, rfl⟩

/-! ### What the store makes of it -/

/-- The echo of a result in the transcript is always short enough. -/
theorem resultPart_fits (summary : String) (state : TaskState) :
    PartsFit [resultPart summary state] := by
  have hfit : (resultPart summary state).toJson.sizeBytes ≤ maxMessagePartBytes := by
    unfold resultPart
    split
    · assumption
    · cases state <;> decide +kernel
  simpa [PartsFit, oversizedPart?] using hfit

/-- The row of the task holds this result. -/
def Db.Holds (d : Db) (taskId : String) (result : TaskResult) : Prop :=
  ∃ t ∈ d.tasks.find? taskId, t.result = some (.obj result.dump)

/-- A call under an id that was not used before is recorded. -/
theorem record_accepts {α : Type} {actor : String} {op : Ledgered α} {value : α}
    (hfresh : ∀ id hash, op.entry? = some (id, hash) → c.db.operations.find? (actor, id) = none) :
    Accepts (record actor op value) c := by
  rcases op with ⟨_ | id, _ | hash, _ | build⟩
  case some.some.some =>
    apply Accepts.bind (commits_nowIso.mpr ⟨rfl, rfl⟩)
    refine Accepts.bind (b := ()) (commits_insertOperation.mpr ⟨hfresh id hash rfl, rfl⟩) ?_
    exact (commits_pure.mpr ⟨rfl, rfl⟩).accepts
  all_goals exact (commits_pure.mpr ⟨rfl, rfl⟩).accepts

/-- A task that exists is found. -/
theorem requireTask_accepts (h : (c.db.tasks.find? taskId).isSome = true) :
    Accepts (requireTask taskId) c := by
  obtain ⟨task, htask⟩ := Option.isSome_iff_exists.mp h
  exact (commits_requireTask.mpr ⟨htask, rfl⟩).accepts

/-- A result that fits is accepted for an open task, under an id that was not used before. -/
theorem submitResult_accepts {agent : AgentRecord} {task : TaskRecord} {result : TaskResult}
    {op : Ledgered TaskRecord}
    (hfresh : ∀ id hash, op.entry? = some (id, hash) →
      c.db.operations.find? (agent.name, id) = none)
    (hfits : (Json.obj result.dump).sizeBytes ≤ maxTypedResultBytes)
    (htask : c.db.tasks.find? taskId = some task) (hopen : task.isOpen)
    (hagent : c.db.agents.find? agent.name = some agent) :
    Accepts (submitResult taskId agent.name (some (.typed result)) "" [] none op) c := by
  obtain rfl : task.id = taskId := Table.find?_key htask
  unfold submitResult
  have hpart := resultPart_fits result.settle.summary result.settle.state
  apply Accepts.bind (commits_ofExcept.mpr ⟨rfl, rfl⟩)
  refine Accepts.bind (b := ()) (commits_ofExcept.mpr ⟨requireResultFits_eq_ok.mpr hfits, rfl⟩) ?_
  apply Accepts.bind (commits_replay.mpr ⟨rfl, .inl ⟨rfl, hfresh⟩⟩)
  apply Accepts.bind (commits_requireOpenTask.mpr ⟨htask, hopen, rfl⟩)
  apply Accepts.bind (commits_requireAgent.mpr ⟨hagent, rfl⟩)
  apply Accepts.bind (commits_addMessage.mpr ⟨hpart, rfl, rfl⟩)
  refine Accepts.bind (b := ()) (commits_finish.mpr rfl) ?_
  apply Accepts.bind (commits_addEvent.mpr ⟨rfl, rfl⟩)
  apply Accepts.bind_of
  · apply requireTask_accepts
    simp [htask]
  · intro finished t hfinished
    obtain ⟨-, rfl⟩ := commits_requireTask.mp hfinished
    apply Accepts.bind_of
    · exact record_accepts hfresh
    · intro m t _
      refine Accepts.bind (b := ()) (commits_notify.mpr rfl) ?_
      exact (commits_pure.mpr ⟨rfl, rfl⟩).accepts

/-- What is sent and what is stored of it are within the caps. -/
def Fits (sent stored : TaskResult) : Prop :=
  (textPart sent.summary).wire.sizeBytes ≤ maxMessagePartBytes ∧
    (Json.obj sent.dump).sizeBytes ≤ maxTypedResultBytes ∧
    (Json.obj stored.dump).sizeBytes ≤ maxTypedResultBytes

instance (sent stored : TaskResult) : Decidable (Fits sent stored) :=
  inferInstanceAs (Decidable (_ ∧ _ ∧ _))

/-- The typed result is what the role's models read. -/
theorem typedResult?_eq_ok {value : String} {role : TaskRole} {body : Fields} {v : TaskResult}
    (hrole : TaskRole.ofValue? value = some role) :
    typedResult? value body = .ok v ↔ role.read? body = some v := by
  unfold typedResult?
  rw [hrole]
  cases role with
  | implementer => cases h : ImplementerResult.validate body <;> simp [TaskRole.read?, h]
  | reviewer => cases h : ReviewerResult.validate body <;> simp [TaskRole.read?, h]
  | rebase => cases h : RebaseResult.validate body <;> simp [TaskRole.read?, h]

variable {r : Rendering} {remoteAddr : Option String} {a : Response} {agent : AgentRecord}
  {task : TaskRecord} {role : TaskRole} {stored : TaskResult}

/-- The one part of a submission is measured first. -/
theorem commits_checkMessagePartSizes_submission {u : Unit} :
    Commits (checkMessagePartSizes (w.submission taskId t)) c u c' ↔
      (textPart t.summary).wire.sizeBytes ≤ maxMessagePartBytes ∧ c' = c := by
  unfold checkMessagePartSizes
  by_cases hsize : (textPart t.summary).wire.sizeBytes ≤ maxMessagePartBytes
  · simp [Submitter.submission, hsize]
  · simp only [Submitter.submission, List.zipIdx_singleton, List.find?_singleton,
      decide_eq_true_eq, not_le.mp hsize, if_true, hsize, false_and, iff_false]
    exact commits_throw

/-- **The hub on a submission**: it is read again under the model of the task's role, and what
    that gives is handed to the store. -/
theorem commits_resultIntent_submission (hrole : TaskRole.ofValue? task.role = some role) :
    Commits (resultIntent r (w.submission taskId t) agent task) c a c' ↔
      (Json.obj t.dump).sizeBytes ≤ maxTypedResultBytes ∧ ∃ stored outcome,
        role.read? t.dump = some stored ∧
        Commits (submitResult task.id agent.name (some (.typed stored)) "" [] none
          ⟨some w.operationId, some (r.hash (.result task.id (some (.typed stored)) "" [] none)),
            some (r.finished agent)⟩) c outcome c' ∧ a = .stored outcome.response := by
  have hversion : (w.submission taskId t).metadata.lookup "hub.schema_version" = some (.num "1") :=
    rfl
  have hop : fieldText? (w.submission taskId t).metadata "hub.operation_id" = some w.operationId :=
    fieldText?_token w.operation_token rfl
  have hbody : requireResult (w.submission taskId t).metadata = pure t.dump := rfl
  have htext : withSummary t.dump (w.submission taskId t).text = t.dump := by
    apply withSummary_dump
    intro hempty
    rw [submission_text, hempty]
    rfl
  simp only [resultIntent, hbody, commits_bind, commits_requireSchemaVersion, hversion, true_and,
    commits_requireOperationId, hop, Option.some.injEq, commits_pure, commits_refuseWhen, not_lt,
    commits_requireTypedResult, typedResult?_eq_ok hrole, commits_store]
  constructor
  · rintro ⟨_, _, rfl, _, _, ⟨rfl, rfl⟩, _, _, ⟨rfl, rfl⟩, _, _, ⟨hsize, rfl⟩, stored, _,
      ⟨hstored, rfl⟩, outcome, _, hsubmit, rfl, rfl⟩
    rw [htext] at hstored
    exact ⟨hsize, stored, outcome, hstored, hsubmit, rfl⟩
  · rintro ⟨hsize, stored, outcome, hstored, hsubmit, rfl⟩
    rw [← htext] at hstored
    exact ⟨(), _, rfl, _, _, ⟨rfl, rfl⟩, _, _, ⟨rfl, rfl⟩, (), _, ⟨hsize, rfl⟩, stored, _,
      ⟨hstored, rfl⟩, outcome, _, hsubmit, rfl, rfl⟩

/-- The worker may report on the task: it speaks for the agent the task is assigned to. -/
def Submitter.Admitted (w : Submitter) (d : Db) (task : TaskRecord) : Prop :=
  ∃ agent, w.Speaks d agent ∧ task.assignee = some agent.name

/-- An accepted submission came from the worker of the task, and what the hub read is stored. -/
theorem dispatch_submission_cases (htask : c.db.tasks.find? taskId = some task)
    (hrole : TaskRole.ofValue? task.role = some role)
    (hnew : ∀ name, c.db.operations.find? (name, w.operationId) = none)
    (h : Commits (dispatch r remoteAddr (.send (w.submission taskId t))) c a c') :
    w.Admitted c.db task ∧ ∃ stored, role.read? t.dump = some stored ∧ Fits t stored ∧
      c'.db.Holds taskId stored := by
  simp only [dispatch, commits_bind, commits_checkMessagePartSizes_submission] at h
  obtain ⟨_, _, ⟨hpart, rfl⟩, h⟩ := h
  obtain ⟨agent, task', hagent, htask', hassignee, ⟨-, h⟩ | ⟨hkind, -⟩⟩ :=
    send_task_cases rfl h
  · obtain rfl : task = task' := Option.some.inj (htask.symm.trans htask')
    obtain ⟨hspeaks, -⟩ := commits_resolveAgent_submission.mp hagent
    obtain ⟨hsize, stored, outcome, hstored, hsubmit, -⟩ :=
      (commits_resultIntent_submission hrole).mp h
    obtain ⟨-, settled, hsettled, hfits, ⟨id, hash, row, hentry, hrow, -⟩ |
      ⟨task'', worker, finished, row, ts, ts₁, ts₂, ts₃, -, htask'', -, -, -, hfinished, -, -, -,
        hdb⟩⟩ := submitResult_cases hsubmit
    · obtain ⟨rfl, -⟩ := Prod.mk.inj (Option.some.inj hentry)
      rw [hnew] at hrow
      cases hrow
    · obtain rfl : settled = stored.settle := (Except.ok.inj hsettled).symm
      refine ⟨⟨agent, hspeaks, hassignee⟩, stored, hstored, ⟨hpart, hsize, hfits⟩, ?_⟩
      obtain rfl : task.id = taskId := Table.find?_key htask
      rw [hdb]
      simp [Db.Holds, htask, TaskResult.settle]
  · have hresult : (w.submission taskId t).kind?.getD (.str "progress") = .str "result" := rfl
    rw [hresult] at hkind
    exact absurd hkind (by decide)

/-- A submission of the worker of an open task is accepted when it fits and the model of the task's
    role reads it. -/
theorem dispatch_submission_accepts (htask : c.db.tasks.find? taskId = some task)
    (hopen : task.isOpen) (hrole : TaskRole.ofValue? task.role = some role)
    (hnew : ∀ name, c.db.operations.find? (name, w.operationId) = none)
    (hadmitted : w.Admitted c.db task) (hstored : role.read? t.dump = some stored)
    (hfits : Fits t stored) :
    Accepts (dispatch r remoteAddr (.send (w.submission taskId t))) c := by
  obtain ⟨agent, hspeaks, hassignee⟩ := hadmitted
  obtain ⟨hpart, hsize, hfit⟩ := hfits
  have hagent : c.db.agents.find? agent.name = some agent :=
    Table.find?_of_mem (List.mem_of_find?_eq_some hspeaks.1)
  have hsubmit : Accepts (submitResult task.id agent.name (some (.typed stored)) "" [] none
      ⟨some w.operationId, some (r.hash (.result task.id (some (.typed stored)) "" [] none)),
        some (r.finished agent)⟩) c := by
    refine submitResult_accepts ?_ hfit (Table.find?_key htask ▸ htask) hopen hagent
    intro id hash hentry
    obtain ⟨rfl, -⟩ := Prod.mk.inj (Option.some.inj hentry)
    exact hnew agent.name
  obtain ⟨outcome, c', hsubmit⟩ := hsubmit
  refine Accepts.bind (b := ()) (commits_checkMessagePartSizes_submission.mpr ⟨hpart, rfl⟩) ?_
  refine Accepts.bind (commits_resolveAgent_submission.mpr ⟨hspeaks, rfl⟩) ?_
  refine Accepts.bind (commits_ownedTask.mpr ⟨htask, hassignee, rfl⟩) ?_
  exact ⟨_, c', (commits_resultIntent_submission hrole).mpr
    ⟨hsize, stored, outcome, hstored, hsubmit, rfl⟩⟩

end

/-! ### The pipeline -/

/-- The tool `submit_result` on a hub: the parameter is read as the union, the client sends the
    dump of what that gave, and the hub answers.  No answer is a refusal. -/
def submitResultTool (r : Rendering) (u : ResultUnion) (w : Submitter) (remoteAddr : Option String)
    (clock : ℕ → Moment) (taskId : String) (b : Fields) (s : Hub) : Option Response × Hub :=
  match u.choose b with
  | none => (none, s)
  | some t =>
    let answer := atomically (dispatch r remoteAddr (.send (w.submission taskId t)))
      (s.connect clock)
    (answer.1.toOption, answer.2.hub)

/-- What the pipeline leaves is what the body states under the model of the role, and nothing when
    it is refused. -/
def Unweakened (role : TaskRole) (taskId : String) (b : Fields) (s : Hub)
    (outcome : Option Response × Hub) : Prop :=
  (outcome.1.isSome = true → ∃ v, role.read? b = some v ∧ outcome.2.db.Holds taskId v) ∧
    (outcome.1 = none → outcome.2 = s)

/-- The body is read as another model's, it is short enough to be stored as that, and it says
    something that only the model of the role would have kept. -/
def Weakens (u : ResultUnion) (role : TaskRole) (b : Fields) : Prop :=
  match role, u.choose b with
  | .rebase, some (.implementer v) =>
    Fits (.implementer v) (.rebase v.asRebase) ∧ ¬ SilentOnRebase b
  | .implementer, some (.rebase v) =>
    ∃ hrule : ImplementerRule v.outcome v.prUrl v.headSha,
      Fits (.rebase v) (.implementer (v.asImplementer hrule)) ∧ ¬ SilentOnImplementation b
  | _, _ => False

/-- A body is weakened when the hub reads the dump of the member that won differently from the
    body. -/
theorem weakens_iff {u : ResultUnion} {role : TaskRole} {b : Fields} :
    Weakens u role b ↔ ∃ sent stored, u.choose b = some sent ∧ role.read? sent.dump = some stored ∧
      Fits sent stored ∧ role.read? b ≠ some stored := by
  constructor
  · intro h
    unfold Weakens at h
    split at h
    · next v hchoose =>
      obtain ⟨hfits, hsays⟩ := h
      refine ⟨_, _, hchoose, read?_rebase.mpr v.asRebase_validate_dump, hfits,
        fun hread => hsays ?_⟩
      have hreads := ImplementerResult.validate_eq_some_iff.mp
        (read?_implementer.mp (u.valid b _ hchoose))
      exact hreads.rebase_validate_iff.mp (read?_rebase.mp hread)
    · next v hchoose =>
      obtain ⟨hrule, hfits, hsays⟩ := h
      refine ⟨_, _, hchoose, read?_implementer.mpr (v.asImplementer_validate_dump hrule), hfits,
        fun hread => hsays ?_⟩
      have hreads := RebaseResult.validate_eq_some_iff.mp
        (read?_rebase.mp (u.valid b _ hchoose))
      exact (hreads.implementer_validate_iff hrule).mp (read?_implementer.mp hread)
    · cases h
  · rintro ⟨sent, stored, hchoose, hstored, hfits, hdiffers⟩
    have hvalid : sent.role.read? b = some sent := u.valid b sent hchoose
    unfold Weakens
    obtain ⟨rfl, rfl⟩ | ⟨v, rfl, rfl, rfl⟩ | ⟨v, hrule, rfl, rfl, rfl⟩ :=
      TaskRole.read?_dump_cases hstored
    · exact absurd hvalid hdiffers
    · rw [hchoose]
      refine ⟨hfits, fun hsilent => hdiffers ?_⟩
      have hreads := ImplementerResult.validate_eq_some_iff.mp (read?_implementer.mp hvalid)
      exact read?_rebase.mpr (hreads.rebase_validate_iff.mpr hsilent)
    · rw [hchoose]
      refine ⟨hrule, hfits, fun hsilent => hdiffers ?_⟩
      have hreads := RebaseResult.validate_eq_some_iff.mp (read?_rebase.mp hvalid)
      exact read?_implementer.mpr ((hreads.implementer_validate_iff hrule).mpr hsilent)

/-- Two results of one model with one dump are one. -/
theorem TaskResult.eq_of_dump_eq {v v' : TaskResult} (hrole : v.role = v'.role)
    (hdump : v.dump = v'.dump) : v = v' := by
  have hv : v.role.read? v.dump = some v := v.read?_dump
  rw [hrole, hdump, TaskResult.read?_dump] at hv
  exact (Option.some.inj hv).symm

/-- **When a typed result arrives unweakened.**  A worker reports the body `b` on an open task of a
    role, under an operation id that was never used.  The pipeline stores what the model of the
    role makes of `b`, or refuses and leaves the hub alone, unless the worker may report on the
    task and the union reads `b` as the other model with an outcome while `b` says something only
    the model of the role keeps. -/
theorem typed_result_unweakened (r : Rendering) (u : ResultUnion) (w : Submitter)
    (remoteAddr : Option String) (clock : ℕ → Moment) (s : Hub) (task : TaskRecord)
    (role : TaskRole)
    (htask : s.db.tasks.find? task.id = some task) (hopen : task.isOpen)
    (hrole : TaskRole.ofValue? task.role = some role)
    (hnew : ∀ name, s.db.operations.find? (name, w.operationId) = none) (b : Fields) :
    Unweakened role task.id b s (submitResultTool r u w remoteAddr clock task.id b s) ↔
      ¬ (w.Admitted s.db task ∧ Weakens u role b) := by
  rw [weakens_iff]
  constructor
  · rintro ⟨hstores, -⟩ ⟨hadmitted, sent, stored, hchoose, hstored, hfits, hdiffers⟩
    have haccepts : Accepts (dispatch r remoteAddr (.send (w.submission task.id sent)))
        (s.connect clock) :=
      dispatch_submission_accepts htask hopen hrole hnew hadmitted hstored hfits
    obtain ⟨a, c', hc⟩ := haccepts
    obtain ⟨-, stored', hstored', -, hholds⟩ := dispatch_submission_cases htask hrole hnew hc
    have houtcome : submitResultTool r u w remoteAddr clock task.id b s = (some a, c'.hub) := by
      simp [submitResultTool, hchoose, atomically_of_commits hc, Except.toOption]
    rw [houtcome] at hstores
    obtain ⟨v, hv, t, ht, hresult⟩ := hstores rfl
    obtain rfl : stored = stored' := Option.some.inj (hstored.symm.trans hstored')
    obtain ⟨t', ht', hresult'⟩ := hholds
    obtain rfl : t = t' := Option.some.inj (ht.symm.trans ht')
    have hsame : v = stored := by
      apply TaskResult.eq_of_dump_eq
      · rw [TaskRole.role_of_read? hv, TaskRole.role_of_read? hstored]
      · simpa using hresult.symm.trans hresult'
    rw [hsame] at hv
    exact hdiffers hv
  · intro hnot
    cases hchoose : u.choose b with
    | none => exact ⟨fun h => by simp [submitResultTool, hchoose] at h,
        fun _ => by simp [submitResultTool, hchoose]⟩
    | some sent =>
      rcases atomically_cases (dispatch r remoteAddr (.send (w.submission task.id sent)))
        (s.connect clock) with ⟨a, c', hc, hat⟩ | ⟨e, -, hat⟩
      · have houtcome : submitResultTool r u w remoteAddr clock task.id b s = (some a, c'.hub) := by
          simp [submitResultTool, hchoose, hat, Except.toOption]
        obtain ⟨hadmitted, stored, hstored, hfits, hholds⟩ :=
          dispatch_submission_cases htask hrole hnew hc
        rw [houtcome]
        refine ⟨fun _ => ⟨stored, ?_, hholds⟩, fun hnone => by cases hnone⟩
        by_contra hdiffers
        exact hnot ⟨hadmitted, sent, stored, hchoose, hstored, hfits, hdiffers⟩
      · have houtcome : submitResultTool r u w remoteAddr clock task.id b s = (none, s) := by
          simp [submitResultTool, hchoose, hat, Except.toOption]
          rfl
        rw [houtcome]
        exact ⟨fun h => absurd h (by simp), fun _ => rfl⟩

/-- A body the union reads under the model of the role is not weakened. -/
theorem not_weakens_of_role {u : ResultUnion} {role : TaskRole} {b : Fields}
    (h : (u.choose b).map TaskResult.role = some role) : ¬ Weakens u role b := by
  rw [weakens_iff]
  rintro ⟨sent, stored, hchoose, hstored, -, hdiffers⟩
  obtain rfl : sent.role = role := by simpa [hchoose] using h
  rw [TaskResult.read?_dump] at hstored
  rw [← hstored] at hdiffers
  exact hdiffers (u.valid b sent hchoose)

/-- Ada works on a rebase. -/
def adaRebases : List Call :=
  [⟨.initializeWorkflow "goal" {}, stoppedClock⟩,
    ⟨.checkIn "ada" {} (some "ada-1") {} none, stoppedClock⟩,
    ⟨.assignTask "ada" "rebase" "Rebase it" "See pull request 7" 30
      (some "0123456789abcdef0123456789abcdef01234567") none, stoppedClock⟩,
    ⟨.claimAssignment "ada", stoppedClock⟩]

/-- Ada's process, about to submit. -/
def adaSubmits : Submitter where
  contextId := "uu"
  instanceId := "ada-1"
  operationId := "op-1"
  messageId := "m-1"
  context_ne := by decide
  instance_token := by constructor <;> decide +kernel
  operation_token := by constructor <;> decide +kernel

/-- A rebase that met no conflict. -/
def cleanBody : Fields :=
  [("outcome", .str "completed"),
    ("head_sha", .str "89abcdef0123456789abcdef0123456789abcdef"), ("summary", .str "Rebased")]

/-- A rebase that met a conflict, and forgets to say how it was resolved. -/
def conflictBody : Fields :=
  [("outcome", .str "completed"), ("pr_url", .str "https://github.com/org/repo/pull/7"),
    ("head_sha", .str "89abcdef0123456789abcdef0123456789abcdef"),
    ("conflict_files", .arr [.str "README.md"]), ("summary", .str "Rebased")]

/-- The clean rebase arrives as it is. -/
theorem clean_rebase_arrives :
    let s := (Hub.start .unary).run adaRebases
    ∃ task ∈ s.db.tasks.rows, Unweakened .rebase task.id cleanBody s
      (submitResultTool ⟨fun _ => "", fun _ => "", fun _ _ => "", fun _ _ => ""⟩ .smart adaSubmits
        none stoppedClock task.id cleanBody s) := by
  intro s
  have htask : ∃ task ∈ s.db.tasks.rows, task.isOpen ∧
      TaskRole.ofValue? task.role = some .rebase := by decide +kernel
  have hempty : s.db.operations.rows = [] := by decide +kernel
  have hrole : (ResultUnion.smart.choose cleanBody).map TaskResult.role = some .rebase := by
    decide +kernel
  obtain ⟨task, hmem, hopen, hrebase⟩ := htask
  refine ⟨task, hmem, ?_⟩
  have hnew (name : String) : s.db.operations.find? (name, adaSubmits.operationId) = none := by
    apply Table.find?_eq_none_iff.mpr
    intro row hrow
    rw [Table.mem_iff, hempty] at hrow
    exact absurd hrow List.not_mem_nil
  exact (typed_result_unweakened _ .smart adaSubmits none stoppedClock s task .rebase
    (Table.find?_of_mem (Table.mem_iff.mpr hmem)) hopen hrebase hnew cleanBody).mpr
      fun h => not_weakens_of_role hrole h.2

/-- **A conflict is dropped.**  The rebase model refuses the body, the implementer model wins the
    union and drops `conflict_files`, and what the hub stores states that there was no conflict. -/
theorem conflict_dropped :
    let s := (Hub.start .unary).run adaRebases
    let outcome := submitResultTool ⟨fun _ => "", fun _ => "", fun _ _ => "", fun _ _ => ""⟩ .smart
      adaSubmits none stoppedClock "uuu" conflictBody s
    RebaseResult.validate conflictBody = none ∧
      (∃ task ∈ outcome.2.db.tasks.rows, task.id = "uuu" ∧ task.state = .completed ∧
        task.result.bind (Json.get? "conflict_files") = some (.arr [])) ∧
      ¬ Unweakened .rebase "uuu" conflictBody s outcome := by
  intro s outcome
  have hinvalid : RebaseResult.validate conflictBody = none := by decide +kernel
  have haccepted : outcome.1.isSome = true := by decide +kernel
  refine ⟨hinvalid, by decide +kernel, ?_⟩
  rintro ⟨hstores, -⟩
  obtain ⟨v, hv, -⟩ := hstores haccepted
  simp [TaskRole.read?, hinvalid] at hv

end AgentHub
