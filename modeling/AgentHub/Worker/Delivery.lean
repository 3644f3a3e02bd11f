import AgentHub.Hub.Lifecycle
import AgentHub.Worker.Network

namespace AgentHub

open Relational

/-!
# A mutation reaches the hub

However often the request of a mutation reaches the hub, it is recorded once: under the name the
hub knows its sender by, and its operation id.

* `Db.recorder?` — that name, which stays what it is;
* `Db.Records` — the row, the message and the event of a recorded mutation;
* `dispatch_mutation_cases` — a mutation is refused, answered from the ledger, or recorded;
* `hasRow_foreign` — no one else records anything under the client's ids.
-/

/-! ### Names and rows -/

/-- Who a mutation of the worker is recorded for: the name it registers, or the assignee of the
    task. -/
def Db.recorder? (d : Db) (settings : WorkerSettings) (k : CallKey) : Option String :=
  match k.task? with
  | none => settings.name?
  | some taskId => (d.tasks.find? taskId).bind TaskRecord.assignee

/-- The ledger has a row under this operation id. -/
def Db.HasRow (d : Db) (id : String) : Prop := ∃ row ∈ d.operations, row.operationId = id

section

variable {d d' : Db}

/-- The agent a worker's calls are recorded for stays the same. -/
theorem Db.Evolves.recorder? (h : d.Evolves d') {settings : WorkerSettings} {k : CallKey}
    {name : String} (hname : d.recorder? settings k = some name) :
    d'.recorder? settings k = some name := by
  unfold Db.recorder? at hname ⊢
  cases htask : k.task? with
  | none =>
    rw [htask] at hname
    exact hname
  | some taskId =>
    rw [htask] at hname
    obtain ⟨t, ht, hassignee⟩ := Option.bind_eq_some_iff.mp hname
    obtain ⟨t', ht', hbecomes⟩ := h.tasks.find? ht
    refine Option.bind_eq_some_iff.mpr ⟨t', ht', ?_⟩
    rw [← hassignee]
    exact congrArg TaskRequest.assignee hbecomes.request

/-- A ledger row stays. -/
theorem Db.Evolves.row (h : d.Evolves d') {row : OperationRecord} (hrow : row ∈ d.operations) :
    row ∈ d'.operations := by
  obtain ⟨row', hrow', -, rfl⟩ := Evolves.mem h.operations hrow
  exact hrow'

/-- An operation recorded stays recorded. -/
theorem Db.Evolves.hasRow (h : d.Evolves d') {id : String} (hrow : d.HasRow id) : d'.HasRow id := by
  obtain ⟨row, hrow, hid⟩ := hrow
  exact ⟨row, h.row hrow, hid⟩

end

/-! ### One mutation -/

/-- The kinds of event that a call queues. -/
def CallKey.eventKinds : CallKey → List EventKind
  | .checkIn => [.agentCheckedIn]
  | .progress _ => [.taskProgress]
  | .question _ => [.workerQuestion]
  | .result _ => [.taskCompleted, .taskFailed]

/-- The key of a mutation. -/
def Op.key? : Op → Option CallKey
  | .checkIn .. => some .checkIn
  | .recordProgress taskId .. => some (.progress taskId)
  | .submitResult taskId .. => some (.result taskId)
  | _ => none

/-- The message and the event of a call. -/
structure CallKey.Wrote (k : CallKey) (m : MessageRecord) (e : EventRecord) : Prop where
  task : ∀ taskId ∈ k.task?, m.taskId = some taskId
  kind : e.payload.kind ∈ k.eventKinds

/-- What a mutation writes is what its kind of call writes. -/
theorem Op.Describes.wrote {op : Op} {k : CallKey} (hkey : op.key? = some k) {m : MessageRecord}
    {e : EventRecord} (h : op.Describes m e) : k.Wrote m e := by
  cases op with
  | checkIn name profile workerInstanceId l remoteAddr =>
    obtain rfl := Option.some.inj hkey
    obtain ⟨-, -, contextId, instanceId, hpayload⟩ := h
    refine ⟨by simp [CallKey.task?], ?_⟩
    rw [hpayload]
    exact List.mem_singleton_self _
  | recordProgress taskId agent note l =>
    obtain rfl := Option.some.inj hkey
    obtain ⟨-, htask, -, hpayload⟩ := h
    refine ⟨fun id h => htask.trans h, ?_⟩
    rw [hpayload]
    exact List.mem_singleton_self _
  | submitResult taskId agent result summary artifacts status l =>
    obtain rfl := Option.some.inj hkey
    obtain ⟨s, -, -, htask, -, hpayload⟩ := h
    refine ⟨fun id h => htask.trans h, ?_⟩
    rw [hpayload, Settlement.event]
    split
    · exact List.mem_cons_self
    · exact List.mem_cons_of_mem _ List.mem_cons_self
  | _ => cases hkey

/-- Progress is recorded on open tasks only. -/
theorem respond_progress {taskId agent note : String} {l : Ledgered Unit} {c c' : Conn}
    {o : Option (String × Bool)}
    (h : Commits (respond (.recordProgress taskId agent note l)) c o c') :
    c'.db = c.db ∨ ¬ c.db.Closed taskId := by
  obtain ⟨m, hm, -⟩ := commits_map.mp h
  obtain ⟨-, ⟨-, -, -, -, -, -, -, hdb⟩ | ⟨task, -, -, -, -, -, -, -, htask, hopen, -⟩⟩ :=
    recordProgress_cases hm
  · exact .inl hdb
  · right
    rintro ⟨t, ht, hended⟩
    obtain rfl : task = t := Option.some.inj (htask.symm.trans ht)
    exact hended hopen

/-- A recorded result ends its task. -/
theorem respond_result {taskId agent summary : String} {result : Option ResultArg}
    {artifacts : List Fields} {status : Option TaskState} {l : Ledgered TaskRecord} {c c' : Conn}
    {o : Option (String × Bool)}
    (h : Commits (respond (.submitResult taskId agent result summary artifacts status l)) c o c') :
    c'.db = c.db ∨ c'.db.Closed taskId := by
  obtain ⟨m, hm, -⟩ := commits_map.mp h
  obtain ⟨-, s, hs, -, ⟨-, -, -, -, -, -, -, hdb⟩ | ⟨task, worker, finished, row, ts, ts₁, ts₂, ts₃,
    -, htask, -, -, -, -, -, -, -, hdb⟩⟩ := submitResult_cases hm
  · exact .inl hdb
  · right
    have hterminal := settlement_terminal hs
    obtain rfl : task.id = taskId := Table.find?_key htask
    rw [hdb]
    refine ⟨_, by simp [htask]; rfl, ?_⟩
    simp [TaskRecord.isOpen, hterminal]

/-! ### What is answered -/

section

variable {c c' : Conn} {operationId payloadHash : String}

/-- A check-in with an id, a hash and a response is answered with a stored response. -/
theorem checkIn_responds {name : String} {profile : AgentProfile} {instanceId : Option String}
    {build : AgentRecord → String} {remoteAddr : Option String} {m : Mutation AgentRecord}
    (h : Commits (checkIn name profile instanceId
      ⟨some operationId, some payloadHash, some build⟩ remoteAddr) c m c') :
    m.response.isSome = true := by
  obtain ⟨-, ⟨_, _, row, -, -, -, rfl, -⟩ | ⟨_, _, _, agent, _, _, _, _, _, -, -, -, -, -, -, -, -,
    -, rfl, -⟩⟩ := checkIn_cases h
  · rfl
  · rfl

/-- A progress report under an operation id has an answer to record. -/
theorem recordProgress_responds {taskId agent note : String} {build : Unit → String}
    {m : Mutation Unit}
    (h : Commits (recordProgress taskId agent note
      ⟨some operationId, some payloadHash, some build⟩) c m c') : m.response.isSome = true := by
  obtain ⟨-, ⟨_, _, row, -, -, -, rfl, -⟩ | ⟨_, _, _, _, _, _, _, -, -, -, -, -, -, -, rfl, -⟩⟩ :=
    recordProgress_cases h
  · rfl
  · rfl

/-- A result under an operation id has an answer to record. -/
theorem submitResult_responds {taskId agent summary : String} {result : Option ResultArg}
    {artifacts : List Fields} {status : Option TaskState} {build : TaskRecord → String}
    {m : Mutation TaskRecord}
    (h : Commits (submitResult taskId agent result summary artifacts status
      ⟨some operationId, some payloadHash, some build⟩) c m c') : m.response.isSome = true := by
  obtain ⟨-, _, -, -, ⟨_, _, row, -, -, -, rfl, -⟩ |
    ⟨_, _, _, _, _, _, _, _, -, -, -, -, -, -, -, -,
    rfl, -⟩⟩ := submitResult_cases h
  · rfl
  · rfl

end

section

variable {r : Rendering} {remoteAddr : Option String} {settings : WorkerSettings} {out : Outgoing}
  {c c' : Conn} {x : Response}

/-- **The store operation behind a mutation**: one of its key, under its id, for the recorder. -/
theorem dispatch_mutation (hcarries : out.Carries settings) (hmutates : out.subject.key.Mutates)
    (h : Commits (dispatch r remoteAddr out.request) c x c') :
    ∃ op mu o, op.mutating? = some mu ∧ op.key? = some out.subject.key ∧
      mu.operationId = some out.id ∧ o.isSome = true ∧
      c.db.recorder? settings out.subject.key = some mu.actor ∧
      Commits (respond op) c o c' ∧ x = .stored o := by
  rw [hcarries.request] at h
  simp only [dispatch, commits_bind] at h
  obtain ⟨_, t, hsizes, h⟩ := h
  obtain rfl := checkMessagePartSizes_cases hsizes
  have hoperation : fieldText? out.message.metadata "hub.operation_id" = some out.id :=
    hcarries.operation
  -- a check-in is sent on no task, the other mutations are sent on theirs
  cases htask : out.message.taskId with
  | none =>
    have hkey : out.subject.key = .checkIn := by
      have hnone := hcarries.task.symm.trans htask
      cases hk : out.subject.key with
      | checkIn => rfl
      | _ =>
        rw [hk] at hnone
        cases hnone
    rcases send_agent_cases htask h with ⟨hkind, -⟩ | ⟨-, h⟩
    · rw [hcarries.kind, hkey] at hkind
      cases hkind
    · obtain ⟨-, operationId, instanceId, name, p, outcome, hid, -, hname, hcheck, rfl⟩ :=
        checkInIntent_cases h
      rw [hcarries.agent hkey] at hname
      refine ⟨.checkIn .., _, _, rfl, by rw [hkey]; rfl, hid.symm.trans hoperation,
        checkIn_responds hcheck, ?_,
        commits_map.mpr ⟨outcome, hcheck, rfl⟩, rfl⟩
      rw [hkey]
      exact hname
  | some taskId =>
    have htask? : out.subject.key.task? = some taskId := hcarries.task.symm.trans htask
    obtain ⟨agent, task, -, hrow, hassignee, ⟨hkind, h⟩ | ⟨hkind, h⟩⟩ := send_task_cases htask h
    · have hkey : out.subject.key = .result taskId := by
        rw [hcarries.kind] at hkind
        cases hk : out.subject.key <;> rw [hk] at hkind htask? hmutates
        case result => rw [Option.some.inj htask?]
        case question => exact hmutates.elim
        case checkIn => cases htask?
        case progress => simp [CallKey.kind?] at hkind
      have hrecorder : t.db.recorder? settings out.subject.key = some agent.name := by
        rw [hkey, Db.recorder?]
        exact Option.bind_eq_some_iff.mpr ⟨task, hrow, hassignee⟩
      obtain rfl : task.id = taskId := Table.find?_key hrow
      obtain ⟨operationId, body, result, outcome, hid, -, -, hsubmit, rfl⟩ := resultIntent_cases h
      exact ⟨.submitResult .., _, _, rfl, by rw [hkey]; rfl, hid.symm.trans hoperation,
        submitResult_responds hsubmit, hrecorder, commits_map.mpr ⟨outcome, hsubmit, rfl⟩, rfl⟩
    · have hkey : out.subject.key = .progress taskId := by
        rw [hcarries.kind] at hkind
        cases hk : out.subject.key <;> rw [hk] at hkind htask? hmutates
        case progress => rw [Option.some.inj htask?]
        case question => exact hmutates.elim
        case checkIn => cases htask?
        case result => simp [CallKey.kind?] at hkind
      have hrecorder : t.db.recorder? settings out.subject.key = some agent.name := by
        rw [hkey, Db.recorder?]
        exact Option.bind_eq_some_iff.mpr ⟨task, hrow, hassignee⟩
      obtain rfl : task.id = taskId := Table.find?_key hrow
      obtain ⟨operationId, outcome, hid, hprogress, rfl⟩ := progressIntent_cases h
      exact ⟨.recordProgress .., _, _, rfl, by rw [hkey]; rfl, hid.symm.trans hoperation,
        recordProgress_responds hprogress, hrecorder,
        commits_map.mpr ⟨outcome, hprogress, rfl⟩, rfl⟩

/-- A mutation of the worker is recorded. -/
structure Db.Records (d d' : Db) (settings : WorkerSettings) (out : Outgoing)
    (row : OperationRecord) (m : MessageRecord) (e : EventRecord) : Prop where
  mutates : d.Mutates d' (some row) m e
  id : row.operationId = out.id
  recorder : d.recorder? settings out.subject.key = some row.actor
  wrote : out.subject.key.Wrote m e
  opened : ∀ taskId, out.subject.key = .progress taskId → ¬ d.Closed taskId
  closes : ∀ taskId, out.subject.key = .result taskId → d'.Closed taskId

/-- **A mutation reaches the hub.**  It is refused; or it is answered from the ledger; or it is
    recorded, with one message and one event. -/
theorem dispatch_mutation_cases (hcarries : out.Carries settings)
    (hmutates : out.subject.key.Mutates) (s : Hub) (clock : ℕ → Moment) :
    let served := atomically (dispatch r remoteAddr out.request) (s.connect clock)
    (∃ e, served = (.error e, s.connect clock)) ∨
    (∃ responseJson, served.1 = .ok (.stored (some (responseJson, false))) ∧
      served.2.db = s.db ∧ s.db.HasRow out.id) ∨
    ∃ responseJson row m e, served.1 = .ok (.stored (some (responseJson, true))) ∧
      s.db.Records served.2.db settings out row m e := by
  intro served
  rcases atomically_cases (dispatch r remoteAddr out.request) (s.connect clock) with
    ⟨x, c', hc, hat⟩ | ⟨e, -, hat⟩
  · have hserved : served = (.ok x, c') := hat
    obtain ⟨op, mu, o, hop, hkey, hid, hsome, hrecorder, hrespond, rfl⟩ :=
      dispatch_mutation hcarries hmutates hc
    rw [hserved]
    obtain ⟨-, ⟨⟨row, hrow, hunder, -, rfl⟩, hdb⟩ | ⟨row, m, e, hwrites, hdescribes, -, hrow⟩⟩ :=
      respond_cases hop hrespond
    · exact .inr (.inl ⟨_, rfl, hdb, row, hrow, Option.some.inj (hunder.2.symm.trans hid)⟩)
    · obtain ⟨row, rfl, rfl, hunder, -⟩ | ⟨-, rfl⟩ := hrow
      swap
      · cases hsome
      have hchanged : c'.db ≠ s.db := by
        intro hsame
        have hlength := congrArg List.length hwrites.messages
        have hmessages : c'.db.messages = (s.connect clock).db.messages :=
          congrArg Db.messages hsame
        rw [hmessages] at hlength
        simp at hlength
      refine .inr (.inr ⟨_, row, m, e, rfl, hwrites, Option.some.inj (hunder.2.symm.trans hid),
        hunder.1 ▸ hrecorder, hdescribes.wrote hkey, fun taskId hprogress => ?_,
        fun taskId hresult => ?_⟩)
      · cases op <;> rw [hprogress] at hkey <;> cases hkey
        exact (respond_progress hrespond).resolve_left hchanged
      · cases op <;> rw [hresult] at hkey <;> cases hkey
        exact (respond_result hrespond).resolve_left hchanged
  · exact .inl ⟨e, hat⟩

end

/-! ### What is written, and by whom -/

section

variable {d d' : Db} {s : Hub}

/-- Nothing written, no rows written. -/
theorem Db.written_of_eq (h : d' = d) : d.written d' = [] := by
  simp [Db.written, h]

/-- A mutation writes its message and its event. -/
theorem Db.Mutates.written {row : Option OperationRecord} {m : MessageRecord} {e : EventRecord}
    (h : d.Mutates d' row m e) : d.written d' = [.message m, .event e] := by
  simp [Db.written, h.messages, h.events]

/-- A recorded mutation adds its row. -/
theorem Db.Mutates.mem_operations {row : OperationRecord} {m : MessageRecord} {e : EventRecord}
    (h : d.Mutates d' (some row) m e) {x : OperationRecord} :
    x ∈ d'.operations ↔ x ∈ d.operations ∨ x = row := by
  have hrows : (d.operations.insertOrIgnore row).rows = d.operations.rows ++ [row] :=
    Table.rows_insertOrIgnore (h.fresh row rfl)
  rw [h.operations, Table.mem_iff]
  show x ∈ (d.operations.insertOrIgnore row).rows ↔ _
  rw [hrows, List.mem_append, List.mem_singleton, ← Table.mem_iff]

/-- A request evolves the database. -/
theorem evolves_request (r : Rendering) (q : Request) (remoteAddr : Option String)
    (clock : ℕ → Moment) (s : Hub) :
    s.db.Evolves (atomically (dispatch r remoteAddr q) (s.connect clock)).2.db := by
  obtain hsame | ⟨op, hop, -⟩ := Request.exec_cases r q remoteAddr clock s
  · have hdb : (atomically (dispatch r remoteAddr q) (s.connect clock)).2.db = s.db :=
      congrArg Hub.db hsame
    rw [hdb]
    exact Db.Evolves.refl _
  · have hdb : (atomically (dispatch r remoteAddr q) (s.connect clock)).2.db = _ :=
      congrArg Hub.db hop
    rw [hdb]
    exact evolves_run s [⟨op, clock⟩]

/-- A question records nothing in the ledger. -/
theorem operations_stream (r : Rendering) (m : A2AMessage) (remoteAddr : Option String)
    (clock : ℕ → Moment) (s : Hub) :
    (atomically (dispatch r remoteAddr (.stream m)) (s.connect clock)).2.db.operations
      = s.db.operations := by
  rcases atomically_cases (dispatch r remoteAddr (.stream m)) (s.connect clock) with
    ⟨x, c', hc, hat⟩ | ⟨e, -, hat⟩
  · rw [hat]
    simp only [dispatch, commits_bind] at hc
    obtain ⟨_, t, hsizes, hc⟩ := hc
    obtain rfl := checkMessagePartSizes_cases hsizes
    obtain ⟨agent, -, ⟨taskId, task, questionId, -, -, -, hask, -⟩ | ⟨-, rfl, -⟩⟩ := stream_cases hc
    · obtain ⟨-, -, worker, -, -, -, ⟨-, hdb⟩ | ⟨-, -, -, ts, ts', ts'', hdb⟩⟩ :=
        openQuestion_cases hask
      · exact congrArg Db.operations hdb
      · show c'.db.operations = _
        rw [hdb]
        rfl
    · rfl
  · rw [hat]
    rfl

/-- **No one else records anything under the client's ids.** -/
theorem hasRow_foreign {u : Uuids} {l : Call} (hl : l.Foreign u) {id : String}
    (hid : ¬ u.Misses id) {row : OperationRecord} (hrow : row ∈ (l.exec s).db.operations)
    (hrowId : row.operationId = id) : row ∈ s.db.operations := by
  obtain ⟨mu, row', m, e, h⟩ | ⟨-, hoperations⟩ := recorded_cases l s
  · rcases h.mutates.mem_operations.mp hrow with hold | rfl
    · exact hold
    · refine absurd (hl.operation mu h.mutating id ?_) hid
      rw [← hrowId]
      exact h.under.2
  · exact hoperations ▸ hrow

end

end AgentHub
