import AgentHub.Hub.Identity
import AgentHub.Hub.Protocol

namespace AgentHub

open Relational

/-!
# Superseded and lost processes

A worker process stays the one it was when a newer one takes over its name, and may still send
requests.  Every request that acts for an agent says which process it comes from, and is refused
unless that is the agent's current one and the agent is not lost; only a check-in names a new one.

* `resolveAgent_cases` — the fence, as one condition;
* `Db.Contexts` — no two agents share a context, so a message names one agent at most;
* `Request.Claims` — the agent a request claims to come from, `stale_dispatch`, what becomes of it;
* `dispatch_op` — a request is one call of the store, or none;
* `stale_processes` — all of it, in every state of every run.
-/

/-! ### The fence -/

/-- The agent the message says it is from: by its context id, or else by its name. -/
def A2AMessage.Names (m : A2AMessage) (a : AgentRecord) : Prop :=
  match m.context? with
  | some contextId => contextId = a.contextId
  | none => fieldText? m.metadata "hub.agent" = some a.name

/-- The process the message says it is from. -/
def A2AMessage.instance? (m : A2AMessage) : Option String :=
  fieldText? m.metadata "hub.worker_instance_id"

section

variable {c c' : Conn} {m : A2AMessage} {a : AgentRecord}

/-- A message is let through when it carries the agent's current instance id. -/
theorem commits_requireCurrentInstance {b : AgentRecord} :
    Commits (requireCurrentInstance a m.metadata) c b c' ↔
      m.instance? = some a.workerInstanceId ∧ a.status ≠ .lost ∧ b = a ∧ c' = c := by
  simp only [requireCurrentInstance, requireWorkerInstanceId, commits_bind, commits_orRefuse,
    commits_refuseWhen, commits_pure, not_not]
  constructor
  · rintro ⟨id, _, ⟨hid, rfl⟩, _, _, ⟨rfl, rfl⟩, _, _, ⟨hlost, rfl⟩, rfl, rfl⟩
    exact ⟨hid, hlost, rfl, rfl⟩
  · rintro ⟨hid, hlost, rfl, rfl⟩
    exact ⟨_, _, ⟨hid, rfl⟩, (), _, ⟨rfl, rfl⟩, (), _, ⟨hlost, rfl⟩, rfl, rfl⟩

/-- **The fence.**  The caller is the agent the message names, its current process, and not
    lost. -/
theorem resolveAgent_cases (h : Commits (resolveAgent m) c a c') :
    c' = c ∧ a ∈ c.db.agents ∧ m.Names a ∧ m.instance? = some a.workerInstanceId ∧
      a.status ≠ .lost := by
  unfold resolveAgent at h
  cases hcontext : m.context? with
  | some contextId =>
    simp only [hcontext, commits_bind, commits_store, commits_readDb, commits_orRefuse,
      commits_requireCurrentInstance, and_assoc, exists_and_left, exists_eq_left] at h
    obtain ⟨b, hb, hid, hlost, rfl, rfl⟩ := h
    have hfind : a.contextId = contextId := by simpa using List.find?_some hb
    refine ⟨rfl, List.mem_of_find?_eq_some hb, ?_, hid, hlost⟩
    simp [A2AMessage.Names, hcontext, hfind]
  | none =>
    simp only [hcontext, commits_bind, commits_store, commits_readDb, commits_orRefuse,
      commits_requireCurrentInstance, and_assoc, exists_and_left, exists_eq_left] at h
    obtain ⟨name, hname, b, hb, hid, hlost, rfl, rfl⟩ := h
    refine ⟨rfl, Table.mem_of_find? hb, ?_, hid, hlost⟩
    simp [A2AMessage.Names, hcontext, hname, Table.find?_key hb]

/-- A task is acted on by the agent it is assigned to. -/
theorem commits_ownedTask {taskId : String} {t : TaskRecord} :
    Commits (ownedTask taskId a) c t c' ↔
      c.db.tasks.find? taskId = some t ∧ t.assignee = some a.name ∧ c' = c := by
  simp only [ownedTask, commits_bind, commits_store, commits_readDb, commits_orRefuse,
    commits_refuseWhen, commits_pure, and_assoc, exists_and_left, exists_eq_left, not_not]
  constructor
  · rintro ⟨t', ht, hassignee, rfl, _, rfl⟩
    exact ⟨ht, hassignee, rfl⟩
  · rintro ⟨ht, hassignee, rfl⟩
    exact ⟨t, ht, hassignee, rfl, (), rfl⟩

end

/-! ### Contexts -/

/-- No two agents share a context. -/
def Db.Contexts (d : Db) : Prop :=
  ∀ n n' a b, d.agents.find? n = some a → d.agents.find? n' = some b →
    a.contextId = b.contextId → n = n'

/-- A write to no agent's row keeps the contexts apart. -/
theorem contexts_of_stay {d d' : Db} (h : d.AgentsStay d') (hd : d.Contexts) : d'.Contexts := by
  intro n n' a b ha hb hcontext
  have hbefore {n : String} {b : AgentRecord} (hb : d'.agents.find? n = some b) :
      ∃ a, d.agents.find? n = some a ∧ b.contextId = a.contextId := by
    cases ha : d.agents.find? n with
    | none =>
      rw [(h n).2 ha] at hb
      cases hb
    | some a =>
      obtain ⟨b', hb', hstays⟩ := (h n).1 a ha
      obtain rfl : b' = b := Option.some.inj (hb'.symm.trans hb)
      exact ⟨a, rfl, hstays.context⟩
  obtain ⟨a₀, ha₀, hca⟩ := hbefore ha
  obtain ⟨b₀, hb₀, hcb⟩ := hbefore hb
  exact hd n n' a₀ b₀ ha₀ hb₀ (hca.symm.trans (hcontext.trans hcb))

/-- A check-in gives a new agent a context of its own, and an old one the context it had. -/
theorem contexts_admits {d d' : Db} {name instanceId contextId : String} {profile : AgentProfile}
    {remoteAddr : Option String} {ts : Stamp}
    (h : Admits d name instanceId profile remoteAddr ts contextId d') (hd : d.Contexts) :
    d'.Contexts := by
  cases h with
  | new _ hnew hcontext =>
    have hrow (n : String) : (d.agents.insertOrIgnore (newAgent name contextId instanceId profile
        remoteAddr ts)).find? n = if name = n then some (newAgent name contextId instanceId profile
        remoteAddr ts) else d.agents.find? n := Table.find?_insertOrIgnore hnew n
    intro n n' a b ha hb heq
    simp only [hrow] at ha hb
    split at ha
    · rename_i hn
      split at hb
      · rename_i hn'
        exact hn.symm.trans hn'
      · obtain rfl := Option.some.inj ha
        exact absurd heq.symm (hcontext b (Table.mem_of_find? hb))
    · split at hb
      · obtain rfl := Option.some.inj hb
        exact absurd heq (hcontext a (Table.mem_of_find? ha))
      · exact hd n n' a b ha hb heq
  | returned previous hprev hnot =>
    have hbefore {n : String} {b : AgentRecord}
        (hb : (d.readmit name (d.openTaskId previous.currentTaskId) instanceId profile remoteAddr
          ts).agents.find? n = some b) :
        ∃ a, d.agents.find? n = some a ∧ b.contextId = a.contextId := by
      rw [Db.readmit_agents, Table.find?_modify] at hb
      split at hb
      · obtain ⟨a, ha, rfl⟩ := Option.map_eq_some_iff.mp hb
        exact ⟨a, ha, rfl⟩
      · exact ⟨b, hb, rfl⟩
    intro n n' a b ha hb heq
    obtain ⟨a₀, ha₀, hca⟩ := hbefore ha
    obtain ⟨b₀, hb₀, hcb⟩ := hbefore hb
    exact hd n n' a₀ b₀ ha₀ hb₀ (hca.symm.trans (heq.trans hcb))

/-- Every move keeps the contexts apart. -/
theorem contexts_move {k : Kind} {s s' : Hub} (h : Move k s s') (hs : s.db.Contexts) :
    s'.db.Contexts := by
  by_cases hk : k = .checkIn
  · subst hk
    cases h with
    | @checkIn d _ _ _ _ _ _ _ d' _ _ _ _ _ hadmits =>
      have hd' : d'.Contexts := contexts_admits hadmits hs
      exact hd'
  · exact contexts_of_stay (agents_move h hk) hs

/-- After any run no two agents share a context. -/
theorem contexts_run (u : Uuids) (ls : List Call) : ((Hub.start u).run ls).db.Contexts :=
  (moves_run (Hub.start u) ls).invariant (I := fun s => s.db.Contexts)
    (fun _ _ _ _ hmove h => contexts_move hmove h) fun n n' a b ha => by cases ha

/-- A message names one agent at most. -/
theorem A2AMessage.names_unique {d : Db} (hd : d.Contexts) {m : A2AMessage} {a b : AgentRecord}
    (ha : a ∈ d.agents) (hb : b ∈ d.agents) (hna : m.Names a) (hnb : m.Names b) : a = b := by
  apply Table.eq_of_key_eq ha hb
  unfold A2AMessage.Names at hna hnb
  cases hcontext : m.context? with
  | some contextId =>
    rw [hcontext] at hna hnb
    exact hd a.name b.name a b (Table.find?_of_mem ha) (Table.find?_of_mem hb) (hna.symm.trans hnb)
  | none =>
    rw [hcontext] at hna hnb
    exact Option.some.inj (hna.symm.trans hnb)

/-! ### What a request can do -/

/-- The agent a request claims to come from.  A check-in claims nothing: it says who the agent is
    from now on; and a cancel comes from no agent. -/
def Request.Claims (q : Request) (a : AgentRecord) : Prop :=
  match q with
  | .send m =>
    match m.taskId with
    | some _ => m.Names a
    | none => m.kind? = some (.str "heartbeat") ∧ fieldText? m.metadata "hub.agent" = some a.name
  | .stream m => m.Names a
  | .cancel _ => False

/-- The process a request says it comes from. -/
def Request.instance? : Request → Option String
  | .send m | .stream m => m.instance?
  | .cancel _ => none

/-- The request is the READY check-in of `name`. -/
def Request.ReadyFor (q : Request) (name : String) : Prop :=
  ∃ m, q = .send m ∧ m.taskId = none ∧ m.kind? ≠ some (.str "heartbeat") ∧
    m.text.toUpper = "READY" ∧ fieldText? m.metadata "hub.agent" = some name

section

variable {r : Rendering} {c c' : Conn} {q : Request} {m : A2AMessage} {remoteAddr : Option String}
  {x : Response}

/-- A request on a task passes the fence before anything else. -/
theorem send_task_cases {taskId : String} (htask : m.taskId = some taskId)
    (h : Commits (send r m remoteAddr) c x c') :
    ∃ agent task, Commits (resolveAgent m) c agent c ∧ c.db.tasks.find? taskId = some task ∧
      task.assignee = some agent.name ∧
      ((m.kind?.getD (.str "progress") = .str "result" ∧
          Commits (resultIntent r m agent task) c x c') ∨
        m.kind?.getD (.str "progress") = .str "progress" ∧
          Commits (progressIntent r m agent task) c x c') := by
  simp only [send, htask, commits_bind, commits_ownedTask] at h
  obtain ⟨agent, t, hagent, task, _, ⟨hrow, hassignee, rfl⟩, h⟩ := h
  obtain rfl := (resolveAgent_cases hagent).1
  refine ⟨agent, task, hagent, hrow, hassignee, ?_⟩
  split at h
  · rename_i hkind
    exact .inl ⟨hkind, h⟩
  · split at h
    · rename_i hkind
      exact .inr ⟨hkind, h⟩
    · exact absurd h commits_throw

/-- **A stream passes the fence**, and then asks its question or waits for work. -/
theorem stream_cases (h : Commits (stream m) c x c') :
    ∃ agent, Commits (resolveAgent m) c agent c ∧
      ((∃ taskId task questionId, m.taskId = some taskId ∧ c.db.tasks.find? taskId = some task ∧
          task.assignee = some agent.name ∧
          Commits (openQuestion task.id agent.name m.text m.messageId) c questionId c' ∧
          x = .holdReply agent task questionId m.messageId) ∨
        m.taskId = none ∧ c' = c ∧ x = .holdAssignment agent) := by
  simp only [stream, commits_bind] at h
  obtain ⟨_, t, htimeout, h⟩ := h
  obtain rfl := checkTimeout_cases htimeout
  cases htask : m.taskId with
  | some taskId =>
    simp only [htask, commits_bind, commits_refuseWhen, commits_ownedTask, commits_store,
      commits_pure] at h
    obtain ⟨_, _, ⟨-, rfl⟩, agent, _, hagent, task, _, ⟨hrow, hassignee, rfl⟩, _, _, ⟨-, rfl⟩,
      questionId, _, hask, rfl, rfl⟩ := h
    obtain rfl := (resolveAgent_cases hagent).1
    exact ⟨agent, hagent, .inl ⟨taskId, task, questionId, rfl, hrow, hassignee, hask, rfl⟩⟩
  | none =>
    simp only [htask, commits_bind, commits_refuseWhen, commits_pure] at h
    obtain ⟨_, _, ⟨-, rfl⟩, agent, _, hagent, rfl, rfl⟩ := h
    obtain rfl := (resolveAgent_cases hagent).1
    exact ⟨agent, hagent, .inr ⟨rfl, rfl, rfl⟩⟩

/-- A request without a task is a heartbeat or a check-in. -/
theorem send_agent_cases (htask : m.taskId = none) (h : Commits (send r m remoteAddr) c x c') :
    (m.kind? = some (.str "heartbeat") ∧ Commits (heartbeatIntent m remoteAddr) c x c') ∨
      m.kind? ≠ some (.str "heartbeat") ∧ Commits (checkInIntent r m remoteAddr) c x c' := by
  simp only [send, htask] at h
  split at h
  · rename_i hkind
    exact .inl ⟨hkind, h⟩
  · rename_i hkind
    exact .inr ⟨hkind, h⟩

/-- **A stale process is refused**, or told that its heartbeat was not accepted. -/
theorem stale_dispatch (h : Commits (dispatch r remoteAddr q) c x c') (hd : c.db.Contexts)
    {a : AgentRecord} (ha : a ∈ c.db.agents) (hclaims : q.Claims a)
    (hstale : q.instance? ≠ some a.workerInstanceId ∨ a.status = .lost) :
    c'.hub = c.hub ∧ ∃ contextId, x = .heartbeat a.name false contextId := by
  -- whoever the fence lets through is the agent itself
  have hfence {m : A2AMessage} {b : AgentRecord} (hnames : m.Names a)
      (hm : m.instance? ≠ some a.workerInstanceId ∨ a.status = .lost)
      (hb : Commits (resolveAgent m) c b c) : False := by
    obtain ⟨-, hmem, hnames', hid, hlost⟩ := resolveAgent_cases hb
    obtain rfl := A2AMessage.names_unique hd ha hmem hnames hnames'
    exact hm.elim (fun hne => hne hid) hlost
  cases q with
  | send m =>
    simp only [dispatch, commits_bind] at h
    obtain ⟨_, t, hsizes, h⟩ := h
    obtain rfl := checkMessagePartSizes_cases hsizes
    cases htask : m.taskId with
    | some taskId =>
      obtain ⟨agent, _, hagent, -⟩ := send_task_cases htask h
      have hnames : m.Names a := by simpa [Request.Claims, htask] using hclaims
      exact (hfence hnames hstale hagent).elim
    | none =>
      have hbeat : m.kind? = some (.str "heartbeat") ∧
          fieldText? m.metadata "hub.agent" = some a.name := by
        simpa [Request.Claims, htask] using hclaims
      rcases send_agent_cases htask h with ⟨-, h⟩ | ⟨hkind, -⟩
      · obtain ⟨name, instanceId, taskId, accepted, contextId, hname, hid, hcommits, rfl⟩ :=
          heartbeatIntent_cases h
        obtain rfl : a.name = name := Option.some.inj (hbeat.2.symm.trans hname)
        obtain ⟨huuids, b, hb, ⟨rfl, hdb, -⟩ | ⟨-, hinstance, hlost, -⟩⟩ :=
          heartbeat_cases hcommits
        · exact ⟨by rw [Conn.hub, Conn.hub, hdb, huuids], contextId, rfl⟩
        · obtain rfl : a = b := Option.some.inj ((Table.find?_of_mem ha).symm.trans hb)
          refine hstale.elim (fun hne => ?_) (fun hl => absurd hl hlost)
          exact absurd (hid.trans (congrArg some hinstance.symm)) hne
      · exact absurd hbeat.1 hkind
  | stream m =>
    simp only [dispatch, commits_bind] at h
    obtain ⟨_, t, hsizes, h⟩ := h
    obtain rfl := checkMessagePartSizes_cases hsizes
    obtain ⟨agent, hagent, -⟩ := stream_cases h
    exact (hfence hclaims hstale hagent).elim
  | cancel taskId => exact absurd hclaims id

/-- The program of an operation commits when the operation does. -/
theorem commits_program {α : Type} {op : Op} {y : Txn α} {b : α} (h : program op = discard y)
    (hy : Commits y c b c') : Commits (program op) c () c' := by
  rw [h]
  exact commits_discard.mpr ⟨b, hy⟩

/-- **A request is one call of the store, or none**; a check-in only for READY. -/
theorem dispatch_op (h : Commits (dispatch r remoteAddr q) c x c') :
    c' = c ∨ ∃ op, Commits (program op) c () c' ∧
      ∀ name p instanceId ledgered addr, op = .checkIn name p instanceId ledgered addr →
        q.ReadyFor name := by
  cases q with
  | send m =>
    simp only [dispatch, commits_bind] at h
    obtain ⟨_, t, hsizes, h⟩ := h
    obtain rfl := checkMessagePartSizes_cases hsizes
    cases htask : m.taskId with
    | some taskId =>
      obtain ⟨agent, task, -, -, -, ⟨-, h⟩ | ⟨-, h⟩⟩ := send_task_cases htask h
      · obtain ⟨operationId, body, result, outcome, -, -, -, hsubmit, -⟩ := resultIntent_cases h
        exact .inr ⟨.submitResult .., commits_program rfl hsubmit,
          fun _ _ _ _ _ heq => by cases heq⟩
      · obtain ⟨operationId, outcome, -, hprogress, -⟩ := progressIntent_cases h
        exact .inr ⟨.recordProgress .., commits_program rfl hprogress,
          fun _ _ _ _ _ heq => by cases heq⟩
    | none =>
      rcases send_agent_cases htask h with ⟨-, h⟩ | ⟨hkind, h⟩
      · obtain ⟨name, instanceId, taskId, accepted, contextId, -, -, hbeat, -⟩ :=
          heartbeatIntent_cases h
        exact .inr ⟨.heartbeat .., commits_program rfl hbeat, fun _ _ _ _ _ heq => by cases heq⟩
      · obtain ⟨hready, operationId, instanceId, name, p, outcome, -, -, hname, hcheck, -⟩ :=
          checkInIntent_cases h
        refine .inr ⟨.checkIn .., commits_program rfl hcheck, fun n _ _ _ _ heq => ?_⟩
        obtain ⟨rfl, -⟩ := Op.checkIn.inj heq
        exact ⟨m, rfl, htask, hkind, hready, hname⟩
  | stream m =>
    simp only [dispatch, commits_bind] at h
    obtain ⟨_, t, hsizes, h⟩ := h
    obtain rfl := checkMessagePartSizes_cases hsizes
    obtain ⟨agent, -, ⟨taskId, task, questionId, -, -, -, hask, -⟩ | ⟨-, rfl, -⟩⟩ := stream_cases h
    · exact .inr ⟨.openQuestion .., commits_program rfl hask, fun _ _ _ _ _ heq => by cases heq⟩
    · exact .inl rfl
  | cancel taskId =>
    obtain ⟨task, hcancel, -⟩ := cancel_cases h
    exact .inr ⟨.cancelTask taskId, commits_program rfl hcancel, fun _ _ _ _ _ heq => by cases heq⟩

end

/-- A request takes the hub where one call of the store takes it, or nowhere. -/
theorem Request.exec_cases (r : Rendering) (q : Request) (remoteAddr : Option String)
    (clock : ℕ → Moment) (s : Hub) :
    q.exec r remoteAddr clock s = s ∨
      ∃ op, q.exec r remoteAddr clock s = (Call.mk op clock).exec s ∧
      ∀ name p instanceId ledgered addr, op = .checkIn name p instanceId ledgered addr →
        q.ReadyFor name := by
  rcases atomically_cases (dispatch r remoteAddr q) (s.connect clock) with
    ⟨x, c', hc, hat⟩ | ⟨e, -, hat⟩
  · rw [Request.exec, hat]
    rcases dispatch_op hc with rfl | ⟨op, hop, hready⟩
    · exact .inl rfl
    · refine .inr ⟨op, ?_, hready⟩
      rw [Call.exec, atomically_of_commits hop]
  · rw [Request.exec, hat]
    exact .inl rfl

/-! ### Who the current process is -/

/-- The row under `name` is there, and is of the process `instanceId` unless `p` holds. -/
def Db.KeepsInstance (d : Db) (name instanceId : String) (p : Prop) : Prop :=
  ∃ b, d.agents.find? name = some b ∧ (b.workerInstanceId = instanceId ∨ p)

/-- The call is a check-in under `name`. -/
def Call.ChecksIn (l : Call) (name : String) : Prop :=
  ∃ p instanceId ledgered remoteAddr, l.op = .checkIn name p instanceId ledgered remoteAddr

/-- **Only a check-in under its name** changes the process of an agent. -/
theorem instance_exec (l : Call) {s : Hub} (hs : s.db.Instanced) {a : AgentRecord}
    (ha : s.db.agents.find? a.name = some a) :
    (l.exec s).db.KeepsInstance a.name a.workerInstanceId (l.ChecksIn a.name) := by
  by_cases hkind : .checkIn ∈ l.op.kinds
  · obtain ⟨op, clock⟩ := l
    cases op with
    | checkIn name p instanceId ledgered remoteAddr =>
      rw [Call.exec_eq rfl clock s]
      rcases atomically_cases (checkIn name p instanceId ledgered remoteAddr) (s.connect clock)
        with ⟨m, c', hc, hat⟩ | ⟨e, -, hat⟩
      · rw [hat]
        obtain ⟨-, ⟨_, _, _, -, -, -, -, hdb⟩ | ⟨instanceId, contextId, d, agent, row, ts, ts₁, ts₂,
          ts₃, -, -, -, -, hadmits, -, -, -, -, -, hdb⟩⟩ := checkIn_cases hc
        · exact ⟨a, (congrArg (fun d => d.agents.find? a.name) hdb).trans ha, .inl rfl⟩
        · obtain ⟨hothers, -, b, hb, -⟩ := admits_agents hadmits hs
          have hagents : c'.db.agents = d.agents := by
            rw [hdb]
            rfl
          by_cases hn : a.name = name
          · subst hn
            exact ⟨b, (congrArg (fun t => t.find? a.name) hagents).trans hb,
              .inr ⟨p, _, ledgered, remoteAddr, rfl⟩⟩
          · refine ⟨a, (congrArg (fun t => t.find? a.name) hagents).trans ?_, .inl rfl⟩
            rw [hothers a.name hn]
            exact ha
      · rw [hat]
        exact ⟨a, ha, .inl rfl⟩
    | _ => simp [Op.kinds] at hkind
  · refine (moves_exec l s).invariant
      (I := fun t => t.db.KeepsInstance a.name a.workerInstanceId (l.ChecksIn a.name))
      (fun k t t' hk hmove hI => ?_) ⟨a, ha, .inl rfl⟩
    obtain ⟨b, hb, hid⟩ := hI
    have hne : k ≠ .checkIn := fun heq => hkind (heq ▸ hk)
    obtain ⟨b', hb', hstays⟩ := ((agents_move hmove hne) a.name).1 b hb
    exact ⟨b', hb', hid.imp_left hstays.instanceId.trans⟩

/-- A check-in that is not a replay finds the agent idle no longer, nor busy. -/
theorem fresh_checkIn {r : Rendering} {c c' : Conn} {q : Request} {remoteAddr : Option String}
    {x : Response} (h : Commits (dispatch r remoteAddr q) c x c') (hd : c.db.Instanced)
    {a : AgentRecord} (ha : c.db.agents.find? a.name = some a) (hready : q.ReadyFor a.name)
    (hfresh : ∀ m id, q = .send m → fieldText? m.metadata "hub.operation_id" = some id →
      c.db.operations.find? (a.name, id) = none) : ¬ a.status.live := by
  obtain ⟨m, rfl, htask, hkind, -, hname⟩ := hready
  simp only [dispatch, commits_bind] at h
  obtain ⟨_, t, hsizes, h⟩ := h
  obtain rfl := checkMessagePartSizes_cases hsizes
  obtain ⟨hbeat, -⟩ | ⟨-, h⟩ := send_agent_cases htask h
  · exact absurd hbeat hkind
  obtain ⟨-, operationId, instanceId, name, p, outcome, hop, -, hname', hcheck, -⟩ :=
    checkInIntent_cases h
  obtain rfl : a.name = name := Option.some.inj (hname.symm.trans hname')
  obtain ⟨-, ⟨id, hash, row, hentry, hrow, -⟩ | ⟨_, contextId, d, _, _, ts, _, _, _, -, -, -, -,
    hadmits, -⟩⟩ := checkIn_cases hcheck
  · obtain ⟨rfl, -⟩ := Prod.mk.inj (Option.some.inj hentry)
    rw [hfresh m operationId rfl hop] at hrow
    cases hrow
  · exact (admits_agents hadmits hd).2.1 a ha

/-- **Stale processes.**  In every state of every run: a request that claims to come from an agent,
    but names another process than its current one or comes while it is lost, is refused, or told
    that its heartbeat was not accepted, and changes nothing; the process of an agent changes only
    by a check-in under its name, which for a request means READY; and such a request is accepted,
    unless it repeats an operation, only while the agent is neither idle nor busy. -/
theorem stale_processes (r : Rendering) (u : Uuids) (ls : List Call) :
    let s := (Hub.start u).run ls
    (∀ a ∈ s.db.agents, ∀ (q : Request) remoteAddr clock, q.Claims a →
      q.instance? ≠ some a.workerInstanceId ∨ a.status = .lost →
        q.exec r remoteAddr clock s = s ∧
          ((∃ e, (atomically (dispatch r remoteAddr q) (s.connect clock)).1 = .error e) ∨
            ∃ contextId, (atomically (dispatch r remoteAddr q) (s.connect clock)).1
              = .ok (.heartbeat a.name false contextId))) ∧
    (∀ a ∈ s.db.agents,
      (∀ l : Call, (l.exec s).db.KeepsInstance a.name a.workerInstanceId (l.ChecksIn a.name)) ∧
      ∀ (q : Request) remoteAddr clock, (q.exec r remoteAddr clock s).db.KeepsInstance a.name
        a.workerInstanceId (q.ReadyFor a.name)) ∧
    ∀ a ∈ s.db.agents, ∀ (q : Request) remoteAddr clock x, q.ReadyFor a.name →
      (∀ m id, q = .send m → fieldText? m.metadata "hub.operation_id" = some id →
        s.db.operations.find? (a.name, id) = none) →
      (atomically (dispatch r remoteAddr q) (s.connect clock)).1 = .ok x → ¬ a.status.live := by
  intro s
  have hcontexts : s.db.Contexts := contexts_run u ls
  have hinstanced : s.db.Instanced := instanced_run u ls
  refine ⟨fun a ha q remoteAddr clock hclaims hstale => ?_, fun a ha => ⟨fun l => ?_, ?_⟩, ?_⟩
  · rcases atomically_cases (dispatch r remoteAddr q) (s.connect clock) with
      ⟨x, c', hc, hat⟩ | ⟨e, -, hat⟩
    · obtain ⟨hhub, contextId, rfl⟩ := stale_dispatch hc hcontexts ha hclaims hstale
      rw [Request.exec, hat]
      exact ⟨hhub, .inr ⟨contextId, rfl⟩⟩
    · rw [Request.exec, hat]
      exact ⟨rfl, .inl ⟨e, rfl⟩⟩
  · exact instance_exec l hinstanced (Table.find?_of_mem ha)
  · intro q remoteAddr clock
    obtain hexec | ⟨op, hexec, hready⟩ := q.exec_cases r remoteAddr clock s
    · rw [hexec]
      exact ⟨a, Table.find?_of_mem ha, .inl rfl⟩
    · obtain ⟨b, hb, hid⟩ := instance_exec ⟨op, clock⟩ hinstanced (Table.find?_of_mem ha)
      rw [hexec]
      refine ⟨b, hb, hid.imp_right ?_⟩
      rintro ⟨p, instanceId, ledgered, addr, hop⟩
      exact hready _ p instanceId ledgered addr hop
  · intro a ha q remoteAddr clock x hready hfresh hx
    exact fresh_checkIn (commits_of_atomically hx) hinstanced (Table.find?_of_mem ha) hready hfresh

end AgentHub
