import AgentHub.Hub.System

namespace AgentHub

open Relational

/-!
# The mutation ledger over runs

The three worker mutations are answered from the ledger when they come again.  What a mutation
asks for is its payload, and its hash is taken of that; the hash is a parameter, and the one thing
asked of it is that the payloads of a run do not collide.

* `Payload`, `Op.mutating?` — what a mutation asks for, and the ledger key it comes under;
* `respond_cases` — all that a mutation can do: answer from the ledger, or act once and record it;
* `ledgers_cases` — with all three ledger arguments nothing is committed without its row;
* `LedgerRun` — the hub with the mutations recorded so far; the operation table is that record;
* `mutation_ledger` — replays, conflicts, and one event and one message for every row.
-/

/-! ### Payloads -/

/-- What a mutation asks for.  A check-in is hashed with its capabilities in order. -/
inductive Payload where
  | checkIn (name : String) (workerInstanceId : Option String) (profile : AgentProfile)
  | progress (taskId note : String)
  | result (taskId : String) (result : Option ResultArg) (summary : String)
      (artifacts : List Fields) (status : Option TaskState)

/-- `sorted(profile.capabilities)`. -/
def AgentProfile.sorted (p : AgentProfile) : AgentProfile :=
  { p with capabilities := p.capabilities.mergeSort fun a b => decide (a ≤ b) }

/-- A mutation as the ledger sees it. -/
structure Mutating where
  actor : String
  operationId : Option String
  payloadHash : Option String
  payload : Payload

/-- The worker mutations among the operations. -/
def Op.mutating? : Op → Option Mutating
  | .checkIn name profile workerInstanceId op _ =>
    some ⟨name, op.operationId, op.payloadHash, .checkIn name workerInstanceId profile.sorted⟩
  | .recordProgress taskId agent note op =>
    some ⟨agent, op.operationId, op.payloadHash, .progress taskId note⟩
  | .submitResult taskId agent result summary artifacts status op =>
    some ⟨agent, op.operationId, op.payloadHash, .result taskId result summary artifacts status⟩
  | _ => none

/-- All three ledger arguments are given. -/
def Ledgered.Complete {α : Type} (op : Ledgered α) : Prop :=
  op.operationId.isSome = true ∧ op.payloadHash.isSome = true ∧ op.responseBuilder.isSome = true

/-- A mutation that comes with all three ledger arguments. -/
def Op.Ledgers : Op → Prop
  | .checkIn _ _ _ op _ => op.Complete
  | .recordProgress _ _ _ op => op.Complete
  | .submitResult _ _ _ _ _ _ op => op.Complete
  | _ => False

/-- The hash a mutation comes with is the hash of its payload, as `_hash_payload` takes it. -/
def Op.Hashed (hash : Payload → String) (op : Op) : Prop :=
  ∀ m ∈ op.mutating?, ∀ h ∈ m.payloadHash, h = hash m.payload

/-- No two payloads of these calls have one hash. -/
def CollisionFree (hash : Payload → String) (ls : List Call) : Prop :=
  ∀ l ∈ ls, ∀ l' ∈ ls, ∀ m ∈ l.op.mutating?, ∀ m' ∈ l'.op.mutating?,
    hash m.payload = hash m'.payload → m.payload = m'.payload

/-- The first half of `submit_result`, which runs before the ledger is asked, lets it through. -/
def Payload.Settles : Payload → Prop
  | .result _ arg summary artifacts status =>
    ∃ s, settlement (arg.or (status.map .status)) summary artifacts = .ok s ∧
      (Json.obj s.payload).sizeBytes ≤ maxTypedResultBytes
  | _ => True

/-! ### Responses -/

/-- `(response_json, fresh)`, where a call returns it. -/
def Mutation.response {α : Type} : Mutation α → Option (String × Bool)
  | .recorded responseJson => some (responseJson, true)
  | .replayed responseJson => some (responseJson, false)
  | .bare _ | .unrecorded _ => none

/-- An operation, with the response of a mutation as its result. -/
def respond : Op → Txn (Option (String × Bool))
  | .checkIn name profile workerInstanceId op remoteAddr =>
    Mutation.response <$> checkIn name profile workerInstanceId op remoteAddr
  | .recordProgress taskId agent note op =>
    Mutation.response <$> recordProgress taskId agent note op
  | .submitResult taskId agent result summary artifacts status op =>
    Mutation.response <$> submitResult taskId agent result summary artifacts status op
  | op => (fun _ => none) <$> program op

/-- The hub a call leaves is the one its response comes from. -/
theorem exec_eq_respond (l : Call) (s : Hub) :
    l.exec s = (atomically (respond l.op) (s.connect l.clock)).2.hub := by
  obtain ⟨op, clock⟩ := l
  cases op <;> simp only [respond, atomically_map] <;> first | rfl | exact Call.exec_eq rfl clock s

/-- A call leaves a ledger row exactly when it answers with a fresh response. -/
theorem Ledgered.row?_cases {α : Type} (op : Ledgered α) (actor : String) (value : α)
    (created : Stamp) :
    (∃ r, op.row? actor value created = some r ∧
      (op.outcome value).response = some (r.responseJson, true) ∧ actor = r.actor ∧
      op.operationId = some r.operationId ∧ op.payloadHash = some r.payloadHash) ∨
    (op.row? actor value created = none ∧ (op.outcome value).response = none) := by
  rcases op with ⟨_ | id, _ | hash, _ | build⟩
  case some.some.some => exact .inl ⟨_, rfl, rfl, rfl, rfl, rfl⟩
  all_goals exact .inr ⟨rfl, rfl⟩

/-- A mutation with all three arguments that ran answers with what it recorded. -/
theorem Ledgered.Complete.outcome {α : Type} {op : Ledgered α} (h : op.Complete) (value : α) :
    ∃ responseJson, op.outcome value = .recorded responseJson := by
  rcases op with ⟨_ | id, _ | hash, _ | build⟩
  case some.some.some => exact ⟨_, rfl⟩
  all_goals simp [Ledgered.Complete] at h

/-- A lookup needs the id and the hash. -/
theorem Ledgered.entry?_eq_some_iff {α : Type} {op : Ledgered α} {id hash : String} :
    op.entry? = some (id, hash) ↔ op.operationId = some id ∧ op.payloadHash = some hash := by
  rcases op with ⟨_ | id', _ | hash', build⟩ <;> simp [Ledgered.entry?]

/-! ### What a mutation does -/

/-- The message and the event that a mutation writes. -/
def Op.Describes (op : Op) (m : MessageRecord) (e : EventRecord) : Prop :=
  match op with
  | .checkIn name profile _ _ _ =>
    m.sender = name ∧ m.parts = readyParts profile ∧
      ∃ contextId instanceId, e.payload = .agentCheckedIn name profile contextId instanceId
  | .recordProgress taskId agent note _ =>
    m.sender = agent ∧ m.taskId = some taskId ∧ m.parts = [⟨note, .progress⟩] ∧
      e.payload = .taskProgress taskId agent note
  | .submitResult taskId agent result summary artifacts status _ =>
    ∃ s, settlement (result.or (status.map .status)) summary artifacts = .ok s ∧
      m.sender = agent ∧ m.taskId = some taskId ∧ m.parts = [resultPart s.summary s.state] ∧
      e.payload = s.event taskId agent
  | _ => False

/-- One message, one event, and the ledger row if there is one, under a key that was free. -/
structure Db.Mutates (d d' : Db) (row : Option OperationRecord) (m : MessageRecord)
    (e : EventRecord) : Prop where
  messages : d'.messages.rows = d.messages.rows ++ [m]
  events : d'.events.rows = d.events.rows ++ [e]
  operations : d'.operations = (d.record row).operations
  fresh : ∀ r ∈ row, d.operations.find? r.key = none

/-- The row is under the actor and the operation id of the call. -/
def Mutating.Under (mu : Mutating) (row : OperationRecord) : Prop :=
  mu.actor = row.actor ∧ mu.operationId = some row.operationId

/-- The call is answered from the ledger. -/
def Mutating.Replays (mu : Mutating) (d : Db) (o : Option (String × Bool)) : Prop :=
  ∃ row ∈ d.operations, mu.Under row ∧ mu.payloadHash = some row.payloadHash ∧
    o = some (row.responseJson, false)

/-- The call acts, under an operation id the ledger does not know, and answers with the row it
    leaves. -/
def Mutating.Acts (mu : Mutating) (d : Db) (row : Option OperationRecord)
    (o : Option (String × Bool)) : Prop :=
  (∀ id hash, mu.operationId = some id → mu.payloadHash = some hash →
    d.operations.find? (mu.actor, id) = none) ∧
  ((∃ r, row = some r ∧ o = some (r.responseJson, true) ∧ mu.Under r ∧
      mu.payloadHash = some r.payloadHash) ∨
    row = none ∧ o = none)

/-- **What a mutation does.**  It is answered from the ledger and writes nothing, or it acts. -/
theorem respond_cases {op : Op} {mu : Mutating} (hop : op.mutating? = some mu) {c c' : Conn}
    {o : Option (String × Bool)} (h : Commits (respond op) c o c') :
    mu.payload.Settles ∧
      ((mu.Replays c.db o ∧ c'.db = c.db) ∨
        ∃ row m e, c.db.Mutates c'.db row m e ∧ op.Describes m e ∧ mu.Acts c.db row o) := by
  -- the two ways a call goes through the ledger, in the words of the cases lemmas
  have hreplays {α : Type} {actor : String} {l : Ledgered α} {payload : Payload}
      {id hash : String} {row : OperationRecord} (hentry : l.entry? = some (id, hash))
      (hrow : c.db.operations.find? (actor, id) = some row) (hhash : row.payloadHash = hash) :
      Mutating.Replays ⟨actor, l.operationId, l.payloadHash, payload⟩ c.db
        (Mutation.replayed (α := α) row.responseJson).response := by
    obtain ⟨hid, hh⟩ := Ledgered.entry?_eq_some_iff.mp hentry
    have hkey := Table.find?_key hrow
    obtain rfl : row.operationId = id := congrArg Prod.snd hkey
    have hactor : row.actor = actor := congrArg Prod.fst hkey
    exact ⟨row, Table.mem_of_find? hrow, ⟨hactor.symm, hid⟩, hhash ▸ hh, rfl⟩
  have hacts {α : Type} {actor : String} {l : Ledgered α} {payload : Payload} {value : α}
      {created : Stamp} (hfresh : ∀ id hash, l.entry? = some (id, hash) →
        c.db.operations.find? (actor, id) = none) :
      Mutating.Acts ⟨actor, l.operationId, l.payloadHash, payload⟩ c.db
        (l.row? actor value created) (l.outcome value).response := by
    refine ⟨fun id hash hid hh => hfresh id hash (Ledgered.entry?_eq_some_iff.mpr ⟨hid, hh⟩), ?_⟩
    rcases l.row?_cases actor value created with ⟨r, hr, ho, hactor, hid, hhash⟩ | hnone
    · exact .inl ⟨r, hr, ho, ⟨hactor, hid⟩, hhash⟩
    · exact .inr hnone
  cases op <;> cases hop
  case checkIn name profile workerInstanceId l remoteAddr =>
    obtain ⟨m, hm, rfl⟩ := commits_map.mp h
    refine ⟨trivial, ?_⟩
    obtain ⟨-, ⟨id, hash, row, hentry, hrow, hhash, rfl, hdb⟩ | ⟨instanceId, contextId, d, agent,
      row, ts, ts₁, ts₂, ts₃, -, -, hfresh, -, hadmits, -, -, hrow, hfree, rfl, hdb⟩⟩ :=
      checkIn_cases hm
    · exact .inl ⟨hreplays hentry hrow hhash, hdb⟩
    · have hmessages : c'.db.messages.rows = c.db.messages.rows ++
          [{ id := c.db.messages.seq + 1, taskId := none, contextId, sender := name,
             direction := .toAlice, parts := readyParts profile, ts := ts₁ }] := by
        rw [hdb, ← hadmits.frame Db.messages fun _ => rfl]
        rfl
      have hevents : c'.db.events.rows = c.db.events.rows ++
          [{ id := c.db.events.seq + 1,
             payload := .agentCheckedIn name profile contextId instanceId, ts := ts₂ }] := by
        rw [hdb, ← hadmits.frame Db.events fun _ => rfl]
        rfl
      have hoperations : c'.db.operations = (c.db.record row).operations := by
        rw [hdb, Db.record_operations, Db.record_operations,
          ← hadmits.frame Db.operations fun _ => rfl]
        rfl
      exact .inr ⟨row, _, _, ⟨hmessages, hevents, hoperations, hfree⟩,
        ⟨rfl, rfl, contextId, instanceId, rfl⟩, hrow ▸ hacts hfresh⟩
  case recordProgress taskId agent note l =>
    obtain ⟨m, hm, rfl⟩ := commits_map.mp h
    refine ⟨trivial, ?_⟩
    obtain ⟨-, ⟨id, hash, row, hentry, hrow, hhash, rfl, hdb⟩ | ⟨task, worker, row, ts, ts₁, ts₂,
      ts₃, hfresh, -, -, -, -, hrow, hfree, rfl, hdb⟩⟩ := recordProgress_cases hm
    · exact .inl ⟨hreplays hentry hrow hhash, hdb⟩
    · have hmessages : c'.db.messages.rows = c.db.messages.rows ++
          [{ id := c.db.messages.seq + 1, taskId := some taskId, contextId := worker.contextId,
             sender := agent, direction := .toAlice, parts := [⟨note, .progress⟩], ts }] := by
        rw [hdb]; rfl
      have hevents : c'.db.events.rows = c.db.events.rows ++
          [{ id := c.db.events.seq + 1, payload := .taskProgress taskId agent note,
             ts := ts₁ }] := by
        rw [hdb]; rfl
      have hoperations : c'.db.operations = (c.db.record row).operations := by rw [hdb]; rfl
      exact .inr ⟨row, _, _, ⟨hmessages, hevents, hoperations, hfree⟩, ⟨rfl, rfl, rfl, rfl⟩,
        hrow ▸ hacts hfresh⟩
  case submitResult taskId agent result summary artifacts status l =>
    obtain ⟨m, hm, rfl⟩ := commits_map.mp h
    obtain ⟨-, s, hs, hfits, hcases⟩ := submitResult_cases hm
    refine ⟨⟨s, hs, hfits⟩, ?_⟩
    obtain ⟨id, hash, row, hentry, hrow, hhash, rfl, hdb⟩ | ⟨task, worker, finished, row, ts, ts₁,
      ts₂, ts₃, hfresh, -, -, -, -, -, hrow, hfree, rfl, hdb⟩ := hcases
    · exact .inl ⟨hreplays hentry hrow hhash, hdb⟩
    · have hmessages : c'.db.messages.rows = c.db.messages.rows ++
          [{ id := c.db.messages.seq + 1, taskId := some taskId, contextId := worker.contextId,
             sender := agent, direction := .toAlice, parts := [resultPart s.summary s.state],
             ts }] := by
        rw [hdb]; rfl
      have hevents : c'.db.events.rows = c.db.events.rows ++
          [{ id := c.db.events.seq + 1, payload := s.event taskId agent, ts := ts₂ }] := by
        rw [hdb]; rfl
      have hoperations : c'.db.operations = (c.db.record row).operations := by rw [hdb]; rfl
      exact .inr ⟨row, _, _, ⟨hmessages, hevents, hoperations, hfree⟩,
        ⟨s, hs, rfl, rfl, rfl, rfl⟩, hrow ▸ hacts hfresh⟩

/-- A mutation with all three ledger arguments has a response, once it commits. -/
theorem respond_isSome {op : Op} (hop : op.Ledgers) {c c' : Conn} {o : Option (String × Bool)}
    (h : Commits (respond op) c o c') : o ≠ none := by
  -- a replay has the recorded response, and a call that ran the one it recorded
  have houtcome {α : Type} {l : Ledgered α} (hl : l.Complete) (value : α) :
      (l.outcome value).response ≠ none := by
    obtain ⟨responseJson, hrecorded⟩ := hl.outcome value
    rw [hrecorded]
    exact Option.some_ne_none _
  cases op
  case checkIn name profile workerInstanceId l remoteAddr =>
    obtain ⟨m, hm, rfl⟩ := commits_map.mp h
    obtain ⟨-, ⟨_, _, _, -, -, -, rfl, -⟩ |
      ⟨_, _, _, agent, _, _, _, _, _, -, -, -, -, -, -, -, -, -,
      rfl, -⟩⟩ := checkIn_cases hm
    · exact Option.some_ne_none _
    · exact houtcome hop agent
  case recordProgress taskId agent note l =>
    obtain ⟨m, hm, rfl⟩ := commits_map.mp h
    obtain ⟨-, ⟨_, _, _, -, -, -, rfl, -⟩ | ⟨_, _, _, _, _, _, _, -, -, -, -, -, -, -, rfl, -⟩⟩ :=
      recordProgress_cases hm
    · exact Option.some_ne_none _
    · exact houtcome hop _
  case submitResult taskId agent result summary artifacts status l =>
    obtain ⟨m, hm, rfl⟩ := commits_map.mp h
    obtain ⟨-, _, -, -, ⟨_, _, _, -, -, -, rfl, -⟩ |
      ⟨_, _, _, _, _, _, _, _, -, -, -, -, -, -, -, -,
      rfl, -⟩⟩ := submitResult_cases hm
    · exact Option.some_ne_none _
    · exact houtcome hop _
  all_goals exact absurd hop id

/-- A call that comes with the payload of a row is answered with what the row says. -/
theorem respond_of_row {op : Op} {mu : Mutating} (hop : op.mutating? = some mu)
    (hsettles : mu.payload.Settles) {c : Conn} {row : OperationRecord}
    (hrow : row ∈ c.db.operations) (hunder : mu.Under row)
    (hhash : mu.payloadHash = some row.payloadHash) :
    ∃ c', Commits (respond op) c (some (row.responseJson, false)) c' ∧ c'.db = c.db := by
  have hfind : c.db.operations.find? (mu.actor, row.operationId) = some row := by
    rw [hunder.1]
    exact Table.find?_of_mem hrow
  -- what the lookup finds, whatever the connection has drawn before it
  have hreplay {α : Type} {l : Ledgered α} {c' : Conn} (hdb : c'.db = c.db)
      (hid : l.operationId = some row.operationId) (hh : l.payloadHash = some row.payloadHash) :
      Commits (replay mu.actor l) c' (some row.responseJson) c' :=
    commits_replay.mpr ⟨rfl, .inr ⟨_, _, row, Ledgered.entry?_eq_some_iff.mpr ⟨hid, hh⟩,
      hdb.symm ▸ hfind, rfl, rfl⟩⟩
  cases op <;> cases hop
  case checkIn name profile workerInstanceId l remoteAddr =>
    obtain ⟨id, c', hid, hdb⟩ :=
      instanceIdOrNew_commits workerInstanceId { c with clock := fun n => c.clock (n + 1) }
    refine ⟨c', commits_map.mpr ⟨.replayed row.responseJson, ?_, rfl⟩, hdb⟩
    refine commits_bind.mpr ⟨_, _, commits_nowIso.mpr ⟨rfl, rfl⟩, ?_⟩
    refine commits_bind.mpr ⟨id, c', hid, ?_⟩
    exact commits_bind.mpr ⟨_, c', hreplay hdb hunder.2 hhash, commits_pure.mpr ⟨rfl, rfl⟩⟩
  case recordProgress taskId agent note l =>
    refine ⟨c, commits_map.mpr ⟨.replayed row.responseJson, ?_, rfl⟩, rfl⟩
    exact commits_bind.mpr ⟨_, c, hreplay rfl hunder.2 hhash, commits_pure.mpr ⟨rfl, rfl⟩⟩
  case submitResult taskId agent result summary artifacts status l =>
    obtain ⟨settled, hsettled, hfits⟩ := hsettles
    refine ⟨c, commits_map.mpr ⟨.replayed row.responseJson, ?_, rfl⟩, rfl⟩
    refine commits_bind.mpr ⟨settled, c, commits_ofExcept.mpr ⟨hsettled, rfl⟩, ?_⟩
    refine commits_bind.mpr ⟨(), c,
      commits_ofExcept.mpr ⟨requireResultFits_eq_ok.mpr hfits, rfl⟩, ?_⟩
    exact commits_bind.mpr ⟨_, c, hreplay rfl hunder.2 hhash, commits_pure.mpr ⟨rfl, rfl⟩⟩

/-- A call that comes with another payload than a row under its id does not commit. -/
theorem not_commits_of_row {op : Op} {mu : Mutating} (hop : op.mutating? = some mu) {c : Conn}
    {row : OperationRecord} (hrow : row ∈ c.db.operations) (hunder : mu.Under row) {hash : String}
    (hhash : mu.payloadHash = some hash) (hne : hash ≠ row.payloadHash) (o : Option (String × Bool))
    (c' : Conn) : ¬ Commits (respond op) c o c' := by
  intro h
  obtain ⟨-, ⟨⟨row', hrow', hunder', hhash', -⟩, -⟩ | ⟨-, -, -, -, -, hfresh, -⟩⟩ :=
    respond_cases hop h
  · have hid : row'.operationId = row.operationId :=
      Option.some.inj (hunder'.2.symm.trans hunder.2)
    have hsame : row' = row := Table.eq_of_key_eq hrow' hrow
      (Prod.ext (hunder'.1.symm.trans hunder.1) hid)
    rw [hsame, hhash] at hhash'
    exact hne (Option.some.inj hhash')
  · have hnone := hfresh row.operationId hash hunder.2 hhash
    rw [hunder.1] at hnone
    exact Table.find?_eq_none_iff.mp hnone row hrow rfl

/-! ### The ledger along a run -/

/-- What a row says of the mutation it records. -/
structure LedgerEntry where
  actor : String
  operationId : String
  payloadHash : String
  responseJson : String

/-- The ledger's view of a stored operation. -/
def OperationRecord.entry (r : OperationRecord) : LedgerEntry :=
  ⟨r.actor, r.operationId, r.payloadHash, r.responseJson⟩

/-- The mutation that the call commits under an operation id: it returns
    `(response_json, True)`. -/
def Call.recorded (l : Call) (s : Hub) : Option LedgerEntry :=
  match l.op.mutating?, (atomically (respond l.op) (s.connect l.clock)).1 with
  | some ⟨actor, some operationId, some payloadHash, _⟩, .ok (some (responseJson, true)) =>
    some ⟨actor, operationId, payloadHash, responseJson⟩
  | _, _ => none

/-- The hub, with the mutations its calls have committed under an operation id. -/
abbrev LedgerRun := Observed Hub LedgerEntry

/-- The run from a fresh database. -/
def LedgerRun.run (u : Uuids) (ls : List Call) : LedgerRun :=
  runFrom (Observed.step Call.exec Call.recorded) ⟨Hub.start u, []⟩ ls

/-- Operations other than the three mutations leave the ledger alone. -/
theorem operations_move {k : Kind} {s s' : Hub} (h : Move k s s')
    (hk : k ∉ [.checkIn, .progress, .settle]) : s'.db.operations = s.db.operations := by
  cases h with
  | checkIn | progress | settle => simp at hk
  | _ => rfl

/-- A call without ledger arguments makes no ledgered move. -/
theorem kinds_of_not_mutating {op : Op} (hop : op.mutating? = none) :
    ∀ k ∈ op.kinds, k ∉ [.checkIn, .progress, .settle] := by
  cases op
  case checkIn | recordProgress | submitResult => cases hop
  all_goals simp [Op.kinds]

/-- A call without ledger arguments leaves the ledger alone. -/
theorem operations_exec {l : Call} (hop : l.op.mutating? = none) (s : Hub) :
    (l.exec s).db.operations = s.db.operations := by
  have hkinds := kinds_of_not_mutating hop
  exact (moves_exec l s).invariant (I := fun s' => s'.db.operations = s.db.operations)
    (fun k _ _ hk hmove h => (operations_move hmove (hkinds k hk)).trans h) rfl

/-- One mutation is committed under its operation id: the row, the message and the event. -/
structure Call.Records (l : Call) (s : Hub) (mu : Mutating) (row : OperationRecord)
    (m : MessageRecord) (e : EventRecord) : Prop where
  mutating : l.op.mutating? = some mu
  settles : mu.payload.Settles
  under : mu.Under row
  payloadHash : mu.payloadHash = some row.payloadHash
  recorded : l.recorded s = some row.entry
  describes : l.op.Describes m e
  mutates : s.db.Mutates (l.exec s).db (some row) m e

/-- A call that acts and answers with the row it leaves records it. -/
theorem records_of_acts {l : Call} {s : Hub} {mu : Mutating} {row : OperationRecord}
    {m : MessageRecord} {e : EventRecord} {c' : Conn} (hop : l.op.mutating? = some mu)
    (hsettles : mu.payload.Settles) (hunder : mu.Under row)
    (hhash : mu.payloadHash = some row.payloadHash) (hdescribes : l.op.Describes m e)
    (hmutates : s.db.Mutates c'.db (some row) m e)
    (hat : atomically (respond l.op) (s.connect l.clock) =
      (.ok (some (row.responseJson, true)), c')) : l.Records s mu row m e := by
  have hexec := exec_eq_respond l s
  rw [hat] at hexec
  have hrecorded : l.recorded s = some row.entry := by
    obtain ⟨actor, id, hash, payload⟩ := mu
    obtain ⟨rfl, rfl⟩ := hunder
    obtain rfl := hhash
    simp only [Call.recorded, hop, hat, OperationRecord.entry]
  exact ⟨hop, hsettles, hunder, hhash, hrecorded, hdescribes, hexec ▸ hmutates⟩

/-- **A step and the ledger.**  A call records one mutation, or it records none and the ledger
    stays as it is. -/
theorem recorded_cases (l : Call) (s : Hub) :
    (∃ mu row m e, l.Records s mu row m e) ∨
      (l.recorded s = none ∧ (l.exec s).db.operations = s.db.operations) := by
  cases hop : l.op.mutating? with
  | none =>
    have hnone : l.recorded s = none := by simp only [Call.recorded, hop]
    exact .inr ⟨hnone, operations_exec hop s⟩
  | some mu =>
    have hexec := exec_eq_respond l s
    rcases atomically_cases (respond l.op) (s.connect l.clock) with ⟨o, c', hc, hat⟩ | ⟨e, -, hat⟩
    · rw [hat] at hexec
      obtain ⟨hsettles, ⟨⟨row, -, hunder, hhash, rfl⟩, hdb⟩ | ⟨row, m, e, hmutates, hdescribes, -,
        ⟨r, rfl, rfl, hunder, hhash⟩ | ⟨rfl, rfl⟩⟩⟩ := respond_cases hop hc
      · have hnone : l.recorded s = none := by simp [Call.recorded, hat]
        exact .inr ⟨hnone, by rw [hexec]; exact congrArg Db.operations hdb⟩
      · exact .inl ⟨mu, r, m, e,
          records_of_acts hop hsettles hunder hhash hdescribes hmutates hat⟩
      · have hnone : l.recorded s = none := by simp [Call.recorded, hat]
        exact .inr ⟨hnone, by rw [hexec]; exact hmutates.operations⟩
    · rw [hat] at hexec
      have hnone : l.recorded s = none := by simp [Call.recorded, hat]
      exact .inr ⟨hnone, by rw [hexec]; rfl⟩

/-- **A mutation with all three ledger arguments.**  It raises and changes nothing; or it is
    answered from the ledger and changes no table; or it is recorded. -/
theorem ledgers_cases {l : Call} (hl : l.op.Ledgers) (s : Hub) :
    (∃ e, atomically (respond l.op) (s.connect l.clock) = (.error e, s.connect l.clock)) ∨
    (∃ mu ∈ l.op.mutating?, ∃ o c', mu.Replays s.db o ∧ c'.db = s.db ∧
      atomically (respond l.op) (s.connect l.clock) = (.ok o, c')) ∨
    ∃ mu row m e, l.Records s mu row m e := by
  obtain ⟨mu, hop⟩ : ∃ mu, l.op.mutating? = some mu := by
    obtain ⟨op, clock⟩ := l
    cases op
    case checkIn | recordProgress | submitResult => exact ⟨_, rfl⟩
    all_goals exact absurd hl id
  rcases atomically_cases (respond l.op) (s.connect l.clock) with ⟨o, c', hc, hat⟩ | ⟨e, -, hat⟩
  · obtain ⟨hsettles, ⟨hreplays, hdb⟩ | ⟨row, m, e, hmutates, hdescribes, -,
      ⟨r, rfl, rfl, hunder, hhash⟩ | ⟨-, rfl⟩⟩⟩ := respond_cases hop hc
    · exact .inr (.inl ⟨mu, hop, o, c', hreplays, hdb, hat⟩)
    · exact .inr (.inr ⟨mu, r, m, e,
        records_of_acts hop hsettles hunder hhash hdescribes hmutates hat⟩)
    · exact absurd rfl (respond_isSome hl hc)
  · exact .inl ⟨e, hat⟩

/-- The row that a step records goes to the end of the ledger. -/
theorem Call.Records.rows {l : Call} {s : Hub} {mu : Mutating} {row : OperationRecord}
    {m : MessageRecord} {e : EventRecord} (h : l.Records s mu row m e) :
    (l.exec s).db.operations.rows = s.db.operations.rows ++ [row] := by
  rw [h.mutates.operations]
  exact Table.rows_insertOrIgnore (h.mutates.fresh row rfl)

/-- The ledger is the history of the mutations committed under an operation id. -/
theorem ledger_history (u : Uuids) (ls : List Call) :
    (LedgerRun.run u ls).state.db.operations.rows.map OperationRecord.entry =
      (LedgerRun.run u ls).log := by
  refine run_invariant (I := fun r : LedgerRun =>
    r.state.db.operations.rows.map OperationRecord.entry = r.log) (fun l r hr => ?_) rfl ls
  show (l.exec r.state).db.operations.rows.map OperationRecord.entry =
    r.log ++ (l.recorded r.state).toList
  obtain ⟨mu, row, m, e, h⟩ | ⟨hnone, hoperations⟩ := recorded_cases l r.state
  · rw [h.rows, h.recorded, List.map_append, hr]
    rfl
  · rw [hoperations, hnone, hr, Option.toList_none, List.append_nil]

/-- Every row of the ledger was written by a call of the run. -/
theorem written_by {s : Hub} {ls : List Call} {row : OperationRecord}
    (hrow : row ∈ (s.run ls).db.operations) :
    row ∈ s.db.operations ∨
      ∃ l ∈ ls, ∃ mu, l.op.mutating? = some mu ∧ mu.payload.Settles ∧ mu.Under row ∧
        mu.payloadHash = some row.payloadHash := by
  induction ls generalizing s with
  | nil => exact .inl hrow
  | cons l ls ih =>
    rcases ih hrow with hbefore | ⟨l', hl', hwritten⟩
    · obtain ⟨mu, row', m, e, h⟩ | ⟨-, hoperations⟩ := recorded_cases l s
      · rw [Table.mem_iff, h.rows, List.mem_append, List.mem_singleton] at hbefore
        rcases hbefore with hbefore | rfl
        · exact .inl hbefore
        · exact .inr ⟨l, List.mem_cons_self, mu, h.mutating, h.settles, h.under, h.payloadHash⟩
      · exact .inl (hoperations ▸ hbefore)
    · exact .inr ⟨l', List.mem_cons_of_mem _ hl', hwritten⟩

/-- **The mutation ledger.**  Along every run the rows of the ledger are exactly the mutations
    committed under an operation id, and the step that committed one left its row, one message
    and one event.  A mutation that comes with all three ledger arguments raises and changes
    nothing, or is answered from the ledger and changes no table, or leaves its row; so none is
    committed without one.  A row was written by a call of the run, under the hash of its payload.
    From then on a call by that actor with that operation id is answered with the recorded
    response if it has the same payload, and raises if it has another; either way no table
    changes. -/
theorem mutation_ledger (u : Uuids) (ls : List Call) (hash : Payload → String) :
    let r := LedgerRun.run u ls
    (r.state.db.operations.rows.map OperationRecord.entry = r.log ∧
      ∀ l : Call, ((∃ mu row m e, l.Records r.state mu row m e) ∨
          (l.recorded r.state = none ∧
            (l.exec r.state).db.operations = r.state.db.operations)) ∧
        (l.op.Ledgers →
          (∃ e, atomically (respond l.op) (r.state.connect l.clock) =
            (.error e, r.state.connect l.clock)) ∨
          (∃ mu ∈ l.op.mutating?, ∃ o c', mu.Replays r.state.db o ∧ c'.db = r.state.db ∧
            atomically (respond l.op) (r.state.connect l.clock) = (.ok o, c')) ∨
          ∃ mu row m e, l.Records r.state mu row m e)) ∧
    ∀ row ∈ r.state.db.operations, ∀ l : Call,
      (∀ l' ∈ l :: ls, l'.op.Hashed hash) → CollisionFree hash (l :: ls) →
      ∃ l₀ ∈ ls, ∃ mu₀ ∈ l₀.op.mutating?, mu₀.Under row ∧ hash mu₀.payload = row.payloadHash ∧
        ∀ mu ∈ l.op.mutating?, mu.Under row → mu.payloadHash.isSome = true →
          (mu.payload = mu₀.payload → ∃ c', c'.db = r.state.db ∧
            atomically (respond l.op) (r.state.connect l.clock) =
              (.ok (some (row.responseJson, false)), c')) ∧
          (mu.payload ≠ mu₀.payload → ∃ e,
            atomically (respond l.op) (r.state.connect l.clock) =
              (.error e, r.state.connect l.clock)) := by
  intro r
  refine ⟨⟨ledger_history u ls, fun l =>
    ⟨recorded_cases l r.state, fun hl => ledgers_cases hl r.state⟩⟩, ?_⟩
  intro row hrow l hhashed hcoll
  have hstate : r.state = (Hub.start u).run ls := Observed.state_runFrom Call.exec _ _ ls
  rw [hstate] at hrow
  rcases written_by hrow with hstart | ⟨l₀, hl₀, mu₀, hop₀, hsettles, hunder₀, hhash₀⟩
  · exact absurd hstart (Table.not_mem_empty row)
  -- the call that wrote the row came with the hash of its own payload
  have hwritten : row.payloadHash = hash mu₀.payload :=
    hhashed l₀ (List.mem_cons_of_mem l hl₀) mu₀ hop₀ _ hhash₀
  refine ⟨l₀, hl₀, mu₀, hop₀, hunder₀, hwritten.symm, fun mu hop hunder hsome => ?_⟩
  obtain ⟨given, hgiven⟩ := Option.isSome_iff_exists.mp hsome
  have hcomes : given = hash mu.payload := hhashed l List.mem_cons_self mu hop given hgiven
  rw [← hstate] at hrow
  have hrow' : row ∈ (r.state.connect l.clock).db.operations := hrow
  constructor
  · intro hsame
    have hhash : mu.payloadHash = some row.payloadHash := by
      rw [hgiven, hcomes, hsame, hwritten]
    obtain ⟨c', hc, hdb⟩ := respond_of_row hop (hsame ▸ hsettles) hrow' hunder hhash
    exact ⟨c', hdb, atomically_of_commits hc⟩
  · intro hother
    have hne : given ≠ row.payloadHash := by
      intro heq
      rw [hcomes, hwritten] at heq
      exact hother (hcoll l List.mem_cons_self l₀ (List.mem_cons_of_mem l hl₀) mu hop mu₀ hop₀ heq)
    rcases atomically_cases (respond l.op) (r.state.connect l.clock) with ⟨o, c', hc, -⟩ | ⟨e, -, h⟩
    · exact absurd hc (not_commits_of_row hop hrow' hunder hgiven hne o c')
    · exact ⟨e, h⟩

/-- Ada checks in and is released; her check-in arrives again and is answered as it was then. -/
theorem replayed_check_in :
    let ready : Call :=
      ⟨.checkIn "ada" {} (some "ada-1") ⟨some "op-1", some "ada",
        some fun a => a.status.value⟩ none,
        stoppedClock⟩
    let s := (LedgerRun.run .unary [ready, ⟨.releaseAgent "ada", stoppedClock⟩]).state
    ready.op.Ledgers ∧ ∃ c', c'.db = s.db ∧
      atomically (respond ready.op) (s.connect stoppedClock) =
        (.ok (some ("idle", false)), c') := by
  intro ready s
  let hash : Payload → String
    | .checkIn name _ _ => name
    | .progress _ note => note
    | .result taskId _ _ _ _ => taskId
  have hmu {l : Call} {mu : Mutating} (hl : l ∈ [ready, ready, ⟨.releaseAgent "ada", stoppedClock⟩])
      (h : mu ∈ l.op.mutating?) :
      mu = ⟨"ada", some "op-1", some "ada",
        .checkIn "ada" (some "ada-1") (AgentProfile.sorted {})⟩ := by
    simp only [List.mem_cons, List.not_mem_nil, or_false] at hl
    rcases hl with rfl | rfl | rfl
    · exact (Option.some.inj h).symm
    · exact (Option.some.inj h).symm
    · cases h
  have hrow : ∃ row ∈ s.db.operations.rows, row.actor = "ada" ∧ row.operationId = "op-1" ∧
      row.responseJson = "idle" := by decide +kernel
  obtain ⟨row, hrow, hactor, hid, hresponse⟩ := hrow
  obtain ⟨l₀, hl₀, mu₀, hmu₀, -, -, hanswers⟩ :=
    (mutation_ledger .unary [ready, ⟨.releaseAgent "ada", stoppedClock⟩] hash).2 row hrow ready
      (fun l hl mu h given hgiven => by
        rw [hmu hl h] at hgiven ⊢
        exact (Option.some.inj hgiven).symm)
      (fun l hl l' hl' mu h mu' h' _ => by rw [hmu hl h, hmu hl' h'])
  obtain ⟨c', hdb, hc⟩ := (hanswers _ rfl ⟨hactor.symm, by rw [hid]⟩ rfl).1
    (by rw [hmu (List.mem_cons_of_mem ready hl₀) hmu₀])
  exact ⟨⟨rfl, rfl, rfl⟩, c', hdb, hresponse ▸ hc⟩

end AgentHub
