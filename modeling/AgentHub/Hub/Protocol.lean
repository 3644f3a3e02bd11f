import AgentHub.Hub.Replay

namespace AgentHub

open Relational

/-!
# The JSON-RPC surface of the workers

`A2AProtocol` reads a request, finds out who is calling and on which task, and runs one store
operation.  Nothing is awaited in between, so a request is one atomic step; what a held stream
does later are polls of its own.

* `A2AMessage` — a validated message of a request; `Handler` — what serves it;
* `require*`, `profile` — the fields a message must carry, each with its refusal;
* `resolveAgent`, `ownedTask` — the caller and its task, with the fence against processes that
  were superseded or lost;
* `send`, `stream`, `cancel` — the three methods that write; `Request.exec`, one request as a step;
* `*Intent_cases`, `cancel_cases` — the store operation behind each answer.
-/

/-! ### Requests -/

/-- One part of a message: its text if it is a text part, and the value it is measured as. -/
structure A2APart where
  text? : Option String
  wire : Json

/-- A message that has passed the schema of `message/send` and `message/stream`. -/
structure A2AMessage where
  messageId : String
  contextId : Option String
  taskId : Option String
  parts : List A2APart
  metadata : Fields

/-- A request, by its method. -/
inductive Request where
  | send (message : A2AMessage)
  | stream (message : A2AMessage)
  | cancel (taskId : String)

/-- Why a request is refused. -/
inductive ProtocolError where
  | store (e : StoreError)
  | invalidParams (message : String)
  | missingRequiredField (message : String)
  | resultValidation (message : String)
  | unsupportedSchemaVersion (message : String)
  | taskNotFound
  | taskNotCancelable (message : String)
deriving DecidableEq

/-- The service of a request. -/
abbrev Handler := Transaction ProtocolError Conn

/-- What answers a request.  A stream is answered later, from the hold it opens. -/
inductive Response where
  | stored (response : Option (String × Bool))
  | heartbeat (agent : String) (accepted : Bool) (contextId : Option String)
  | holdReply (agent : AgentRecord) (task : TaskRecord) (questionId : ℕ) (sentAs : String)
  | holdAssignment (agent : AgentRecord)
  | canceled (task : TaskRecord)

/-- What the handlers leave to the A2A package and to `hashlib`: the text of a stored response,
    and the hash of a payload. -/
structure Rendering where
  hash : Payload → String
  checkInAck : AgentRecord → String
  progressAck : AgentRecord → TaskRecord → String
  finished : AgentRecord → TaskRecord → String

/-- A store operation, inside a handler. -/
def store {α : Type} (x : Txn α) : Handler α := fun c =>
  match x.run c with
  | .ok r => .ok r
  | .error e => .error (.store e)

/-- The value, or the refusal. -/
def orRefuse {α : Type} (o : Option α) (e : ProtocolError) : Handler α :=
  match o with
  | some a => pure a
  | none => throw e

/-- Refuse if `p` holds. -/
def refuseWhen (p : Prop) [Decidable p] (e : ProtocolError) : Handler Unit :=
  if p then throw e else pure ()

section

variable {c c' : Conn} {α : Type}

/-- A store call commits as the transaction it wraps. -/
@[simp] theorem commits_store {x : Txn α} {a : α} :
    Commits (store x) c a c' ↔ Commits x c a c' := by
  show (match x.run c with
    | .ok r => (.ok r : Except ProtocolError (α × Conn))
    | .error e => .error (.store e)) = .ok (a, c') ↔ x.run c = .ok (a, c')
  cases x.run c with
  | ok r => simp
  | error e => simp

/-- A look-up commits with what it found. -/
@[simp] theorem commits_orRefuse {o : Option α} {e : ProtocolError} {a : α} :
    Commits (orRefuse o e) c a c' ↔ o = some a ∧ c' = c := by
  cases o with
  | none => simp [orRefuse]
  | some b => simp [orRefuse, eq_comm]

/-- A guard commits when nothing is wrong. -/
@[simp] theorem commits_refuseWhen {p : Prop} [Decidable p] {e : ProtocolError} {u : Unit} :
    Commits (refuseWhen p e) c u c' ↔ ¬ p ∧ c' = c := by
  unfold refuseWhen
  by_cases h : p <;> simp [h]

end

/-! ### Fields of a message -/

mutual

/-- `repr` of a JSON value, for the refusals that quote one. -/
def Json.pyRepr : Json → String
  | .null => "None"
  | .bool b => if b then "True" else "False"
  | .num literal => literal
  | .str s => AgentHub.pyRepr s
  | .arr items => "[" ++ ", ".intercalate (Json.pyReprItems items) ++ "]"
  | .obj fields => "\x7b" ++ ", ".intercalate (Json.pyReprFields fields) ++ "\x7d"

/-- `repr` of the items of a list. -/
def Json.pyReprItems : List Json → List String
  | [] => []
  | a :: as => a.pyRepr :: Json.pyReprItems as

/-- `repr` of the entries of a dict. -/
def Json.pyReprFields : List (String × Json) → List String
  | [] => []
  | (k, a) :: as => (AgentHub.pyRepr k ++ ": " ++ a.pyRepr) :: Json.pyReprFields as

end

/-- A field that holds a string which is not blank, stripped. -/
def fieldText? (metadata : Fields) (key : String) : Option String :=
  (((metadata.lookup key).bind Json.asStr?).map strip).filter fun s => s ≠ ""

/-- `_text`: the text parts of the message, joined. -/
def A2AMessage.text (m : A2AMessage) : String :=
  strip (String.join (m.parts.filterMap A2APart.text?))

/-- `_check_message_part_sizes`. -/
def checkMessagePartSizes (m : A2AMessage) : Handler Unit :=
  match (m.parts.zipIdx 1).find? fun p => maxMessagePartBytes < p.1.wire.sizeBytes with
  | none => pure ()
  | some (part, index) =>
    throw (.store ⟨.payloadTooLarge, tooLarge s!"message part {index}" part.wire.sizeBytes
      maxMessagePartBytes "send a URL or compact reference instead."⟩)

/-- `_require_schema_version`. -/
def requireSchemaVersion (metadata : Fields) : Handler Unit := do
  let version ← orRefuse (metadata.lookup "hub.schema_version") (.unsupportedSchemaVersion
    ("unsupported schema_version: " ++ pyRepr "metadata.hub.schema_version is required"))
  refuseWhen (version ≠ .num "1") (.unsupportedSchemaVersion
    s!"unsupported schema_version: {version.pyRepr}")

/-- `_require_operation_id`. -/
def requireOperationId (metadata : Fields) : Handler String := do
  refuseWhen (metadata.lookup "hub.operation_id" = none)
    (.missingRequiredField "metadata.hub.operation_id is required")
  orRefuse (fieldText? metadata "hub.operation_id")
    (.missingRequiredField "metadata.hub.operation_id must be a non-empty string")

/-- `_require_worker_instance_id`. -/
def requireWorkerInstanceId (metadata : Fields) : Handler String :=
  orRefuse (fieldText? metadata "hub.worker_instance_id")
    (.missingRequiredField "metadata.hub.worker_instance_id must be a non-empty string")

/-- `_require_result`. -/
def requireResult (metadata : Fields) : Handler Fields :=
  match metadata.lookup "hub.result" with
  | none | some .null => throw (.resultValidation "metadata.hub.result is required")
  | some (.obj fields) => pure fields
  | some _ => throw (.resultValidation "metadata.hub.result must be an object")

/-- `_string_list`. -/
def stringList (metadata : Fields) (key : String) : Handler (List String) :=
  match metadata.lookup key with
  | none | some .null => pure []
  | some (.arr items) =>
    orRefuse (items.mapM Json.asStr?) (.invalidParams s!"metadata.{key} must be a list of strings")
  | some _ => throw (.invalidParams s!"metadata.{key} must be a list of strings")

/-- `_profile_text`: absent, blank or `unknown` is none. -/
def profileText (metadata : Fields) (key : String) : Handler (Option String) :=
  match metadata.lookup key with
  | none | some .null => pure none
  | some (.str s) => pure ((some (strip s)).filter fun t => t ≠ "" ∧ t ≠ unknown)
  | some _ => throw (.invalidParams s!"metadata.{key} must be a string")

/-- `_profile`: what the worker does not report is unknown, and a model needs its source. -/
def profile (metadata : Fields) : Handler AgentProfile := do
  let model ← profileText metadata "hub.model"
  let rawSource ← profileText metadata "hub.model_source"
  let stated ← orRefuse (ModelSource.ofValue? (rawSource.getD unknown))
    (.invalidParams "metadata.hub.model_source must be one of declared, env, unknown")
  refuseWhen (model ≠ none ∧ stated = .unknown)
    (.invalidParams "metadata.hub.model needs metadata.hub.model_source (env or declared)")
  let capabilities ← stringList metadata "hub.capabilities"
  let harness ← profileText metadata "hub.harness"
  let harnessVersion ← profileText metadata "hub.harness_version"
  let provider ← profileText metadata "hub.provider"
  let workspaceId ← profileText metadata "hub.workspace_id"
  let declaredModel ← profileText metadata "hub.declared_model"
  return {
    harness := harness.getD unknown
    harnessVersion := harnessVersion.getD unknown
    provider := provider.getD unknown
    model := model.getD unknown
    modelSource := if model = none then .unknown else stated
    capabilities := ((capabilities.map strip).filter fun item => item ≠ "").eraseDups
    workspaceId
    declaredModel := declaredModel.getD unknown }

/-! ### Who is calling -/

/-- `agent_by_context`. -/
def Db.agentByContext? (d : Db) (contextId : String) : Option AgentRecord :=
  d.agents.rows.find? fun a => a.contextId = contextId

/-- `_require_current_instance`. -/
def requireCurrentInstance (agent : AgentRecord) (metadata : Fields) : Handler AgentRecord := do
  let instanceId ← requireWorkerInstanceId metadata
  refuseWhen (instanceId ≠ agent.workerInstanceId)
    (.invalidParams s!"worker instance for agent {agent.name} has been superseded")
  refuseWhen (agent.status = .lost)
    (.invalidParams s!"agent {agent.name} is lost; check in with a new worker instance")
  return agent

/-- The context id a message is sent under; an empty one counts as none. -/
def A2AMessage.context? (m : A2AMessage) : Option String := m.contextId.filter fun id => id ≠ ""

/-- `_resolve_agent`: the caller by its context id, falling back to its name. -/
def resolveAgent (m : A2AMessage) : Handler AgentRecord :=
  match m.context? with
  | some contextId => do
    let agent ← orRefuse ((← store readDb).agentByContext? contextId)
      (.invalidParams s!"unknown contextId {pyRepr contextId}; check in first")
    requireCurrentInstance agent m.metadata
  | none => do
    let name ← orRefuse (fieldText? m.metadata "hub.agent")
      (.invalidParams "the message needs a contextId or metadata.hub.agent")
    let agent ← orRefuse ((← store readDb).agents.find? name)
      (.invalidParams ("unknown agent " ++ ((m.metadata.lookup "hub.agent").getD .null).pyRepr ++
        "; check in first"))
    requireCurrentInstance agent m.metadata

/-- `_owned_task`. -/
def ownedTask (taskId : String) (agent : AgentRecord) : Handler TaskRecord := do
  let task ← orRefuse ((← store readDb).tasks.find? taskId) .taskNotFound
  refuseWhen (task.assignee ≠ some agent.name)
    (.invalidParams s!"task {taskId} is not assigned to {agent.name}")
  return task

/-! ### Intents -/

section

variable (r : Rendering)

/-- `_check_in`. -/
def checkInIntent (m : A2AMessage) (remoteAddr : Option String) : Handler Response := do
  refuseWhen (m.text.toUpper ≠ "READY")
    (.invalidParams "a message with no taskId must be the READY check-in")
  requireSchemaVersion m.metadata
  let operationId ← requireOperationId m.metadata
  let workerInstanceId ← requireWorkerInstanceId m.metadata
  let name ← orRefuse (fieldText? m.metadata "hub.agent")
    (.invalidParams "check-in requires metadata.hub.agent")
  let profile ← profile m.metadata
  let payload : Payload := .checkIn name (some workerInstanceId) profile.sorted
  let outcome ← store (checkIn name profile (some workerInstanceId)
    ⟨some operationId, some (r.hash payload), some r.checkInAck⟩ remoteAddr)
  return .stored outcome.response

/-- The task a heartbeat names; one that is present must not be blank. -/
def currentTaskField (metadata : Fields) : Handler (Option String) :=
  match metadata.lookup "hub.current_task_id" with
  | none | some .null => pure none
  | some _ => do
    let taskId ← orRefuse (fieldText? metadata "hub.current_task_id")
      (.invalidParams "metadata.hub.current_task_id must be a non-empty string when present")
    return some taskId

/-- `_heartbeat`. -/
def heartbeatIntent (m : A2AMessage) (remoteAddr : Option String) : Handler Response := do
  requireSchemaVersion m.metadata
  let name ← orRefuse (fieldText? m.metadata "hub.agent")
    (.invalidParams "heartbeat requires metadata.hub.agent")
  let instanceId ← requireWorkerInstanceId m.metadata
  let currentTaskId ← currentTaskField m.metadata
  let accepted ← store (heartbeat name instanceId currentTaskId none remoteAddr)
  let agent := (← store readDb).agents.find? name
  return .heartbeat name accepted (agent.map AgentRecord.contextId)

/-- The progress branch of `_send`. -/
def progressIntent (m : A2AMessage) (agent : AgentRecord) (task : TaskRecord) :
    Handler Response := do
  requireSchemaVersion m.metadata
  let operationId ← requireOperationId m.metadata
  let outcome ← store (recordProgress task.id agent.name m.text
    ⟨some operationId, some (r.hash (.progress task.id m.text)),
      some fun _ => r.progressAck agent task⟩)
  return .stored outcome.response

/-- `result_dict["summary"] = summary`. -/
def setSummary (summary : String) : Fields → Fields
  | [] => [("summary", .str summary)]
  | (key, value) :: rest =>
    if key = "summary" then (key, .str summary) :: rest else (key, value) :: setSummary summary rest

/-- The value is one that Python counts as false. -/
def Json.falsy : Json → Bool
  | .null | .bool false | .str "" | .arr [] | .obj [] => true
  | .num literal => literal = "0" ∨ literal = "0.0" ∨ literal = "-0.0"
  | _ => false

/-- The body a result is validated as: the text of the message stands in for a summary. -/
def withSummary (body : Fields) (summary : String) : Fields :=
  if ((body.lookup "summary").all Json.falsy) = true ∧ summary ≠ "" then setSummary summary body
  else body

/-- The body, against the model of the task's role; without one, against the model its shape
    asks for. -/
def typedResult? (role : String) (body : Fields) : Except String TaskResult :=
  match TaskRole.ofValue? role with
  | some .implementer => (ImplementerResult.validate body).elim
    (.error "invalid ImplementerResult") (.ok ∘ .implementer)
  | some .reviewer => (ReviewerResult.validate body).elim
    (.error "invalid ReviewerResult") (.ok ∘ .reviewer)
  | some .rebase => (RebaseResult.validate body).elim
    (.error "invalid RebaseResult") (.ok ∘ .rebase)
  | none =>
    if (body.lookup "outcome").isSome then (ImplementerResult.validate body).elim
      (.error "invalid ImplementerResult") (.ok ∘ .implementer)
    else if (body.lookup "verdict").isSome then (ReviewerResult.validate body).elim
      (.error "invalid ReviewerResult") (.ok ∘ .reviewer)
    else .error "result must specify 'outcome' or 'verdict'"

/-- The body as a typed result, or the refusal. -/
def requireTypedResult (role : String) (body : Fields) : Handler TaskResult :=
  match typedResult? role body with
  | .ok result => pure result
  | .error message => throw (.resultValidation message)

/-- `_result`. -/
def resultIntent (m : A2AMessage) (agent : AgentRecord) (task : TaskRecord) : Handler Response := do
  requireSchemaVersion m.metadata
  let operationId ← requireOperationId m.metadata
  let body ← requireResult m.metadata
  refuseWhen (maxTypedResultBytes < (Json.obj body).sizeBytes)
    (.store ⟨.payloadTooLarge, tooLarge "typed result" (Json.obj body).sizeBytes
      maxTypedResultBytes "submit only references and compact metadata."⟩)
  let result ← requireTypedResult task.role (withSummary body m.text)
  let payload : Payload := .result task.id (some (.typed result)) "" [] none
  let outcome ← store (submitResult task.id agent.name (some (.typed result)) "" [] none
    ⟨some operationId, some (r.hash payload), some (r.finished agent)⟩)
  return .stored outcome.response

/-- `metadata.get(hub.kind)`. -/
def A2AMessage.kind? (m : A2AMessage) : Option Json := m.metadata.lookup "hub.kind"

/-- `_send`. -/
def send (m : A2AMessage) (remoteAddr : Option String) : Handler Response :=
  match m.taskId with
  | none =>
    if m.kind? = some (.str "heartbeat") then heartbeatIntent m remoteAddr
    else checkInIntent r m remoteAddr
  | some taskId => do
    let agent ← resolveAgent m
    let task ← ownedTask taskId agent
    let kind := m.kind?.getD (.str "progress")
    if kind = .str "result" then resultIntent r m agent task
    else if kind = .str "progress" then progressIntent r m agent task
    else throw (.invalidParams
      s!"metadata.hub.kind {kind.pyRepr} is not a message/send intent on a task")

/-- `_timeout`, but for the length of the hold. -/
def checkTimeout (metadata : Fields) : Handler Unit :=
  match metadata.lookup "hub.timeout_s" with
  | none | some .null | some (.num _) => pure ()
  | some _ => throw (.invalidParams "metadata.hub.timeout_s must be a number of seconds")

/-- `_stream`, up to the hold. -/
def stream (m : A2AMessage) : Handler Response := do
  checkTimeout m.metadata
  match m.taskId with
  | some taskId =>
    refuseWhen (m.kind? ≠ some (.str "question"))
      (.invalidParams "a streaming call on a task must be metadata.hub.kind=question")
    let agent ← resolveAgent m
    let task ← ownedTask taskId agent
    refuseWhen (m.text = "") (.invalidParams "a question needs text")
    let questionId ← store (openQuestion task.id agent.name m.text m.messageId)
    return .holdReply agent task questionId m.messageId
  | none =>
    refuseWhen (m.text.toUpper ≠ "NEXT")
      (.invalidParams "a streaming call with no taskId must be the NEXT poll")
    let agent ← resolveAgent m
    return .holdAssignment agent

/-- `_cancel_task`. -/
def cancel (taskId : String) : Handler Response := fun c =>
  match c.db.tasks.find? taskId with
  | none => .error .taskNotFound
  | some _ =>
    match (cancelTask taskId).run c with
    | .ok (task, c') => .ok (.canceled task, c')
    | .error e => .error (if e.kind = .conflict then .taskNotCancelable e.message else .store e)

/-- `_dispatch`. -/
def dispatch (remoteAddr : Option String) : Request → Handler Response
  | .send m => do
    checkMessagePartSizes m
    send r m remoteAddr
  | .stream m => do
    checkMessagePartSizes m
    stream m
  | .cancel taskId => cancel taskId

/-- One request, as a step of the hub: what it writes, or nothing when it is refused. -/
def Request.exec (q : Request) (remoteAddr : Option String) (clock : ℕ → Moment) (s : Hub) : Hub :=
  (atomically (dispatch r remoteAddr q) (s.connect clock)).2.hub

end

/-! ### What a request runs -/

section

variable {c c' : Conn} {m : A2AMessage}

/-- The schema version has to be 1. -/
@[simp] theorem commits_requireSchemaVersion {metadata : Fields} {u : Unit} :
    Commits (requireSchemaVersion metadata) c u c' ↔
      metadata.lookup "hub.schema_version" = some (.num "1") ∧ c' = c := by
  simp only [requireSchemaVersion, commits_bind, commits_orRefuse, commits_refuseWhen, not_not]
  constructor
  · rintro ⟨version, _, ⟨hversion, rfl⟩, rfl, rfl⟩
    exact ⟨hversion, rfl⟩
  · rintro ⟨hversion, rfl⟩
    exact ⟨_, _, ⟨hversion, rfl⟩, rfl, rfl⟩

/-- The operation id has to be a text that is not empty. -/
@[simp] theorem commits_requireOperationId {metadata : Fields} {id : String} :
    Commits (requireOperationId metadata) c id c' ↔
      fieldText? metadata "hub.operation_id" = some id ∧ c' = c := by
  simp only [requireOperationId, commits_bind, commits_orRefuse, commits_refuseWhen]
  constructor
  · rintro ⟨_, _, ⟨-, rfl⟩, hid, rfl⟩
    exact ⟨hid, rfl⟩
  · rintro ⟨hid, rfl⟩
    refine ⟨(), _, ⟨fun hnone => ?_, rfl⟩, hid, rfl⟩
    simp [fieldText?, hnone] at hid

/-- The worker instance id has to be a text that is not empty. -/
@[simp] theorem commits_requireWorkerInstanceId {metadata : Fields} {id : String} :
    Commits (requireWorkerInstanceId metadata) c id c' ↔
      fieldText? metadata "hub.worker_instance_id" = some id ∧ c' = c :=
  commits_orRefuse

/-- The result has to be one of the role's models. -/
@[simp] theorem commits_requireTypedResult {role : String} {body : Fields} {t : TaskResult} :
    Commits (requireTypedResult role body) c t c' ↔ typedResult? role body = .ok t ∧ c' = c := by
  unfold requireTypedResult
  cases typedResult? role body with
  | ok result => simp [eq_comm]
  | error message => simp

/-- The result has to be an object. -/
theorem requireResult_cases {metadata body : Fields}
    (h : Commits (requireResult metadata) c body c') :
    metadata.lookup "hub.result" = some (.obj body) ∧ c' = c := by
  unfold requireResult at h
  split at h
  · exact absurd h commits_throw
  · exact absurd h commits_throw
  · rename_i fields hfields
    obtain ⟨rfl, rfl⟩ := commits_pure.mp h
    exact ⟨hfields, rfl⟩
  · exact absurd h commits_throw

/-- Checking the part sizes writes nothing. -/
theorem checkMessagePartSizes_cases {u : Unit} (h : Commits (checkMessagePartSizes m) c u c') :
    c' = c := by
  unfold checkMessagePartSizes at h
  split at h
  · exact (commits_pure.mp h).2
  · exact absurd h commits_throw

/-- Checking the timeout writes nothing. -/
theorem checkTimeout_cases {metadata : Fields} {u : Unit}
    (h : Commits (checkTimeout metadata) c u c') : c' = c := by
  unfold checkTimeout at h
  split at h
  · exact (commits_pure.mp h).2
  · exact (commits_pure.mp h).2
  · exact (commits_pure.mp h).2
  · exact absurd h commits_throw

/-- Reading a text of the profile writes nothing. -/
theorem profileText_cases {metadata : Fields} {key : String} {o : Option String}
    (h : Commits (profileText metadata key) c o c') : c' = c := by
  unfold profileText at h
  split at h
  · exact (commits_pure.mp h).2
  · exact (commits_pure.mp h).2
  · exact (commits_pure.mp h).2
  · exact absurd h commits_throw

/-- Reading a list of texts writes nothing. -/
theorem stringList_cases {metadata : Fields} {key : String} {items : List String}
    (h : Commits (stringList metadata key) c items c') : c' = c := by
  unfold stringList at h
  split at h
  · exact (commits_pure.mp h).2
  · exact (commits_pure.mp h).2
  · exact (commits_orRefuse.mp h).2
  · exact absurd h commits_throw

/-- Reading a profile touches nothing. -/
theorem profile_cases {metadata : Fields} {p : AgentProfile}
    (h : Commits (profile metadata) c p c') : c' = c := by
  simp only [profile, commits_bind, commits_orRefuse, commits_refuseWhen, commits_pure] at h
  obtain ⟨_, _, h₁, _, _, h₂, _, _, ⟨-, rfl⟩, _, _, ⟨-, rfl⟩, _, _, h₃, _, _, h₄, _, _, h₅, _, _,
    h₆, _, _, h₇, _, _, h₈, -, rfl⟩ := h
  rw [profileText_cases h₈, profileText_cases h₇, profileText_cases h₆, profileText_cases h₅,
    profileText_cases h₄, stringList_cases h₃, profileText_cases h₂, profileText_cases h₁]

/-- Reading the current task writes nothing. -/
theorem currentTaskField_cases {metadata : Fields} {o : Option String}
    (h : Commits (currentTaskField metadata) c o c') : c' = c := by
  unfold currentTaskField at h
  split at h
  · exact (commits_pure.mp h).2
  · exact (commits_pure.mp h).2
  · simp only [commits_bind, commits_orRefuse, commits_pure] at h
    obtain ⟨_, _, ⟨-, rfl⟩, -, rfl⟩ := h
    rfl

variable {r : Rendering} {remoteAddr : Option String} {a : Response}

/-- **A check-in request** runs `check_in` under the fields of the message. -/
theorem checkInIntent_cases (h : Commits (checkInIntent r m remoteAddr) c a c') :
    m.text.toUpper = "READY" ∧ ∃ operationId instanceId name p outcome,
      fieldText? m.metadata "hub.operation_id" = some operationId ∧
      fieldText? m.metadata "hub.worker_instance_id" = some instanceId ∧
      fieldText? m.metadata "hub.agent" = some name ∧
      Commits (checkIn name p (some instanceId) ⟨some operationId,
        some (r.hash (.checkIn name (some instanceId) p.sorted)), some r.checkInAck⟩ remoteAddr)
        c outcome c' ∧ a = .stored outcome.response := by
  simp only [checkInIntent, commits_bind, commits_refuseWhen, commits_requireSchemaVersion,
    commits_requireOperationId, commits_requireWorkerInstanceId, commits_orRefuse, commits_store,
    commits_pure, not_not] at h
  obtain ⟨_, _, ⟨hready, rfl⟩, _, _, ⟨-, rfl⟩, operationId, _, ⟨hop, rfl⟩, instanceId, _,
    ⟨hid, rfl⟩, name, _, ⟨hname, rfl⟩, p, _, hprofile, outcome, _, hcheck, rfl, rfl⟩ := h
  obtain rfl := profile_cases hprofile
  exact ⟨hready, operationId, instanceId, name, p, outcome, hop, hid, hname, hcheck, rfl⟩

/-- **A heartbeat request** runs `heartbeat`. -/
theorem heartbeatIntent_cases (h : Commits (heartbeatIntent m remoteAddr) c a c') :
    ∃ name instanceId taskId accepted contextId,
      fieldText? m.metadata "hub.agent" = some name ∧
      fieldText? m.metadata "hub.worker_instance_id" = some instanceId ∧
      Commits (heartbeat name instanceId taskId none remoteAddr) c accepted c' ∧
      a = .heartbeat name accepted contextId := by
  simp only [heartbeatIntent, commits_bind, commits_requireSchemaVersion,
    commits_requireWorkerInstanceId, commits_orRefuse, commits_store, commits_readDb,
    commits_pure] at h
  obtain ⟨_, _, ⟨-, rfl⟩, name, _, ⟨hname, rfl⟩, instanceId, _, ⟨hid, rfl⟩, taskId, _, htask,
    accepted, _, hbeat, _, _, ⟨rfl, rfl⟩, rfl, rfl⟩ := h
  obtain rfl := currentTaskField_cases htask
  exact ⟨name, instanceId, taskId, accepted, _, hname, hid, hbeat, rfl⟩

/-- **A progress request** runs `record_progress`. -/
theorem progressIntent_cases {agent : AgentRecord} {task : TaskRecord}
    (h : Commits (progressIntent r m agent task) c a c') :
    ∃ operationId outcome, fieldText? m.metadata "hub.operation_id" = some operationId ∧
      Commits (recordProgress task.id agent.name m.text ⟨some operationId,
        some (r.hash (.progress task.id m.text)), some fun _ => r.progressAck agent task⟩)
        c outcome c' ∧ a = .stored outcome.response := by
  simp only [progressIntent, commits_bind, commits_requireSchemaVersion, commits_requireOperationId,
    commits_store, commits_pure] at h
  obtain ⟨_, _, ⟨-, rfl⟩, operationId, _, ⟨hop, rfl⟩, outcome, _, hprogress, rfl, rfl⟩ := h
  exact ⟨operationId, outcome, hop, hprogress, rfl⟩

/-- **A result request** runs `submit_result` on a body that its model accepts. -/
theorem resultIntent_cases {agent : AgentRecord} {task : TaskRecord}
    (h : Commits (resultIntent r m agent task) c a c') :
    ∃ operationId body result outcome, fieldText? m.metadata "hub.operation_id" = some operationId ∧
      m.metadata.lookup "hub.result" = some (.obj body) ∧
      typedResult? task.role (withSummary body m.text) = .ok result ∧
      Commits (submitResult task.id agent.name (some (.typed result)) "" [] none
        ⟨some operationId, some (r.hash (.result task.id (some (.typed result)) "" [] none)),
          some (r.finished agent)⟩) c outcome c' ∧ a = .stored outcome.response := by
  simp only [resultIntent, commits_bind, commits_requireSchemaVersion, commits_requireOperationId,
    commits_refuseWhen, commits_requireTypedResult, commits_store, commits_pure] at h
  obtain ⟨_, _, ⟨-, rfl⟩, operationId, _, ⟨hop, rfl⟩, body, _, hbody, _, _, ⟨-, rfl⟩, result, _,
    ⟨hresult, rfl⟩, outcome, _, hsubmit, rfl, rfl⟩ := h
  obtain ⟨hfield, rfl⟩ := requireResult_cases hbody
  exact ⟨operationId, body, result, outcome, hop, hfield, hresult, hsubmit, rfl⟩

/-- **A cancel request** runs `cancel_task`. -/
theorem cancel_cases {taskId : String} (h : Commits (cancel taskId) c a c') :
    ∃ task, Commits (cancelTask taskId) c task c' ∧ a = .canceled task := by
  unfold cancel Commits at h
  cases htask : c.db.tasks.find? taskId with
  | none => simp [StateT.run, htask] at h
  | some _ =>
    cases hcancel : cancelTask taskId c with
    | error e => simp [StateT.run, htask, hcancel] at h
    | ok result =>
      obtain ⟨task, t⟩ := result
      simp only [StateT.run, htask, hcancel] at h
      obtain ⟨rfl, rfl⟩ := Prod.mk.inj (Except.ok.inj h)
      exact ⟨task, hcancel, rfl⟩

end

end AgentHub
