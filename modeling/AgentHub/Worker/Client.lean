import AgentHub.Hub.Submission
import AgentHub.Hub.Termination

namespace AgentHub

open Relational

/-!
# The worker's client

`WorkerHubClient` sends a mutation under an operation id and a question under a message id, and
keeps the id until it knows what became of the call: a caller that repeats the call repeats the
id.  It sends each body up to `max_retries` times more when the transport fails.

* `CallKey`, `Subject` — what an id is kept for, and what the call says;
* `WorkerClient` — the process with its pending ids, `idFor`, the id a call goes out under;
* `WorkerClient.invoke` — the first half of each method: the message it posts;
* `WorkerClient.finish` — the second half: what it makes of the answer;
* `Outgoing.Carries`, `invoke_carries` — what the hub finds in the message of a mutation.
-/

/-! ### Calls -/

/-- What the worker keeps a pending id for: a kind of call, and the task it is about. -/
inductive CallKey where
  | checkIn
  | progress (taskId : String)
  | question (taskId : String)
  | result (taskId : String)
deriving DecidableEq

/-- What a call says. -/
inductive Subject where
  | checkIn (profile : AgentProfile)
  | progress (taskId note : String)
  | question (taskId text : String)
  | result (taskId : String) (body : Fields)
deriving DecidableEq

/-- The key a call is made under. -/
def Subject.key : Subject → CallKey
  | .checkIn _ => .checkIn
  | .progress taskId _ => .progress taskId
  | .question taskId _ => .question taskId
  | .result taskId _ => .result taskId

/-- The call changes the hub under an operation id. -/
def CallKey.Mutates : CallKey → Prop
  | .question _ => False
  | _ => True

instance (k : CallKey) : Decidable k.Mutates :=
  match k with
  | .question _ => isFalse id
  | .checkIn | .progress _ | .result _ => isTrue trivial

/-- The call submits a result. -/
def CallKey.isResult : CallKey → Bool
  | .result _ => true
  | _ => false

/-- The task a call is about. -/
def CallKey.task? : CallKey → Option String
  | .checkIn => none
  | .progress taskId | .question taskId | .result taskId => some taskId

/-- What `submit_result` takes for a result. -/
inductive ResultInput where
  | typed (result : TaskResult)
  | dict (fields : Fields)
  | status (status : String)

/-- A call of one of the methods.  An operation id of the caller's own is never given, and the
    length of a hold is its literal. -/
inductive WorkerCall where
  | checkIn (capabilities : List String) (model : Option String)
  | reportProgress (taskId note : String)
  | askAlice (taskId question : String) (timeoutS : Option String)
  | submitResult (taskId : String) (result : ResultInput) (summary : Option String)
      (artifacts : List Json)

/-! ### The process -/

/-- What the client uses of its settings. -/
structure WorkerSettings where
  agentName : String
  profile : AgentProfile := {}
  maxRetries : ℕ := 3
  defaultWaitS : String := "100.0"

/-- Uuids in hex: no stripping shortens them. -/
structure HexUuids extends Uuids where
  hex : ∀ n, strip (next n) = next n

/-- What is left after one call of `uuid4`. -/
def HexUuids.rest (u : HexUuids) : HexUuids where
  toUuids := u.toUuids.rest
  hex n := u.hex (n + 1)

/-- Uuids of rising length, to run the client on. -/
def HexUuids.unary : HexUuids where
  next n := String.ofList (List.replicate (n + 1) 'a')
  injective m n h := by simpa using congrArg String.length h
  ne_empty n h := by simpa using congrArg String.length h
  hex n := by
    have hspace : isSpace 'a' = false := by decide
    have hdrop : (List.replicate (n + 1) 'a').dropWhile isSpace = List.replicate (n + 1) 'a' := by
      rw [List.replicate_succ, List.dropWhile_cons_of_neg (by simp [hspace])]
    rw [strip, String.toList_ofList, List.rdropWhile, hdrop, List.reverse_replicate, hdrop,
      List.reverse_replicate]

/-- The client.  The four tables of pending ids are one: under each key, what was last said and the
    id it went out under. -/
structure WorkerClient where
  settings : WorkerSettings
  workerInstanceId : String
  uuids : HexUuids
  contextId : Option String := none
  currentTaskId : Option String := none
  pending : CallKey → Option (Subject × String) := fun _ => none

namespace WorkerClient

/-- `uuid4().hex`. -/
def newId (w : WorkerClient) : String × WorkerClient :=
  (w.uuids.head, { w with uuids := w.uuids.rest })

/-- `pop`: the pending id is forgotten. -/
def forget (w : WorkerClient) (k : CallKey) : WorkerClient :=
  { w with pending := Function.update w.pending k none }

/-- The id is kept for what the call says. -/
def remember (w : WorkerClient) (s : Subject) (id : String) : WorkerClient :=
  { w with pending := Function.update w.pending s.key (some (s, id)) }

/-- A fresh id, kept for what the call says. -/
def freshId (w : WorkerClient) (s : Subject) : String × WorkerClient :=
  (w.newId.1, w.newId.2.remember s w.newId.1)

/-- The id a call goes out under: the pending one if the same was said last, or else a fresh one.
    A body is compared with its fields in their order; to Python a dict is the same in any order,
    so that it keeps the id where a fresh one is drawn here. -/
def idFor (w : WorkerClient) (s : Subject) : String × WorkerClient :=
  match w.pending s.key with
  | some (said, id) => if said = s then (id, w) else w.freshId s
  | none => w.freshId s

end WorkerClient

/-! ### What the methods post -/

/-- `profile`: the launcher's profile with what the agent declares. -/
def WorkerSettings.declare (s : WorkerSettings) (capabilities : List String)
    (model : Option String) : AgentProfile :=
  let configured := s.profile
  let merged := (configured.capabilities ++ (capabilities.map strip).filter (· ≠ "")).eraseDups
  let given := strip (model.getD "")
  let declaredModel := if given = "" then unknown else given
  if configured.modelSource = .unknown ∧ declaredModel ≠ unknown then
    { configured with
      capabilities := merged
      model := declaredModel
      modelSource := .declared
      declaredModel }
  else { configured with capabilities := merged, declaredModel }

/-- `fields[key] = value`. -/
def setField (key : String) (value : Json) : Fields → Fields
  | [] => [(key, value)]
  | (k, v) :: rest => if k = key then (k, value) :: rest else (k, v) :: setField key value rest

/-- A reported artifact with a URL stands for the pull request. -/
def noteArtifact (body : Fields) : Json → Fields
  | .obj art =>
    match art.lookup "url" with
    | some url => setField "head_sha" (.str ("".pushn '0' 40)) (setField "pr_url" url body)
    | none => body
  | _ => body

/-- `result_dict`, or the refusal of a status that is none. -/
def ResultInput.body? (result : ResultInput) (summary : Option String) (artifacts : List Json) :
    Option Fields :=
  match result with
  | .typed result => some result.dump
  | .dict fields => some fields
  | .status given =>
    let clean := (strip given).toLower
    if clean = "completed" ∨ clean = "failed" then
      some (artifacts.foldl noteArtifact
        [("outcome", .str clean), ("summary", .str (summary.getD ""))])
    else none

/-- `summary_text`. -/
def summaryText (body : Fields) : String :=
  match body.lookup "summary" with
  | some (.str summary) => summary
  | some other => other.pyRepr
  | none => ""

/-- A request of the client: what it says, the id it goes out under, and the message. -/
structure Outgoing where
  subject : Subject
  id : String
  message : A2AMessage

/-- Questions are streamed; the rest is sent. -/
def Outgoing.request (o : Outgoing) : Request :=
  match o.subject with
  | .question .. => .stream o.message
  | _ => .send o.message

namespace WorkerClient

variable (w : WorkerClient)

/-- The READY message. -/
def ready (p : AgentProfile) (operationId messageId : String) : A2AMessage where
  messageId
  contextId := none
  taskId := none
  parts := [textPart "READY"]
  metadata :=
    [("hub.agent", .str w.settings.agentName),
     ("hub.capabilities", .arr (p.capabilities.map .str)),
     ("hub.harness", .str p.harness), ("hub.harness_version", .str p.harnessVersion),
     ("hub.provider", .str p.provider), ("hub.model", .str p.model),
     ("hub.model_source", .str p.modelSource.value),
     ("hub.declared_model", .str p.declaredModel), ("hub.schema_version", .num "1"),
     ("hub.operation_id", .str operationId), ("hub.worker_instance_id", .str w.workerInstanceId)]
      ++ p.workspaceId.toList.map fun workspace => ("hub.workspace_id", .str workspace)

/-- The progress message. -/
def progress (taskId note operationId messageId : String) : A2AMessage where
  messageId
  contextId := w.contextId
  taskId := some taskId
  parts := [textPart note]
  metadata :=
    [("hub.kind", .str "progress"), ("hub.schema_version", .num "1"),
     ("hub.operation_id", .str operationId), ("hub.worker_instance_id", .str w.workerInstanceId)]

/-- The question. -/
def question (taskId text : String) (timeoutS : Option String) (messageId : String) :
    A2AMessage where
  messageId
  contextId := w.contextId
  taskId := some taskId
  parts := [textPart text]
  metadata :=
    [("hub.kind", .str "question"), ("hub.timeout_s", .num (timeoutS.getD w.settings.defaultWaitS)),
     ("hub.schema_version", .num "1"), ("hub.worker_instance_id", .str w.workerInstanceId)]

/-- The result message. -/
def result (taskId : String) (body : Fields) (artifacts : List Json)
    (operationId messageId : String) : A2AMessage where
  messageId
  contextId := w.contextId
  taskId := some taskId
  parts := [textPart (summaryText body)]
  metadata :=
    [("hub.kind", .str "result"), ("hub.status", .str (terminalStatus body)),
     ("hub.schema_version", .num "1"), ("hub.operation_id", .str operationId),
     ("hub.result", .obj body), ("hub.artifacts", .arr artifacts),
     ("hub.worker_instance_id", .str w.workerInstanceId)]

/-- A mutation: the id for what it says, and a message id of its own. -/
def mutate (s : Subject) (message : WorkerClient → String → String → A2AMessage) :
    WorkerClient × Outgoing :=
  let (operationId, w') := w.idFor s
  let (messageId, w'') := w'.newId
  (w'', ⟨s, operationId, message w'' operationId messageId⟩)

/-- The methods up to the post.  Those on a task raise before the first check-in; `submit_result`
    gives up the question that is pending on its task. -/
def invoke : WorkerCall → WorkerClient × Option Outgoing
  | .checkIn capabilities model =>
    let p := w.settings.declare capabilities model
    let (w', out) := w.mutate (.checkIn p) fun w => w.ready p
    (w', some out)
  | .reportProgress taskId note =>
    if w.contextId = none then (w, none)
    else
      let (w', out) := w.mutate (.progress taskId note) fun w => w.progress taskId note
      (w', some out)
  | .askAlice taskId text timeoutS =>
    if w.contextId = none then (w, none)
    else
      let (messageId, w') := w.idFor (.question taskId text)
      (w', some ⟨.question taskId text, messageId, w'.question taskId text timeoutS messageId⟩)
  | .submitResult taskId result summary artifacts =>
    if w.contextId = none then (w, none)
    else
      let w := w.forget (.question taskId)
      match result.body? summary artifacts with
      | none => (w, none)
      | some body =>
        let (w', out) := w.mutate (.result taskId body) fun w => w.result taskId body artifacts
        (w', some out)

end WorkerClient

/-! ### What the methods make of an answer -/

/-- What the hub answers: a refusal, the stored response of a mutation, or the end of a stream. -/
inductive HubAnswer where
  | refused (e : ProtocolError)
  | stored (responseJson : String)
  | streamed (e : StreamEnd)

/-- What a method returns. -/
inductive Returned where
  | registered (agent contextId : String) (profile : AgentProfile)
  | noted (note : String)
  | submitted (status taskId summary : String) (result : Fields)
  | reply (text : String)
  | taskEnded (state : TaskState) (note : String)
  | timeout
deriving DecidableEq

/-- The call is over with this; after a timeout the caller is to ask again. -/
def Returned.Final (o : Returned) : Prop := o ≠ .timeout

instance (o : Returned) : Decidable o.Final := inferInstanceAs (Decidable (_ ≠ _))

/-- The methods from the answer on.  Nothing returned is an exception.  `contextOf` reads the
    context id of an acknowledged check-in, if it has one. -/
def WorkerClient.finish (contextOf : String → Option String) (w : WorkerClient) (s : Subject) :
    HubAnswer → WorkerClient × Option Returned
  | .refused _ => (w, none)
  | .stored responseJson =>
    match s with
    | .checkIn p =>
      match contextOf responseJson with
      | some contextId =>
        ({ w.forget .checkIn with contextId := some contextId, currentTaskId := none },
          some (.registered w.settings.agentName contextId p))
      | none => (w, none)
    | .progress taskId note => (w.forget (.progress taskId), some (.noted note))
    | .result taskId body =>
      ({ w.forget (.progress taskId) with currentTaskId := none },
        some (.submitted (terminalStatus body) taskId (summaryText body) body))
    | .question .. => (w, none)
  | .streamed e =>
    match s with
    | .question taskId text =>
      match e with
      | .taskEnded task note =>
        ({ w.forget (.question taskId) with currentTaskId := none },
          some (.taskEnded task.state note))
      | .timeout retryAs => (w.remember (.question taskId text) retryAs, some .timeout)
      | .reply m =>
        (w.forget (.question taskId), some (.reply (String.join (m.parts.map Part.text))))
    | _ => (w, none)

/-- Why an attempt fails: a status from in between, a transport error or timeout, or anything else
    that is raised. -/
inductive Failure where
  | status (code : ℕ)
  | transport
  | raised

/-- `RETRYABLE_STATUS_CODES`. -/
def retryableStatusCodes : List ℕ := [502, 503, 504]

/-- `_request_with_retry` and `_stream_rpc`: the same body is sent once more. -/
def WorkerSettings.retries (s : WorkerSettings) (attempts : ℕ) : Failure → Bool
  | .status code => retryableStatusCodes.contains code && attempts < s.maxRetries
  | .transport => attempts < s.maxRetries
  | .raised => false

/-! ### Ids -/

/-- A drawn id is a token. -/
theorem HexUuids.isToken_head (u : HexUuids) : IsToken u.head := ⟨u.hex 0, u.ne_empty 0⟩

section

variable {w w' : WorkerClient} {s : Subject} {k : CallKey} {out : Outgoing}

/-- **The id of a call** is the pending one, when the same was said last; otherwise it is a fresh
    one.  Either way it is pending from then on. -/
theorem WorkerClient.idFor_cases (w : WorkerClient) (s : Subject) :
    (∃ id, w.pending s.key = some (s, id) ∧ w.idFor s = (id, w)) ∨
      (∀ id, w.pending s.key ≠ some (s, id)) ∧ w.idFor s = w.freshId s := by
  unfold WorkerClient.idFor
  cases hpending : w.pending s.key with
  | none =>
    right
    exact ⟨by simp, rfl⟩
  | some said =>
    obtain ⟨said, id⟩ := said
    by_cases hsame : said = s
    · left
      exact ⟨id, by rw [hsame], if_pos hsame⟩
    · right
      refine ⟨fun id' h => hsame ?_, if_neg hsame⟩
      exact congrArg Prod.fst (Option.some.inj h)

/-- What one invocation of a method does to the client: the id it takes, and what is pending
    then.  Giving up a question is the one thing that happens under another key. -/
structure WorkerClient.Invokes (w w' : WorkerClient) (out : Outgoing) : Prop where
  settings : w'.settings = w.settings
  within : w'.uuids.Within w.uuids.toUuids
  id : w.pending out.subject.key = some (out.subject, out.id) ∨
    (∀ id, w.pending out.subject.key ≠ some (out.subject, id)) ∧ out.id = w.uuids.head ∧
      w'.uuids.Misses out.id
  pending_self : w'.pending out.subject.key = some (out.subject, out.id)
  pending_ne : ∀ k, k ≠ out.subject.key → k.Mutates → w'.pending k = w.pending k

/-- Taking an id, and another uuid or not. -/
theorem WorkerClient.invokes_idFor {message : A2AMessage}
    (hsettings : w'.settings = (w.idFor s).2.settings)
    (hpending : w'.pending = (w.idFor s).2.pending)
    (huuids : w'.uuids = (w.idFor s).2.uuids ∨ w'.uuids = (w.idFor s).2.uuids.rest) :
    w.Invokes w' ⟨s, (w.idFor s).1, message⟩ := by
  have hwithin : w'.uuids.Within (w.idFor s).2.uuids.toUuids := by
    rcases huuids with h | h <;> rw [h]
    · exact Uuids.Within.refl _
    · exact Uuids.rest_within _
  obtain ⟨id, hid, htaken⟩ | ⟨hnew, htaken⟩ := w.idFor_cases s
  · rw [htaken] at hsettings hpending hwithin ⊢
    exact ⟨hsettings, hwithin, .inl hid, hpending ▸ hid, fun k _ _ => by rw [hpending]⟩
  · rw [htaken] at hsettings hpending hwithin ⊢
    refine ⟨hsettings, hwithin.trans (Uuids.rest_within _), .inr ⟨hnew, rfl, ?_⟩, ?_, ?_⟩
    · exact hwithin _ (Uuids.rest_misses_head _)
    · rw [hpending]
      exact Function.update_self ..
    · intro k hk _
      rw [hpending]
      exact Function.update_of_ne hk ..

/-- Giving up a question first changes no other key. -/
theorem WorkerClient.Invokes.of_forget {taskId : String}
    (h : (w.forget (.question taskId)).Invokes w' out) (hout : out.subject.key ≠ .question taskId) :
    w.Invokes w' out := by
  have hkept {k : CallKey} (hk : k ≠ .question taskId) :
      (w.forget (.question taskId)).pending k = w.pending k := Function.update_of_ne hk ..
  have hid := h.id
  rw [hkept hout] at hid
  refine ⟨h.settings, h.within, hid, h.pending_self, fun k hk hmutates => ?_⟩
  rw [h.pending_ne k hk hmutates, hkept]
  rintro rfl
  exact hmutates

/-- **What a method does before its post.**  It raises at once, and forgets a question at most; or
    it posts one message, under the id of what it says. -/
theorem WorkerClient.invoke_cases (w : WorkerClient) (call : WorkerCall) :
    ((w.invoke call).2 = none ∧ (w.invoke call).1.settings = w.settings ∧
      (w.invoke call).1.uuids = w.uuids ∧
      ∀ k, k.Mutates → (w.invoke call).1.pending k = w.pending k) ∨
    ∃ out, (w.invoke call).2 = some out ∧ w.Invokes (w.invoke call).1 out := by
  by_cases hcontext : w.contextId = none
  · cases call with
    | checkIn capabilities model => exact .inr ⟨_, rfl, invokes_idFor rfl rfl (.inr rfl)⟩
    | _ =>
      simp only [invoke, if_pos hcontext]
      exact .inl ⟨trivial, trivial, trivial, fun _ _ => trivial⟩
  cases call with
  | checkIn capabilities model => exact .inr ⟨_, rfl, invokes_idFor rfl rfl (.inr rfl)⟩
  | reportProgress taskId note =>
    simp only [invoke, if_neg hcontext]
    exact .inr ⟨_, rfl, invokes_idFor rfl rfl (.inr rfl)⟩
  | askAlice taskId text timeoutS =>
    simp only [invoke, if_neg hcontext]
    exact .inr ⟨_, rfl, invokes_idFor rfl rfl (.inl rfl)⟩
  | submitResult taskId result summary artifacts =>
    simp only [invoke, if_neg hcontext]
    cases hbody : result.body? summary artifacts with
    | none =>
      refine .inl ⟨rfl, rfl, rfl, fun k hk => Function.update_of_ne ?_ ..⟩
      rintro rfl
      exact hk
    | some body =>
      refine .inr ⟨_, rfl, Invokes.of_forget (?_ : (w.forget (.question taskId)).Invokes _ _)
        (by simp [mutate, Subject.key])⟩
      exact invokes_idFor rfl rfl (.inr rfl)

/-! ### What a mutation carries -/

/-- The operation id a message carries. -/
def A2AMessage.operation? (m : A2AMessage) : Option String :=
  fieldText? m.metadata "hub.operation_id"

/-- `hub.kind` of the message of a call. -/
def CallKey.kind? : CallKey → Option Json
  | .checkIn => none
  | .progress _ => some (.str "progress")
  | .question _ => some (.str "question")
  | .result _ => some (.str "result")

/-- The name that a check-in of the worker registers. -/
def WorkerSettings.name? (s : WorkerSettings) : Option String :=
  (some (strip s.agentName)).filter fun name => name ≠ ""

/-- What the hub finds in the message of a mutation. -/
structure Outgoing.Carries (out : Outgoing) (settings : WorkerSettings) : Prop where
  request : out.request = .send out.message
  operation : out.message.operation? = some out.id
  task : out.message.taskId = out.subject.key.task?
  kind : out.message.kind? = out.subject.key.kind?
  agent : out.subject.key = .checkIn →
    fieldText? out.message.metadata "hub.agent" = settings.name?

/-- READY carries its operation id. -/
theorem WorkerClient.carries_ready {p : AgentProfile} {operationId messageId : String}
    (hsettings : w'.settings = w.settings) (h : IsToken operationId) :
    Outgoing.Carries ⟨.checkIn p, operationId, w'.ready p operationId messageId⟩ w.settings where
  request := rfl
  operation := fieldText?_token h rfl
  task := rfl
  kind := by
    cases hw : p.workspaceId <;> simp [A2AMessage.kind?, ready, hw, CallKey.kind?, Subject.key]
  agent _ := by
    rw [← hsettings]
    rfl

/-- **The message of a mutation** carries its id, its task, its kind and the worker's name. -/
theorem WorkerClient.invoke_carries {call : WorkerCall} (h : (w.invoke call).2 = some out)
    (hmutates : out.subject.key.Mutates) (hid : IsToken out.id) : out.Carries w.settings := by
  have hsettings {s : Subject} : (w.idFor s).2.newId.2.settings = w.settings := by
    obtain ⟨id, -, htaken⟩ | ⟨-, htaken⟩ := w.idFor_cases s <;> rw [htaken] <;> rfl
  cases call with
  | checkIn capabilities model =>
    obtain rfl := Option.some.inj h
    exact carries_ready hsettings hid
  | reportProgress taskId note =>
    simp only [invoke] at h
    split at h
    · cases h
    · obtain rfl := Option.some.inj h
      exact ⟨rfl, fieldText?_token hid rfl, rfl, rfl, by simp [mutate, Subject.key]⟩
  | askAlice taskId text timeoutS =>
    simp only [invoke] at h
    split at h
    · cases h
    · obtain rfl := Option.some.inj h
      exact hmutates.elim
  | submitResult taskId result summary artifacts =>
    simp only [invoke] at h
    split at h
    · cases h
    · cases hbody : result.body? summary artifacts with
      | none =>
        rw [hbody] at h
        cases h
      | some body =>
        rw [hbody] at h
        obtain rfl := Option.some.inj h
        exact ⟨rfl, fieldText?_token hid rfl, rfl, rfl, by simp [mutate, Subject.key]⟩

/-! ### What an answer changes -/

/-- The key that is cleared when a mutation returns.  The id of a result stays. -/
def CallKey.cleared : CallKey → CallKey
  | .result taskId => .progress taskId
  | k => k

/-- **What a method makes of an answer.**  It raises and the client is as it was; or a mutation
    returns and one pending id is cleared; or a stream ends, which is about questions only. -/
theorem WorkerClient.finish_cases (contextOf : String → Option String) (w : WorkerClient)
    (s : Subject) (a : HubAnswer) :
    (w.finish contextOf s a).1.settings = w.settings ∧
    (w.finish contextOf s a).1.uuids = w.uuids ∧
    ((w.finish contextOf s a = (w, none)) ∨
      (∃ responseJson v, a = .stored responseJson ∧ s.key.Mutates ∧ v.Final ∧
        (w.finish contextOf s a).2 = some v ∧
        (w.finish contextOf s a).1.pending = (w.forget s.key.cleared).pending) ∨
      ∃ e v, a = .streamed e ∧ ¬ s.key.Mutates ∧ (w.finish contextOf s a).2 = some v ∧
        ∀ k, k.Mutates → (w.finish contextOf s a).1.pending k = w.pending k) := by
  have hquestion {k : CallKey} {taskId : String} (hk : k.Mutates) : k ≠ .question taskId := by
    rintro rfl
    exact hk
  cases a with
  | refused e => exact ⟨rfl, rfl, .inl rfl⟩
  | stored responseJson =>
    cases s with
    | checkIn p =>
      cases hcontext : contextOf responseJson with
      | none =>
        simp only [finish, hcontext]
        exact ⟨trivial, trivial, .inl trivial⟩
      | some contextId =>
        simp only [finish, hcontext]
        exact ⟨rfl, rfl, .inr (.inl ⟨_, _, rfl, trivial, by simp [Returned.Final], rfl, rfl⟩)⟩
    | progress taskId note =>
      exact ⟨rfl, rfl, .inr (.inl ⟨_, _, rfl, trivial, by simp [Returned.Final], rfl, rfl⟩)⟩
    | question taskId text => exact ⟨rfl, rfl, .inl rfl⟩
    | result taskId body =>
      exact ⟨rfl, rfl, .inr (.inl ⟨_, _, rfl, trivial, by simp [Returned.Final], rfl, rfl⟩)⟩
  | streamed e =>
    cases s with
    | question taskId text =>
      cases e with
      | taskEnded task note =>
        refine ⟨rfl, rfl, .inr (.inr ⟨_, _, rfl, id, rfl, fun k hk => ?_⟩)⟩
        exact Function.update_of_ne (hquestion hk) ..
      | timeout retryAs =>
        refine ⟨rfl, rfl, .inr (.inr ⟨_, _, rfl, id, rfl, fun k hk => ?_⟩)⟩
        exact Function.update_of_ne (hquestion hk) ..
      | reply m =>
        refine ⟨rfl, rfl, .inr (.inr ⟨_, _, rfl, id, rfl, fun k hk => ?_⟩)⟩
        exact Function.update_of_ne (hquestion hk) ..
    | _ => exact ⟨rfl, rfl, .inl rfl⟩

end

end AgentHub
