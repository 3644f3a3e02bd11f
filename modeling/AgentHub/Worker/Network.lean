import AgentHub.Worker.Client

namespace AgentHub

open Relational

/-!
# A worker and the hub over a network

A request that was sent may reach the hub late, more than once, or never, and so may the answer on
its way back; an answer is read by the invocation that sent the request, if that still waits.
What everyone else does with the hub are calls of the store.

* `Network` — the hub, the client, its invocations, the answers on their way, and the streams that
  are held; with it the logical calls of the caller, and what each delivery wrote;
* `NetStep`, `Network.exec` — a step of anyone;
* `Network.logicalFor` — which invocations are one logical call.
-/

/-! ### States -/

/-- A logical call: what the caller says, again and again until it returns.  It is `alone` if no
    other call of the kind was under way for the task when it began. -/
structure LogicalCall where
  subject : Subject
  alone : Bool
deriving DecidableEq

/-- An invocation of a method, as part of a logical call. -/
structure Invocation extends Outgoing where
  logical : ℕ

/-- A stream that is held for the answer to a question. -/
structure HeldQuestion where
  invocation : ℕ
  taskId : String
  questionId : ℕ
  sentAs : String

/-- A row that a request adds to the transcript or to the events. -/
inductive Written where
  | message (m : MessageRecord)
  | event (e : EventRecord)
deriving DecidableEq

/-- What one delivery wrote. -/
structure Post where
  logical : ℕ
  key : CallKey
  id : String
  writes : List Written

/-- What an invocation returned. -/
structure Return where
  logical : ℕ
  value : Returned

/-- The state.  An invocation under way comes with its attempts so far; an answer, with the
    invocation it is for. -/
structure Network where
  hub : Hub
  client : WorkerClient
  logicals : List LogicalCall
  current : CallKey → Option ℕ
  invocations : List Invocation
  underWay : List (ℕ × ℕ)
  holds : List HeldQuestion
  answers : List (ℕ × HubAnswer)
  posts : List Post
  returns : List Return
  replies : List Answer

/-- The call uses no id that the client draws. -/
structure Call.Foreign (u : Uuids) (l : Call) : Prop where
  operation : ∀ mu ∈ l.op.mutating?, ∀ id ∈ mu.operationId, u.Misses id
  question : ∀ taskId agent text sentAs, l.op = .openQuestion taskId agent text sentAs →
    u.Misses sentAs

/-- A call of neither kind is another party's. -/
theorem Call.foreign {u : Uuids} {l : Call} (hmutating : l.op.mutating? = none)
    (hquestion : ∀ taskId agent text sentAs, l.op ≠ .openQuestion taskId agent text sentAs) :
    l.Foreign u where
  operation mu h := by simp [hmutating] at h
  question taskId agent text sentAs h := (hquestion taskId agent text sentAs h).elim

/-- A step. -/
inductive NetStep (u : Uuids) where
  /-- Anyone else calls the store. -/
  | call (l : Call) (hforeign : l.Foreign u)
  /-- The caller invokes a method. -/
  | invoke (call : WorkerCall)
  /-- A copy of the request of invocation `n` reaches the hub. -/
  | deliver (n : ℕ) (remoteAddr : Option String) (clock : ℕ → Moment)
  /-- A held stream ends, with what its last poll found or at its deadline. -/
  | release (h : ℕ) (found : Bool)
  /-- The answer `k` reaches invocation `n`. -/
  | receive (n k : ℕ)
  /-- An attempt of invocation `n` fails. -/
  | fail (n : ℕ) (f : Failure)

namespace Network

variable (w : Network)

/-! ### Logical calls -/

/-- An invocation of the logical call has returned for good. -/
def HasReturned (n : ℕ) : Prop := ∃ x ∈ w.returns, x.logical = n ∧ x.value.Final

instance (n : ℕ) : Decidable (w.HasReturned n) :=
  inferInstanceAs (Decidable (∃ x ∈ w.returns, _))

/-- No call of the kind is under way for the task. -/
def Idle (k : CallKey) : Prop :=
  ∀ p ∈ w.underWay, ∀ i ∈ w.invocations[p.1]?, i.subject.key ≠ k

instance (k : CallKey) : Decidable (w.Idle k) :=
  inferInstanceAs (Decidable (∀ p ∈ w.underWay, ∀ i ∈ w.invocations[p.1]?, _))

/-- A call that says the same continues the last one of its kind on the task, unless that has
    returned.  A task has one result: to submit it again is the same call even then. -/
def Continues (n : ℕ) (s : Subject) : Prop :=
  (∃ c ∈ w.logicals[n]?, c.subject = s) ∧ (s.key.isResult = true ∨ ¬ w.HasReturned n)

instance (n : ℕ) (s : Subject) : Decidable (w.Continues n s) :=
  inferInstanceAs (Decidable (_ ∧ _))

/-- A new logical call. -/
def newLogical (s : Subject) : ℕ × Network :=
  (w.logicals.length,
    { w with
      logicals := w.logicals ++ [⟨s, decide (w.Idle s.key)⟩]
      current := Function.update w.current s.key (some w.logicals.length) })

/-- The logical call an invocation belongs to. -/
def logicalFor (s : Subject) : ℕ × Network :=
  match w.current s.key with
  | some n => if w.Continues n s then (n, w) else w.newLogical s
  | none => w.newLogical s

/-- Whoever submits a result no longer waits for the answer to a question. -/
def giveUp : WorkerCall → Network
  | .submitResult taskId .. =>
    { w with current := Function.update w.current (.question taskId) none }
  | _ => w

/-! ### Steps -/

/-- The caller invokes a method, and what that posts is under way. -/
def invoke (call : WorkerCall) : Network :=
  match w.client.invoke call with
  | (client, none) => { w.giveUp call with client }
  | (client, some out) =>
    let (n, w') := (w.giveUp call).logicalFor out.subject
    { w' with
      client
      invocations := w.invocations ++ [⟨out, n⟩]
      underWay := w.underWay ++ [(w.invocations.length, 0)] }

end Network

/-- The rows at the end of the transcript and of the events that were not there before. -/
def Db.written (d d' : Db) : List Written :=
  (d'.messages.rows.drop d.messages.rows.length).map .message ++
    (d'.events.rows.drop d.events.rows.length).map .event

/-- What is answered at once. -/
def HubAnswer.of : Except ProtocolError Response → Option HubAnswer
  | .error e => some (.refused e)
  | .ok (.stored (some (responseJson, _))) => some (.stored responseJson)
  | .ok _ => none

/-- The stream that is held from then on. -/
def HeldQuestion.of (n : ℕ) : Except ProtocolError Response → Option HeldQuestion
  | .ok (.holdReply _ task questionId sentAs) => some ⟨n, task.id, questionId, sentAs⟩
  | _ => none

namespace Network

/-- A copy of the request of an invocation reaches the hub. -/
def deliver (r : Rendering) (w : Network) (n : ℕ) (remoteAddr : Option String)
    (clock : ℕ → Moment) : Network :=
  match w.invocations[n]? with
  | none => w
  | some i =>
    let served := atomically (dispatch r remoteAddr i.request) (w.hub.connect clock)
    { w with
      hub := served.2.hub
      posts := w.posts ++ [⟨i.logical, i.subject.key, i.id, w.hub.db.written served.2.db⟩]
      answers := w.answers ++ ((HubAnswer.of served.1).map fun a => (n, a)).toList
      holds := w.holds ++ (HeldQuestion.of n served.1).toList }

/-- A held stream ends. -/
def release (w : Network) (h : ℕ) (found : Bool) : Network :=
  match w.holds[h]? with
  | none => w
  | some held =>
    let reply := if found then w.hub.db.pendingReply held.taskId held.questionId else none
    { w with
      holds := w.holds.eraseIdx h
      answers := w.answers ++ [(held.invocation,
        .streamed (replyStream reply (w.hub.db.tasks.find? held.taskId) held.sentAs))] }

/-- An invocation that still waits reads an answer of its own. -/
def receive (contextOf : String → Option String) (w : Network) (n k : ℕ) : Network :=
  match w.underWay.lookup n, w.invocations[n]?, w.answers[k]? with
  | some _, some i, some (n', a) =>
    if n' = n then
      let (client, value) := w.client.finish contextOf i.subject a
      { w with
        client
        underWay := w.underWay.filter (·.1 ≠ n)
        returns := w.returns ++ (value.map (Return.mk i.logical)).toList }
    else w
  | _, _, _ => w

/-- An attempt fails, and the invocation makes another or raises. -/
def fail (w : Network) (n : ℕ) (f : Failure) : Network :=
  match w.underWay.lookup n with
  | none => w
  | some attempts =>
    if w.client.settings.retries attempts f then
      { w with underWay := w.underWay.map fun p => if p.1 = n then (n, attempts + 1) else p }
    else { w with underWay := w.underWay.filter (·.1 ≠ n) }

variable {u : HexUuids}

/-- One step of the network. -/
def exec (r : Rendering) (contextOf : String → Option String) :
    NetStep u.toUuids → Network → Network
  | .call l _, w => { w with hub := l.exec w.hub, replies := w.replies ++ (l.answer w.hub).toList }
  | .invoke call, w => w.invoke call
  | .deliver n remoteAddr clock, w => w.deliver r n remoteAddr clock
  | .release h found, w => w.release h found
  | .receive n k, w => w.receive contextOf n k
  | .fail n f, w => w.fail n f

/-- A fresh hub, and a client that has said nothing. -/
def start (v : Uuids) (u : HexUuids) (settings : WorkerSettings) (instanceId : String) :
    Network where
  hub := .start v
  client := { settings, workerInstanceId := instanceId, uuids := u }
  logicals := []
  current _ := none
  invocations := []
  underWay := []
  holds := []
  answers := []
  posts := []
  returns := []
  replies := []

/-! ### What an invocation does -/

/-- One method posts one message, in the logical call `n`: the current one of its key, or a new
    one. -/
structure Invoked (w w' : Network) (out : Outgoing) (n : ℕ) : Prop where
  client : w.client.Invokes w'.client out
  invocations : w'.invocations = w.invocations ++ [⟨out, n⟩]
  underWay : w'.underWay = w.underWay ++ [(w.invocations.length, 0)]
  current_self : w'.current out.subject.key = some n
  current_ne : ∀ k, k ≠ out.subject.key → k.Mutates → w'.current k = w.current k
  logical : (w.current out.subject.key = some n ∧ w.Continues n out.subject ∧
      w'.logicals = w.logicals) ∨
    (∀ m, w.current out.subject.key = some m → ¬ w.Continues m out.subject) ∧
      n = w.logicals.length ∧
      w'.logicals = w.logicals ++ [⟨out.subject, decide (w.Idle out.subject.key)⟩]
  rest : w'.hub = w.hub ∧ w'.holds = w.holds ∧ w'.answers = w.answers ∧ w'.posts = w.posts ∧
    w'.returns = w.returns ∧ w'.replies = w.replies

/-- Submitting a result gives up a question, and no call of another kind. -/
theorem giveUp_eq (w : Network) (call : WorkerCall) : ∃ current,
    w.giveUp call = { w with current } ∧ ∀ k, k.Mutates → current k = w.current k := by
  cases call with
  | submitResult taskId result summary artifacts =>
    refine ⟨_, rfl, fun k hk => Function.update_of_ne ?_ ..⟩
    rintro rfl
    exact hk
  | _ => exact ⟨w.current, rfl, fun _ _ => rfl⟩

/-- The post of a method does not belong to a question that it gives up. -/
theorem giveUp_current {w : Network} {call : WorkerCall} {out : Outgoing}
    (h : (w.client.invoke call).2 = some out) :
    (w.giveUp call).current out.subject.key = w.current out.subject.key := by
  cases call with
  | submitResult taskId result summary artifacts =>
    refine Function.update_of_ne ?_ ..
    simp only [WorkerClient.invoke] at h
    split at h
    · cases h
    · cases hbody : result.body? summary artifacts with
      | none =>
        rw [hbody] at h
        cases h
      | some body =>
        rw [hbody] at h
        obtain rfl := Option.some.inj h
        simp [WorkerClient.mutate, Subject.key]
  | _ => rfl

/-- A call goes on with its current one, or is a new one. -/
theorem logicalFor_cases (w : Network) (s : Subject) :
    (∃ n, w.current s.key = some n ∧ w.Continues n s ∧ w.logicalFor s = (n, w)) ∨
      (∀ n, w.current s.key = some n → ¬ w.Continues n s) ∧ w.logicalFor s = w.newLogical s := by
  unfold logicalFor
  cases hcurrent : w.current s.key with
  | none =>
    right
    exact ⟨by simp, rfl⟩
  | some n =>
    by_cases hcontinues : w.Continues n s
    · left
      exact ⟨n, rfl, hcontinues, if_pos hcontinues⟩
    · right
      refine ⟨fun m hm => ?_, if_neg hcontinues⟩
      obtain rfl := Option.some.inj hm
      exact hcontinues

/-- **What an invocation does.**  The method raises at once and nothing is posted; or it posts one
    message. -/
theorem invoke_cases (w : Network) (call : WorkerCall) :
    ((w.client.invoke call).2 = none ∧
      w.invoke call = { w.giveUp call with client := (w.client.invoke call).1 }) ∨
    ∃ out n, (w.client.invoke call).2 = some out ∧ w.Invoked (w.invoke call) out n := by
  obtain ⟨current, hgive, hcurrent⟩ := w.giveUp_eq call
  obtain ⟨hnone, -⟩ | ⟨out, hout, hinvokes⟩ := w.client.invoke_cases call
  · left
    refine ⟨hnone, ?_⟩
    unfold invoke
    rcases hinvoke : w.client.invoke call with ⟨client, _ | out⟩
    · rfl
    · rw [hinvoke] at hnone
      cases hnone
  · right
    have hself := giveUp_current hout
    have hinvoke : w.client.invoke call = ((w.client.invoke call).1, some out) := by
      rw [← hout]
    rw [hgive] at hself
    obtain ⟨n, hn, hcontinues, htaken⟩ | ⟨hnew, htaken⟩ :=
      logicalFor_cases { w with current } out.subject
    · have hw : w.invoke call = { w with
          current
          client := (w.client.invoke call).1
          invocations := w.invocations ++ [⟨out, n⟩]
          underWay := w.underWay ++ [(w.invocations.length, 0)] } := by
        unfold invoke
        rw [hinvoke]
        simp only [hgive, htaken]
      refine ⟨out, n, hout, ?_⟩
      rw [hw]
      exact ⟨hinvokes, rfl, rfl, hn, fun k _ hk => hcurrent k hk,
        .inl ⟨hself ▸ hn, hcontinues, rfl⟩, rfl, rfl, rfl, rfl, rfl, rfl⟩
    · have hw : w.invoke call = { w with
          client := (w.client.invoke call).1
          logicals := w.logicals ++ [⟨out.subject, decide (w.Idle out.subject.key)⟩]
          current := Function.update current out.subject.key (some w.logicals.length)
          invocations := w.invocations ++ [⟨out, w.logicals.length⟩]
          underWay := w.underWay ++ [(w.invocations.length, 0)] } := by
        unfold invoke
        rw [hinvoke]
        simp only [hgive, htaken]
        rfl
      refine ⟨out, w.logicals.length, hout, ?_⟩
      rw [hw]
      refine ⟨hinvokes, rfl, rfl, Function.update_self .., fun k hk hmutates => ?_,
        .inr ⟨fun m hm => hnew m (hself.trans hm), rfl, rfl⟩, rfl, rfl, rfl, rfl, rfl, rfl⟩
      exact (Function.update_of_ne hk ..).trans (hcurrent k hmutates)

end Network

end AgentHub
