import AgentHub.Alice.Others

namespace AgentHub

open Relational

/-!
# A worker that Alice drives

What is true of the hub whatever a driver has done so far, and what each of her calls makes of it.

* `Db.Settled`, `Db.Handled` — a question needs no answer any more, an event no attention;
* `Db.Driven` — all the tasks are the worker's, one of them at most was not canceled, and nothing
  was concluded or acknowledged too early;
* `Db.Extends` — tables after a step that makes no task;
* `Alice.Sound`, and one lemma for each call.
-/

/-- The question was answered or overtaken by a newer one, or its task has ended. -/
def Db.Settled (d : Db) (taskId : String) (messageId : ℕ) : Prop :=
  d.Closed taskId ∨ d.HeardBack taskId messageId ∨
    ∃ m ∈ d.messages, m.questionOn taskId ∧ messageId < m.id

/-- If the event tells of a question, the question is settled. -/
def Db.Handled (d : Db) (p : EventPayload) : Prop :=
  ∀ taskId agent question messageId,
    p = .workerQuestion taskId agent question messageId → d.Settled taskId messageId

/-- The event is a check-in of the worker. -/
def Db.CheckIn (d : Db) (agent : String) (eventId : ℕ) : Prop :=
  ∃ e ∈ d.events, e.id = eventId ∧ e.payload.checksIn agent = true

/-- The decision to give the worker a task for this event is logged. -/
def Db.Logged (d : Db) (eventId : ℕ) : Prop :=
  ∃ r ∈ d.decisions, r.key = some (Alice.assignKey eventId)

/-- The task is the worker's, given to it for one of its check-ins, and the decision is logged. -/
def Db.Audited (d : Db) (agent : String) (t : TaskRecord) : Prop :=
  t.assignee = some agent ∧
    ∃ eventId, t.sourceEventId = some eventId ∧ d.CheckIn agent eventId ∧ d.Logged eventId

/-- What the driver of the worker has made of the hub. -/
structure Db.Driven (d : Db) (agent : String) : Prop where
  audited : ∀ t ∈ d.tasks, d.Audited agent t
  single : ∀ t ∈ d.tasks, ∀ t' ∈ d.tasks, t.state ≠ .canceled → t'.state ≠ .canceled → t = t'
  released : ∀ a ∈ d.agents, a.status = .released → ∃ taskId, d.Finished taskId
  done : ∀ w ∈ d.workflow, w.status = .done → ∃ taskId, d.Finished taskId
  settled : ∀ e ∈ d.events, e.state = .acked → d.Handled e.payload

/-- Every task was canceled. -/
def Db.AllCanceled (d : Db) : Prop := ∀ t ∈ d.tasks, t.state = .canceled

/-- The task is there, and every other one was canceled. -/
def Db.OnlyTask (d : Db) (taskId : String) : Prop :=
  (∃ t, d.tasks.find? taskId = some t) ∧ ∀ t ∈ d.tasks, t.state ≠ .canceled → t.id = taskId

/-- The worker was released. -/
def Db.Released (d : Db) (agent : String) : Prop :=
  ∃ a, d.agents.find? agent = some a ∧ a.status = .released

/-- What is out under the delivery needs no attention. -/
def Db.Acknowledgeable (d : Db) (delivery : Option String) : Prop :=
  ∀ id ∈ delivery, ∀ e ∈ d.events, e.deliveredAs id → d.Handled e.payload

/-! ### What later steps keep -/

/-- Tables after a step that makes no task. -/
structure Db.Extends (d d' : Db) : Prop where
  evolves : d.Evolves d'
  tasks : ∀ t' ∈ d'.tasks, ∃ t ∈ d.tasks, t.id = t'.id ∧ t.Becomes t'

/-- What every step keeps that makes no task. -/
def Lasting (A : Db → Prop) : Prop := ∀ d d', d.Extends d' → A d → A d'

section

variable {d d' : Db} {taskId agent : String}

/-- What the other parties write extends the hub. -/
theorem Db.Follows.extends (h : d.Follows d') : d.Extends d' := ⟨h.evolves, h.tasks⟩

/-- A write that leaves the tasks alone extends the hub. -/
theorem Db.Evolves.extends (h : d.Evolves d') (htasks : d'.tasks = d.tasks) : d.Extends d' :=
  ⟨h, fun t ht => ⟨t, htasks ▸ ht, rfl, .refl t⟩⟩

/-- A task that was not canceled in the end was never canceled. -/
theorem TaskRecord.Becomes.canceled {t t' : TaskRecord} (h : t.Becomes t')
    (hstate : t'.state ≠ .canceled) : t.state ≠ .canceled := by
  intro hcanceled
  have hended : ¬ t.isOpen := by
    rw [TaskRecord.isOpen, hcanceled]
    simp [TaskState.terminal]
  rw [h.final hended] at hstate
  exact hstate hcanceled

/-- A message stays in the transcript. -/
theorem Db.Evolves.message (h : d.Evolves d') {m : MessageRecord} (hm : m ∈ d.messages) :
    m ∈ d'.messages := by
  obtain ⟨m', hm', -, rfl⟩ := Evolves.mem h.messages hm
  exact hm'

/-- A question settled stays settled. -/
theorem Db.Evolves.settled (h : d.Evolves d') {messageId : ℕ} (hd : d.Settled taskId messageId) :
    d'.Settled taskId messageId := by
  obtain hclosed | ⟨m, hm, hback⟩ | ⟨m, hm, hnewer⟩ := hd
  · exact .inl (h.closed hclosed)
  · exact .inr (.inl ⟨m, h.message hm, hback⟩)
  · exact .inr (.inr ⟨m, h.message hm, hnewer⟩)

/-- An event handled stays handled. -/
theorem Db.Evolves.handled (h : d.Evolves d') {p : EventPayload} (hd : d.Handled p) :
    d'.Handled p :=
  fun taskId agent question messageId hp => h.settled (hd taskId agent question messageId hp)

/-- A check-in in the inbox stays there. -/
theorem Db.Evolves.checkIn (h : d.Evolves d') {eventId : ℕ} (hd : d.CheckIn agent eventId) :
    d'.CheckIn agent eventId := by
  obtain ⟨e, he, hid, hpayload⟩ := hd
  obtain ⟨e', he', hid', hbecomes⟩ := Evolves.mem h.events he
  exact ⟨e', he', hid'.trans hid, by rw [hbecomes.payload, hpayload]⟩

/-- A check-in logged stays logged. -/
theorem Db.Evolves.logged (h : d.Evolves d') {eventId : ℕ} (hd : d.Logged eventId) :
    d'.Logged eventId := by
  obtain ⟨r, hr, hkey⟩ := hd
  obtain ⟨r', hr', -, rfl⟩ := Evolves.mem h.decisions hr
  exact ⟨r, hr', hkey⟩

/-- A result audited stays audited. -/
theorem Db.Evolves.audited (h : d.Evolves d') {t t' : TaskRecord} (hbecomes : t.Becomes t')
    (hd : d.Audited agent t) : d'.Audited agent t' := by
  obtain ⟨hassignee, eventId, hsource, hcheckIn, hlogged⟩ := hd
  refine ⟨?_, eventId, hbecomes.source.trans hsource, h.checkIn hcheckIn, h.logged hlogged⟩
  have hrequest : t'.assignee = t.assignee := congrArg TaskRequest.assignee hbecomes.request
  exact hrequest.trans hassignee

/-- That every task is canceled lasts. -/
theorem lasting_allCanceled : Lasting Db.AllCanceled := by
  intro d d' h hd t' ht'
  obtain ⟨t, ht, -, hbecomes⟩ := h.tasks t' ht'
  by_contra hstate
  exact hbecomes.canceled hstate (hd t ht)

/-- That there is only one task lasts. -/
theorem lasting_onlyTask : Lasting fun d => d.OnlyTask taskId := by
  intro d d' h ⟨⟨t, ht⟩, honly⟩
  obtain ⟨t', ht', -⟩ := h.evolves.tasks.find? ht
  refine ⟨⟨t', ht'⟩, fun b' hb' hstate => ?_⟩
  obtain ⟨b, hb, hid, hbecomes⟩ := h.tasks b' hb'
  exact hid.symm.trans (honly b hb (hbecomes.canceled hstate))

/-- A canceled task is not finished. -/
theorem Db.AllCanceled.not_finished (hd : d.AllCanceled) : ¬ d.Finished taskId := by
  rintro ⟨t, ht, hstate⟩
  rw [hd t (Table.mem_of_find? ht)] at hstate
  rcases hstate with hstate | hstate <;> cases hstate

/-- The one task that was not canceled stays the only one. -/
theorem Db.Extends.single (h : d.Extends d')
    (hd : ∀ t ∈ d.tasks, ∀ t' ∈ d.tasks, t.state ≠ .canceled → t'.state ≠ .canceled → t = t') :
    ∀ t ∈ d'.tasks, ∀ t' ∈ d'.tasks, t.state ≠ .canceled → t'.state ≠ .canceled → t = t' := by
  intro b hb b' hb' hstate hstate'
  obtain ⟨t, ht, hid, hbecomes⟩ := h.tasks b hb
  obtain ⟨t', ht', hid', hbecomes'⟩ := h.tasks b' hb'
  obtain rfl := hd t ht t' ht' (hbecomes.canceled hstate) (hbecomes'.canceled hstate')
  exact Table.eq_of_key_eq hb hb' (hid.symm.trans hid')

/-- An acknowledgement that was in order stays so while no event is delivered. -/
theorem Db.Acknowledgeable.later (hevolves : d.Evolves d') {delivery : Option String}
    (hback : ∀ e ∈ d'.events, e.state = .delivered → e ∈ d.events)
    (hd : d.Acknowledgeable delivery) : d'.Acknowledgeable delivery :=
  fun id hid e he hout => hevolves.handled (hd id hid e (hback e he hout.2) hout)

/-- A delivery Alice may acknowledge stays one she may. -/
theorem Db.Follows.acknowledgeable (h : d.Follows d') {delivery : Option String}
    (hd : d.Acknowledgeable delivery) : d'.Acknowledgeable delivery :=
  hd.later h.evolves fun e he hout => h.delivered e he (by simp [hout])

/-- **What the others do** leaves a driven worker driven. -/
theorem Db.Follows.driven (h : d.Follows d') (hd : d.Driven agent) : d'.Driven agent where
  audited t' ht' := by
    obtain ⟨t, ht, -, hbecomes⟩ := h.tasks t' ht'
    exact h.evolves.audited hbecomes (hd.audited t ht)
  single := h.extends.single hd.single
  released a' ha' hr := by
    obtain ⟨a, ha, -, hr⟩ := h.released a' ha' hr
    obtain ⟨taskId, hfinished⟩ := hd.released a ha hr
    exact ⟨taskId, h.evolves.finished hfinished⟩
  done w' hw' hdone := by
    obtain hsame | ⟨-, w, hw, hactive⟩ := h.workflow
    · obtain ⟨taskId, hfinished⟩ := hd.done w' (hsame ▸ hw') hdone
      exact ⟨taskId, h.evolves.finished hfinished⟩
    · obtain rfl := Option.some.inj (hw.symm.trans hw')
      rw [hdone] at hactive
      cases hactive
  settled e he hacked := by
    have hq : e.state ≠ .queued := by simp [hacked]
    exact h.evolves.handled (hd.settled e (h.delivered e he hq) hacked)

/-- A delivery or an acknowledgement leaves a driven worker driven, if what it acknowledges was
    handled. -/
theorem Db.Driven.inbox (hd : d.Driven agent) (hevolves : d.Evolves d')
    (htasks : d'.tasks = d.tasks) (hagents : d'.agents = d.agents)
    (hworkflow : d'.workflow = d.workflow)
    (hevents : ∀ e' ∈ d'.events, e'.state = .acked →
      ∃ e ∈ d.events, e.payload = e'.payload ∧ d.Handled e.payload) : d'.Driven agent where
  audited t ht := hevolves.audited (.refl t) (hd.audited t (htasks ▸ ht))
  single := (hevolves.extends htasks).single hd.single
  released a ha hr := by
    obtain ⟨taskId, hfinished⟩ := hd.released a (hagents ▸ ha) hr
    exact ⟨taskId, hevolves.finished hfinished⟩
  done w hw hdone := by
    obtain ⟨taskId, hfinished⟩ := hd.done w (hworkflow ▸ hw) hdone
    exact ⟨taskId, hevolves.finished hfinished⟩
  settled e' he' hacked := by
    obtain ⟨e, -, hpayload, hhandled⟩ := hevents e' he' hacked
    rw [← hpayload]
    exact hevolves.handled hhandled

end

namespace Alice

/-! ### What the calls do -/

/-- A hub that came about without events put there by hand, with the driven worker. -/
structure Sound (u : Uuids) (agent : String) (s : Hub) : Prop where
  reached : s.Reached u
  driven : s.db.Driven agent

/-- The event was delivered: it is in the inbox, and nothing else is out under its delivery. -/
def Delivers (e : EventRecord) (d : Db) : Prop :=
  (∃ e' ∈ d.events, e'.id = e.id ∧ e'.payload = e.payload) ∧
    ∀ id ∈ e.deliveryId, ∀ e' ∈ d.events, e'.deliveredAs id → e'.payload = e.payload

section

variable {u : Uuids} {agent : String} {s s' : Hub}

/-- A tool served is one call of the hub. -/
theorem Serves.exec {α : Type} {x : Txn α} {a : α} (h : Serves x s a s') (op : Op)
    (hop : program op = discard x) : ∃ clock, s' = (Call.mk op clock).exec s := by
  obtain ⟨clock, c', hc, rfl⟩ := h
  exact ⟨clock, by rw [Call.exec_eq hop, atomically_of_commits hc]⟩

/-- A tool that appends no event of its own leaves a reached hub. -/
theorem Serves.reached {α : Type} {x : Txn α} {a : α} (h : Serves x s a s') (op : Op)
    (hop : program op = discard x) (hnot : ∀ payload, op ≠ .appendEvent payload)
    (hs : s.Reached u) : s'.Reached u := by
  obtain ⟨clock, rfl⟩ := h.exec op hop
  exact hs.exec _ hnot

/-- A tool served evolves the hub. -/
theorem Serves.evolves {α : Type} {x : Txn α} {a : α} (h : Serves x s a s') (op : Op)
    (hop : program op = discard x) : s.db.Evolves s'.db := by
  obtain ⟨clock, rfl⟩ := h.exec op hop
  exact evolves_moves (moves_exec _ s)

/-- A call that is none of Alice's own leaves what the others leave. -/
theorem Sound.others (h : Sound u agent s) {l : Call} (hl : l.op.isAlices = false) :
    Sound u agent (l.exec s) := by
  refine ⟨h.reached.exec l fun payload hop => ?_, (follows_exec hl s).driven h.driven⟩
  rw [hop] at hl
  cases hl

/-- A tool that is not Alice's alone leaves her hub sound. -/
theorem Serves.others {α : Type} {x : Txn α} {a : α} (h : Serves x s a s') (op : Op)
    (hop : program op = discard x) (hothers : op.isAlices = false) (hs : Sound u agent s) :
    Sound u agent s' ∧ s.db.Follows s'.db := by
  obtain ⟨clock, rfl⟩ := h.exec op hop
  exact ⟨hs.others hothers, follows_exec hothers s⟩

/-- `get_state` writes nothing and shows the tables at some time. -/
theorem getState_spec {state : HubState} (h : Serves getState s state s') :
    s' = s ∧ ∃ at', state = s.db.state at' := by
  obtain ⟨clock, c', hc, rfl⟩ := h
  obtain ⟨rfl, rfl⟩ := commits_getState.mp hc
  exact ⟨rfl, _, rfl⟩

/-- An acknowledgement, of what needs no attention any more. -/
theorem ackEvent_spec {id : String} {acked : Bool} (h : Serves (ackEvent (some id)) s acked s')
    (hs : Sound u agent s) (hid : s.db.Acknowledgeable (some id)) :
    Sound u agent s' ∧ s.db.Extends s'.db ∧ s'.db.Acknowledgeable (some id) := by
  have hreached := h.reached (.ackEvent (some id)) rfl (fun _ h => by cases h) hs.reached
  have hevolves := h.evolves (.ackEvent (some id)) rfl
  obtain ⟨clock, c', hc, rfl⟩ := h
  by_cases hempty : id = ""
  · subst hempty
    obtain ⟨-, rfl⟩ := commits_ackEvent.mp hc
    exact ⟨hs, hevolves.extends rfl, hid⟩
  rw [commits_ackEvent_some hempty] at hc
  split at hc
  · obtain ⟨-, rfl⟩ := hc
    refine ⟨⟨hreached, hs.driven.inbox hevolves rfl rfl rfl fun e' he' hacked => ?_⟩,
      hevolves.extends rfl, hid.later hevolves fun e' he' hout => ?_⟩
    · obtain ⟨e, he, rfl⟩ := Db.mem_ack.mp he'
      by_cases hout : e.deliveredAs id
      · exact ⟨e, he, by rw [if_pos hout], hid id rfl e he hout⟩
      · rw [if_neg hout] at hacked ⊢
        exact ⟨e, he, rfl, hs.driven.settled e he hacked⟩
    · obtain ⟨e, he, rfl⟩ := Db.mem_ack.mp he'
      by_cases hdelivered : e.deliveredAs id
      · rw [if_pos hdelivered] at hout
        cases hout
      · rwa [if_neg hdelivered]
  · obtain ⟨-, rfl⟩ := hc
    exact ⟨hs, hevolves.extends rfl, hid⟩

/-- A poll of the inbox: nothing changes, or one event is delivered. -/
theorem leaseNextEvent_spec {o : Option EventRecord} (h : Serves leaseNextEvent s o s')
    (hs : Sound u agent s) :
    Sound u agent s' ∧ s.db.Extends s'.db ∧ (o = none → s'.db = s.db) ∧
      ∀ e ∈ o, Delivers e s'.db := by
  have hreached := h.reached (.leaseNextEvent none) rfl (fun _ h => by cases h) hs.reached
  have hevolves := h.evolves (.leaseNextEvent none) rfl
  obtain ⟨clock, c', hc, rfl⟩ := h
  obtain ⟨expires, -, hlease⟩ := commits_leaseNextEvent.mp hc
  split at hlease
  · obtain ⟨rfl, rfl⟩ := hlease
    exact ⟨⟨hreached, hs.driven⟩, hevolves.extends rfl, fun _ => rfl, fun e he => by cases he⟩
  · next row hfirst =>
    obtain ⟨rfl, rfl⟩ := hlease
    have hrow : row ∈ s.db.events := Serial.mem_of_first? hfirst
    have hmem : row.leased s.uuids.head (clock 0).toIso expires.toIso ∈
        (s.db.lease row.id s.uuids.head (clock 0).toIso expires.toIso).events :=
      Db.mem_lease.mpr ⟨row, hrow, if_pos rfl⟩
    refine ⟨⟨hreached, hs.driven.inbox hevolves rfl rfl rfl fun e' he' hacked => ?_⟩,
      hevolves.extends rfl, fun hnone => (by cases hnone), fun e he => ?_⟩
    · obtain ⟨e, he, rfl⟩ := Db.mem_lease.mp he'
      by_cases hid : e.id = row.id
      · rw [if_pos hid] at hacked
        cases hacked
      · rw [if_neg hid] at hacked ⊢
        exact ⟨e, he, rfl, hs.driven.settled e he hacked⟩
    · obtain rfl := Option.some.inj he
      refine ⟨⟨_, hmem, rfl, rfl⟩, fun id hid e' he' hout => ?_⟩
      have hself : (row.leased s.uuids.head (clock 0).toIso expires.toIso).deliveredAs id :=
        ⟨hid, rfl⟩
      rw [hreached.delivered_unique he' hmem hout hself]
      rfl

/-- The decision is in the log, whether or not it was there before. -/
theorem logDecision_spec {summary rationale : String} {eventId n : ℕ}
    (h : Serves (logDecision summary rationale (some (assignKey eventId))) s n s')
    (hs : Sound u agent s) :
    Sound u agent s' ∧ s.db.Follows s'.db ∧ s'.db.Logged eventId := by
  obtain ⟨hsound, hfollows⟩ := h.others
    (.logDecision summary rationale (some (assignKey eventId))) rfl rfl hs
  refine ⟨hsound, hfollows, ?_⟩
  obtain ⟨clock, c', hc, rfl⟩ := h
  rw [commits_logDecision] at hc
  split at hc
  · next row hrow =>
    obtain ⟨-, rfl⟩ := hc
    exact ⟨row, Serial.mem_of_first? hrow,
      Serial.of_first? (p := fun r : DecisionRecord => r.key = some (assignKey eventId)) hrow⟩
  · rw [commits_insertDecision] at hc
    obtain ⟨-, rfl⟩ := hc
    exact ⟨_, Serial.mem_append.mpr (.inr rfl), rfl⟩

/-- **An answer settles its question**, whether or not it applies: if it does not, the task has
    ended, or Alice has written on it since, or the worker has asked again. -/
theorem reply_spec {taskId text : String} {messageId : ℕ} {applied : Bool}
    (h : Serves (reply taskId text messageId) s applied s') (hs : Sound u agent s)
    (hasked : ∃ m ∈ s.db.messages, m.id = messageId ∧ m.questionOn taskId) :
    Sound u agent s' ∧ s.db.Follows s'.db ∧ s'.db.Settled taskId messageId := by
  obtain ⟨hsound, hfollows⟩ := h.others (.reply taskId text messageId) rfl rfl hs
  refine ⟨hsound, hfollows, ?_⟩
  obtain ⟨clock, c', hc, rfl⟩ := h
  obtain ⟨m, hm, rfl, hquestion⟩ := hasked
  obtain ⟨task, htask, hc⟩ := commits_reply.mp hc
  split at hc
  · obtain ⟨-, -, contextId, -, rfl⟩ := hc
    refine .inr (.inl ⟨_, Serial.mem_append.mpr (.inr rfl), rfl, rfl, ?_⟩)
    exact Nat.lt_succ_of_le (Serial.key_le_seq hm)
  · next hnot =>
    obtain ⟨-, rfl⟩ := hc
    by_cases hopen : task.isOpen
    · -- the newest question is this one or a newer one
      cases hlast : s.db.messages.last? fun m => m.questionOn taskId with
      | none => exact absurd hquestion (Serial.last?_eq_none_iff.mp hlast m hm)
      | some q =>
        have hnewest : s.db.newestQuestion taskId = some q.id :=
          Option.map_eq_some_iff.mpr ⟨q, hlast, rfl⟩
        have hle : m.id ≤ q.id := Serial.le_last? hlast hm hquestion
        by_cases hstate : task.state = .inputRequired
        · have hne : q.id ≠ m.id := by
            intro heq
            refine hnot ((answerable_iff hs.reached.parked).mpr ⟨⟨task, htask, hstate⟩, ?_⟩)
            rw [← heq]
            exact hnewest
          refine .inr (.inr ⟨q, Serial.mem_of_last? hlast, ?_, by omega⟩)
          exact Serial.of_last? (p := fun m : MessageRecord => m.questionOn taskId) hlast
        · -- an open task that is not parked has heard from Alice
          have hback : s.db.HeardBack taskId q.id := by
            by_contra hnone
            refine hstate ((hs.reached.parked taskId task htask hopen).mpr ⟨q.id, hnewest, ?_⟩)
            exact not_heardBack_iff.mp hnone
          obtain ⟨r, hr, htask', hfrom, hafter⟩ := hback
          exact .inr (.inl ⟨r, hr, htask', hfrom, by omega⟩)
    · exact .inl ⟨task, htask, hopen⟩

/-- **An assignment**, for a check-in whose decision is logged, while no task is left. -/
theorem assignTask_spec {role title instructions : String} {leaseMin : ℚ} {eventId : ℕ}
    {task : TaskRecord}
    (h : Serves (assignTask agent role title instructions leaseMin none (some eventId)) s task s')
    (hs : Sound u agent s) (hcanceled : s.db.AllCanceled) (hcheckIn : s.db.CheckIn agent eventId)
    (hlogged : s.db.Logged eventId) :
    Sound u agent s' ∧ s'.db.OnlyTask task.id ∧ s.db.Evolves s'.db ∧
      s'.db.events = s.db.events := by
  have hreached := h.reached (.assignTask agent role title instructions leaseMin none
    (some eventId)) rfl (fun _ h => by cases h) hs.reached
  have hevolves := h.evolves (.assignTask agent role title instructions leaseMin none
    (some eventId)) rfl
  obtain ⟨clock, c', hc, rfl⟩ := h
  obtain ⟨-, workflow, capMin, request, -, -, -, hrequest, -,
    ⟨hfrom, -, hdb⟩ | ⟨-, record, id, expires, ts, ts', hrecord, hidle, hfree, -, rfl, hdb⟩⟩ :=
    assignTask_cases hc
  · -- the event was answered before, with a task that was canceled since
    have htask : task ∈ s.db.tasks := List.mem_of_find?_eq_some hfrom
    have hsame : c'.hub.db = s.db := hdb
    refine ⟨⟨hreached, hsame ▸ hs.driven⟩, ?_, hevolves, by rw [hsame]⟩
    rw [hsame]
    exact ⟨⟨task, Table.find?_of_mem htask⟩, fun t ht hstate => absurd (hcanceled t ht) hstate⟩
  · have hassign : c'.hub.db = s.db.assign (request.task id (some eventId) expires ts) agent
        record.contextId (assignmentParts request) ts' := hdb
    have htasks : ∀ t, t ∈ c'.hub.db.tasks ↔
        t ∈ s.db.tasks ∨ t = request.task id (some eventId) expires ts := by
      intro t
      rw [hassign, Db.assign_tasks]
      exact Table.mem_insertOrIgnore hfree
    have hevents : c'.hub.db.events = s.db.events := by
      rw [hassign]
      rfl
    have honly : ∀ t ∈ c'.hub.db.tasks, t.state ≠ .canceled →
        t = request.task id (some eventId) expires ts := by
      intro t ht hstate
      rcases (htasks t).mp ht with ht | ht
      · exact absurd (hcanceled t ht) hstate
      · exact ht
    refine ⟨⟨hreached, ?_⟩, ⟨⟨_, Table.find?_of_mem ((htasks _).mpr (.inr rfl))⟩, fun t ht hstate =>
      congrArg TaskRecord.id (honly t ht hstate)⟩, hevolves, hevents⟩
    constructor
    · intro t ht
      rcases (htasks t).mp ht with ht | rfl
      · exact hevolves.audited (.refl t) (hs.driven.audited t ht)
      · refine ⟨?_, eventId, rfl, hevolves.checkIn hcheckIn, hevolves.logged hlogged⟩
        rw [hrequest]
        rfl
    · intro t ht t' ht' hstate hstate'
      exact (honly t ht hstate).trans (honly t' ht' hstate').symm
    · -- the worker is busy now, and whoever was released has a task that was not canceled
      intro a ha hr
      rw [hassign, Db.assign_agents] at ha
      obtain ⟨b, hb, rfl⟩ := Table.mem_updateWhere.mp ha
      split at hr
      · cases hr
      · obtain ⟨taskId, hfinished⟩ := hs.driven.released b hb hr
        exact absurd hfinished hcanceled.not_finished
    · intro w hw hdone
      rw [hassign] at hw
      obtain ⟨taskId, hfinished⟩ := hs.driven.done w hw hdone
      exact absurd hfinished hcanceled.not_finished
    · intro e he hacked
      exact hevolves.handled (hs.driven.settled e (hevents ▸ he) hacked)

/-- The worker is released once a task was finished. -/
theorem releaseAgent_spec {name : String} {a : AgentRecord} (h : Serves (releaseAgent name) s a s')
    (hs : Sound u agent s) {taskId : String} (hfinished : s.db.Finished taskId) :
    Sound u agent s' ∧ s.db.Extends s'.db ∧ s'.db.Released name := by
  have hreached := h.reached (.releaseAgent name) rfl (fun _ h => by cases h) hs.reached
  have hevolves := h.evolves (.releaseAgent name) rfl
  obtain ⟨clock, c', hc, rfl⟩ := h
  obtain ⟨-, record, hrecord, ⟨hreleased, hdb⟩ | ⟨-, hdb⟩⟩ := releaseAgent_cases hc
  · have hsame : c'.hub.db = s.db := hdb
    rw [hsame]
    exact ⟨⟨hreached, hsame ▸ hs.driven⟩, (Db.Evolves.refl _).extends rfl, record, hrecord,
      hreleased⟩
  · have hset : c'.hub.db = s.db.setStatus name .released := hdb
    rw [hset] at hevolves ⊢
    refine ⟨⟨hreached, ?_⟩, hevolves.extends rfl, { record with status := .released }, ?_, rfl⟩
    · rw [hset]
      exact {
        audited := fun t ht => hevolves.audited (.refl t) (hs.driven.audited t ht)
        single := hs.driven.single
        released := fun _ _ _ => ⟨taskId, hevolves.finished hfinished⟩
        done := hs.driven.done
        settled := fun e he hacked => hevolves.handled (hs.driven.settled e he hacked) }
    · rw [Db.setStatus_agents, Table.find?_modify_self]
      exact congrArg (Option.map _) hrecord

/-- The workflow is done once a task was finished. -/
theorem setWorkflowStatus_spec {summary : String} {v : Unit}
    (h : Serves (setWorkflowStatus .done summary) s v s') (hs : Sound u agent s) {taskId : String}
    (hfinished : s.db.Finished taskId) :
    Sound u agent s' ∧ s.db.Extends s'.db ∧ s'.db.agents = s.db.agents ∧
      ∃ w, s'.db.workflow = some w ∧ w.status = .done := by
  have hreached := h.reached (.setWorkflowStatus .done summary) rfl (fun _ h => by cases h)
    hs.reached
  have hevolves := h.evolves (.setWorkflowStatus .done summary) rfl
  obtain ⟨clock, c', hc, rfl⟩ := h
  obtain ⟨row, hrow, hc⟩ := commits_setWorkflowStatus.mp hc
  split at hc
  · next hdone =>
    obtain rfl := hc
    exact ⟨⟨hreached, hs.driven⟩, hevolves.extends rfl, rfl, row, hrow, hdone⟩
  · obtain rfl := hc
    refine ⟨⟨hreached, ?_⟩, hevolves.extends rfl, rfl, _, rfl, rfl⟩
    exact {
      audited := fun t ht => hevolves.audited (.refl t) (hs.driven.audited t ht)
      single := hs.driven.single
      released := hs.driven.released
      done := fun _ _ _ => ⟨taskId, hevolves.finished hfinished⟩
      settled := fun e he hacked => hevolves.handled (hs.driven.settled e he hacked) }

end

end Alice

end AgentHub
