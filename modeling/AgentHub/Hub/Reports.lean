import AgentHub.Hub.Evolution

namespace AgentHub

open Relational

/-!
# The inbox mirrors the transcript

A worker that tells Alice something leaves a message in the transcript and an event in the inbox,
in one transaction.  The hub has events of its own, a lease that expired and an agent that was
lost, and Alice's messages have no event.

* `Tells` — the message and the event are about the same;
* `Db.reports`, `Db.news` — what workers said, in the transcript and in the inbox;
* `Move.reports` — a move adds to both or to neither;
* `inbox_mirrors_transcript` — the two lists correspond, in order, in every state of every run.
-/

/-- The event queues what the message says. -/
inductive Tells (m : MessageRecord) : EventPayload → Prop
  | checkedIn {profile : AgentProfile} {instanceId : String} (htask : m.taskId = none)
      (hparts : m.parts = readyParts profile) :
      Tells m (.agentCheckedIn m.sender profile m.contextId instanceId)
  | progress {taskId note : String} (htask : m.taskId = some taskId)
      (hparts : m.parts = [⟨note, .progress⟩]) : Tells m (.taskProgress taskId m.sender note)
  | question {taskId question sentAs : String} (htask : m.taskId = some taskId)
      (hparts : m.parts = questionParts question sentAs) :
      Tells m (.workerQuestion taskId m.sender question m.id)
  | result {taskId : String} {s : Settlement} (htask : m.taskId = some taskId)
      (hstate : s.state.terminal = true) (hparts : m.parts = [resultPart s.summary s.state]) :
      Tells m (s.event taskId m.sender)

/-- The event is about what a worker said. -/
def EventPayload.isReport : EventPayload → Bool
  | .leaseExpired .. | .agentLost .. => false
  | _ => true

/-- What workers said, in the transcript. -/
def Db.reports (d : Db) : List MessageRecord :=
  d.messages.rows.filter fun m => m.direction = .toAlice

/-- What workers said, in the inbox. -/
def Db.news (d : Db) : List EventPayload :=
  (d.events.rows.map EventRecord.payload).filter EventPayload.isReport

/-- The event of a settlement is a report. -/
theorem Settlement.isReport_event (s : Settlement) (taskId agent : String) :
    (s.event taskId agent).isReport = true := by
  unfold Settlement.event
  split <;> rfl

section

variable {d d' : Db}

/-- What a change adds to the two lists: nothing, or a message and an event that tell the same. -/
def Db.Mirrors (d d' : Db) : Prop :=
  (d'.reports = d.reports ∧ d'.news = d.news) ∨
    ∃ m p, d'.reports = d.reports ++ [m] ∧ d'.news = d.news ++ [p] ∧ Tells m p

/-- A message of a worker and its event. -/
theorem Db.mirrors_tells {m : MessageRecord} {e : EventRecord}
    (hmessages : d'.messages.rows = d.messages.rows ++ [m])
    (hevents : d'.events.rows = d.events.rows ++ [e]) (hdirection : m.direction = .toAlice)
    (hreport : e.payload.isReport = true) (htells : Tells m e.payload) : d.Mirrors d' := by
  refine .inr ⟨m, e.payload, ?_, ?_, htells⟩
  · simp [Db.reports, hmessages, hdirection]
  · simp [Db.news, hevents, List.filter_append, hreport]

/-- A message of Alice's alone. -/
theorem Db.mirrors_message {m : MessageRecord}
    (hmessages : d'.messages.rows = d.messages.rows ++ [m]) (hevents : d'.events = d.events)
    (hdirection : m.direction = .fromAlice) : d.Mirrors d' := by
  refine .inl ⟨?_, by rw [Db.news, hevents]; rfl⟩
  simp [Db.reports, hmessages, hdirection]

/-- An event of the hub's own. -/
theorem Db.mirrors_event {e : EventRecord} (hmessages : d'.messages = d.messages)
    (hevents : d'.events.rows = d.events.rows ++ [e]) (hreport : e.payload.isReport = false) :
    d.Mirrors d' := by
  refine .inl ⟨by rw [Db.reports, hmessages]; rfl, ?_⟩
  simp [Db.news, hevents, List.filter_append, hreport]

/-- A write to neither messages nor events mirrors itself. -/
theorem Db.mirrors_of_eq (hmessages : d'.messages = d.messages) (hevents : d'.events = d.events) :
    d.Mirrors d' :=
  .inl ⟨by rw [Db.reports, hmessages]; rfl, by rw [Db.news, hevents]; rfl⟩

/-- An update of the events that leaves what they say. -/
theorem Db.mirrors_update (hmessages : d'.messages = d.messages)
    (hpayload : d'.events.rows.map EventRecord.payload = d.events.rows.map EventRecord.payload) :
    d.Mirrors d' :=
  .inl ⟨by rw [Db.reports, hmessages]; rfl, by rw [Db.news, hpayload]; rfl⟩

end

/-- **A move adds to the transcript and to the inbox**, or to neither. -/
theorem Move.reports {k : Kind} {s s' : Hub} (h : Move k s s') (hk : k ≠ .append) :
    s.db.Mirrors s'.db := by
  cases h with
  | append => exact absurd rfl hk
  | draw | create | setWorkflowStatus | decide | beat | renew | release | cancel | claim =>
    exact Db.mirrors_of_eq rfl rfl
  | @checkIn d _ name contextId instanceId profile _ row d' ts ts₁ ts₂ _ _ hadmits =>
    have hmessages : d'.messages = d.messages := hadmits.frame Db.messages fun _ => rfl
    have hevents : d'.events = d.events := hadmits.frame Db.events fun _ => rfl
    exact Db.mirrors_tells
      (congrArg (fun t : Serial MessageRecord.id => t.rows ++ [_]) hmessages)
      (congrArg (fun t : Serial EventRecord.id => t.rows ++ [_]) hevents) rfl rfl
      (.checkedIn rfl rfl)
  | progress task worker note row ts ts₁ ts₂ =>
    exact Db.mirrors_tells rfl rfl rfl rfl (.progress rfl rfl)
  | ask task worker question sentAs ts ts₁ ts₂ =>
    exact Db.mirrors_tells rfl rfl rfl rfl (.question rfl rfl)
  | settle task worker result row ts ts₁ ts₂ htask hopen hworker hstate =>
    exact Db.mirrors_tells rfl rfl rfl (result.isReport_event _ _) (.result rfl hstate rfl)
  | answer | assign | override => exact Db.mirrors_message rfl rfl rfl
  | expire | lose | loseTask => exact Db.mirrors_event rfl rfl rfl
  | @lease d u event ts expires =>
    refine Db.mirrors_update rfl ?_
    show (d.lease event.id u.head ts expires).events.rows.map EventRecord.payload = _
    rw [Db.lease_events]
    apply Serial.map_updateWhere
    intro e
    rfl
  | @ack d u id ts =>
    refine Db.mirrors_update rfl ?_
    show (d.ack id ts).events.rows.map EventRecord.payload = _
    rw [Db.ack_events]
    apply Serial.map_updateWhere
    intro e
    rfl

/-! ### Runs -/

/-- The transcript and the inbox tell the same, in the same order. -/
def Db.Mirrored (d : Db) : Prop := List.Forall₂ Tells d.reports d.news

/-- A mirrored write keeps the inbox mirrored. -/
theorem Db.Mirrors.mirrored {d d' : Db} (h : d.Mirrors d') (hd : d.Mirrored) : d'.Mirrored := by
  obtain ⟨hreports, hnews⟩ | ⟨m, p, hreports, hnews, htells⟩ := h
  · rw [Db.Mirrored, hreports, hnews]
    exact hd
  · rw [Db.Mirrored, hreports, hnews]
    exact List.rel_append hd (.cons htells .nil)

/-- A call that appends no event of its own keeps the inbox mirrored. -/
theorem mirrored_exec {l : Call} {s : Hub} (hl : ∀ payload, l.op ≠ .appendEvent payload)
    (hs : s.db.Mirrored) : (l.exec s).db.Mirrored := by
  refine (moves_exec l s).invariant (I := fun t => t.db.Mirrored) (fun k t t' hk hmove hI => ?_) hs
  refine (Move.reports hmove ?_).mirrored hI
  rintro rfl
  obtain ⟨op, clock⟩ := l
  cases op <;> simp [Op.kinds] at hk
  exact hl _ rfl

/-- **The inbox mirrors the transcript.**  In every state of every run in which nothing is put into
    the inbox by hand, the messages of workers and the events about them correspond one to one, in
    the order they came in, whatever was leased or acknowledged since. -/
theorem inbox_mirrors_transcript (u : Uuids) (ls : List Call)
    (hls : ∀ l ∈ ls, ∀ payload, l.op ≠ .appendEvent payload) :
    List.Forall₂ Tells ((Hub.start u).run ls).db.reports ((Hub.start u).run ls).db.news := by
  suffices h : ∀ s : Hub, s.db.Mirrored → (s.run ls).db.Mirrored from
    h (Hub.start u) List.Forall₂.nil
  induction ls with
  | nil => exact fun s hs => hs
  | cons l ls ih =>
    intro s hs
    exact ih (fun l' hl' => hls l' (List.mem_cons_of_mem _ hl')) (l.exec s)
      (mirrored_exec (hls l List.mem_cons_self) hs)

/-- Ada asks, and Alice takes the event of her check-in. -/
theorem inbox_mirrors_question :
    let s := (Hub.start .unary).run
      [⟨.initializeWorkflow "goal" {}, stoppedClock⟩,
        ⟨.checkIn "ada" {} (some "ada-1") {} none, stoppedClock⟩,
        ⟨.assignTask "ada" "implementer" "Fix it" "See issue 7" 30 none none, stoppedClock⟩,
        ⟨.openQuestion "uuu" "ada" "Ship it as drafted?" "q-1", stoppedClock⟩,
        ⟨.leaseNextEvent none, stoppedClock⟩]
    List.Forall₂ Tells s.db.reports s.db.news ∧
      s.db.news.getLast? = some (.workerQuestion "uuu" "ada" "Ship it as drafted?" 3) :=
  ⟨inbox_mirrors_transcript _ _ (by simp), by decide +kernel⟩

end AgentHub
