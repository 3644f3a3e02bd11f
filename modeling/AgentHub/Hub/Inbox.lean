import AgentHub.Hub.System

namespace AgentHub

open Relational

/-!
# At-least-once delivery with a fenced acknowledgement

Alice's inbox over whole runs.  A run is observed together with the deliveries it handed out, so
"the most recent lease of an event" is a fact about the history and not about a column.

* `waitForEvent` — the acknowledgement and the polls of a waiting `/alice/next_event`;
* `Inbox` — the hub with its delivery history; `inbox_cases`, all that one call can do to it;
* `Inbox.Tracked` — the event table agrees with the history, and no delivery id comes twice;
* `EventRecord.Step` — the event's state machine;
* `Inbox.Delivers` — what Alice may rely on; `inbox_delivers`, that every run keeps it.
-/

/-! ### The wait -/

/-- `_wait_for` over `lease_next_event`: poll at every wakeup until there is an event.  The list
    holds the clock of each poll the deadline leaves time for. -/
def pollEvents (leaseS : Option ℚ) :
    List (ℕ → Moment) → Hub → Except StoreError (Option EventRecord) × Hub
  | [], s => (.ok none, s)
  | clock :: later, s =>
    match atomically (leaseNextEvent leaseS) (s.connect clock) with
    | (.ok none, c) => pollEvents leaseS later c.hub
    | (r, c) => (r, c.hub)

/-- `wait_for_event`: acknowledge the prior delivery, then hold until the inbox has an event. -/
def waitForEvent (ack : Option String) (leaseS : Option ℚ) (ackClock : ℕ → Moment)
    (polls : List (ℕ → Moment)) (s : Hub) : Except StoreError (Option EventRecord) × Hub :=
  match ack with
  | none => pollEvents leaseS polls s
  | some id =>
    pollEvents leaseS polls (atomically (ackEvent (some id)) (s.connect ackClock)).2.hub

/-- The polls of a wait are a run of leases. -/
theorem pollEvents_run (leaseS : Option ℚ) (polls : List (ℕ → Moment)) (s : Hub) :
    ∃ ls, (pollEvents leaseS polls s).2 = s.run ls := by
  induction polls generalizing s with
  | nil => exact ⟨[], rfl⟩
  | cons clock later ih =>
    let poll : Call := ⟨.leaseNextEvent leaseS, clock⟩
    have hexec : poll.exec s = (atomically (leaseNextEvent leaseS) (s.connect clock)).2.hub :=
      Call.exec_eq rfl clock s
    unfold pollEvents
    split
    · rename_i c hc
      obtain ⟨ls, hls⟩ := ih c.hub
      rw [hc] at hexec
      exact ⟨poll :: ls, by rw [hls, ← hexec]; rfl⟩
    · rename_i r c hne hc
      rw [hc] at hexec
      exact ⟨[poll], hexec.symm⟩

/-- A wait is a run of acknowledgements and leases. -/
theorem waitForEvent_run (ack : Option String) (leaseS : Option ℚ) (ackClock : ℕ → Moment)
    (polls : List (ℕ → Moment)) (s : Hub) :
    ∃ ls, (waitForEvent ack leaseS ackClock polls s).2 = s.run ls := by
  cases ack with
  | none => exact pollEvents_run leaseS polls s
  | some id =>
    let acked : Call := ⟨.ackEvent (some id), ackClock⟩
    have hexec : acked.exec s = (atomically (ackEvent (some id)) (s.connect ackClock)).2.hub :=
      Call.exec_eq rfl ackClock s
    obtain ⟨ls, hls⟩ := pollEvents_run leaseS polls (acked.exec s)
    rw [hexec] at hls
    exact ⟨acked :: ls, by rw [waitForEvent, hls, ← hexec]; rfl⟩

/-! ### The delivery history -/

/-- The event a lease returned, with the id of the delivery. -/
def handedOut : Except StoreError (Option EventRecord) → Option (ℕ × String)
  | .ok (some e) => e.deliveryId.map fun id => (e.id, id)
  | _ => none

/-- What a call hands out. -/
def Call.delivery (l : Call) (s : Hub) : Option (ℕ × String) :=
  match l.op with
  | .leaseNextEvent leaseS => handedOut (atomically (leaseNextEvent leaseS) (s.connect l.clock)).1
  | _ => none

/-- The hub, and the deliveries handed out so far. -/
abbrev Inbox := Observed Hub (ℕ × String)

namespace Inbox

/-- An empty hub, and nothing delivered. -/
def start (u : Uuids) : Inbox := ⟨Hub.start u, []⟩

/-- The inbox after a run of calls. -/
def run (s : Inbox) (ls : List Call) : Inbox :=
  runFrom (Observed.step Call.exec Call.delivery) s ls

/-- The ids an event was delivered under, oldest first. -/
def deliveriesOf (s : Inbox) (eventId : ℕ) : List String :=
  (s.log.filter fun p => p.1 = eventId).map Prod.snd

end Inbox

/-! ### What one call can do -/

/-- The events after a lease. -/
theorem Db.mem_lease {d : Db} {eventId : ℕ} {id : String} {ts expires : Stamp} {b : EventRecord} :
    b ∈ (d.lease eventId id ts expires).events ↔
      ∃ a ∈ d.events, (if a.id = eventId then a.leased id ts expires else a) = b := by
  rw [Db.lease_events, Serial.mem_updateWhere]

/-- The events after an acknowledgement. -/
theorem Db.mem_ack {d : Db} {id : String} {ts : Stamp} {b : EventRecord} :
    b ∈ (d.ack id ts).events ↔ ∃ a ∈ d.events,
      (if a.deliveredAs id then { a with state := .acked, ackedAt := some ts } else a) = b := by
  rw [Db.ack_events, Serial.mem_updateWhere]

/-- A new event has not been delivered. -/
def EventRecord.isNew (e : EventRecord) : Prop :=
  e.state = .queued ∧ e.deliveryId = none ∧ e.deliveryAttempts = 0

/-- New events at the end, and nothing else. -/
def Db.Queues (d d' : Db) : Prop :=
  ∃ new, d'.events.rows = d.events.rows ++ new ∧ ∀ e ∈ new, e.isNew

/-- No event is queued where the inbox is as it was. -/
theorem Db.Queues.refl {d d' : Db} (h : d'.events = d.events) : d.Queues d' :=
  ⟨[], by simp [h], by simp⟩

/-- The events of two steps are queued one after the other. -/
theorem Db.Queues.trans {d d' d'' : Db} (h : d.Queues d') (h' : d'.Queues d'') : d.Queues d'' := by
  obtain ⟨new, hrows, hnew⟩ := h
  obtain ⟨new', hrows', hnew'⟩ := h'
  refine ⟨new ++ new', by rw [hrows', hrows, List.append_assoc], fun e he => ?_⟩
  rcases List.mem_append.mp he with he | he
  · exact hnew e he
  · exact hnew' e he

/-- One event at the end is a new one. -/
theorem Db.queues_append {d d' : Db} {payload : EventPayload} {ts : Stamp}
    (h : d'.events.rows = (d.addEvent payload ts).events.rows) : d.Queues d' := by
  refine ⟨[{ id := d.events.seq + 1, payload, ts }], h, fun e he => ?_⟩
  rw [List.mem_singleton.mp he]
  exact ⟨rfl, rfl, rfl⟩

/-- Outside of the inbox, a move at most queues an event. -/
theorem queues_move {k : Kind} {s s' : Hub} (h : Move k s s') (hk : k ∉ [.lease, .ack]) :
    s.db.Queues s'.db := by
  cases h with
  | lease | ack => simp at hk
  | checkIn _ _ _ _ _ _ _ _ _ _ _ _ hadmits =>
    have hadmitted := Db.Queues.refl (hadmits.frame Db.events fun _ => rfl)
    exact hadmitted.trans (Db.queues_append rfl)
  | progress | ask | settle | expire | lose | loseTask | append =>
    exact Db.queues_append rfl
  | draw | create | setWorkflowStatus | decide | beat | renew | release | assign | answer |
    cancel | override | claim => exact .refl rfl

/-- No move puts an id back to be drawn. -/
theorem within_move {k : Kind} {s s' : Hub} (h : Move k s s') : s'.uuids.Within s.uuids := by
  cases h with
  | draw h => exact h
  | lease => exact Uuids.rest_within _
  | _ => exact .refl _

/-- A call outside of the inbox draws ids and queues events at most. -/
theorem queues_exec {l : Call} {s : Hub} (hl : ∀ k ∈ l.op.kinds, k ∉ [.lease, .ack]) :
    (l.exec s).uuids.Within s.uuids ∧ s.db.Queues (l.exec s).db := by
  refine (moves_exec l s).invariant
    (I := fun t => t.uuids.Within s.uuids ∧ s.db.Queues t.db) ?_ ⟨.refl _, .refl rfl⟩
  rintro k t t' hk hmove ⟨hwithin, hqueues⟩
  exact ⟨(within_move hmove).trans hwithin, hqueues.trans (queues_move hmove (hl k hk))⟩

/-- **What one call does to the inbox.**  It queues events, or it leases the oldest leasable
    event under a fresh id, or it acknowledges what is out under the id it names. -/
theorem inbox_cases (l : Call) (s : Hub) :
    (l.delivery s = none ∧ (l.exec s).uuids.Within s.uuids ∧ s.db.Queues (l.exec s).db) ∨
    (∃ e ts expires, (s.db.events.first? fun e => e.leasable ts) = some e ∧
      l.delivery s = some (e.id, s.uuids.head) ∧
      l.exec s = ⟨s.db.lease e.id s.uuids.head ts expires, s.uuids.rest⟩) ∨
    ∃ id ts, l.op = .ackEvent (some id) ∧ id ≠ "" ∧ (∃ e ∈ s.db.events, e.deliveredAs id) ∧
      l.delivery s = none ∧ l.exec s = ⟨s.db.ack id ts, s.uuids⟩ := by
  obtain ⟨op, clock⟩ := l
  cases op
  case leaseNextEvent leaseS =>
    have hexec : (Call.mk (.leaseNextEvent leaseS) clock).exec s
        = (atomically (leaseNextEvent leaseS) (s.connect clock)).2.hub :=
      Call.exec_eq rfl clock s
    have hdelivery : (Call.mk (.leaseNextEvent leaseS) clock).delivery s
        = handedOut (atomically (leaseNextEvent leaseS) (s.connect clock)).1 := rfl
    rw [hexec, hdelivery]
    obtain ⟨o, c', hc, h⟩ | ⟨e, -, h⟩ :=
      atomically_cases (leaseNextEvent leaseS) (s.connect clock)
    case inr =>
      rw [h]
      exact .inl ⟨rfl, .refl _, .refl rfl⟩
    rw [h]
    obtain ⟨expires, -, hlease⟩ := commits_leaseNextEvent.mp hc
    split at hlease
    · obtain ⟨rfl, rfl⟩ := hlease
      exact .inl ⟨rfl, Uuids.rest_within _, .refl rfl⟩
    · rename_i row hfirst
      obtain ⟨rfl, rfl⟩ := hlease
      exact .inr (.inl ⟨row, _, _, hfirst, rfl, rfl⟩)
  case ackEvent deliveryId =>
    have hexec : (Call.mk (.ackEvent deliveryId) clock).exec s
        = (atomically (ackEvent deliveryId) (s.connect clock)).2.hub :=
      Call.exec_eq rfl clock s
    rw [hexec]
    obtain ⟨acked, c', hc, h⟩ | ⟨e, -, h⟩ :=
      atomically_cases (ackEvent deliveryId) (s.connect clock)
    case inr =>
      rw [h]
      exact .inl ⟨rfl, .refl _, .refl rfl⟩
    rw [h]
    rw [commits_ackEvent] at hc
    split at hc
    · obtain ⟨-, rfl⟩ := hc
      exact .inl ⟨rfl, .refl _, .refl rfl⟩
    · obtain ⟨-, rfl⟩ := hc
      exact .inl ⟨rfl, .refl _, .refl rfl⟩
    rename_i id hne
    split at hc
    · rename_i hout
      obtain ⟨-, rfl⟩ := hc
      exact .inr (.inr ⟨id, _, rfl, fun h => hne (by rw [h]), hout, rfl, rfl⟩)
    · obtain ⟨-, rfl⟩ := hc
      exact .inl ⟨rfl, .refl _, .refl rfl⟩
  all_goals exact .inl ⟨rfl, queues_exec (by simp [Op.kinds])⟩

/-! ### The table agrees with the history -/

/-- The columns of an event say that it was delivered under `ids`, in this order. -/
structure EventRecord.Agrees (e : EventRecord) (ids : List String) : Prop where
  attempts : e.deliveryAttempts = ids.length
  newest : e.deliveryId = ids.getLast?
  queued : e.state = .queued ↔ ids = []
  expires : e.state = .delivered → ∃ x, e.deliveryExpires = some x

/-- A new event was delivered under no id. -/
theorem EventRecord.isNew.agrees {e : EventRecord} (h : e.isNew) : e.Agrees [] where
  attempts := h.2.2
  newest := h.2.1
  queued := by simp [h.1]
  expires hdelivered := by
    rw [h.1] at hdelivered
    cases hdelivered

/-- A lease delivers an event under one more id. -/
theorem EventRecord.Agrees.leased {e : EventRecord} {ids : List String} (h : e.Agrees ids)
    (id : String) (ts expires : Stamp) : (e.leased id ts expires).Agrees (ids ++ [id]) where
  attempts := by
    rw [List.length_append, ← h.attempts]
    rfl
  newest := by
    rw [List.getLast?_concat]
    rfl
  queued := by simp [EventRecord.leased]
  expires _ := ⟨expires, rfl⟩

/-- An acknowledgement delivers nothing. -/
theorem EventRecord.Agrees.acked {e : EventRecord} {ids : List String} (h : e.Agrees ids)
    (hout : e.state = .delivered) (ts : Stamp) :
    { e with state := .acked, ackedAt := some ts }.Agrees ids where
  attempts := h.attempts
  newest := h.newest
  queued := by
    have hids : ids ≠ [] := fun hnil => by simp [h.queued.mpr hnil] at hout
    simp [hids]
  expires hdelivered := by cases hdelivered

/-- The event table agrees with the delivery history, and no delivery id was given twice or will
    be given again. -/
structure Inbox.Tracked (s : Inbox) : Prop where
  agrees : ∀ e ∈ s.state.db.events, e.Agrees (s.deliveriesOf e.id)
  known : ∀ p ∈ s.log, ∃ e ∈ s.state.db.events, e.id = p.1
  distinct : (s.log.map Prod.snd).Nodup
  fresh : ∀ p ∈ s.log, s.state.uuids.Misses p.2 ∧ p.2 ≠ ""

section

variable {s : Inbox} {t : Hub}

/-- Queued events agree with a history in which they do not occur. -/
theorem Inbox.Tracked.queues (h : s.Tracked) (hwithin : t.uuids.Within s.state.uuids)
    (hqueues : s.state.db.Queues t.db) : Inbox.Tracked ⟨t, s.log⟩ := by
  obtain ⟨new, hrows, hnew⟩ := hqueues
  have hold : ∀ e ∈ s.state.db.events, e ∈ t.db.events := fun e he => by
    rw [Serial.mem_iff, hrows]
    exact List.mem_append_left new he
  constructor
  · intro e he
    rw [Serial.mem_iff, hrows] at he
    rcases List.mem_append.mp he with he | he
    · exact h.agrees e he
    · -- a new event stands after every event that was ever delivered
      have hnone : Inbox.deliveriesOf ⟨t, s.log⟩ e.id = [] := by
        simp only [Inbox.deliveriesOf, List.map_eq_nil_iff, List.filter_eq_nil_iff,
          decide_eq_true_eq]
        intro p hp heq
        obtain ⟨e', he', hid⟩ := h.known p hp
        have hsorted := t.db.events.sorted
        rw [hrows, List.map_append, List.pairwise_append] at hsorted
        have hlt := hsorted.2.2 _ (List.mem_map_of_mem he') _ (List.mem_map_of_mem he)
        omega
      rw [hnone]
      exact (hnew e he).agrees
  · intro p hp
    obtain ⟨e, he, hid⟩ := h.known p hp
    exact ⟨e, hold e he, hid⟩
  · exact h.distinct
  · exact fun p hp => ⟨hwithin _ (h.fresh p hp).1, (h.fresh p hp).2⟩

/-- A lease writes into the table what it adds to the history. -/
theorem Inbox.Tracked.lease (h : s.Tracked) {e : EventRecord} (he : e ∈ s.state.db.events)
    (ts expires : Stamp) :
    Inbox.Tracked ⟨⟨s.state.db.lease e.id s.state.uuids.head ts expires, s.state.uuids.rest⟩,
      s.log ++ [(e.id, s.state.uuids.head)]⟩ := by
  constructor
  · intro e' he'
    obtain ⟨a, ha, rfl⟩ := Db.mem_lease.mp he'
    by_cases hid : a.id = e.id
    · obtain rfl : a = e := Serial.eq_of_key_eq ha he hid
      have hagrees := (h.agrees a ha).leased s.state.uuids.head ts expires
      simpa [Inbox.deliveriesOf, EventRecord.leased_id] using hagrees
    · have hagrees := h.agrees a ha
      simpa [Inbox.deliveriesOf, hid, Ne.symm hid] using hagrees
  · intro p hp
    refine Serial.exists_key_updateWhere (Db.lease_events ..) ?_
    rcases List.mem_append.mp hp with hp | hp
    · exact h.known p hp
    · rw [List.mem_singleton.mp hp]
      exact ⟨e, he, rfl⟩
  · have hout : s.state.uuids.head ∉ s.log.map Prod.snd := by
      intro hmem
      obtain ⟨p, hp, heq⟩ := List.mem_map.mp hmem
      exact (h.fresh p hp).1 0 heq.symm
    rw [List.map_append, List.nodup_append]
    refine ⟨h.distinct, by simp, ?_⟩
    intro a ha b hb heq
    obtain rfl : b = s.state.uuids.head := by simpa using hb
    exact hout (heq ▸ ha)
  · intro p hp
    rcases List.mem_append.mp hp with hp | hp
    · exact ⟨Uuids.rest_within _ _ (h.fresh p hp).1, (h.fresh p hp).2⟩
    · rw [List.mem_singleton.mp hp]
      exact ⟨s.state.uuids.rest_misses_head, s.state.uuids.ne_empty 0⟩

/-- An acknowledgement changes neither the ids nor the history. -/
theorem Inbox.Tracked.ack (h : s.Tracked) (id : String) (ts : Stamp) :
    Inbox.Tracked ⟨⟨s.state.db.ack id ts, s.state.uuids⟩, s.log⟩ := by
  constructor
  · intro e' he'
    obtain ⟨a, ha, rfl⟩ := Db.mem_ack.mp he'
    by_cases hout : a.deliveredAs id
    · rw [if_pos hout]
      exact (h.agrees a ha).acked hout.2 ts
    · rw [if_neg hout]
      exact h.agrees a ha
  · exact fun p hp => Serial.exists_key_updateWhere (Db.ack_events ..) (h.known p hp)
  · exact h.distinct
  · exact h.fresh

/-- **One call keeps the table in agreement with the history.** -/
theorem tracked_exec (l : Call) (h : s.Tracked) :
    Inbox.Tracked (Observed.step Call.exec Call.delivery l s) := by
  obtain ⟨hnone, hwithin, hqueues⟩ | ⟨e, ts, expires, hfirst, hdelivery, hexec⟩ |
    ⟨id, ts, -, -, -, hnone, hexec⟩ := inbox_cases l s.state
  · rw [Observed.step, hnone, Option.toList_none, List.append_nil]
    exact h.queues hwithin hqueues
  · rw [Observed.step, hdelivery, hexec]
    exact h.lease (Serial.mem_of_first? hfirst) ts expires
  · rw [Observed.step, hnone, hexec, Option.toList_none, List.append_nil]
    exact h.ack id ts

end

/-- The table agrees with the history in every state. -/
theorem tracked_run (u : Uuids) (ls : List Call) : ((Inbox.start u).run ls).Tracked := by
  refine run_invariant (fun l s h => tracked_exec l h) ?_ ls
  constructor <;> simp [Inbox.start, Hub.start, Db.empty]

/-! ### Delivery -/

/-- What one call makes of an event: nothing, one more delivery under the given id unless the
    event is acknowledged, or the acknowledgement of a delivered event. -/
inductive EventRecord.Step : Option String → EventRecord → EventRecord → Prop
  | kept (e : EventRecord) : Step none e e
  | leased (e : EventRecord) (id : String) (ts expires : Stamp) (h : e.state ≠ .acked) :
      Step (some id) e (e.leased id ts expires)
  | acked (e : EventRecord) (ts : Stamp) (h : e.state = .delivered) :
      Step none e { e with state := .acked, ackedAt := some ts }

/-- The id a call delivers the event under, if it does. -/
def Call.deliveryOf (l : Call) (s : Hub) (eventId : ℕ) : Option String :=
  ((l.delivery s).filter fun p => p.1 = eventId).map Prod.snd

/-- The oldest leasable event is not acknowledged. -/
theorem EventRecord.leasable.not_acked {e : EventRecord} {ts : Stamp} (h : e.leasable ts) :
    e.state ≠ .acked := by
  rcases h with h | ⟨h, -⟩
  · simp [h]
  · simp [h]

/-- **The state machine of an event.**  Every call takes every event one step, and loses none. -/
theorem step_exec (l : Call) (s : Hub) {e : EventRecord} (he : e ∈ s.db.events) :
    ∃ e' ∈ (l.exec s).db.events, e'.id = e.id ∧ EventRecord.Step (l.deliveryOf s e.id) e e' := by
  obtain ⟨hnone, -, new, hrows, -⟩ | ⟨row, ts, expires, hfirst, hdelivery, hexec⟩ |
    ⟨id, ts, -, -, -, hnone, hexec⟩ := inbox_cases l s
  · refine ⟨e, ?_, rfl, ?_⟩
    · rw [Serial.mem_iff, hrows]
      exact List.mem_append_left new he
    · rw [Call.deliveryOf, hnone]
      exact .kept e
  · have hrow : row ∈ s.db.events := Serial.mem_of_first? hfirst
    have hleasable : row.leasable ts := Serial.of_first? (p := (EventRecord.leasable · ts)) hfirst
    rw [hexec, Call.deliveryOf, hdelivery]
    refine ⟨_, Db.mem_lease.mpr ⟨e, he, rfl⟩, ?_⟩
    by_cases hid : e.id = row.id
    · obtain rfl : e = row := Serial.eq_of_key_eq he hrow hid
      rw [if_pos rfl]
      refine ⟨rfl, ?_⟩
      simpa [Option.filter] using
        EventRecord.Step.leased e s.uuids.head ts expires hleasable.not_acked
    · rw [if_neg hid]
      refine ⟨rfl, ?_⟩
      simpa [Option.filter, Ne.symm hid] using EventRecord.Step.kept e
  · rw [hexec, Call.deliveryOf, hnone]
    refine ⟨_, Db.mem_ack.mpr ⟨e, he, rfl⟩, ?_⟩
    by_cases hout : e.deliveredAs id
    · rw [if_pos hout]
      exact ⟨rfl, .acked e ts hout.2⟩
    · rw [if_neg hout]
      exact ⟨rfl, .kept e⟩

/-- An event nobody had seen before the call is queued, and was not delivered. -/
theorem isNew_exec (l : Call) (s : Hub) {e : EventRecord} (he : e ∈ (l.exec s).db.events)
    (hnew : ∀ old ∈ s.db.events, old.id ≠ e.id) : e.isNew := by
  obtain ⟨-, -, new, hrows, hisNew⟩ | ⟨row, ts, expires, -, -, hexec⟩ |
    ⟨id, ts, -, -, -, -, hexec⟩ := inbox_cases l s
  · rw [Serial.mem_iff, hrows] at he
    rcases List.mem_append.mp he with he | he
    · exact absurd rfl (hnew e he)
    · exact hisNew e he
  · rw [hexec] at he
    obtain ⟨a, ha, rfl⟩ := Db.mem_lease.mp he
    refine absurd ?_ (hnew a ha)
    split <;> rfl
  · rw [hexec] at he
    obtain ⟨a, ha, rfl⟩ := Db.mem_ack.mp he
    refine absurd ?_ (hnew a ha)
    split <;> rfl

/-- An acknowledgement leaves the id. -/
theorem EventRecord.acked_id (ts : Stamp) (e : EventRecord) :
    { e with state := .acked, ackedAt := some ts }.id = e.id := rfl

/-- The table with this one event acknowledged. -/
def Db.acknowledge (d : Db) (eventId : ℕ) (ts : Stamp) : Db :=
  { d with
    events := d.events.updateWhere (fun e => e.id = eventId)
      (fun e => { e with state := .acked, ackedAt := some ts }) (EventRecord.acked_id ts) }

section

variable {s : Inbox}

/-- What is out under `id` is the event whose most recent delivery has this id. -/
theorem Inbox.Tracked.deliveredAs_iff (h : s.Tracked) {e : EventRecord}
    (he : e ∈ s.state.db.events) {id : String} :
    e.deliveredAs id ↔ (s.deliveriesOf e.id).getLast? = some id ∧ e.state ≠ .acked := by
  have hagrees := h.agrees e he
  rw [EventRecord.deliveredAs, hagrees.newest]
  refine and_congr_right fun hlast => ?_
  have hids : s.deliveriesOf e.id ≠ [] := fun hnil => by simp [hnil] at hlast
  have hqueued : e.state ≠ .queued := fun hq => hids (hagrees.queued.mp hq)
  cases hstate : e.state <;> simp_all

/-- A delivery id belongs to one event. -/
theorem Inbox.Tracked.event_unique (h : s.Tracked) {e e' : EventRecord}
    (he : e ∈ s.state.db.events) (he' : e' ∈ s.state.db.events) {id : String}
    (hout : e.deliveredAs id) (hout' : e'.deliveredAs id) : e = e' := by
  have hmem {a : EventRecord} (ha : a ∈ s.state.db.events) (haout : a.deliveredAs id) :
      (a.id, id) ∈ s.log := by
    have hlast := List.mem_of_getLast? ((h.deliveredAs_iff ha).mp haout).1
    simpa [Inbox.deliveriesOf] using hlast
  have hpair : (e.id, id) = (e'.id, id) :=
    List.inj_on_of_nodup_map h.distinct (hmem he hout) (hmem he' hout') rfl
  exact Serial.eq_of_key_eq he he' (congrArg Prod.fst hpair)

/-- Acknowledging what is out under an id acknowledges one event. -/
theorem Inbox.Tracked.ack_eq (h : s.Tracked) {e : EventRecord} (he : e ∈ s.state.db.events)
    {id : String} (hout : e.deliveredAs id) (ts : Stamp) :
    s.state.db.ack id ts = s.state.db.acknowledge e.id ts := by
  have hrows : ∀ a ∈ s.state.db.events.rows, (if a.deliveredAs id then
      { a with state := .acked, ackedAt := some ts } else a)
        = if a.id = e.id then { a with state := .acked, ackedAt := some ts } else a := by
    intro a ha
    by_cases hid : a.id = e.id
    · obtain rfl : a = e := Serial.eq_of_key_eq ha he hid
      rw [if_pos hout, if_pos rfl]
    · have hnot : ¬ a.deliveredAs id := fun hout' =>
        hid (congrArg EventRecord.id (h.event_unique ha he hout' hout))
      rw [if_neg hnot, if_neg hid]
  have hevents : (s.state.db.ack id ts).events = (s.state.db.acknowledge e.id ts).events :=
    Serial.ext (List.map_congr_left hrows) rfl
  rw [Db.ack, Db.acknowledge]
  exact congrArg (fun events => { s.state.db with events }) hevents

/-- **The fence.**  An acknowledgement counts exactly when it carries the id of the most recent
    delivery of an event that is not acknowledged yet, however late; it then acknowledges that
    event and nothing else, and any other id changes nothing. -/
theorem Inbox.Tracked.fenced (h : s.Tracked) (id : String) (clock : ℕ → Moment) :
    ∃ acked c', Commits (ackEvent (some id)) (s.state.connect clock) acked c' ∧
      (acked = true ↔ ∃ e ∈ s.state.db.events,
        (s.deliveriesOf e.id).getLast? = some id ∧ e.state ≠ .acked) ∧
      (∀ e ∈ s.state.db.events, (s.deliveriesOf e.id).getLast? = some id → e.state ≠ .acked →
        c'.hub = ⟨s.state.db.acknowledge e.id (clock 0).toIso, s.state.uuids⟩) ∧
      (acked = false → c'.hub = s.state) := by
  have hiff : (∃ e ∈ s.state.db.events, (s.deliveriesOf e.id).getLast? = some id ∧
      e.state ≠ .acked) ↔ ∃ e ∈ s.state.db.events, e.deliveredAs id :=
    exists_congr fun e => and_congr_right fun he => (h.deliveredAs_iff he).symm
  rw [hiff]
  by_cases hempty : id = ""
  · -- the empty id is refused unread, and was never given
    subst hempty
    have hnone : ¬ ∃ e ∈ s.state.db.events, e.deliveredAs "" := by
      rintro ⟨e, he, hout⟩
      have hlast := List.mem_of_getLast? ((h.deliveredAs_iff he).mp hout).1
      obtain ⟨p, hp, heq⟩ := List.mem_map.mp hlast
      exact (h.fresh p (List.mem_filter.mp hp).1).2 heq
    refine ⟨false, _, commits_ackEvent.mpr ⟨rfl, rfl⟩, by simpa using hnone, ?_, fun _ => rfl⟩
    intro e he hlast hacked
    exact absurd ⟨e, he, (h.deliveredAs_iff he).mpr ⟨hlast, hacked⟩⟩ hnone
  by_cases hout : ∃ e ∈ s.state.db.events, e.deliveredAs id
  · have hcommits : Commits (ackEvent (some id)) (s.state.connect clock) true
        ⟨s.state.db.ack id (clock 0).toIso, fun n => clock (n + 1), s.state.uuids, []⟩ := by
      rw [commits_ackEvent_some hempty]
      exact (if_pos hout).mpr ⟨rfl, rfl⟩
    refine ⟨true, _, hcommits, by simpa using hout, ?_, fun hfalse => by cases hfalse⟩
    intro e he hlast hacked
    have heq := h.ack_eq he ((h.deliveredAs_iff he).mpr ⟨hlast, hacked⟩) (clock 0).toIso
    exact congrArg (fun d => (⟨d, s.state.uuids⟩ : Hub)) heq
  · have hcommits : Commits (ackEvent (some id)) (s.state.connect clock) false
        ⟨s.state.db, fun n => clock (n + 1), s.state.uuids, []⟩ := by
      rw [commits_ackEvent_some hempty]
      exact (if_neg hout).mpr ⟨rfl, rfl⟩
    refine ⟨false, _, hcommits, by simpa using hout, ?_, fun _ => rfl⟩
    intro e he hlast hacked
    exact absurd ⟨e, he, (h.deliveredAs_iff he).mpr ⟨hlast, hacked⟩⟩ hout

/-- An event that is not acknowledged waits to be leased, now or from the end of its lease on. -/
theorem Inbox.Tracked.waits (h : s.Tracked) {e : EventRecord} (he : e ∈ s.state.db.events)
    (hacked : e.state ≠ .acked) :
    e.state = .queued ∨ e.state = .delivered ∧
      ∃ expires, e.deliveryExpires = some expires ∧ ∀ ts, e.leasable ts ↔ expires ≤ ts := by
  cases hstate : e.state with
  | queued => exact .inl rfl
  | acked => exact absurd hstate hacked
  | delivered =>
    obtain ⟨expires, hexpires⟩ := (h.agrees e he).expires hstate
    refine .inr ⟨rfl, expires, hexpires, fun ts => ?_⟩
    simp [EventRecord.leasable, hstate, hexpires]

end

/-- While an event is leasable, a lease hands out an event, that one or an older one. -/
theorem leaseNextEvent_oldest {s : Hub} {e : EventRecord} (he : e ∈ s.db.events)
    {clock : ℕ → Moment} {leaseS : Option ℚ} {expires : Moment}
    (hleasable : e.leasable (clock 0).toIso)
    (hexpires : (clock 0).addMicros? (seconds (leaseS.getD defaultEventLeaseS)) = some expires) :
    ∃ e' c', Commits (leaseNextEvent leaseS) (s.connect clock) (some e') c' ∧ e'.id ≤ e.id := by
  cases hfirst : s.db.events.first? fun e => e.leasable (clock 0).toIso with
  | none => exact absurd hleasable (Serial.first?_eq_none_iff.mp hfirst e he)
  | some row =>
    have hle : row.id ≤ e.id := Serial.first?_le hfirst he hleasable
    have hconnected : ((s.connect clock).db.events.first? fun e =>
        e.leasable ((s.connect clock).clock 0).toIso) = some row := hfirst
    have hcommits : Commits (leaseNextEvent leaseS) (s.connect clock)
        (some (row.leased s.uuids.head (clock 0).toIso expires.toIso))
        ⟨s.db.lease row.id s.uuids.head (clock 0).toIso expires.toIso, fun n => clock (n + 1),
          s.uuids.rest, []⟩ := by
      rw [commits_leaseNextEvent]
      refine ⟨expires, hexpires, ?_⟩
      simp only [hconnected]
      exact ⟨rfl, rfl⟩
    exact ⟨_, _, hcommits, hle⟩

/-- **A lease writes.**  An event that a lease hands out is in the table as it was handed out. -/
theorem Inbox.Tracked.leased {s : Inbox} (h : s.Tracked) {leaseS : Option ℚ} {clock : ℕ → Moment}
    {given : EventRecord} {c' : Conn}
    (hcommits : Commits (leaseNextEvent leaseS) (s.state.connect clock) (some given) c') :
    ∃ e ∈ s.state.db.events, ∃ id expires, e.leasable (clock 0).toIso ∧ id ∉ s.log.map Prod.snd ∧
      (clock 0).addMicros? (seconds (leaseS.getD defaultEventLeaseS)) = some expires ∧
      given = { e with
        state := .delivered
        deliveryId := some id
        deliveryAttempts := e.deliveryAttempts + 1
        deliveredAt := some (clock 0).toIso
        deliveryExpires := some expires.toIso } ∧
      given ∈ c'.db.events ∧
      (Call.mk (.leaseNextEvent leaseS) clock).exec s.state = c'.hub ∧
      (Call.mk (.leaseNextEvent leaseS) clock).delivery s.state = some (given.id, id) := by
  have hat := atomically_of_commits hcommits
  obtain ⟨expires, hexpires, hlease⟩ := commits_leaseNextEvent.mp hcommits
  have hexec : (Call.mk (.leaseNextEvent leaseS) clock).exec s.state
      = (atomically (leaseNextEvent leaseS) (s.state.connect clock)).2.hub :=
    Call.exec_eq rfl clock s.state
  have hdelivery : (Call.mk (.leaseNextEvent leaseS) clock).delivery s.state
      = handedOut (atomically (leaseNextEvent leaseS) (s.state.connect clock)).1 := rfl
  rw [hexec, hdelivery, hat]
  have hfresh : s.state.uuids.head ∉ s.log.map Prod.snd := by
    intro hmem
    obtain ⟨p, hp, heq⟩ := List.mem_map.mp hmem
    exact (h.fresh p hp).1 0 heq.symm
  split at hlease
  · cases hlease.1
  · next row hfirst =>
    obtain ⟨hgiven, rfl⟩ := hlease
    obtain rfl := Option.some.inj hgiven
    have hrow : row ∈ s.state.db.events := Serial.mem_of_first? hfirst
    have hleasable : row.leasable (clock 0).toIso :=
      Serial.of_first? (p := (EventRecord.leasable · (clock 0).toIso)) hfirst
    exact ⟨row, hrow, _, expires, hleasable, hfresh, hexpires, rfl,
      Db.mem_lease.mpr ⟨row, hrow, if_pos rfl⟩, rfl, rfl⟩

/-- What Alice may rely on. -/
structure Inbox.Delivers (s : Inbox) : Prop where
  /-- The attempts are counted, one for each lease. -/
  attempts : ∀ e ∈ s.state.db.events, e.deliveryAttempts = (s.deliveriesOf e.id).length
  /-- No delivery id was given twice. -/
  distinct : (s.log.map Prod.snd).Nodup
  /-- Whatever happens next, no event is lost, and each goes one step. -/
  step : ∀ l : Call, ∀ e ∈ s.state.db.events, ∃ e' ∈ (l.exec s.state).db.events, e'.id = e.id ∧
    EventRecord.Step (l.deliveryOf s.state e.id) e e'
  /-- A lease that hands out an event has written it: an event that was queued, or out on a lease
      that has run out, is now out under an id that was never given, for one attempt more, until
      the new lease ends. -/
  leased : ∀ leaseS clock given c',
    Commits (leaseNextEvent leaseS) (s.state.connect clock) (some given) c' →
    ∃ e ∈ s.state.db.events, ∃ id expires, e.leasable (clock 0).toIso ∧ id ∉ s.log.map Prod.snd ∧
      (clock 0).addMicros? (seconds (leaseS.getD defaultEventLeaseS)) = some expires ∧
      given = { e with
        state := .delivered
        deliveryId := some id
        deliveryAttempts := e.deliveryAttempts + 1
        deliveredAt := some (clock 0).toIso
        deliveryExpires := some expires.toIso } ∧
      given ∈ c'.db.events ∧
      (Call.mk (.leaseNextEvent leaseS) clock).exec s.state = c'.hub ∧
      (Call.mk (.leaseNextEvent leaseS) clock).delivery s.state = some (given.id, id)
  /-- An event enters the inbox queued. -/
  entry : ∀ l : Call, ∀ e ∈ (l.exec s.state).db.events,
    (∀ old ∈ s.state.db.events, old.id ≠ e.id) → e.isNew
  /-- An acknowledgement counts exactly under the id of the most recent lease of an event that is
      not acknowledged, and then for that event alone. -/
  fenced : ∀ id clock, ∃ acked c', Commits (ackEvent (some id)) (s.state.connect clock) acked c' ∧
    (acked = true ↔ ∃ e ∈ s.state.db.events,
      (s.deliveriesOf e.id).getLast? = some id ∧ e.state ≠ .acked) ∧
    (∀ e ∈ s.state.db.events, (s.deliveriesOf e.id).getLast? = some id → e.state ≠ .acked →
      c'.hub = ⟨s.state.db.acknowledge e.id (clock 0).toIso, s.state.uuids⟩) ∧
    (acked = false → c'.hub = s.state)
  /-- An event that is not acknowledged is queued, or out on a lease that ends. -/
  waits : ∀ e ∈ s.state.db.events, e.state ≠ .acked →
    e.state = .queued ∨ e.state = .delivered ∧
      ∃ expires, e.deliveryExpires = some expires ∧ ∀ ts, e.leasable ts ↔ expires ≤ ts
  /-- While an event is leasable, a lease hands out an event, and none before its turn. -/
  oldest : ∀ e ∈ s.state.db.events, ∀ clock leaseS expires, e.leasable (clock 0).toIso →
    (clock 0).addMicros? (seconds (leaseS.getD defaultEventLeaseS)) = some expires →
    ∃ e' c', Commits (leaseNextEvent leaseS) (s.state.connect clock) (some e') c' ∧ e'.id ≤ e.id

/-- **At least once, with a fenced acknowledgement**, in every state of every run, and a wait of
    Alice's is itself part of a run. -/
theorem inbox_delivers (u : Uuids) (ls : List Call) :
    ((Inbox.start u).run ls).Delivers ∧
      ∀ ack leaseS ackClock polls, ∃ ms,
        (waitForEvent ack leaseS ackClock polls ((Inbox.start u).run ls).state).2
          = ((Inbox.start u).run (ls ++ ms)).state := by
  have h : ((Inbox.start u).run ls).Tracked := tracked_run u ls
  constructor
  · exact {
      attempts := fun e he => (h.agrees e he).attempts
      distinct := h.distinct
      step := fun l e he => step_exec l _ he
      leased := fun _ _ _ _ hcommits => h.leased hcommits
      entry := fun l e he => isNew_exec l _ he
      fenced := h.fenced
      waits := fun e he => h.waits he
      oldest := fun e he clock leaseS expires => leaseNextEvent_oldest he }
  · intro ack leaseS ackClock polls
    obtain ⟨ms, hms⟩ := waitForEvent_run ack leaseS ackClock polls ((Inbox.start u).run ls).state
    refine ⟨ms, ?_⟩
    rw [hms, Inbox.run, Inbox.run, Observed.state_runFrom, Observed.state_runFrom]
    exact (runFrom_append Call.exec _ ls ms).symm

/-- A lease of no length is handed out again under another id; until then its late acknowledgement
    counts. -/
theorem inbox_delivers_again :
    let s := (Inbox.start .unary).run
      [⟨.checkIn "ada" {} (some "ada-1") {} none, stoppedClock⟩,
        ⟨.leaseNextEvent (some 0), stoppedClock⟩]
    (∃ given c', Commits (leaseNextEvent none) (s.state.connect stoppedClock) (some given) c' ∧
      given ∈ c'.db.events ∧ given.state = .delivered ∧ given.deliveryAttempts = 2 ∧
      given.deliveryId ≠ some "uu") ∧
    ∃ c', Commits (ackEvent (some "uu")) (s.state.connect stoppedClock) true c' := by
  intro s
  have h : s.Delivers := (inbox_delivers .unary _).1
  have hall : ∀ e ∈ s.state.db.events.rows, e.deliveryAttempts = 1 := by decide +kernel
  have hgiven : "uu" ∈ s.log.map Prod.snd := by decide +kernel
  have hone : ∃ e ∈ s.state.db.events.rows, e.leasable (stoppedClock 0).toIso ∧
      (s.deliveriesOf e.id).getLast? = some "uu" ∧ e.state ≠ .acked := by decide +kernel
  have hexpires : ∃ expires, (stoppedClock 0).addMicros?
      (seconds ((none : Option ℚ).getD defaultEventLeaseS)) = some expires :=
    Option.isSome_iff_exists.mp (by decide +kernel)
  obtain ⟨e, he, hleasable, hlast, hacked⟩ := hone
  obtain ⟨expires, hexpires⟩ := hexpires
  constructor
  · obtain ⟨given, c', hcommits, -⟩ := h.oldest e he stoppedClock none expires hleasable hexpires
    obtain ⟨old, hold, id, _, -, hfresh, -, heq, hmem, -, -⟩ := h.leased _ _ _ _ hcommits
    have hattempts : given.deliveryAttempts = old.deliveryAttempts + 1 := by rw [heq]
    have hid : given.deliveryId = some id := by rw [heq]
    refine ⟨given, c', hcommits, hmem, by rw [heq], by rw [hattempts, hall old hold],
      fun hsame => ?_⟩
    exact hfresh (Option.some.inj (hid.symm.trans hsame) ▸ hgiven)
  · obtain ⟨acked, c', hcommits, hiff, -, -⟩ := h.fenced "uu" stoppedClock
    obtain rfl := hiff.mpr ⟨e, he, hlast, hacked⟩
    exact ⟨c', hcommits⟩

end AgentHub
