import AgentHub.Hub.Inbox

namespace AgentHub

open Relational

/-!
# First in, first out

The inbox as a queue, over runs that lease, let leases run out, acknowledge late and queue new
events in any order and under any clock.

* `Inbox.firstDeliveries` — the events in the order Alice first got them;
* `Inbox.InOrder` — the events she has got stand before those she has not, in the order she got
  them; `InOrder.queues`, `InOrder.lease`, `InOrder.ack`, one lemma for each thing a call does;
* `fifo_inbox` — the law, in every state of every run.
-/

/-- The ids of the events delivered so far, in the order of their first delivery. -/
def Inbox.firstDeliveries (s : Inbox) : List ℕ := (s.log.map Prod.fst).eraseDups

/-- The table is what was delivered, in the order of the first deliveries, and then what was
    not. -/
def Inbox.InOrder (s : Inbox) : Prop :=
  ∃ served waiting, s.state.db.events.rows = served ++ waiting ∧
    (∀ e ∈ served, e.state ≠ .queued) ∧ (∀ e ∈ waiting, e.state = .queued) ∧
    s.firstDeliveries = served.map EventRecord.id

/-! ### What each call does to the order -/

section

variable {s : Inbox} {t : Hub}

/-- The order speaks of the event queue only. -/
theorem Inbox.InOrder.queues (h : s.InOrder) (hqueues : s.state.db.Queues t.db) :
    Inbox.InOrder ⟨t, s.log⟩ := by
  obtain ⟨served, waiting, hrows, hserved, hwaiting, hfirsts⟩ := h
  obtain ⟨new, hrows', hnew⟩ := hqueues
  refine ⟨served, waiting ++ new, ?_, hserved, fun e he => ?_, hfirsts⟩
  · show t.db.events.rows = served ++ (waiting ++ new)
    rw [hrows', hrows, List.append_assoc]
  · rcases List.mem_append.mp he with he | he
    · exact hwaiting e he
    · exact (hnew e he).1

/-- One more delivery of an event that was delivered before is no first delivery. -/
theorem Inbox.firstDeliveries_again {s : Inbox} {id : ℕ} {delivery : String}
    (h : id ∈ s.firstDeliveries) :
    Inbox.firstDeliveries ⟨t, s.log ++ [(id, delivery)]⟩ = s.firstDeliveries := by
  have hmem : id ∈ s.log.map Prod.fst := List.mem_eraseDups.mp h
  show ((s.log ++ [(id, delivery)]).map Prod.fst).eraseDups = (s.log.map Prod.fst).eraseDups
  rw [List.map_append, List.eraseDups_append]
  have hnone : [id].removeAll (s.log.map Prod.fst) = [] := by
    simpa [List.removeAll] using hmem
  rw [List.map_singleton, hnone, List.eraseDups_nil, List.append_nil]

/-- The delivery of any other event is its first one. -/
theorem Inbox.firstDeliveries_new {s : Inbox} {id : ℕ} {delivery : String}
    (h : id ∉ s.firstDeliveries) :
    Inbox.firstDeliveries ⟨t, s.log ++ [(id, delivery)]⟩ = s.firstDeliveries ++ [id] := by
  have hmem : id ∉ s.log.map Prod.fst := fun hmem => h (List.mem_eraseDups.mpr hmem)
  show ((s.log ++ [(id, delivery)]).map Prod.fst).eraseDups =
    (s.log.map Prod.fst).eraseDups ++ [id]
  rw [List.map_append, List.eraseDups_append]
  have hkept : [id].removeAll (s.log.map Prod.fst) = [id] := by
    simpa [List.removeAll] using hmem
  rw [List.map_singleton, hkept, List.eraseDups_cons]
  rfl

/-- Leasing the first leasable event keeps the hand-outs in order. -/
theorem Inbox.InOrder.lease (h : s.InOrder) {e : EventRecord} {ts : Stamp}
    (hfirst : (s.state.db.events.first? fun e => e.leasable ts) = some e) (expires : Stamp) :
    Inbox.InOrder ⟨⟨s.state.db.lease e.id s.state.uuids.head ts expires, s.state.uuids.rest⟩,
      s.log ++ [(e.id, s.state.uuids.head)]⟩ := by
  obtain ⟨served, waiting, hrows, hserved, hwaiting, hfirsts⟩ := h
  let lease : EventRecord → EventRecord := fun a =>
    if a.id = e.id then a.leased s.state.uuids.head ts expires else a
  have hids : (served ++ waiting).Pairwise fun a b => a.id < b.id := by
    have hsorted := s.state.db.events.sorted
    rw [hrows, List.pairwise_map] at hsorted
    exact hsorted
  -- the lease writes one row, so a list without that event stays as it is
  have hlease : ∀ l : List EventRecord, (∀ a ∈ l, a.id ≠ e.id) → l.map lease = l := fun l hl =>
    (List.map_congr_left fun a ha => if_neg (hl a ha)).trans (List.map_id l)
  have hrows' : (s.state.db.lease e.id s.state.uuids.head ts expires).events.rows =
      served.map lease ++ waiting.map lease := by
    rw [← List.map_append, ← hrows]
    rfl
  have hstate : ∀ a ∈ served.map lease, a.state ≠ .queued := by
    intro a ha
    obtain ⟨a₀, ha₀, rfl⟩ := List.mem_map.mp ha
    show (if a₀.id = e.id then a₀.leased s.state.uuids.head ts expires else a₀).state ≠ .queued
    split
    · simp [EventRecord.leased]
    · exact hserved a₀ ha₀
  have hsame : (served.map lease).map EventRecord.id = served.map EventRecord.id := by
    rw [List.map_map]
    refine List.map_congr_left fun a _ => ?_
    show (if a.id = e.id then a.leased s.state.uuids.head ts expires else a).id = a.id
    split
    · rfl
    · rfl
  have hmem : e ∈ served ++ waiting := hrows ▸ Serial.mem_of_first? hfirst
  rw [List.pairwise_append] at hids
  rcases List.mem_append.mp hmem with he | he
  · -- a redelivery: the event keeps its place
    refine ⟨served.map lease, waiting, ?_, hstate, hwaiting, ?_⟩
    · have hothers : waiting.map lease = waiting :=
        hlease waiting fun a ha => Nat.ne_of_gt (hids.2.2 e he a ha)
      rw [hrows', hothers]
    · have hbefore : e.id ∈ s.firstDeliveries := hfirsts ▸ List.mem_map_of_mem he
      rw [hsame, ← hfirsts]
      exact Inbox.firstDeliveries_again hbefore
  · -- a first delivery: nothing that waits stands before the event
    obtain ⟨next, rest, rfl⟩ : ∃ next rest, waiting = next :: rest :=
      List.exists_cons_of_ne_nil (List.ne_nil_of_mem he)
    have hnext : next = e := by
      have hle : e.id ≤ next.id := by
        refine Serial.first?_le (p := fun a : EventRecord => a.leasable ts) hfirst ?_ ?_
        · rw [Serial.mem_iff, hrows]
          exact List.mem_append_right served List.mem_cons_self
        · exact .inl (hwaiting next List.mem_cons_self)
      rcases List.mem_cons.mp he with heq | hrest
      · exact heq.symm
      · have hlt : next.id < e.id := (List.pairwise_cons.mp hids.2.1).1 e hrest
        omega
    subst hnext
    have hnew : next.id ∉ s.firstDeliveries := by
      rw [hfirsts]
      intro hold
      obtain ⟨a, ha, hid⟩ := List.mem_map.mp hold
      have hlt : a.id < next.id := hids.2.2 a ha next List.mem_cons_self
      omega
    refine ⟨served.map lease ++ [lease next], rest, ?_, ?_, ?_, ?_⟩
    · have hothers : rest.map lease = rest :=
        hlease rest fun a ha => Nat.ne_of_gt ((List.pairwise_cons.mp hids.2.1).1 a ha)
      rw [hrows', List.map_cons, hothers, List.append_assoc]
      rfl
    · intro a ha
      rcases List.mem_append.mp ha with ha | ha
      · exact hstate a ha
      · rw [List.mem_singleton.mp ha]
        show (if next.id = next.id then _ else next).state ≠ .queued
        rw [if_pos rfl]
        simp [EventRecord.leased]
    · exact fun a ha => hwaiting a (List.mem_cons_of_mem next ha)
    · have hid : (lease next).id = next.id := by
        show (if next.id = next.id then _ else next).id = next.id
        rw [if_pos rfl]
        rfl
      rw [List.map_append, hsame, List.map_singleton, hid, ← hfirsts]
      exact Inbox.firstDeliveries_new hnew

/-- An acknowledgement keeps the hand-outs in order. -/
theorem Inbox.InOrder.ack (h : s.InOrder) (id : String) (ts : Stamp) :
    Inbox.InOrder ⟨⟨s.state.db.ack id ts, s.state.uuids⟩, s.log⟩ := by
  obtain ⟨served, waiting, hrows, hserved, hwaiting, hfirsts⟩ := h
  let ack : EventRecord → EventRecord := fun a =>
    if a.deliveredAs id then { a with state := .acked, ackedAt := some ts } else a
  have hrows' : (s.state.db.ack id ts).events.rows = served.map ack ++ waiting.map ack := by
    rw [← List.map_append, ← hrows]
    rfl
  have hothers : waiting.map ack = waiting := by
    refine (List.map_congr_left fun a ha => if_neg fun hout => ?_).trans (List.map_id waiting)
    have hdelivered : a.state = .delivered := hout.2
    rw [hwaiting a ha] at hdelivered
    cases hdelivered
  refine ⟨served.map ack, waiting, ?_, fun a ha => ?_, hwaiting, ?_⟩
  · rw [hrows', hothers]
  · obtain ⟨a₀, ha₀, rfl⟩ := List.mem_map.mp ha
    show (if a₀.deliveredAs id then { a₀ with state := .acked, ackedAt := some ts } else a₀).state
      ≠ .queued
    split
    · simp
    · exact hserved a₀ ha₀
  · refine hfirsts.trans ?_
    rw [List.map_map]
    refine List.map_congr_left fun a _ => ?_
    show a.id = (if a.deliveredAs id then { a with state := .acked, ackedAt := some ts } else a).id
    split
    · rfl
    · rfl

end

/-- One call keeps the order. -/
theorem inOrder_step (l : Call) (s : Inbox) (h : s.InOrder) :
    Inbox.InOrder (Observed.step Call.exec Call.delivery l s) := by
  unfold Observed.step
  obtain ⟨hnone, -, hqueues⟩ | ⟨e, ts, expires, hfirst, hdelivery, hexec⟩ |
    ⟨id, ts, -, -, -, hnone, hexec⟩ := inbox_cases l s.state
  · rw [hnone, Option.toList_none, List.append_nil]
    exact h.queues hqueues
  · rw [hdelivery, hexec]
    exact h.lease hfirst expires
  · rw [hnone, hexec, Option.toList_none, List.append_nil]
    exact h.ack id ts

/-- After any run the hand-outs are in order. -/
theorem inOrder_run (u : Uuids) (ls : List Call) : ((Inbox.start u).run ls).InOrder :=
  run_invariant inOrder_step ⟨[], [], rfl, by simp, by simp, rfl⟩ ls

/-- **The inbox is first in, first out**, in every state of every run.  The first deliveries went
    to the events in the order of their ids and left none out, so whatever is queued is newer than
    whatever was delivered.  A lease returns the oldest event that is queued or out on a lease that
    has run out, whichever it is, and none only if there is none. -/
theorem fifo_inbox (u : Uuids) (ls : List Call) :
    let s := (Inbox.start u).run ls
    let events := s.state.db.events
    (events.rows.map EventRecord.id).Pairwise (· < ·) ∧
    s.firstDeliveries <+: events.rows.map EventRecord.id ∧
    (∀ e ∈ events, e.id ∈ s.firstDeliveries ↔ e.state ≠ .queued) ∧
    (∀ e ∈ events, ∀ e' ∈ events, e.state ≠ .queued → e'.state = .queued → e.id < e'.id) ∧
    ∀ leaseS defaultLeaseS clock o c',
      Commits (leaseNextEvent leaseS defaultLeaseS) (s.state.connect clock) o c' →
      (o = none → ∀ e ∈ events, ¬ e.leasable (clock 0).toIso) ∧
      ∀ given, o = some given → ∃ e ∈ events, e.id = given.id ∧ e.leasable (clock 0).toIso ∧
        (∀ e' ∈ events, e'.leasable (clock 0).toIso → e.id ≤ e'.id) ∧
        ((∃ e' ∈ events, e'.state = .delivered ∧ e'.leasable (clock 0).toIso) →
          e.state = .delivered) := by
  intro s events
  obtain ⟨served, waiting, hrows, hserved, hwaiting, hfirsts⟩ : s.InOrder := inOrder_run u ls
  have hsorted := events.sorted
  -- the table is what was handed out, in order, and then what still waits
  have hmem {e : EventRecord} : e ∈ events ↔ e ∈ served ∨ e ∈ waiting := by
    rw [← List.mem_append, ← hrows]
    exact Iff.rfl
  have hbefore : ∀ e ∈ events, ∀ e' ∈ events, e.state ≠ .queued → e'.state = .queued →
      e.id < e'.id := by
    intro e he e' he' hout hqueued
    have hpairs := hsorted
    rw [List.pairwise_map] at hpairs
    rw [show events.rows = served ++ waiting from hrows, List.pairwise_append] at hpairs
    have hold : e ∈ served := (hmem.mp he).resolve_right fun h => hout (hwaiting e h)
    have hnew : e' ∈ waiting := (hmem.mp he').resolve_left fun h => hserved e' h hqueued
    exact hpairs.2.2 e hold e' hnew
  refine ⟨hsorted, ?_, ?_, hbefore, ?_⟩
  · rw [hfirsts, show events.rows = served ++ waiting from hrows, List.map_append]
    exact List.prefix_append _ _
  · intro e he
    rw [hfirsts]
    constructor
    · intro hid
      obtain ⟨e', he', heq⟩ := List.mem_map.mp hid
      obtain rfl : e' = e := Serial.eq_of_key_eq (hmem.mpr (.inl he')) he heq
      exact hserved e' he'
    · intro hout
      exact List.mem_map_of_mem ((hmem.mp he).resolve_right fun h => hout (hwaiting e h))
  · intro leaseS defaultLeaseS clock o c' hcommits
    obtain ⟨expires, -, hlease⟩ := commits_leaseNextEvent.mp hcommits
    cases hfirst : events.first? fun e => e.leasable (clock 0).toIso with
    | none =>
      have hfirst' : ((s.state.connect clock).db.events.first? fun e =>
          e.leasable ((s.state.connect clock).clock 0).toIso) = none := hfirst
      simp only [hfirst'] at hlease
      refine ⟨fun _ e he => Serial.first?_eq_none_iff.mp hfirst e he, fun given hgiven => ?_⟩
      rw [hlease.1] at hgiven
      cases hgiven
    | some row =>
      have hfirst' : ((s.state.connect clock).db.events.first? fun e =>
          e.leasable ((s.state.connect clock).clock 0).toIso) = some row := hfirst
      simp only [hfirst'] at hlease
      have hrow : row ∈ events := Serial.mem_of_first? hfirst
      have hleasable : row.leasable (clock 0).toIso :=
        Serial.of_first? (p := fun e : EventRecord => e.leasable (clock 0).toIso) hfirst
      refine ⟨fun hnone => ?_, fun given hgiven => ?_⟩
      · rw [hlease.1] at hnone
        cases hnone
      · obtain rfl := Option.some.inj (hlease.1.symm.trans hgiven)
        refine ⟨row, hrow, rfl, hleasable, fun e' he' h' => Serial.first?_le hfirst he' h', ?_⟩
        rintro ⟨e', he', hdelivered, hdue⟩
        have hle : row.id ≤ e'.id := Serial.first?_le hfirst he' hdue
        -- a lease that ran out is on an older event than any that is queued
        rcases hleasable with hqueued | hout
        · have hlt : e'.id < row.id := by
            refine hbefore e' he' row hrow ?_ hqueued
            rw [hdelivered]
            simp
          omega
        · exact hout.1

-- Ada's check-in is out on a lease of no length when Bob checks in: hers comes again first.
example :
    let s := ((Inbox.start .unary).run
      [⟨.checkIn "ada" {} (some "ada-1") {} none, stoppedClock⟩,
        ⟨.leaseNextEvent (some 0), stoppedClock⟩,
        ⟨.checkIn "bob" {} (some "bob-1") {} none, stoppedClock⟩]).state
    s.db.events.rows.map (fun e => (e.id, e.state)) = [(1, .delivered), (2, .queued)] ∧
      (atomically (leaseNextEvent none) (s.connect stoppedClock)).1.toOption.join.map
        (fun e => (e.id, e.deliveryAttempts)) = some (1, 2) := by
  decide +kernel

end AgentHub
