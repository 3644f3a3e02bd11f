import AgentHub.Alice.Driver
import AgentHub.Hub.Redelivery
import AgentHub.Hub.Reports
import AgentHub.Hub.Wakeups

namespace AgentHub

open Relational

/-!
# What the others leave to Alice

Workers, the sweeper and the calls of other processes change the hub between two calls of an Alice.
What she relies on outlives all that: nobody else makes a task, releases a worker, finishes the
workflow or touches a delivery.

* `Db.Follows` — the tables after steps that do none of this;
* `follows_exec` — so they are after a call of anyone else;
* `Hub.Reached` — a hub whose inbox holds what the hub put there, and what is true of it.
-/

/-- Tables that follow others: rows evolve, no task is new, nobody was released, the workflow has
    the status it had, and no event was taken from the inbox. -/
structure Db.Follows (d d' : Db) : Prop where
  evolves : d.Evolves d'
  tasks : ∀ t' ∈ d'.tasks, ∃ t ∈ d.tasks, t.id = t'.id ∧ t.Becomes t'
  released : ∀ a' ∈ d'.agents, a'.status = .released →
    ∃ a ∈ d.agents, a.name = a'.name ∧ a.status = .released
  workflow : d'.workflow = d.workflow ∨
    d.workflow = none ∧ ∃ w, d'.workflow = some w ∧ w.status = .active
  delivered : ∀ e ∈ d'.events, e.state ≠ .queued → e ∈ d.events

section

variable {d d' d'' : Db}

/-- Nothing was written. -/
theorem Db.Follows.refl (d : Db) : d.Follows d where
  evolves := .refl d
  tasks t ht := ⟨t, ht, rfl, .refl t⟩
  released a ha hr := ⟨a, ha, rfl, hr⟩
  workflow := .inl rfl
  delivered _ he _ := he

/-- What the others write, and then write more. -/
theorem Db.Follows.trans (h : d.Follows d') (h' : d'.Follows d'') : d.Follows d'' where
  evolves := h.evolves.trans h'.evolves
  tasks t'' ht'' := by
    obtain ⟨t', ht', hid', hbecomes'⟩ := h'.tasks t'' ht''
    obtain ⟨t, ht, hid, hbecomes⟩ := h.tasks t' ht'
    exact ⟨t, ht, hid.trans hid', .trans t t' t'' hbecomes hbecomes'⟩
  released a'' ha'' hr := by
    obtain ⟨a', ha', hname', hr'⟩ := h'.released a'' ha'' hr
    obtain ⟨a, ha, hname, hr⟩ := h.released a' ha' hr'
    exact ⟨a, ha, hname.trans hname', hr⟩
  workflow := by
    obtain hsame | ⟨hnone, w, hw, hactive⟩ := h.workflow
    · rw [← hsame]
      exact h'.workflow
    · obtain hsame' | ⟨hnone', -⟩ := h'.workflow
      · exact .inr ⟨hnone, w, hsame'.trans hw, hactive⟩
      · rw [hw] at hnone'
        cases hnone'
  delivered e he hq := h.delivered e (h'.delivered e he hq) hq

/-- The only change is a new workflow. -/
theorem follows_initializeWorkflow {goal id : String} {policy : WorkflowPolicy} {c c' : Conn}
    (h : Commits (initializeWorkflow goal policy) c id c') : c.db.Follows c'.db := by
  have hevolves : c.db.Evolves c'.db := evolves_moves (moves_initializeWorkflow h)
  obtain ⟨-, h⟩ := commits_initializeWorkflow.mp h
  cases hw : c.db.workflow with
  | none =>
    simp only [hw] at h
    obtain ⟨-, rfl⟩ := h
    exact { Db.Follows.refl c.db with
      evolves := hevolves
      workflow := .inr ⟨hw, _, rfl, rfl⟩ }
  | some row =>
    simp only [hw] at h
    obtain ⟨-, -, -, rfl⟩ := h
    exact .refl _

/-- What is out or acknowledged was so before the new events came. -/
theorem Db.Queues.delivered (h : d.Queues d') {e : EventRecord} (he : e ∈ d'.events)
    (hq : e.state ≠ .queued) : e ∈ d.events := by
  obtain ⟨new, hrows, hnew⟩ := h
  rw [Serial.mem_iff, hrows] at he
  rcases List.mem_append.mp he with he | he
  · exact he
  · exact absurd (hnew e he).1 hq

end

/-! ### Moves of the others -/

section

variable {k : Kind} {s s' : Hub}

/-- A task was there before, unless it is being assigned. -/
theorem task_before (h : Move k s s') (hk : k ≠ .assign) {t' : TaskRecord}
    (ht' : t' ∈ s'.db.tasks) : ∃ t ∈ s.db.tasks, t.id = t'.id ∧ t.Becomes t' := by
  have hfound' := Table.find?_of_mem ht'
  have hbefore : ∃ t, s.db.tasks.find? t'.id = some t := by
    obtain hsame | ⟨hassign, -⟩ | ⟨old, new, hold, hwrites, hrewrites⟩ := tasks_move h
    · exact ⟨t', hsame ▸ hfound'⟩
    · exact absurd hassign hk
    · rw [hrewrites] at hfound'
      split at hfound'
      · next hid => exact ⟨old, by rw [hid, hwrites.id, hold]⟩
      · exact ⟨t', hfound'⟩
  obtain ⟨t, ht⟩ := hbefore
  obtain ⟨t'', ht'', hbecomes⟩ := (evolves_move h).tasks.find? ht
  obtain rfl := Option.some.inj (ht''.symm.trans hfound')
  exact ⟨t, Table.mem_of_find? ht, Table.find?_key ht, hbecomes⟩

/-- Nobody is released but by a release. -/
theorem released_before (h : Move k s s') (hk : k ≠ .release) {a' : AgentRecord}
    (ha' : a' ∈ s'.db.agents) (hr : a'.status = .released) :
    ∃ a ∈ s.db.agents, a.name = a'.name ∧ a.status = .released := by
  have hfound' := Table.find?_of_mem ha'
  cases hold : s.db.agents.find? a'.name with
  | some a =>
    refine ⟨a, Table.mem_of_find? hold, Table.find?_key hold, ?_⟩
    by_contra hemployed
    obtain ⟨b, hb, hstatus⟩ := employed_move h hk ⟨a, hold, hemployed⟩
    obtain rfl := Option.some.inj (hb.symm.trans hfound')
    exact hstatus hr
  | none =>
    -- a worker nobody knew has just checked in
    by_cases hcheckIn : k = .checkIn
    · subst hcheckIn
      cases h with
      | @checkIn d _ name contextId instanceId profile remoteAddr row d' ts ts₁ ts₂ _ _ hadmits =>
        have hmem : a' ∈ d'.agents := ha'
        cases hadmits with
        | new _ hnew =>
          rcases (Table.mem_insertOrIgnore hnew).mp hmem with hmem | rfl
          · rw [Table.find?_of_mem hmem] at hold
            cases hold
          · cases hr
        | returned =>
          obtain ⟨a, ha, heq⟩ := Table.mem_updateWhere.mp ((Db.readmit_agents ..) ▸ hmem)
          have hname : a.name = a'.name := by
            rw [← heq]
            split <;> rfl
          rw [← hname, Table.find?_of_mem ha] at hold
          cases hold
    · rw [(agents_move h hcheckIn a'.name).2 hold] at hfound'
      cases hfound'

/-- **What follows a move of the others.** -/
theorem follows_move (h : Move k s s')
    (hk : k ∉ [.assign, .release, .create, .setWorkflowStatus, .lease, .ack]) :
    s.db.Follows s'.db := by
  simp only [List.mem_cons, List.not_mem_nil, or_false, not_or] at hk
  obtain ⟨hassign, hrelease, hcreate, hstatus, hlease, hack⟩ := hk
  exact {
    evolves := evolves_move h
    tasks := fun t' ht' => task_before h hassign ht'
    released := fun a' ha' hr => released_before h hrelease ha' hr
    workflow := .inl (workflow_move h (by simp [hcreate, hstatus]))
    delivered := fun e he hq => (queues_move h (by simp [hlease, hack])).delivered he hq }

/-- The others make none of Alice's moves, but for a new workflow. -/
theorem Op.kinds_of_others {op : Op} (h : op.isAlices = false) :
    (∃ goal policy, op = .initializeWorkflow goal policy) ∨
      ∀ k ∈ op.kinds, k ∉ [.assign, .release, .create, .setWorkflowStatus, .lease, .ack] := by
  cases op with
  | initializeWorkflow goal policy => exact .inl ⟨goal, policy, rfl⟩
  | setWorkflowStatus | releaseAgent | assignTask | appendEvent | ackEvent
  | leaseNextEvent => cases h
  | _ => exact .inr (by simp [Op.kinds])

/-- **What follows a call of the others.** -/
theorem follows_exec {l : Call} (hl : l.op.isAlices = false) (s : Hub) :
    s.db.Follows (l.exec s).db := by
  obtain ⟨goal, policy, hop⟩ | hkinds := Op.kinds_of_others hl
  · obtain ⟨op, clock⟩ := l
    obtain rfl : op = .initializeWorkflow goal policy := hop
    rw [Call.exec_eq (x := initializeWorkflow goal policy) rfl]
    obtain ⟨id, c', hc, h⟩ | ⟨e, -, h⟩ :=
      atomically_cases (initializeWorkflow goal policy) (s.connect clock)
    · rw [h]
      exact follows_initializeWorkflow hc
    · rw [h]
      exact .refl _
  · refine (moves_exec l s).invariant (I := fun t => s.db.Follows t.db) ?_ (.refl _)
    intro k t t' hk hmove hI
    exact hI.trans (follows_move hmove (hkinds k hk))

end

/-! ### Results -/

/-- The task has ended, and was not canceled. -/
def Db.Finished (d : Db) (taskId : String) : Prop :=
  ∃ t, d.tasks.find? taskId = some t ∧ (t.state = .completed ∨ t.state = .failed)

/-- A finished task stays finished. -/
theorem Db.Evolves.finished {d d' : Db} (h : d.Evolves d') {taskId : String}
    (hfinished : d.Finished taskId) : d'.Finished taskId := by
  obtain ⟨t, ht, hstate⟩ := hfinished
  obtain ⟨t', ht', hbecomes⟩ := h.tasks.find? ht
  have hended : ¬ t.isOpen := by
    rw [TaskRecord.isOpen]
    rcases hstate with hstate | hstate <;> rw [hstate] <;> simp [TaskState.terminal]
  obtain rfl := hbecomes.final hended
  exact ⟨t', ht', hstate⟩

/-- Every result event is about a task that has its result. -/
def Db.ResultsFinal (d : Db) : Prop :=
  ∀ p ∈ d.payloads, ∀ id, p.resultOf = some id → d.Finished id

/-- An event that is no result adds none. -/
theorem results_append {d d' : Db} {e : EventRecord}
    (hrows : d'.events.rows = d.events.rows ++ [e]) (hnone : e.payload.resultOf = none)
    {p : EventPayload} (hp : p ∈ d'.payloads) {id : String} (hid : p.resultOf = some id) :
    p ∈ d.payloads := by
  rw [payloads_append hrows] at hp
  rcases List.mem_append.mp hp with hp | hp
  · exact hp
  · rw [List.mem_singleton.mp hp, hnone] at hid
    cases hid

/-- Only the result of a worker queues a result event. -/
theorem results_move {k : Kind} {s s' : Hub} (h : Move k s s') (hk : k ∉ [.settle, .append])
    {p : EventPayload} (hp : p ∈ s'.db.payloads) {id : String} (hid : p.resultOf = some id) :
    p ∈ s.db.payloads := by
  cases h with
  | settle | append => simp at hk
  | draw | create | setWorkflowStatus | decide | beat | renew | release | assign | answer | cancel |
    override | claim => exact hp
  | @checkIn d _ name contextId instanceId profile _ row d' ts ts₁ ts₂ _ _ hadmits =>
    have hevents : d'.events = d.events := hadmits.frame Db.events fun _ => rfl
    exact results_append
      (congrArg (fun t : Serial EventRecord.id => t.rows ++ [_]) hevents) rfl hp hid
  | progress | ask | expire | lose | loseTask => exact results_append rfl rfl hp hid
  | lease => rwa [payloads_updateWhere (Db.lease_events ..) fun _ => rfl] at hp
  | ack => rwa [payloads_updateWhere (Db.ack_events ..) fun _ => rfl] at hp

/-- A worker's result is that the task was completed, or that it failed. -/
theorem settlement_ends {arg : Option ResultArg} {summary : String} {artifacts : List Fields}
    {s : Settlement} (h : settlement arg summary artifacts = .ok s) :
    s.state = .completed ∨ s.state = .failed := by
  have hresult : ∀ r : TaskResult, r.state = .completed ∨ r.state = .failed := by
    intro r
    cases r <;> simp only [TaskResult.state] <;> split <;> simp
  unfold settlement at h
  split at h
  · cases h
  · cases h
    exact hresult _
  · rename_i b
    cases hfits : requireResultFits b with
    | error e => rw [hfits] at h; cases h
    | ok u =>
      rw [hfits] at h
      simp only [bind, Except.bind] at h
      split at h
      · split at h
        · cases h
          exact hresult (.implementer _)
        · cases h
      · split at h
        · split at h
          · cases h
            exact hresult (.reviewer _)
          · cases h
        · cases h
  · split at h
    · cases h
    · rename_i state hstate
      cases h
      by_contra hneither
      exact hstate (not_or.mp hneither)

/-- A result submitted makes its task's results final. -/
theorem resultsFinal_submitResult {taskId agent summary : String} {result : Option ResultArg}
    {artifacts : List Fields} {status : Option TaskState} {op : Ledgered TaskRecord}
    {m : Mutation TaskRecord} {c c' : Conn}
    (h : Commits (submitResult taskId agent result summary artifacts status op) c m c')
    (hd : c.db.ResultsFinal) : c'.db.ResultsFinal := by
  have hevolves : c.db.Evolves c'.db := evolves_moves (moves_submitResult h)
  obtain ⟨-, s, hs, -, ⟨_, _, _, -, -, -, -, hdb⟩ | ⟨task, worker, finished, row, ts, ts₁, ts₂,
    ts₃, -, htask, -, -, -, -, -, -, -, hdb⟩⟩ := submitResult_cases h
  · rw [hdb]
    exact hd
  · have hrows : c'.db.events.rows = c.db.events.rows ++
        [{ id := c.db.events.seq + 1, payload := s.event taskId agent, ts := ts₂ }] := by
      rw [hdb]
      rfl
    have hpayloads : c'.db.payloads = c.db.payloads ++ [s.event taskId agent] :=
      payloads_append hrows
    intro p hp id hid
    rw [hpayloads] at hp
    rcases List.mem_append.mp hp with hp | hp
    · exact hevolves.finished (hd p hp id hid)
    · rw [List.mem_singleton.mp hp, settlement_resultOf] at hid
      obtain rfl := Option.some.inj hid
      have hended : c'.db.tasks.find? taskId = some { task with
          state := s.state, updated := ts₁, leaseExpires := none
          result := some (.obj s.payload) } := by
        rw [hdb]
        show (c.db.finish taskId s.state (some (.obj s.payload)) ts₁).tasks.find? taskId = _
        rw [Db.finish_tasks, Table.find?_modify_self, htask]
        rfl
      exact ⟨_, hended, settlement_ends hs⟩

/-- A call that appends no event of its own keeps the results final. -/
theorem resultsFinal_exec {l : Call} (hl : ∀ payload, l.op ≠ .appendEvent payload) {s : Hub}
    (hs : s.db.ResultsFinal) : (l.exec s).db.ResultsFinal := by
  by_cases hsettle : .settle ∈ l.op.kinds
  · obtain ⟨op, clock⟩ := l
    cases op <;> simp [Op.kinds] at hsettle
    rename_i taskId agent result summary artifacts status op
    rw [Call.exec_eq (x := submitResult taskId agent result summary artifacts status op) rfl]
    obtain ⟨m, c', hc, h⟩ | ⟨e, -, h⟩ := atomically_cases
      (submitResult taskId agent result summary artifacts status op) (s.connect clock)
    · rw [h]
      exact resultsFinal_submitResult hc hs
    · rw [h]
      exact hs
  · have happend : .append ∉ l.op.kinds := by
      intro hmem
      obtain ⟨op, clock⟩ := l
      cases op <;> simp [Op.kinds] at hmem
      exact hl _ rfl
    refine (moves_exec l s).invariant (I := fun t => t.db.ResultsFinal) ?_ hs
    intro k t t' hk hmove hI p hp id hid
    have hkinds : k ∉ [.settle, .append] := by
      simp only [List.mem_cons, List.not_mem_nil, or_false, not_or]
      exact ⟨fun h => hsettle (h ▸ hk), fun h => happend (h ▸ hk)⟩
    exact (evolves_move hmove).finished (hI p (results_move hmove hkinds hp hid) id hid)

/-! ### What is always true -/

/-- A hub whose inbox holds what the hub itself put there. -/
inductive Hub.Reached (u : Uuids) : Hub → Prop
  | start : Hub.Reached u (Hub.start u)
  | exec {s : Hub} (h : Hub.Reached u s) (l : Call) (hl : ∀ payload, l.op ≠ .appendEvent payload) :
      Hub.Reached u (l.exec s)

section

variable {u : Uuids} {s : Hub}

/-- A reached hub is one after a run of calls. -/
theorem Hub.Reached.run (h : s.Reached u) : ∃ ls, s = (Hub.start u).run ls := by
  induction h with
  | start => exact ⟨[], rfl⟩
  | exec _ l _ ih =>
    obtain ⟨ls, rfl⟩ := ih
    exact ⟨ls ++ [l], (runFrom_concat Call.exec _ ls l).symm⟩

/-- A reached hub has its questions parked. -/
theorem Hub.Reached.parked (h : s.Reached u) : s.db.Parked := by
  obtain ⟨ls, rfl⟩ := h.run
  exact parked_run u ls

/-- A message on a task is about a task there is. -/
theorem Hub.Reached.posted (h : s.Reached u) : s.db.Posted := by
  obtain ⟨ls, rfl⟩ := h.run
  exact (moves_run (Hub.start u) ls).invariant (I := fun t => t.db.Posted)
    (fun _ _ _ _ hmove hI => posted_move hmove hI) (kept_start u).posted

/-- A delivery id belongs to one event. -/
theorem Hub.Reached.delivered_unique (h : s.Reached u) {e e' : EventRecord} (he : e ∈ s.db.events)
    (he' : e' ∈ s.db.events) {id : String} (hout : e.deliveredAs id) (hout' : e'.deliveredAs id) :
    e = e' := by
  obtain ⟨ls, rfl⟩ := h.run
  have hstate : ((Inbox.start u).run ls).state = (Hub.start u).run ls :=
    Observed.state_runFrom ..
  exact (tracked_run u ls).event_unique (hstate ▸ he) (hstate ▸ he') hout hout'

/-- A reached hub has its results final. -/
theorem Hub.Reached.resultsFinal (h : s.Reached u) : s.db.ResultsFinal := by
  induction h with
  | start => exact fun p hp => by cases hp
  | exec _ l hl ih => exact resultsFinal_exec hl ih

/-- A reached hub has its inbox mirrored. -/
theorem Hub.Reached.mirrored (h : s.Reached u) : s.db.Mirrored := by
  induction h with
  | start => exact List.Forall₂.nil
  | exec _ l hl ih => exact mirrored_exec hl ih

/-- A question's event tells of the question's message. -/
theorem Tells.question_of {m : MessageRecord} {p : EventPayload} (h : Tells m p)
    {taskId agent question : String} {messageId : ℕ}
    (hp : p = .workerQuestion taskId agent question messageId) :
    ∃ sentAs, m.id = messageId ∧ m.taskId = some taskId ∧
      m.parts = questionParts question sentAs := by
  cases h with
  | checkedIn | progress => cases hp
  | @question _ _ sentAs htask hparts =>
    cases hp
    exact ⟨sentAs, rfl, htask, hparts⟩
  | @result taskId' result =>
    have hresult := settlement_resultOf result taskId' m.sender
    rw [hp] at hresult
    cases hresult

/-- The event of a question is about a question in the transcript. -/
theorem Hub.Reached.asked (h : s.Reached u) {e : EventRecord} (he : e ∈ s.db.events)
    {taskId agent question : String} {messageId : ℕ}
    (hpayload : e.payload = .workerQuestion taskId agent question messageId) :
    ∃ m ∈ s.db.messages, m.id = messageId ∧ m.questionOn taskId := by
  have hnews : e.payload ∈ s.db.news :=
    List.mem_filter.mpr ⟨List.mem_map_of_mem he, by rw [hpayload]; rfl⟩
  obtain ⟨i, hi, hget⟩ := List.getElem_of_mem hnews
  have hlength := h.mirrored.length_eq
  have htells := List.Forall₂.get h.mirrored (hlength ▸ hi) hi
  have hmem : s.db.reports.get ⟨i, hlength ▸ hi⟩ ∈ s.db.reports := List.get_mem ..
  rw [List.get_eq_getElem, List.get_eq_getElem, hget, hpayload] at htells
  rw [List.get_eq_getElem] at hmem
  obtain ⟨hm, hdirection⟩ := List.mem_filter.mp hmem
  obtain ⟨sentAs, hid, htask, hparts⟩ := htells.question_of rfl
  refine ⟨_, hm, hid, ⟨htask, by simpa using hdirection⟩, ?_⟩
  rw [hparts]
  rfl

end

end AgentHub
