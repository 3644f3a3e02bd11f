import AgentHub.Hub.Identity
import AgentHub.Hub.Inbox
import AgentHub.Hub.Leases
import AgentHub.Hub.Parking
import AgentHub.Relational.Waiting

namespace AgentHub

open Relational

/-!
# Held requests

A worker that waits for work, a worker that waits for an answer and Alice at her inbox all wait
in the same way: they poll under a subscription, and an operation notifies the key of what it
made available once it has committed.

* `Wait` — the three waits with their keys and polls, `Wait.Ready`, whether a poll would find
  something;
* `Call.notifies` — the keys an operation notifies, `*_notifies`, when it does;
* `hubBoard` — the waits as a board, `lawful_hubBoard`, that every operation notifies the waits
  it may end;
* `no_lost_wakeup` — nobody sleeps past what it waits for, except Alice past the end of a lease,
  and then no longer than she reckoned with.
-/

/-! ### Waits and polls -/

/-- What a request is held for. -/
inductive Wait where
  | assignment (name contextId : String)
  | reply (taskId : String) (after : ℕ)
  | event (leaseS : Option ℚ)

/-- The key a wait subscribes to. -/
def Wait.key : Wait → SignalKey
  | .assignment _ contextId => .context contextId
  | .reply taskId _ => .task taskId
  | .event _ => .events

/-- The wait can begin: its agent has the context, its task exists. -/
def Wait.opens (w : Wait) (s : Hub) : Bool :=
  match w with
  | .assignment name contextId =>
    (s.db.agents.find? name).any fun a => decide (a.contextId = contextId)
  | .reply taskId _ => (s.db.tasks.find? taskId).isSome
  | .event _ => true

/-- `pending_reply`. -/
def pendingReply (taskId : String) (after : ℕ) : Txn (Option MessageRecord) := do
  return (← readDb).pendingReply taskId after

/-- One poll, and whether it found something. -/
def Wait.poll : Wait → Txn Bool
  | .assignment name _ => Option.isSome <$> claimAssignment name
  | .reply taskId after => Option.isSome <$> pendingReply taskId after
  | .event leaseS => Option.isSome <$> leaseNextEvent leaseS

/-- A poll at `now` would find something. -/
def Wait.Ready (w : Wait) (now : Moment) (s : Hub) : Prop :=
  ∃ c', Commits w.poll (s.connect fun _ => now) true c'

/-- The keys a call notifies when it has committed. -/
def Call.notifies (l : Call) (s : Hub) : List SignalKey :=
  (atomically (program l.op) (s.connect l.clock)).2.notified

/-- The keys a call notifies are those its transaction has put down. -/
theorem Call.notifies_eq {α : Type} {op : Op} {x : Txn α} (h : program op = discard x)
    (clock : ℕ → Moment) (s : Hub) :
    (Call.mk op clock).notifies s = (atomically x (s.connect clock)).2.notified := by
  have hdiscard : discard x = (fun _ => PUnit.unit) <$> x := rfl
  rw [Call.notifies, h, hdiscard, atomically_map]

/-- A released agent, and one that a task was submitted to, is not kept waiting. -/
def Db.NoWork (d : Db) (name : String) : Prop :=
  (∃ a, d.agents.find? name = some a ∧ a.status ≠ .released) ∧ d.submittedTo? name = none

/-- An assignment stream is ready when there is work for the agent, or an end to it. -/
theorem ready_assignment {name contextId : String} {now : Moment} {s : Hub}
    (hopens : (Wait.assignment name contextId).opens s = true) :
    (Wait.assignment name contextId).Ready now s ↔ ¬ s.db.NoWork name := by
  obtain ⟨a, ha, -⟩ := Option.any_eq_true _ _ |>.mp hopens
  have hpoll : (Wait.assignment name contextId).Ready now s ↔
      ∃ o c', Commits (claimAssignment name) (s.connect fun _ => now) o c' ∧ o.isSome = true := by
    simp only [Wait.Ready, Wait.poll, commits_map]
    constructor
    · rintro ⟨c', o, h, ho⟩
      exact ⟨o, c', h, ho.symm⟩
    · rintro ⟨o, c', h, ho⟩
      exact ⟨c', o, h, ho.symm⟩
  rw [hpoll]
  constructor
  · rintro ⟨o, c', h, ho⟩ ⟨⟨b, hb, hstatus⟩, hnone⟩
    obtain ⟨b', hb', h⟩ := commits_claimAssignment.mp h
    obtain rfl : b' = b := Option.some.inj (hb'.symm.trans hb)
    have hnone' : (s.connect fun _ => now).db.submittedTo? name = none := hnone
    rw [if_neg hstatus, hnone'] at h
    rw [h.1] at ho
    cases ho
  · intro hwork
    by_cases hstatus : a.status = .released
    · exact ⟨_, _, commits_claimAssignment.mpr
        ⟨a, ha, by rw [if_pos hstatus]; exact ⟨rfl, rfl⟩⟩, rfl⟩
    · cases ht : s.db.submittedTo? name with
      | none => exact absurd ⟨⟨a, ha, hstatus⟩, ht⟩ hwork
      | some t =>
        have ht' : (s.connect fun _ => now).db.submittedTo? name = some t := ht
        exact ⟨_, _, commits_claimAssignment.mpr
          ⟨a, ha, by rw [if_neg hstatus, ht']; exact ⟨rfl, rfl⟩⟩, rfl⟩

/-- A reply stream is ready when a reply has come. -/
theorem ready_reply {taskId : String} {after : ℕ} {now : Moment} {s : Hub} :
    (Wait.reply taskId after).Ready now s ↔ s.db.pendingReply taskId after ≠ none := by
  simp only [Wait.Ready, Wait.poll, pendingReply, commits_map, commits_bind, commits_readDb,
    commits_pure]
  constructor
  · rintro ⟨c', o, ⟨d, _, ⟨rfl, rfl⟩, rfl, rfl⟩, ho⟩ hnone
    have hnone' : (s.connect fun _ => now).db.pendingReply taskId after = none := hnone
    rw [hnone'] at ho
    cases ho
  · intro hsome
    obtain ⟨m, hm⟩ := Option.ne_none_iff_exists'.mp hsome
    refine ⟨_, _, ⟨_, _, ⟨rfl, rfl⟩, rfl, rfl⟩, ?_⟩
    have hm' : (s.connect fun _ => now).db.pendingReply taskId after = some m := hm
    rw [hm']
    rfl

/-- The inbox is ready when an event is leasable and the lease would end at a date. -/
theorem ready_event {leaseS : Option ℚ} {now : Moment} {s : Hub} :
    (Wait.event leaseS).Ready now s ↔
      (∃ expires, now.addMicros? (seconds (leaseS.getD defaultEventLeaseS)) = some expires) ∧
        ∃ e ∈ s.db.events, e.leasable now.toIso := by
  simp only [Wait.Ready, Wait.poll, commits_map]
  constructor
  · rintro ⟨c', o, h, ho⟩
    obtain ⟨expires, hexpires, h⟩ := commits_leaseNextEvent.mp h
    refine ⟨⟨expires, hexpires⟩, ?_⟩
    split at h
    · rw [h.1] at ho
      cases ho
    · rename_i row hrow
      exact ⟨row, Serial.mem_of_first? hrow,
        Serial.of_first? (p := fun e : EventRecord => e.leasable now.toIso) hrow⟩
  · rintro ⟨⟨expires, hexpires⟩, e, he, hleasable⟩
    obtain ⟨e', c', h, -⟩ : ∃ e' c', Commits (leaseNextEvent leaseS) (s.connect fun _ => now)
        (some e') c' ∧ e'.id ≤ e.id := leaseNextEvent_oldest he hleasable hexpires
    exact ⟨c', some e', h, rfl⟩

/-! ### What each operation notifies -/

section

variable {c c' : Conn}

/-- A check-in that writes wakes the inbox. -/
theorem checkIn_notifies {name : String} {profile : AgentProfile} {instanceId : Option String}
    {op : Ledgered AgentRecord} {remoteAddr : Option String} {m : Mutation AgentRecord}
    (h : Commits (checkIn name profile instanceId op remoteAddr) c m c') :
    c'.db = c.db ∨ .events ∈ c'.notified := by
  unfold checkIn at h
  simp only [commits_bind, commits_nowIso, commits_replay] at h
  obtain ⟨_, _, ⟨-, rfl⟩, _, t, hid, _, _, ⟨rfl, ⟨rfl, -⟩ | ⟨_, _, _, -, -, -, rfl⟩⟩, h⟩ := h
  · simp only [commits_bind, commits_notify, commits_pure] at h
    obtain ⟨_, _, -, _, _, -, _, _, -, _, _, -, _, _, -, _, t, -, _, _, rfl, -, rfl⟩ := h
    exact .inr (List.mem_append_right _ (List.mem_singleton_self _))
  · obtain ⟨-, rfl⟩ := commits_pure.mp h
    exact .inl (instanceIdOrNew_cases hid).2.2.2

/-- A progress report that writes wakes the inbox. -/
theorem recordProgress_notifies {taskId agent note : String} {op : Ledgered Unit}
    {m : Mutation Unit} (h : Commits (recordProgress taskId agent note op) c m c') :
    c'.db = c.db ∨ .events ∈ c'.notified := by
  unfold recordProgress at h
  simp only [commits_bind, commits_replay] at h
  obtain ⟨_, _, ⟨rfl, ⟨rfl, -⟩ | ⟨_, _, _, -, -, -, rfl⟩⟩, h⟩ := h
  · simp only [commits_bind, commits_notify, commits_pure] at h
    obtain ⟨_, _, -, _, _, -, _, _, -, _, _, -, _, _, -, _, t, -, _, _, rfl, -, rfl⟩ := h
    exact .inr (List.mem_append_right _ (List.mem_singleton_self _))
  · obtain ⟨-, rfl⟩ := commits_pure.mp h
    exact .inl rfl

/-- A question that is asked wakes the inbox. -/
theorem openQuestion_notifies {taskId agent question sentAs : String} {id : ℕ}
    (h : Commits (openQuestion taskId agent question sentAs) c id c') :
    c'.db = c.db ∨ .events ∈ c'.notified := by
  unfold openQuestion at h
  simp only [commits_bind, commits_requireOpenTask, commits_requireAgent, commits_readDb] at h
  obtain ⟨task, _, ⟨-, -, rfl⟩, _, _, ⟨-, rfl⟩, _, _, ⟨rfl, rfl⟩, h⟩ := h
  split at h
  · obtain ⟨-, rfl⟩ := commits_pure.mp h
    exact .inl rfl
  · simp only [commits_bind, commits_notify, commits_pure] at h
    obtain ⟨_, _, -, _, _, -, _, t, -, _, _, rfl, -, rfl⟩ := h
    exact .inr (List.mem_append_right _ (List.mem_singleton_self _))

/-- A result that is settled wakes the inbox. -/
theorem submitResult_notifies {taskId agent summary : String} {result : Option ResultArg}
    {artifacts : List Fields} {status : Option TaskState} {op : Ledgered TaskRecord}
    {m : Mutation TaskRecord}
    (h : Commits (submitResult taskId agent result summary artifacts status op) c m c') :
    c'.db = c.db ∨ .events ∈ c'.notified := by
  unfold submitResult at h
  simp only [commits_bind, commits_ofExcept, commits_replay] at h
  obtain ⟨_, _, ⟨-, rfl⟩, _, _, ⟨-, rfl⟩, _, _, ⟨rfl, ⟨rfl, -⟩ | ⟨_, _, _, -, -, -, rfl⟩⟩, h⟩ := h
  · simp only [commits_bind, commits_notify, commits_pure] at h
    obtain ⟨_, _, -, _, _, -, _, _, -, _, _, -, _, _, -, _, _, -, _, t, -, _, _, rfl, -, rfl⟩ := h
    exact .inr (List.mem_append_right _ (List.mem_singleton_self _))
  · obtain ⟨-, rfl⟩ := commits_pure.mp h
    exact .inl rfl

/-- An event put in by hand wakes the inbox. -/
theorem appendEvent_notifies {payload : EventPayload} {e : EventRecord}
    (h : Commits (appendEvent payload) c e c') : .events ∈ c'.notified := by
  simp only [appendEvent, commits_bind, commits_notify, commits_pure] at h
  obtain ⟨_, _, -, _, _, -, _, t, -, _, _, rfl, -, rfl⟩ := h
  exact List.mem_append_right _ (List.mem_singleton_self _)

/-- A loop that returns nothing had nothing to do. -/
theorem commits_mapM_eq_nil {α β : Type} {f : α → Txn β} {as : List α}
    (h : Commits (as.mapM f) c [] c') : c' = c := by
  cases as with
  | nil => exact (commits_mapM_nil.mp h).2
  | cons a as =>
    obtain ⟨b, _, bs, -, -, heq⟩ := commits_mapM_cons.mp h
    cases heq

/-- A sweep that finds anything wakes the inbox. -/
theorem sweep_notifies {lostAfterS : ℚ} {es : List EventRecord}
    (h : Commits (sweep lostAfterS) c es c') : c'.db = c.db ∨ .events ∈ c'.notified := by
  simp only [sweep, expireLeases, loseAgents, commits_bind, commits_now, commits_readDb,
    commits_addMicros] at h
  obtain ⟨_, _, ⟨-, rfl⟩, expired, t, ⟨_, _, ⟨rfl, rfl⟩, hexpire⟩, cutoff, _, ⟨-, rfl⟩, lost, t',
    ⟨_, _, ⟨rfl, rfl⟩, hlose⟩, h⟩ := h
  split at h
  · rename_i hnone
    obtain ⟨rfl, rfl⟩ := List.append_eq_nil_iff.mp hnone
    obtain rfl := commits_mapM_eq_nil hexpire
    obtain rfl := commits_mapM_eq_nil hlose
    obtain ⟨-, rfl⟩ := commits_pure.mp h
    exact .inl rfl
  · simp only [commits_bind, commits_readDb, commits_notify, commits_pure] at h
    obtain ⟨_, _, ⟨-, rfl⟩, _, _, rfl, -, rfl⟩ := h
    exact .inr (List.mem_append_right _ (List.mem_singleton_self _))

/-- A release wakes the agent's stream. -/
theorem releaseAgent_notifies {name : String} {a b : AgentRecord}
    (h : Commits (releaseAgent name) c a c') (hb : c.db.agents.find? name = some b) :
    c'.db = c.db ∨ .context b.contextId ∈ c'.notified := by
  simp only [releaseAgent, commits_bind, commits_requireAgent] at h
  obtain ⟨agent, _, ⟨hagent, rfl⟩, h⟩ := h
  obtain rfl : agent = b := Option.some.inj (hagent.symm.trans hb)
  split at h
  · obtain ⟨-, rfl⟩ := commits_pure.mp h
    exact .inl rfl
  · simp only [commits_bind, commits_notify, commits_pure] at h
    obtain ⟨_, _, -, _, t, -, _, _, rfl, -, rfl⟩ := h
    exact .inr (List.mem_append_right _ (List.mem_singleton_self _))

/-- An assignment wakes the assignee's stream. -/
theorem assignTask_notifies {agent role title instructions : String} {leaseMin : ℚ}
    {prHeadSha : Option String} {sourceEventId : Option ℕ} {task : TaskRecord} {b : AgentRecord}
    (h : Commits (assignTask agent role title instructions leaseMin prHeadSha sourceEventId) c
      task c') (hb : c.db.agents.find? agent = some b) :
    c'.db = c.db ∨ .context b.contextId ∈ c'.notified := by
  simp only [assignTask, commits_bind, commits_refuseIf, commits_now, commits_requireWorkflow,
    commits_maxTaskLeaseMin, commits_assignedBefore] at h
  obtain ⟨_, _, ⟨-, rfl⟩, _, _, ⟨-, rfl⟩, _, _, ⟨-, rfl⟩, _, _, ⟨-, rfl⟩, o, _, ⟨rfl, -⟩, h⟩ := h
  split at h
  · obtain ⟨-, rfl⟩ := commits_pure.mp h
    exact .inl rfl
  · simp only [commits_bind, commits_requireIdle, commits_notify, commits_pure] at h
    obtain ⟨record, _, ⟨hrecord, -, rfl⟩, _, _, -, _, _, -, _, _, -, _, _, -, _, _, -, _, t, -,
      _, _,
      rfl, -, rfl⟩ := h
    obtain rfl : record = b := Option.some.inj (hrecord.symm.trans hb)
    exact .inr (List.mem_append_right _ (List.mem_singleton_self _))

/-- An override wakes the task's streams. -/
theorem setTaskState_notifies {taskId note : String} {state : TaskState} {task : TaskRecord}
    (h : Commits (setTaskState taskId state note) c task c') : .task taskId ∈ c'.notified := by
  simp only [setTaskState, commits_bind, commits_notify, commits_pure] at h
  obtain ⟨_, _, -, _, _, -, _, _, -, _, _, -, _, _, -, _, t, -, _, _, rfl, _, _, rfl, -, rfl⟩ := h
  simp

/-- A claim wakes nobody. -/
theorem claimAssignment_notifies {name : String} {o : Option Claim}
    (h : Commits (claimAssignment name) c o c') : c'.notified = c.notified := by
  obtain ⟨a, -, h⟩ := commits_claimAssignment.mp h
  split at h
  · rw [h.2]
  · split at h
    · rw [h.2]
    · rw [h.2]

/-- A lease of an event wakes nobody. -/
theorem leaseNextEvent_notifies {leaseS : Option ℚ} {o : Option EventRecord}
    (h : Commits (leaseNextEvent leaseS) c o c') : c'.notified = c.notified := by
  obtain ⟨expires, -, h⟩ := commits_leaseNextEvent.mp h
  split at h
  · rw [h.2]
  · rw [h.2]

end

/-! ### A worker without work -/

/-- The agent is there, and not released. -/
def Db.Employed (d : Db) (name : String) : Prop :=
  ∃ a, d.agents.find? name = some a ∧ a.status ≠ .released

/-- An update that releases nobody leaves an agent employed. -/
theorem employed_updateWhere {d d' : Db} {p : AgentRecord → Prop} [DecidablePred p]
    {f : AgentRecord → AgentRecord} {hf : ∀ a, (f a).name = a.name}
    (h : d'.agents = d.agents.updateWhere p f hf)
    (hstep : ∀ a : AgentRecord, a.status ≠ .released → (f a).status ≠ .released) {name : String}
    (hd : d.Employed name) : d'.Employed name := by
  obtain ⟨a, ha, hstatus⟩ := hd
  refine ⟨if p a then f a else a, ?_, ?_⟩
  · rw [h, Table.find?_updateWhere, ha]
    rfl
  · split
    · exact hstep a hstatus
    · exact hstatus

/-- The end of a task leaves its agent employed. -/
theorem employed_finish {d : Db} {taskId : String} {state : TaskState} {result : Option Json}
    {ts : Stamp} {name : String} (hd : d.Employed name) :
    (d.finish taskId state result ts).Employed name := by
  refine employed_updateWhere (Db.finish_agents ..) (fun a hstatus => ?_) hd
  dsimp only
  split
  · simp
  · exact hstatus

/-- Only a release releases. -/
theorem employed_move {k : Kind} {s s' : Hub} (h : Move k s s') (hk : k ≠ .release) {name : String}
    (hs : s.db.Employed name) : s'.db.Employed name := by
  cases h with
  | draw | create | setWorkflowStatus | decide | renew | ask | answer | claim | expire | append |
    lease | ack => exact hs
  | release => exact absurd rfl hk
  | beat => exact employed_updateWhere (Db.beat_agents ..) (fun a h => h) hs
  | assign => exact employed_updateWhere (Db.assign_agents ..) (fun a _ => by simp) hs
  | progress => exact employed_updateWhere (Db.progressAt_agents ..) (fun a h => h) hs
  | @settle d _ task _ result _ _ ts₁ =>
    have hended : (d.finish task.id result.state (some (.obj result.payload)) ts₁).Employed name :=
      employed_finish hs
    exact hended
  | cancel => exact employed_finish hs
  | @override d _ task contextId note state ts ts' =>
    have hended : (d.finish task.id state
        (some (.obj [("status", .str state.value), ("summary", .str note)])) ts').Employed name :=
      employed_finish hs
    exact hended
  | lose => exact employed_updateWhere (Db.setStatus_agents ..) (fun a _ => by simp) hs
  | @loseTask d _ agent taskId ts ts' =>
    have hlost : (d.setStatus agent.name .lost).Employed name :=
      employed_updateWhere (Db.setStatus_agents ..) (fun a _ => by simp) hs
    have hended : ((d.setStatus agent.name .lost).finish taskId .failed
        (some (lostResult agent.name)) ts).Employed name := employed_finish hlost
    exact hended
  | @checkIn d _ who _ instanceId profile remoteAddr row d' ts _ _ _ _ hadmits =>
    cases hadmits with
    | new _ hnew =>
      obtain ⟨a, ha, hstatus⟩ := hs
      refine ⟨a, ?_, hstatus⟩
      show (d.agents.insertOrIgnore _).find? name = some a
      rw [Table.find?_insertOrIgnore hnew]
      split
      · rename_i hname
        have hwho : who = name := hname
        rw [hwho, ha] at hnew
        cases hnew
      · exact ha
    | returned previous hprev =>
      have hback : (d.readmit who (d.openTaskId previous.currentTaskId) instanceId profile
          remoteAddr ts).Employed name := by
        refine employed_updateWhere (Db.readmit_agents ..) (fun a hstatus => ?_) hs
        simp only [AgentRecord.returned, readmitted, hstatus, if_false]
        split
        · simp
        · simp
      exact hback

/-- Only an assignment submits a task. -/
theorem noWork_move {k : Kind} {s s' : Hub} (h : Move k s s') (hrelease : k ≠ .release)
    (hassign : k ≠ .assign) {name : String} (hs : s.db.NoWork name) : s'.db.NoWork name := by
  refine ⟨employed_move h hrelease hs.1, Db.submittedTo?_eq_none_iff.mpr ?_⟩
  have hnone := Db.submittedTo?_eq_none_iff.mp hs.2
  obtain hsame | ⟨hk, -⟩ | ⟨t, t', ht, hwrites, hrewrites⟩ := tasks_move h
  · rw [hsame]
    exact hnone
  · exact absurd hk hassign
  · rintro r hr ⟨hassignee, hstate⟩
    have hfind := hrewrites r.id
    rw [Table.find?_of_mem hr] at hfind
    split at hfind
    · -- the row that was written: no write ends at `submitted`
      obtain rfl := Option.some.inj hfind
      cases hwrites with
      | claim | ask | answer => cases hstate
      | renew | expire => exact hnone t (Table.mem_of_find? ht) ⟨hassignee, hstate⟩
      | finish _ _ hended =>
        subst hstate
        cases hended
    · exact hnone r (Table.mem_of_find? hfind.symm) ⟨hassignee, hstate⟩

/-- **What a call means to a worker that waits for work.**  It leaves it without, or it notifies
    the worker's context. -/
theorem noWork_exec (l : Call) {s : Hub} {name : String} {a : AgentRecord}
    (ha : s.db.agents.find? name = some a) (hs : s.db.NoWork name) :
    (l.exec s).db.NoWork name ∨ .context a.contextId ∈ l.notifies s := by
  -- only a release and an assignment give a worker something to see, and both notify
  by_cases hkind : .release ∈ l.op.kinds ∨ .assign ∈ l.op.kinds
  · obtain ⟨op, clock⟩ := l
    cases op with
    | releaseAgent who =>
      rw [Call.exec_eq rfl clock s, Call.notifies_eq rfl clock s]
      rcases atomically_cases (releaseAgent who) (s.connect clock) with
        ⟨b, c', hc, hat⟩ | ⟨e, -, hat⟩
      · rw [hat]
        by_cases hname : name = who
        · subst hname
          rcases releaseAgent_notifies hc ha with hdb | hnotified
          · refine .inl ?_
            have hhub : c'.hub.db = s.db := hdb
            rw [hhub]
            exact hs
          · exact .inr hnotified
        · refine .inl ?_
          obtain ⟨-, agent, -, ⟨-, hdb⟩ | ⟨-, hdb⟩⟩ := releaseAgent_cases hc
          · have hhub : c'.hub.db = s.db := hdb
            rw [hhub]
            exact hs
          · have hhub : c'.hub.db = s.db.setStatus who .released := hdb
            rw [hhub]
            refine ⟨⟨a, ?_, ?_⟩, hs.2⟩
            · rw [Db.setStatus_agents, Table.find?_modify_ne _ hname]
              exact ha
            · obtain ⟨⟨b, hb, hstatus⟩, -⟩ := hs
              rw [Option.some.inj (ha.symm.trans hb)]
              exact hstatus
      · rw [hat]
        exact .inl hs
    | assignTask who role title instructions leaseMin sha source =>
      rw [Call.exec_eq rfl clock s, Call.notifies_eq rfl clock s]
      rcases atomically_cases (assignTask who role title instructions leaseMin sha source)
        (s.connect clock) with ⟨t, c', hc, hat⟩ | ⟨e, -, hat⟩
      · rw [hat]
        by_cases hname : name = who
        · subst hname
          rcases assignTask_notifies hc ha with hdb | hnotified
          · refine .inl ?_
            have hhub : c'.hub.db = s.db := hdb
            rw [hhub]
            exact hs
          · exact .inr hnotified
        · refine .inl ?_
          obtain ⟨-, workflow, capMin, request, -, -, -, hrequest, -, ⟨-, -, hdb⟩ |
            ⟨-, record, id, expires, ts, ts', hrecord, -, hfree, -, rfl, hdb⟩⟩ :=
              assignTask_cases hc
          · have hhub : c'.hub.db = s.db := hdb
            rw [hhub]
            exact hs
          · -- the new task is another worker's
            have hhub : c'.hub.db = s.db.assign (request.task id source expires ts) who
              record.contextId (assignmentParts request) ts' := hdb
            rw [hhub]
            refine ⟨employed_updateWhere (Db.assign_agents ..) (fun a _ => by simp) hs.1,
              Db.submittedTo?_eq_none_iff.mpr ?_⟩
            rintro r hr ⟨hassignee, hstate⟩
            rw [Db.assign_tasks] at hr
            rcases (Table.mem_insertOrIgnore hfree).mp hr with hr | rfl
            · exact Db.submittedTo?_eq_none_iff.mp hs.2 r hr ⟨hassignee, hstate⟩
            · have hwho : request.assignee = some who := by
                rw [hrequest]
                rfl
              exact hname (Option.some.inj (hassignee.symm.trans hwho))
      · rw [hat]
        exact .inl hs
    | _ => simp [Op.kinds] at hkind
  · -- every other call is a run of moves that leave the worker employed and without work
    refine .inl ((moves_exec l s).invariant (I := fun t => t.db.NoWork name)
      (fun k t t' hk hmove hI => ?_) hs)
    exact noWork_move hmove (fun heq => hkind (.inl (heq ▸ hk)))
      (fun heq => hkind (.inr (heq ▸ hk))) hI

/-! ### A question without an answer -/

/-- Only a reply or an override writes to a worker on a task that exists. -/
theorem silent_move {k : Kind} {s s' : Hub} (h : Move k s s') (hanswer : k ≠ .answer)
    (hoverride : k ≠ .override) {taskId : String} {t : TaskRecord}
    (ht : s.db.tasks.find? taskId = some t) (after : ℕ) :
    s'.db.pendingReply taskId after = s.db.pendingReply taskId after := by
  have hposted {m : MessageRecord} (hposts : s.db.Posts s'.db m)
      (hm : m.taskId = some taskId → m.direction ≠ .fromAlice) :
      s'.db.pendingReply taskId after = s.db.pendingReply taskId after :=
    hposts.pendingReply_eq hm after
  cases h with
  | draw | create | setWorkflowStatus | decide | beat | renew | release | cancel | claim | expire |
    lose | loseTask | append | lease | ack => rfl
  | answer => exact absurd rfl hanswer
  | override => exact absurd rfl hoverride
  | @checkIn d _ _ _ _ _ _ _ d' _ _ _ _ _ hadmits =>
    have hmessages : d'.messages = d.messages := hadmits.frame Db.messages fun _ => rfl
    refine hposted ⟨congrArg (fun t : Serial MessageRecord.id => t.rows ++ [_]) hmessages,
      congrArg (fun t : Serial MessageRecord.id => t.seq + 1) hmessages⟩ fun hnone => ?_
    cases hnone
  | progress | ask | settle => exact hposted ⟨rfl, rfl⟩ fun _ hfrom => by cases hfrom
  | assign agent request id _ _ _ _ _ _ _ _ _ _ hfree =>
    refine hposted ⟨rfl, rfl⟩ fun htask => ?_
    obtain rfl : id = taskId := Option.some.inj htask
    rw [hfree] at ht
    cases ht

/-- **What a call means to a worker that waits for an answer.**  It leaves it without, or it
    notifies the task. -/
theorem silent_exec (l : Call) {s : Hub} {taskId : String} {t : TaskRecord}
    (ht : s.db.tasks.find? taskId = some t) {after : ℕ}
    (hs : s.db.pendingReply taskId after = none) :
    (l.exec s).db.pendingReply taskId after = none ∨ .task taskId ∈ l.notifies s := by
  -- only a reply and an override write what a question waits for, and both notify
  by_cases hkind : .answer ∈ l.op.kinds ∨ .override ∈ l.op.kinds
  · obtain ⟨op, clock⟩ := l
    cases op with
    | reply id text messageId =>
      rw [Call.exec_eq rfl clock s, Call.notifies_eq rfl clock s]
      rcases atomically_cases (reply id text messageId) (s.connect clock) with
        ⟨applied, c', hc, hat⟩ | ⟨e, -, hat⟩
      · rw [hat]
        obtain ⟨task, -, h⟩ := commits_reply.mp hc
        split at h
        · obtain ⟨-, -, contextId, -, rfl⟩ := h
          by_cases hid : taskId = id
          · subst hid
            exact .inr (List.mem_append_right _ (List.mem_singleton_self _))
          · exact .inl ((pendingReply_answer_ne hid after).trans hs)
        · obtain ⟨-, rfl⟩ := h
          exact .inl hs
      · rw [hat]
        exact .inl hs
    | setTaskState id state note =>
      rw [Call.exec_eq rfl clock s, Call.notifies_eq rfl clock s]
      rcases atomically_cases (setTaskState id state note) (s.connect clock) with
        ⟨task, c', hc, hat⟩ | ⟨e, -, hat⟩
      · rw [hat]
        by_cases hid : taskId = id
        · subst hid
          exact .inr (setTaskState_notifies hc)
        · obtain ⟨-, -, task, contextId, ts, ts', -, -, -, hdb⟩ := setTaskState_cases hc
          have hhub : c'.hub.db = s.db.override id contextId note state ts ts' := hdb
          rw [hhub]
          refine .inl ((Db.Posts.pendingReply_eq ⟨rfl, rfl⟩ (fun htask => ?_) after).trans hs)
          exact absurd (Option.some.inj htask).symm hid
      · rw [hat]
        exact .inl hs
    | _ => simp [Op.kinds] at hkind
  · -- the task stays, and nothing is written to it
    have hkept := (moves_exec l s).invariant
      (I := fun u => (∃ t, u.db.tasks.find? taskId = some t) ∧
        u.db.pendingReply taskId after = none)
      (fun k u u' hk hmove hI => ?_) ⟨⟨t, ht⟩, hs⟩
    · exact .inl hkept.2
    · obtain ⟨⟨t, ht⟩, hnone⟩ := hI
      obtain ⟨t', ht', -⟩ := task_move hmove ht
      refine ⟨⟨t', ht'⟩, ?_⟩
      rw [silent_move hmove (fun heq => hkind (.inl (heq ▸ hk)))
        (fun heq => hkind (.inr (heq ▸ hk))) ht after]
      exact hnone

/-! ### An empty inbox -/

/-- Every event was there before. -/
def Db.NoNews (d d' : Db) : Prop := ∀ e' ∈ d'.events, ∃ e ∈ d.events, e.id = e'.id

/-- The kinds of move that queue an event. -/
def Kind.queues (k : Kind) : Prop :=
  k ∈ [.checkIn, .progress, .ask, .settle, .append, .expire, .lose, .loseTask]

instance (k : Kind) : Decidable k.queues := inferInstanceAs (Decidable (_ ∈ _))

/-- Outside of the inbox, a move brings news only if it queues an event. -/
theorem noNews_move {k : Kind} {s s' : Hub} (h : Move k s s') (hk : ¬ k.queues) {d : Db}
    (hs : d.NoNews s.db) : d.NoNews s'.db := by
  cases h with
  | draw | create | setWorkflowStatus | decide | beat | renew | release | assign | answer | cancel |
    override | claim => exact hs
  | checkIn | progress | ask | settle | append | expire | lose | loseTask =>
    exact absurd (by simp [Kind.queues]) hk
  | lease event ts expires =>
    intro e' he'
    obtain ⟨e, he, rfl⟩ := Db.mem_lease.mp he'
    obtain ⟨old, hold, hid⟩ := hs e he
    refine ⟨old, hold, hid.trans ?_⟩
    split <;> rfl
  | ack id ts =>
    intro e' he'
    obtain ⟨e, he, rfl⟩ := Db.mem_ack.mp he'
    obtain ⟨old, hold, hid⟩ := hs e he
    refine ⟨old, hold, hid.trans ?_⟩
    split <;> rfl

/-- Nothing new in a database that is as it was. -/
theorem Db.NoNews.refl {d d' : Db} (h : d' = d) : d.NoNews d' :=
  fun e he => ⟨e, h ▸ he, rfl⟩

/-- **What a call means to Alice at her inbox.**  It queues nothing, or it notifies her. -/
theorem noNews_exec (l : Call) (s : Hub) :
    s.db.NoNews (l.exec s).db ∨ .events ∈ l.notifies s := by
  by_cases hkind : ∃ k ∈ l.op.kinds, k.queues
  · -- every operation that may queue an event notifies the inbox, unless it changed nothing
    have hrun {α : Type} {x : Txn α} {clock : ℕ → Moment}
        (hx : ∀ a c', Commits x (s.connect clock) a c' → c'.db = s.db ∨ .events ∈ c'.notified) :
        s.db.NoNews (atomically x (s.connect clock)).2.hub.db ∨
          .events ∈ (atomically x (s.connect clock)).2.notified := by
      rcases atomically_cases x (s.connect clock) with ⟨a, c', hc, hat⟩ | ⟨e, -, hat⟩
      · rw [hat]
        exact (hx a c' hc).imp_left .refl
      · rw [hat]
        exact .inl (.refl rfl)
    obtain ⟨op, clock⟩ := l
    cases op with
    | checkIn name profile instanceId op remoteAddr =>
      rw [Call.exec_eq rfl clock s, Call.notifies_eq rfl clock s]
      exact hrun fun _ _ hc => checkIn_notifies hc
    | recordProgress taskId agent note op =>
      rw [Call.exec_eq rfl clock s, Call.notifies_eq rfl clock s]
      exact hrun fun _ _ hc => recordProgress_notifies hc
    | openQuestion taskId agent question sentAs =>
      rw [Call.exec_eq rfl clock s, Call.notifies_eq rfl clock s]
      exact hrun fun _ _ hc => openQuestion_notifies hc
    | submitResult taskId agent result summary artifacts status op =>
      rw [Call.exec_eq rfl clock s, Call.notifies_eq rfl clock s]
      exact hrun fun _ _ hc => submitResult_notifies hc
    | appendEvent payload =>
      rw [Call.exec_eq rfl clock s, Call.notifies_eq rfl clock s]
      exact hrun fun _ _ hc => .inr (appendEvent_notifies hc)
    | sweep lostAfterS =>
      rw [Call.exec_eq rfl clock s, Call.notifies_eq rfl clock s]
      exact hrun fun _ _ hc => sweep_notifies hc
    | _ => simp [Op.kinds, Kind.queues] at hkind
  · refine .inl ((moves_exec l s).invariant (I := fun t => s.db.NoNews t.db)
      (fun k t t' hk hmove hI => ?_) (.refl rfl))
    exact noNews_move hmove (fun hqueues => hkind ⟨k, hk, hqueues⟩) hI

/-- What was queued after a call was queued before it, and what is out was out or queued. -/
theorem event_exec (l : Call) {s : Hub} (hnews : s.db.NoNews (l.exec s).db) {e' : EventRecord}
    (he' : e' ∈ (l.exec s).db.events) :
    ∃ e ∈ s.db.events, e.id = e'.id ∧ EventRecord.Step (l.deliveryOf s e.id) e e' := by
  obtain ⟨e, he, hid⟩ := hnews e' he'
  obtain ⟨e'', he'', hid'', hstep⟩ := step_exec l s he
  obtain rfl : e'' = e' := Serial.eq_of_key_eq he'' he' (hid''.trans hid)
  exact ⟨e, he, hid, hstep⟩

/-- An event that is out has an expiry. -/
def Db.Expiring (d : Db) : Prop :=
  ∀ e ∈ d.events, e.state = .delivered → e.deliveryExpires.isSome = true

/-- Every call keeps an end on each lease of an event. -/
theorem expiring_exec (l : Call) {s : Hub} (hs : s.db.Expiring) : (l.exec s).db.Expiring := by
  intro e' he' hdelivered
  by_cases hold : ∃ e ∈ s.db.events, e.id = e'.id
  · obtain ⟨e, he, hid⟩ := hold
    obtain ⟨e'', he'', hid'', hstep⟩ := step_exec l s he
    obtain rfl : e'' = e' := Serial.eq_of_key_eq he'' he' (hid''.trans hid)
    generalize l.deliveryOf s e.id = o at hstep
    cases hstep with
    | kept => exact hs e he hdelivered
    | leased => rfl
    | acked => cases hdelivered
  · have hnew := isNew_exec l s he' fun old hmem hid => hold ⟨old, hmem, hid⟩
    rw [hnew.1] at hdelivered
    cases hdelivered

/-! ### The board -/

/-- What a waiter reads before it sleeps: the clock, and what is left of its hold. -/
structure Reading where
  clock : ℕ → Moment
  remaining : ℤ

/-- How long a waiter means to sleep, in microseconds, and from when. -/
structure Nap where
  step : ℤ
  since : Moment

/-- The earliest expiry among the events that are out. -/
def Db.earliestExpiry? (d : Db) : Option Stamp :=
  ((d.events.rows.filter fun e => e.state = .delivered).filterMap EventRecord.deliveryExpires).min?

/-- `_earliest_delivery_expires_s`, but never under a hundredth of a second. -/
def untilExpiry (expires : Stamp) (since : Moment) : ℤ :=
  max 10000 ((expires.parse.us : ℤ) - since.us)

/-- The wait step of `_wait_for`. -/
def Wait.step (w : Wait) (d : Db) (p : Reading) : ℤ :=
  match w, d.earliestExpiry? with
  | .event _, some expires => min p.remaining (untilExpiry expires (p.clock 0))
  | _, _ => p.remaining

/-- The waits over the hub. -/
def hubBoard : Board Hub SignalKey Wait Call Reading Nap where
  key := Wait.key
  opens := Wait.opens
  poll w p s :=
    let polled := atomically w.poll (s.connect p.clock)
    (polled.1.toOption.getD true, polled.2.hub)
  rest w p s := if p.remaining ≤ 0 then none else some ⟨w.step s.db p, p.clock 0⟩
  exec := Call.exec
  notifies := Call.notifies

/-- A waiter that fell asleep on `seen` has not missed anything: there is no work, no answer and
    no new event for it, and every event that is out it reckoned with. -/
def Wait.Safe (w : Wait) (seen s : Hub) : Prop :=
  match w with
  | .assignment name _ => s.db.NoWork name
  | .reply taskId after => s.db.pendingReply taskId after = none
  | .event _ => ∀ e ∈ s.db.events, e.state ≠ .queued ∧ (e.state = .delivered →
      ∃ e₀ ∈ seen.db.events, e₀.id = e.id ∧ e₀.state = .delivered ∧
        e₀.deliveryExpires.isSome = true)

/-- A poll leaves the hub as a call of the store would, and notifies nobody. -/
theorem poll_exec (w : Wait) (p : Reading) (s : Hub) :
    (hubBoard.poll w p s).2 = s ∨ ∃ l : Call, (hubBoard.poll w p s).2 = l.exec s ∧
      l.notifies s = [] := by
  cases w with
  | assignment name contextId =>
    refine .inr ⟨⟨.claimAssignment name, p.clock⟩, ?_, ?_⟩
    · rw [Call.exec_eq rfl p.clock s]
      show (atomically (Option.isSome <$> claimAssignment name) (s.connect p.clock)).2.hub = _
      rw [atomically_map]
    · rw [Call.notifies_eq rfl p.clock s]
      rcases atomically_cases (claimAssignment name) (s.connect p.clock) with
        ⟨o, c', hc, hat⟩ | ⟨e, -, hat⟩
      · rw [hat]
        exact claimAssignment_notifies hc
      · rw [hat]
        rfl
  | reply taskId after => exact .inl rfl
  | event leaseS =>
    refine .inr ⟨⟨.leaseNextEvent leaseS, p.clock⟩, ?_, ?_⟩
    · rw [Call.exec_eq rfl p.clock s]
      show (atomically (Option.isSome <$> leaseNextEvent leaseS) (s.connect p.clock)).2.hub = _
      rw [atomically_map]
    · rw [Call.notifies_eq rfl p.clock s]
      rcases atomically_cases (leaseNextEvent leaseS) (s.connect p.clock) with
        ⟨o, c', hc, hat⟩ | ⟨e, -, hat⟩
      · rw [hat]
        exact leaseNextEvent_notifies hc
      · rw [hat]
        rfl

/-- What a call does to a sleeper. -/
theorem safe_exec {w : Wait} {l : Call} {seen s : Hub} (hopens : w.opens s = true)
    (hs : w.Safe seen s) : w.Safe seen (l.exec s) ∨ w.key ∈ l.notifies s := by
  cases w with
  | assignment name contextId =>
    obtain ⟨a, ha, hcontext⟩ := Option.any_eq_true _ _ |>.mp hopens
    obtain rfl : a.contextId = contextId := by simpa using hcontext
    exact noWork_exec l ha hs
  | reply taskId after =>
    obtain ⟨t, ht⟩ := Option.isSome_iff_exists.mp hopens
    exact silent_exec l ht hs
  | event leaseS =>
    refine (noNews_exec l s).imp_left fun hnews e' he' => ?_
    obtain ⟨e, he, hid, hstep⟩ := event_exec l hnews he'
    obtain ⟨hqueued, hseen⟩ := hs e he
    generalize l.deliveryOf s e.id = o at hstep
    cases hstep with
    | kept => exact ⟨hqueued, hseen⟩
    | leased _ id ts expires hacked =>
      -- it was leased again: it had been out before
      refine ⟨by simp [EventRecord.leased], fun _ => ?_⟩
      cases hstate : e.state with
      | queued => exact absurd hstate hqueued
      | acked => exact absurd hstate hacked
      | delivered => exact hseen hstate
    | acked => exact ⟨by simp, fun hdelivered => by cases hdelivered⟩

/-- What a stream waits on stays there. -/
theorem opens_exec {w : Wait} {l : Call} {s : Hub} (hopens : w.opens s = true) :
    w.opens (l.exec s) = true := by
  have hevolves : s.db.Evolves (l.exec s).db := evolves_run s [l]
  cases w with
  | assignment name contextId =>
    obtain ⟨a, ha, hcontext⟩ := Option.any_eq_true _ _ |>.mp hopens
    obtain ⟨b, hb, hbecomes⟩ := hevolves.agents.find? ha
    refine Option.any_eq_true _ _ |>.mpr ⟨b, hb, ?_⟩
    rw [hbecomes.context]
    exact hcontext
  | reply taskId after =>
    obtain ⟨t, ht⟩ := Option.isSome_iff_exists.mp hopens
    obtain ⟨t', ht', -⟩ := hevolves.tasks.find? ht
    exact Option.isSome_iff_exists.mpr ⟨t', ht'⟩
  | event leaseS => rfl

/-- A poll that finds nothing had nothing to find. -/
theorem safe_found {w : Wait} {p : Reading} {s : Hub} (hs : s.db.Expiring)
    (hopens : w.opens s = true) (hfound : (hubBoard.poll w p s).1 = false) :
    w.Safe (hubBoard.poll w p s).2 (hubBoard.poll w p s).2 := by
  have hfound' : (atomically w.poll (s.connect p.clock)).1 = .ok false := by
    have h : (atomically w.poll (s.connect p.clock)).1.toOption.getD true = false := hfound
    cases hat : (atomically w.poll (s.connect p.clock)).1 with
    | error e => rw [hat] at h; cases h
    | ok b => rw [hat] at h; exact congrArg Except.ok h
  have hc := commits_of_atomically hfound'
  have hhub : (hubBoard.poll w p s).2 = (atomically w.poll (s.connect p.clock)).2.hub := rfl
  rw [hhub]
  generalize (atomically w.poll (s.connect p.clock)).2 = c' at hc
  cases w with
  | assignment name contextId =>
    obtain ⟨o, h, ho⟩ := commits_map.mp hc
    obtain ⟨a, ha, h⟩ := commits_claimAssignment.mp h
    split at h
    · rw [h.1] at ho
      cases ho
    · rename_i hstatus
      split at h
      · rename_i hnone
        rw [h.2]
        exact ⟨⟨a, ha, hstatus⟩, hnone⟩
      · rw [h.1] at ho
        cases ho
  | reply taskId after =>
    obtain ⟨o, h, ho⟩ := commits_map.mp hc
    simp only [pendingReply, commits_bind, commits_readDb, commits_pure] at h
    obtain ⟨_, _, ⟨rfl, rfl⟩, rfl, rfl⟩ := h
    exact Option.not_isSome_iff_eq_none.mp (Bool.eq_false_iff.mp ho.symm)
  | event leaseS =>
    obtain ⟨o, h, ho⟩ := commits_map.mp hc
    obtain ⟨expires, -, h⟩ := commits_leaseNextEvent.mp h
    split at h
    · rename_i hnone
      rw [h.2]
      intro e he
      refine ⟨fun hqueued => ?_, fun hdelivered => ⟨e, he, rfl, hdelivered, hs e he hdelivered⟩⟩
      exact Serial.first?_eq_none_iff.mp hnone e he (.inl hqueued)
    · rw [h.1] at ho
      cases ho

/-- **Every operation notifies the waits it may end.** -/
theorem lawful_hubBoard : Lawful hubBoard (fun s => s.db.Expiring) Wait.Safe where
  exec hs := expiring_exec _ hs
  poll {w p s} hs := by
    obtain hsame | ⟨l, hexec, -⟩ := poll_exec w p s
    · rw [hsame]
      exact hs
    · rw [hexec]
      exact expiring_exec l hs
  opens_exec _ hopens := opens_exec hopens
  opens_poll {w w' p s} _ hopens := by
    obtain hsame | ⟨l, hexec, -⟩ := poll_exec w' p s
    · rw [hsame]
      exact hopens
    · rw [hexec]
      exact opens_exec hopens
  safe_found hs hopens hfound := safe_found hs hopens hfound
  safe_now {w seen s} hs hsafe := by
    cases w with
    | assignment => exact hsafe
    | reply => exact hsafe
    | event =>
      exact fun e he => ⟨(hsafe e he).1,
        fun hdelivered => ⟨e, he, rfl, hdelivered, hs e he hdelivered⟩⟩
  safe_exec _ hopens hsafe := safe_exec hopens hsafe
  safe_poll {w w' p seen s} _ hopens hsafe := by
    obtain hsame | ⟨l, hexec, hnone⟩ := poll_exec w' p s
    · rw [hsame]
      exact hsafe
    · rw [hexec]
      refine (safe_exec hopens hsafe).resolve_right fun hkey => ?_
      rw [hnone] at hkey
      cases hkey

/-! ### Nobody sleeps past what it waits for -/

/-- The call is not a lease of negative length under a clock that has stepped back since. -/
def Call.Forward (l : Call) (now : Moment) : Prop :=
  ∀ leaseS, l.op = .leaseNextEvent leaseS →
    l.clock 0 ≤ now ∨ 0 ≤ seconds (leaseS.getD defaultEventLeaseS)

/-- What is leasable stays so as time goes on. -/
theorem EventRecord.leasable.later {e : EventRecord} {ts ts' : Stamp} (h : e.leasable ts)
    (hle : ts ≤ ts') : e.leasable ts' := by
  rcases h with h | ⟨hstate, expires, hexpires, hdue⟩
  · exact .inl h
  · exact .inr ⟨hstate, expires, hexpires, hdue.trans hle⟩

/-- What is leasable now, and was not handed out in between, was leasable before. -/
theorem leasable_exec {l : Call} {s : Hub} {now : Moment} (hforward : l.Forward now)
    (hnews : s.db.NoNews (l.exec s).db) (h : ∃ e ∈ (l.exec s).db.events, e.leasable now.toIso) :
    ∃ e ∈ s.db.events, e.leasable now.toIso := by
  obtain ⟨e', he', hleasable⟩ := h
  obtain ⟨op, clock⟩ := l
  by_cases hlease : ∃ leaseS, op = .leaseNextEvent leaseS
  · obtain ⟨leaseS, rfl⟩ := hlease
    rw [Call.exec_eq rfl clock s] at he'
    rcases atomically_cases (leaseNextEvent leaseS) (s.connect clock) with
      ⟨o, c', hc, hat⟩ | ⟨_, -, hat⟩
    · rw [hat] at he'
      obtain ⟨expires, hexpires, h⟩ := commits_leaseNextEvent.mp hc
      split at h
      · rw [h.2] at he'
        exact ⟨e', he', hleasable⟩
      · rename_i row hrow
        obtain ⟨-, rfl⟩ := h
        obtain ⟨e, he, rfl⟩ := Db.mem_lease.mp he'
        split at hleasable
        · -- the event just leased: leasable when the lease read the clock, and so it is now
          have hdue : row.leasable (clock 0).toIso :=
            Serial.of_first? (p := (EventRecord.leasable · (clock 0).toIso)) hrow
          have hexpired : expires.toIso ≤ now.toIso := by
            simpa [EventRecord.leasable, EventRecord.leased] using hleasable
          have hle : (clock 0).toIso ≤ now.toIso := by
            rcases hforward leaseS rfl with hle | hpositive
            · exact Moment.toIso_mono hle
            · have hus : (expires.us : ℤ) = (clock 0).us + _ := addMicros?_us hexpires
              have hlater : (clock 0).us ≤ expires.us := by omega
              exact le_trans (Moment.toIso_mono (Moment.le_def.mpr hlater)) hexpired
          exact ⟨row, Serial.mem_of_first? hrow, EventRecord.leasable.later hdue hle⟩
        · exact ⟨e, he, hleasable⟩
    · rw [hat] at he'
      exact ⟨e', he', hleasable⟩
  · obtain ⟨e, he, -, hstep⟩ := event_exec ⟨op, clock⟩ hnews he'
    have hnone : (Call.mk op clock).deliveryOf s e.id = none := by
      cases op with
      | leaseNextEvent leaseS => exact absurd ⟨leaseS, rfl⟩ hlease
      | _ => rfl
    rw [hnone] at hstep
    cases hstep with
    | kept => exact ⟨e', he, hleasable⟩
    | acked => exact absurd rfl (EventRecord.leasable.not_acked hleasable)

/-- **A call that ends a wait notifies its key.** -/
theorem notifies_of_ready {l : Call} {s : Hub} {w : Wait} {now : Moment}
    (hopens : w.opens s = true) (hforward : l.Forward now) (hbefore : ¬ w.Ready now s)
    (hafter : w.Ready now (l.exec s)) : w.key ∈ l.notifies s := by
  cases w with
  | assignment name contextId =>
    rw [ready_assignment hopens, not_not] at hbefore
    have hsafe : (Wait.assignment name contextId).Safe s (l.exec s) ∨
        Wait.key _ ∈ l.notifies s := safe_exec hopens hbefore
    exact hsafe.resolve_left ((ready_assignment (opens_exec hopens)).mp hafter)
  | reply taskId after =>
    rw [ready_reply, not_not] at hbefore
    have hsafe : (Wait.reply taskId after).Safe s (l.exec s) ∨ _ ∈ l.notifies s :=
      safe_exec hopens hbefore
    exact hsafe.resolve_left (ready_reply.mp hafter)
  | event leaseS =>
    obtain ⟨hexpires, hleasable⟩ := ready_event.mp hafter
    refine (noNews_exec l s).resolve_left fun hnews => hbefore ?_
    exact ready_event.mpr ⟨hexpires, leasable_exec hforward hnews hleasable⟩

/-- The wait of a sleeper at the inbox is bounded by the expiry of every event that was out. -/
theorem step_le (leaseS : Option ℚ) (p : Reading) {d : Db} {e : EventRecord} (he : e ∈ d.events)
    (hstate : e.state = .delivered) {x : Stamp} (hx : e.deliveryExpires = some x) :
    ∃ earliest, d.earliestExpiry? = some earliest ∧ earliest ≤ x ∧
      (Wait.event leaseS).step d p ≤ untilExpiry earliest (p.clock 0) := by
  have hmem : x ∈ (d.events.rows.filter fun e => e.state = .delivered).filterMap
      EventRecord.deliveryExpires :=
    List.mem_filterMap.mpr ⟨e, List.mem_filter.mpr ⟨he, by simpa using hstate⟩, hx⟩
  cases hmin : d.earliestExpiry? with
  | none =>
    rw [Db.earliestExpiry?, List.min?_eq_none_iff] at hmin
    rw [hmin] at hmem
    cases hmem
  | some earliest =>
    refine ⟨earliest, rfl, (List.min?_eq_some_iff.mp hmin).2 x hmem, ?_⟩
    simp [Wait.step, hmin]

/-- A sleeper that nothing alerts, and whose poll would find something, waits at the inbox for
    events that were out when it fell asleep, and reckoned with the first of them to expire. -/
theorem overslept {t : Waiting Hub SignalKey Wait Nap}
    (ht : t.Sound hubBoard (fun s => s.db.Expiring) Wait.Safe) {i : ℕ} {w : Waiter Hub Wait Nap}
    (hw : t.waiter i = some w) {nap : Nap} {seen : Hub} (hphase : w.phase = .asleep nap seen)
    (halert : ¬ Waiting.Alerted hubBoard t.inFlight w) {now : Moment}
    (hready : w.wait.Ready now t.shared) :
    ∃ leaseS earliest, w.wait = .event leaseS ∧ seen.db.earliestExpiry? = some earliest ∧
      nap.step ≤ untilExpiry earliest nap.since ∧
      ∀ e ∈ t.shared.db.events, e.leasable now.toIso → e.state = .delivered ∧
        ∃ e₀ ∈ seen.db.events, e₀.id = e.id ∧ e₀.state = .delivered ∧
          ∃ x, e₀.deliveryExpires = some x ∧ earliest ≤ x := by
  obtain ⟨hopens, hfine⟩ := ht.waiters hw
  obtain ⟨wait, phase, flag, scheduled⟩ := w
  subst hphase
  obtain ⟨⟨p, hnap⟩, hsafe⟩ := hfine
  have hsafe : wait.Safe seen t.shared := hsafe.resolve_right halert
  cases wait with
  | assignment name contextId => exact absurd hsafe ((ready_assignment hopens).mp hready)
  | reply taskId after => exact absurd hsafe (ready_reply.mp hready)
  | event leaseS =>
    have hstep : nap = ⟨(Wait.event leaseS).step seen.db p, p.clock 0⟩ := by
      have hrest : (if p.remaining ≤ 0 then none else
        some (⟨(Wait.event leaseS).step seen.db p, p.clock 0⟩ : Nap)) = some nap := hnap
      split at hrest
      · cases hrest
      · exact (Option.some.inj hrest).symm
    -- whatever is leasable was out before
    have hout {e : EventRecord} (he : e ∈ t.shared.db.events) (hleasable : e.leasable now.toIso) :
        e.state = .delivered ∧ ∃ e₀ ∈ seen.db.events, e₀.id = e.id ∧ e₀.state = .delivered ∧
          ∃ x, e₀.deliveryExpires = some x := by
      obtain ⟨hqueued, hseen⟩ := hsafe e he
      rcases hleasable with hstate | ⟨hstate, -⟩
      · exact absurd hstate hqueued
      · obtain ⟨e₀, he₀, hid, hstate₀, hexpires⟩ := hseen hstate
        exact ⟨hstate, e₀, he₀, hid, hstate₀, Option.isSome_iff_exists.mp hexpires⟩
    obtain ⟨-, e, he, hleasable⟩ := ready_event.mp hready
    obtain ⟨-, e₀, he₀, -, hstate₀, x, hx⟩ := hout he hleasable
    obtain ⟨earliest, hmin, -, hle⟩ := step_le leaseS p he₀ hstate₀ hx
    refine ⟨leaseS, earliest, rfl, hmin, hstep ▸ hle, fun e he hleasable => ?_⟩
    obtain ⟨hstate, e₁, he₁, hid, hstate₁, x₁, hx₁⟩ := hout he hleasable
    obtain ⟨earliest', hmin', hle', -⟩ := step_le leaseS p he₁ hstate₁ hx₁
    obtain rfl : earliest = earliest' := Option.some.inj (hmin.symm.trans hmin')
    exact ⟨hstate, e₁, he₁, hid, hstate₁, x₁, hx₁, hle'⟩

/-- **No lost wakeup.**  Whatever call turns the poll of a wait from nothing into something
    notifies the key of the wait.  And in every interleaving of waiters, calls and notifications,
    a waiter that sleeps with its flag unset while its poll would find something is being notified
    already, unless it waits at the inbox for the end of a lease that was out when it fell asleep:
    then its nap is no longer than until the earliest of these ends. -/
theorem no_lost_wakeup (u : Uuids) :
    (∀ (ls : List Call) (l : Call) (w : Wait) (now : Moment), let s := (Hub.start u).run ls
      w.opens s = true → l.Forward now → ¬ w.Ready now s → w.Ready now (l.exec s) →
        w.key ∈ l.notifies s) ∧
    ∀ (ts : List (Turn SignalKey Wait Call Reading)) (i : ℕ) (w : Waiter Hub Wait Nap) (nap : Nap)
      (seen : Hub) (now : Moment), let t := runFrom hubBoard.step (Waiting.start (Hub.start u)) ts
      t.waiter i = some w → w.phase = .asleep nap seen → w.flag = false →
        w.wait.Ready now t.shared →
        (w.scheduled = true ∨ w.wait.key ∈ t.inFlight) ∨
          ∃ leaseS earliest, w.wait = .event leaseS ∧ seen.db.earliestExpiry? = some earliest ∧
            nap.step ≤ untilExpiry earliest nap.since ∧
            ∀ e ∈ t.shared.db.events, e.leasable now.toIso → e.state = .delivered ∧
              ∃ e₀ ∈ seen.db.events, e₀.id = e.id ∧ e₀.state = .delivered ∧
                ∃ x, e₀.deliveryExpires = some x ∧ earliest ≤ x := by
  constructor
  · intro ls l w now s hopens hforward hbefore hafter
    exact notifies_of_ready hopens hforward hbefore hafter
  · intro ts i w nap seen now t hw hphase hflag hready
    have hstart : (Hub.start u).db.Expiring := fun e he => absurd he (Serial.not_mem_empty e)
    have hsound : t.Sound hubBoard (fun s => s.db.Expiring) Wait.Safe :=
      lawful_hubBoard.sound_run hstart ts
    by_cases halert : Waiting.Alerted hubBoard t.inFlight w
    · refine .inl (halert.resolve_left fun h => ?_)
      rw [hflag] at h
      cases h
    · exact .inr (overslept hsound hw hphase halert hready)

end AgentHub
