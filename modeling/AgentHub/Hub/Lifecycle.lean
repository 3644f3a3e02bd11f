import AgentHub.Hub.Evolution

namespace AgentHub

open Relational Relation

/-!
# The life of a task

A task is submitted once, worked on, and ended once.  Everything an operation can do to a task is
one write of its row, so the automaton, the claims and the final state are read off the writes.

* `TaskState.Step` — the edges of the automaton;
* `TaskRecord.Writes` — one write of a task's row; `tasks_move`, all that a move does to tasks;
* `transcript_of_ended` — nothing is added to the transcript of an ended task;
* `ClaimRun` — the hub with the claims made so far; no task is claimed twice;
* `task_lifecycle` — the automaton, single claims, final rows and single results of every run.
-/

/-- The edges of the lifecycle. -/
inductive TaskState.Step : TaskState → TaskState → Prop
  /-- A waiting worker claims the task. -/
  | claim : Step .submitted .working
  /-- The worker asks a question. -/
  | ask {s : TaskState} (hopen : s.terminal = false) : Step s .inputRequired
  /-- Alice answers it. -/
  | answer : Step .inputRequired .working
  /-- The task ends. -/
  | finish {s s' : TaskState} (hopen : s.terminal = false) (hended : s'.terminal = true) : Step s s'

/-- No step of a task leads back to submitted. -/
theorem TaskState.Step.ne_submitted {s s' : TaskState} (h : s.Step s') : s' ≠ .submitted := by
  cases h with
  | claim | ask | answer => simp
  | finish _ hended =>
    rintro rfl
    cases hended

/-- No path of the automaton comes back to `submitted`. -/
theorem TaskState.ne_submitted_of_steps {s s' : TaskState} (h : ReflTransGen Step s s')
    (hs : s ≠ .submitted) : s' ≠ .submitted := by
  induction h with
  | refl => exact hs
  | tail _ hstep _ => exact hstep.ne_submitted

/-! ### Writes -/

/-- One write of a task's row, by the kind of move that makes it. -/
inductive TaskRecord.Writes : Kind → TaskRecord → TaskRecord → Prop
  | claim {t : TaskRecord} (hstate : t.state = .submitted) (ts : Stamp) :
      Writes .claim t { t with state := .working, updated := ts }
  | ask {t : TaskRecord} (hopen : t.isOpen) (ts : Stamp) :
      Writes .ask t { t with state := .inputRequired, updated := ts }
  | answer {t : TaskRecord} (hstate : t.state = .inputRequired) (ts : Stamp) :
      Writes .answer t { t with state := .working, updated := ts }
  | renew {t : TaskRecord} (hopen : t.isOpen) (expires renewed ts : Stamp)
      (hexpires : t.leaseExpires = some expires) :
      Writes .renew t { t with leaseExpires := some renewed, updated := ts }
  | expire {t : TaskRecord} (hopen : t.isOpen) (expires ts : Stamp)
      (hexpires : t.leaseExpires = some expires) :
      Writes .expire t { t with leaseExpires := none, updated := ts }
  | finish {k : Kind} {t : TaskRecord} (hopen : t.isOpen) (state : TaskState)
      (hstate : state.terminal = true) (result : Option Json) (ts : Stamp)
      (hk : k ∈ [.settle, .cancel, .override, .loseTask]) :
      Writes k t { t with state, updated := ts, leaseExpires := none, result }

namespace TaskRecord.Writes

variable {k : Kind} {t t' : TaskRecord}

/-- A move writes open tasks only. -/
theorem isOpen (h : Writes k t t') : t.isOpen := by
  cases h with
  | ask hopen | renew hopen | expire hopen | finish hopen => exact hopen
  | claim hstate | answer hstate =>
    rw [TaskRecord.isOpen, hstate]
    rfl

/-- A move leaves the id of a task. -/
theorem id (h : Writes k t t') : t'.id = t.id := by
  cases h <;> rfl

/-- A move takes a task along the steps of its automaton. -/
theorem steps (h : Writes k t t') : ReflTransGen TaskState.Step t.state t'.state := by
  cases h with
  | claim hstate => exact hstate ▸ .single .claim
  | ask hopen => exact .single (.ask hopen)
  | answer hstate => exact hstate ▸ .single .answer
  | renew | expire => exact .refl
  | finish hopen state hstate => exact .single (.finish hopen hstate)

/-- A task that a move ends has no lease. -/
theorem lease_of_ended (h : Writes k t t') (hended : ¬ t'.isOpen) : t'.leaseExpires = none := by
  cases h with
  | claim | ask | answer => exact absurd rfl hended
  | renew hopen | expire hopen => exact absurd hopen hended
  | finish => rfl

end TaskRecord.Writes

/-- The row of one task becomes `t'`, and every other row stays. -/
def Db.Rewrites (d d' : Db) (t' : TaskRecord) : Prop :=
  ∀ id, d'.tasks.find? id = if id = t'.id then some t' else d.tasks.find? id

/-- A write of one row is a rewriting of its task. -/
theorem rewrites_modify {d d' : Db} {t t' : TaskRecord} (ht : d.tasks.find? t.id = some t)
    {f : TaskRecord → TaskRecord} {hf : ∀ t, (f t).id = t.id}
    (h : d'.tasks = d.tasks.modify t.id f hf) (ht' : f t = t') : d.Rewrites d' t' := by
  intro id
  rw [h, Table.find?_modify, ← ht', hf]
  by_cases hid : id = t.id
  · rw [if_pos hid, if_pos hid, hid, ht]
    rfl
  · rw [if_neg hid, if_neg hid]

/-- **What a move does to the tasks.**  Nothing, or it adds a submitted task, or it writes one
    row. -/
theorem tasks_move {k : Kind} {s s' : Hub} (h : Move k s s') :
    s'.db.tasks = s.db.tasks ∨
      (k = .assign ∧ ∃ t, s.db.tasks.find? t.id = none ∧ t.state = .submitted ∧
        s.db.Rewrites s'.db t) ∨
      ∃ t t', s.db.tasks.find? t.id = some t ∧ t.Writes k t' ∧ s.db.Rewrites s'.db t' := by
  cases h with
  | draw | create | setWorkflowStatus | decide | beat | release | progress | append | lease | ack |
    lose => exact .inl rfl
  | checkIn _ _ _ _ _ _ _ _ _ _ _ _ hadmits =>
    exact .inl (hadmits.frame Db.tasks fun _ => rfl)
  | @assign d _ agent request id sourceEventId parts expires ts ts' _ _ _ _ _ hfree =>
    refine .inr (.inl ⟨rfl, request.task id sourceEventId expires ts, hfree, rfl, fun id' => ?_⟩)
    have hfind := Table.find?_insertOrIgnore (t := d.tasks)
      (a := request.task id sourceEventId expires ts) hfree id'
    rw [Db.assign_tasks, hfind]
    exact if_congr eq_comm rfl rfl
  | @claim d _ agent task ts _ _ htask =>
    obtain ⟨hfound, -, hstate⟩ := Db.submittedTo?_mem htask
    exact .inr (.inr ⟨task, _, hfound, .claim hstate ts,
      rewrites_modify hfound (Db.setState_tasks ..) rfl⟩)
  | renew task expires renewed ts htask hopen hexpires =>
    exact .inr (.inr ⟨task, _, htask, .renew hopen expires renewed ts hexpires,
      rewrites_modify htask (Db.setLease_tasks ..) rfl⟩)
  | expire task expires ts ts' htask hopen hexpires =>
    exact .inr (.inr ⟨task, _, htask, .expire hopen expires ts hexpires,
      rewrites_modify htask (Db.setLease_tasks ..) rfl⟩)
  | ask task worker question sentAs ts ts₁ ts₂ htask hopen =>
    exact .inr (.inr ⟨task, _, htask, .ask hopen ts₁, rewrites_modify htask (Db.ask_tasks ..) rfl⟩)
  | answer taskId contextId text messageId ts ts' hanswerable =>
    obtain ⟨⟨task, htask, hstate⟩, -⟩ := hanswerable
    obtain rfl : task.id = taskId := Table.find?_key htask
    exact .inr (.inr ⟨task, _, htask, .answer hstate ts',
      rewrites_modify htask (Db.answer_tasks ..) rfl⟩)
  | @settle d _ task worker result row ts ts₁ ts₂ htask hopen _ hstate =>
    have hsettled : d.Rewrites (d.finish task.id result.state (some (.obj result.payload)) ts₁) _ :=
      rewrites_modify htask (Db.finish_tasks ..) rfl
    exact .inr (.inr ⟨task, _, htask, .finish hopen result.state hstate _ ts₁ (by simp),
      hsettled⟩)
  | cancel task ts htask hopen =>
    exact .inr (.inr ⟨task, _, htask, .finish hopen .canceled rfl _ ts (by simp),
      rewrites_modify htask (Db.finish_tasks ..) rfl⟩)
  | @override d _ task contextId note state ts ts' htask hopen hstate =>
    have hended : d.Rewrites (d.finish task.id state
        (some (.obj [("status", .str state.value), ("summary", .str note)])) ts') _ :=
      rewrites_modify htask (Db.finish_tasks ..) rfl
    exact .inr (.inr ⟨task, _, htask, .finish hopen state hstate _ ts' (by simp), hended⟩)
  | loseTask agent taskId ts ts' hagent hlive hopen =>
    obtain ⟨-, task, htask, htopen⟩ := Db.openTaskId_eq_some_iff.mp hopen
    obtain rfl : task.id = taskId := Table.find?_key htask
    exact .inr (.inr ⟨task, _, htask, .finish htopen .failed rfl _ ts (by simp),
      rewrites_modify htask (Db.finish_tasks ..) rfl⟩)

/-- The row of every task after a move: unchanged, or written once. -/
theorem task_move {k : Kind} {s s' : Hub} (h : Move k s s') {id : String} {t : TaskRecord}
    (ht : s.db.tasks.find? id = some t) :
    ∃ t', s'.db.tasks.find? id = some t' ∧ (t' = t ∨ t.Writes k t') := by
  obtain hsame | ⟨-, new, hnew, -, hrewrites⟩ | ⟨old, new, hold, hwrites, hrewrites⟩ := tasks_move h
  · exact ⟨t, hsame ▸ ht, .inl rfl⟩
  · have hne : id ≠ new.id := by
      rintro rfl
      rw [hnew] at ht
      cases ht
    exact ⟨t, by rw [hrewrites, if_neg hne, ht], .inl rfl⟩
  · by_cases hid : id = new.id
    · have hfound : s.db.tasks.find? id = some old := by rw [hid, hwrites.id, hold]
      obtain rfl : old = t := Option.some.inj (hfound.symm.trans ht)
      exact ⟨new, by rw [hrewrites, if_pos hid], .inr hwrites⟩
    · exact ⟨t, by rw [hrewrites, if_neg hid, ht], .inl rfl⟩

/-! ### Paths of the automaton -/

/-- Every task moves along the automaton, and a task that is new starts at `submitted`. -/
def Db.Advances (d d' : Db) : Prop :=
  (∀ id t, d.tasks.find? id = some t →
    ∃ t', d'.tasks.find? id = some t' ∧ ReflTransGen TaskState.Step t.state t'.state) ∧
  ∀ id t', d.tasks.find? id = none → d'.tasks.find? id = some t' →
    ReflTransGen TaskState.Step .submitted t'.state

/-- No task has moved. -/
theorem Db.Advances.refl (d : Db) : d.Advances d := by
  refine ⟨fun id t ht => ⟨t, ht, .refl⟩, fun id t' hnone ht' => ?_⟩
  rw [hnone] at ht'
  cases ht'

/-- What moves forward in two steps has moved forward. -/
theorem Db.Advances.trans {d d' d'' : Db} (h : d.Advances d') (h' : d'.Advances d'') :
    d.Advances d'' := by
  constructor
  · intro id t ht
    obtain ⟨t', ht', hsteps⟩ := h.1 id t ht
    obtain ⟨t'', ht'', hsteps'⟩ := h'.1 id t' ht'
    exact ⟨t'', ht'', hsteps.trans hsteps'⟩
  · intro id t'' hnone ht''
    cases ht' : d'.tasks.find? id with
    | none => exact h'.2 id t'' ht' ht''
    | some t' =>
      obtain ⟨u, hu, hsteps'⟩ := h'.1 id t' ht'
      obtain rfl : u = t'' := Option.some.inj (hu.symm.trans ht'')
      exact (h.2 id t' hnone ht').trans hsteps'

/-- Every move takes tasks forward only. -/
theorem advances_move {k : Kind} {s s' : Hub} (h : Move k s s') : s.db.Advances s'.db := by
  constructor
  · intro id t ht
    obtain ⟨t', ht', rfl | hwrites⟩ := task_move h ht
    · exact ⟨t', ht', .refl⟩
    · exact ⟨t', ht', hwrites.steps⟩
  · intro id t' hnone ht'
    obtain hsame | ⟨-, new, -, hstate, hrewrites⟩ | ⟨old, new, hold, hwrites, hrewrites⟩ :=
      tasks_move h
    · rw [hsame, hnone] at ht'
      cases ht'
    · rw [hrewrites] at ht'
      split at ht'
      · obtain rfl := Option.some.inj ht'
        rw [hstate]
      · rw [hnone] at ht'
        cases ht'
    · rw [hrewrites] at ht'
      split at ht'
      · rename_i hid
        rw [hid, hwrites.id, hold] at hnone
        cases hnone
      · rw [hnone] at ht'
        cases ht'

/-- Every run takes tasks forward only. -/
theorem advances_run (s : Hub) (ls : List Call) : s.db.Advances (s.run ls).db :=
  (moves_run s ls).invariant (I := fun t => s.db.Advances t.db)
    (fun _ _ _ _ hmove h => h.trans (advances_move hmove)) (.refl _)

/-! ### Ended tasks -/

/-- An ended task has no lease. -/
def Db.EndedUnleased (d : Db) : Prop :=
  ∀ id t, d.tasks.find? id = some t → ¬ t.isOpen → t.leaseExpires = none

/-- Every move leaves an ended task without a lease. -/
theorem endedUnleased_move {k : Kind} {s s' : Hub} (h : Move k s s') (hs : s.db.EndedUnleased) :
    s'.db.EndedUnleased := by
  intro id t' ht' hended
  cases ht : s.db.tasks.find? id with
  | none =>
    obtain hsame | ⟨-, new, -, hstate, hrewrites⟩ | ⟨old, new, hold, hwrites, hrewrites⟩ :=
      tasks_move h
    · rw [hsame, ht] at ht'
      cases ht'
    all_goals
      rw [hrewrites] at ht'
      split at ht'
      case isFalse =>
        rw [ht] at ht'
        cases ht'
    · obtain rfl := Option.some.inj ht'
      rw [TaskRecord.isOpen, hstate] at hended
      exact absurd rfl hended
    · rename_i hid
      rw [hid, hwrites.id, hold] at ht
      cases ht
  | some t =>
    obtain ⟨u, hu, rfl | hwrites⟩ := task_move h ht
    · obtain rfl : u = t' := Option.some.inj (hu.symm.trans ht')
      exact hs id u ht hended
    · obtain rfl : u = t' := Option.some.inj (hu.symm.trans ht')
      exact hwrites.lease_of_ended hended

/-- An ended task has no lease, in every state. -/
theorem endedUnleased_run (u : Uuids) (ls : List Call) :
    ((Hub.start u).run ls).db.EndedUnleased :=
  (moves_run (Hub.start u) ls).invariant (I := fun t => t.db.EndedUnleased)
    (fun _ _ _ _ hmove h => endedUnleased_move hmove h)
    (by simp [Hub.start, Db.empty, Db.EndedUnleased])

/-- The messages of a task. -/
def Db.transcript (d : Db) (taskId : String) : List MessageRecord :=
  d.messages.rows.filter fun m => m.taskId = some taskId

/-- A message on something else leaves the transcript as it is. -/
theorem transcript_append {d d' : Db} {m : MessageRecord} {taskId : String}
    (h : d'.messages.rows = d.messages.rows ++ [m]) (hm : m.taskId ≠ some taskId) :
    d'.transcript taskId = d.transcript taskId := by
  rw [Db.transcript, h, List.filter_append]
  simp [Db.transcript, hm]

/-- **The transcript of an ended task is final.** -/
theorem transcript_of_ended {k : Kind} {s s' : Hub} (h : Move k s s') {id : String}
    {t : TaskRecord} (ht : s.db.tasks.find? id = some t) (hended : ¬ t.isOpen) :
    s'.db.transcript id = s.db.transcript id := by
  -- a task that is open is another one
  have hother {t' : TaskRecord} (ht' : s.db.tasks.find? t'.id = some t') (hopen : t'.isOpen) :
      some t'.id ≠ some id := by
    intro heq
    rw [Option.some.inj heq, ht] at ht'
    obtain rfl := Option.some.inj ht'
    exact hended hopen
  cases h with
  | draw | create | setWorkflowStatus | decide | beat | renew | release | cancel | claim | expire |
    lose | loseTask | append | lease | ack => rfl
  | @checkIn d _ name contextId instanceId profile _ row d' ts ts₁ ts₂ _ _ hadmits =>
    have hmessages : d'.messages = d.messages := hadmits.frame Db.messages fun _ => rfl
    refine transcript_append (m := ⟨_, none, _, _, _, _, _⟩)
      (congrArg (fun t : Serial MessageRecord.id => t.rows ++ [_]) hmessages) ?_
    simp
  | @assign _ _ _ _ new _ _ _ _ _ _ _ _ _ _ hfree =>
    have hne : some new ≠ some id := by
      intro heq
      rw [Option.some.inj heq, ht] at hfree
      cases hfree
    exact transcript_append rfl hne
  | progress task _ _ _ _ _ _ htask hopen => exact transcript_append rfl (hother htask hopen)
  | ask task _ _ _ _ _ _ htask hopen => exact transcript_append rfl (hother htask hopen)
  | settle task _ _ _ _ _ _ htask hopen => exact transcript_append rfl (hother htask hopen)
  | override task _ _ _ _ _ htask hopen => exact transcript_append rfl (hother htask hopen)
  | answer taskId _ _ _ _ _ hanswerable =>
    obtain ⟨⟨task, htask, hstate⟩, -⟩ := hanswerable
    obtain rfl : task.id = taskId := Table.find?_key htask
    have hopen : task.isOpen := by
      rw [TaskRecord.isOpen, hstate]
      rfl
    exact transcript_append rfl (hother htask hopen)

/-- **An ended task stays as it is**, its row and its transcript. -/
theorem ended_run {s : Hub} (ls : List Call) {id : String} {t : TaskRecord}
    (ht : s.db.tasks.find? id = some t) (hended : ¬ t.isOpen) :
    (s.run ls).db.tasks.find? id = some t ∧
      (s.run ls).db.transcript id = s.db.transcript id := by
  refine (moves_run s ls).invariant
    (I := fun s' => s'.db.tasks.find? id = some t ∧ s'.db.transcript id = s.db.transcript id)
    (fun k s₁ s₂ _ hmove hI => ?_) ⟨ht, rfl⟩
  obtain ⟨t', ht', hbecomes⟩ := (evolves_move hmove).tasks.find? hI.1
  obtain rfl := hbecomes.final hended
  exact ⟨ht', (transcript_of_ended hmove hI.1 hended).trans hI.2⟩

/-! ### Claims -/

/-- The task that the call claims for a waiting worker. -/
def Call.claimed (l : Call) (s : Hub) : Option String :=
  match l.op with
  | .claimAssignment name =>
    match (atomically (claimAssignment name) (s.connect l.clock)).1 with
    | .ok (some (.task t)) => some t.id
    | _ => none
  | _ => none

/-- **What a claim moves.**  A submitted task, to `working`. -/
theorem claimed_cases {l : Call} {s : Hub} {id : String} (h : l.claimed s = some id) :
    ∃ t ts, s.db.tasks.find? id = some t ∧ t.state = .submitted ∧
      (l.exec s).db.tasks.find? id = some { t with state := .working, updated := ts } := by
  obtain ⟨op, clock⟩ := l
  cases op with
  | claimAssignment name =>
    have hexec : Call.exec ⟨.claimAssignment name, clock⟩ s
        = (atomically (claimAssignment name) (s.connect clock)).2.hub := Call.exec_eq rfl clock s
    simp only [Call.claimed] at h
    rcases atomically_cases (claimAssignment name) (s.connect clock) with
      ⟨o, c', hc, hat⟩ | ⟨e, -, hat⟩
    · rw [hat] at h hexec
      obtain ⟨agent, -, hcase⟩ := commits_claimAssignment.mp hc
      split at hcase
      · obtain ⟨rfl, -⟩ := hcase
        cases h
      · split at hcase
        · obtain ⟨rfl, -⟩ := hcase
          cases h
        · rename_i t ht
          obtain ⟨rfl, rfl⟩ := hcase
          obtain rfl : t.id = id := Option.some.inj h
          obtain ⟨hfound, -, hstate⟩ := Db.submittedTo?_mem ht
          have hfound' : s.db.tasks.find? t.id = some t := hfound
          refine ⟨t, (clock 0).toIso, hfound', hstate, ?_⟩
          rw [hexec]
          show (s.db.setState t.id .working (clock 0).toIso).tasks.find? t.id = _
          rw [Db.setState_tasks, Table.find?_modify_self, hfound']
          rfl
    · rw [hat] at h
      cases h
  | _ => cases h

/-- The hub, with the claims made so far. -/
abbrev ClaimRun := Observed Hub String

/-- The hub and the claims of a run. -/
def ClaimRun.run (u : Uuids) (ls : List Call) : ClaimRun :=
  runFrom (Observed.step Call.exec Call.claimed) ⟨Hub.start u, []⟩ ls

/-- **A task is claimed at most once.** -/
theorem claims_nodup (u : Uuids) (ls : List Call) : (ClaimRun.run u ls).log.Nodup := by
  let Kept (r : ClaimRun) : Prop := r.log.Nodup ∧
    ∀ id ∈ r.log, ∃ t, r.state.db.tasks.find? id = some t ∧ t.state ≠ .submitted
  have hkept : Kept (ClaimRun.run u ls) := by
    refine run_invariant (I := Kept) (fun l r hr => ?_) ⟨List.nodup_nil, by simp⟩ ls
    obtain ⟨hnodup, hlog⟩ := hr
    have hstay : ∀ id ∈ r.log,
        ∃ t, (l.exec r.state).db.tasks.find? id = some t ∧ t.state ≠ .submitted := by
      intro id hid
      obtain ⟨t, ht, hne⟩ := hlog id hid
      obtain ⟨t', ht', hsteps⟩ := (advances_run r.state [l]).1 id t ht
      exact ⟨t', ht', TaskState.ne_submitted_of_steps hsteps hne⟩
    show (r.log ++ (l.claimed r.state).toList).Nodup ∧ ∀ id ∈ r.log ++ (l.claimed r.state).toList, _
    cases hclaim : l.claimed r.state with
    | none =>
      rw [Option.toList_none, List.append_nil]
      exact ⟨hnodup, hstay⟩
    | some id =>
      obtain ⟨t, ts, ht, hstate, hafter⟩ := claimed_cases hclaim
      have hnew : id ∉ r.log := by
        intro hid
        obtain ⟨t', ht', hne⟩ := hlog id hid
        obtain rfl : t' = t := Option.some.inj (ht'.symm.trans ht)
        exact hne hstate
      rw [Option.toList_some]
      refine ⟨List.nodup_append.mpr ⟨hnodup, List.nodup_singleton id, ?_⟩, ?_⟩
      · intro a ha b hb heq
        obtain rfl := List.mem_singleton.mp hb
        exact hnew (heq ▸ ha)
      · intro a ha
        rcases List.mem_append.mp ha with ha | ha
        · exact hstay a ha
        · obtain rfl := List.mem_singleton.mp ha
          exact ⟨_, hafter, by simp⟩
  exact hkept.1

/-! ### Results -/

/-- The task whose result the event reports: a `task_completed` or `task_failed`. -/
def EventPayload.resultOf : EventPayload → Option String
  | .taskCompleted taskId .. | .taskFailed taskId .. => some taskId
  | _ => none

/-- What the events say, oldest first. -/
def Db.payloads (d : Db) : List EventPayload := d.events.rows.map EventRecord.payload

/-- The result events of a task. -/
def Db.results (d : Db) (taskId : String) : ℕ :=
  d.payloads.countP fun p => p.resultOf = some taskId

/-- The call queues a result event for the task by hand. -/
def Op.queuesResult (op : Op) (taskId : String) : Bool :=
  match op with
  | .appendEvent payload => payload.resultOf = some taskId
  | _ => false

/-- An update that leaves the payloads leaves what the inbox says. -/
theorem payloads_updateWhere {d d' : Db} {p : EventRecord → Prop} [DecidablePred p]
    {f : EventRecord → EventRecord} {hf : ∀ e, (f e).id = e.id}
    (h : d'.events = d.events.updateWhere p f hf) (hpayload : ∀ e, (f e).payload = e.payload) :
    d'.payloads = d.payloads := by
  have hrows : d'.events.rows = d.events.rows.map fun e => if p e then f e else e := by
    rw [h]
    rfl
  rw [Db.payloads, Db.payloads, hrows, List.map_map]
  refine List.map_congr_left fun e _ => ?_
  by_cases hp : p e
  · simp [hp, hpayload]
  · simp [hp]

/-- A new event says one thing more. -/
theorem payloads_append {d d' : Db} {e : EventRecord} (h : d'.events.rows = d.events.rows ++ [e]) :
    d'.payloads = d.payloads ++ [e.payload] := by
  rw [Db.payloads, h, List.map_append]
  rfl

/-- The event of a settlement is the result of its task. -/
theorem settlement_resultOf (s : Settlement) (taskId agent : String) :
    (s.event taskId agent).resultOf = some taskId := by
  unfold Settlement.event
  split <;> rfl

/-- **What a move tells Alice.**  Nothing, or one event; and a result only with the move that ends
    its task, or by hand. -/
theorem payloads_move {k : Kind} {s s' : Hub} (h : Move k s s') :
    s'.db.payloads = s.db.payloads ∨ ∃ p, s'.db.payloads = s.db.payloads ++ [p] ∧
      ∀ id, p.resultOf = some id → k = .append ∨
        ∃ t t', s.db.tasks.find? id = some t ∧ t.isOpen ∧
          s'.db.tasks.find? id = some t' ∧ ¬ t'.isOpen := by
  cases h with
  | draw | create | setWorkflowStatus | decide | beat | renew | release | assign | answer | cancel |
    override | claim => exact .inl rfl
  | @checkIn d _ name contextId instanceId profile _ row d' ts ts₁ ts₂ _ _ hadmits =>
    have hevents : d'.events = d.events := hadmits.frame Db.events fun _ => rfl
    refine .inr ⟨_, payloads_append
      (congrArg (fun t : Serial EventRecord.id => t.rows ++ [_]) hevents), fun id hid => ?_⟩
    cases hid
  | progress | ask | expire | lose | loseTask =>
    exact .inr ⟨_, payloads_append rfl, fun id hid => by cases hid⟩
  | append => exact .inr ⟨_, payloads_append rfl, fun id hid => .inl rfl⟩
  | lease => exact .inl (payloads_updateWhere (Db.lease_events ..) fun _ => rfl)
  | ack => exact .inl (payloads_updateWhere (Db.ack_events ..) fun _ => rfl)
  | @settle d _ task worker result row ts ts₁ ts₂ htask hopen _ hstate =>
    refine .inr ⟨_, payloads_append rfl, fun id hid => .inr ?_⟩
    obtain rfl : task.id = id :=
      Option.some.inj ((settlement_resultOf result task.id worker.name).symm.trans hid)
    have hended : (d.finish task.id result.state (some (.obj result.payload)) ts₁).tasks.find?
        task.id = some { task with
          state := result.state, updated := ts₁, leaseExpires := none
          result := some (.obj result.payload) } := by
      rw [Db.finish_tasks, Table.find?_modify_self, htask]
      rfl
    refine ⟨task, _, htask, hopen, hended, ?_⟩
    rw [TaskRecord.isOpen, hstate]
    simp

/-- At most one result besides the `n` queued by hand, and none of those of an open task. -/
def Db.Reported (d : Db) (taskId : String) (n : ℕ) : Prop :=
  d.results taskId ≤ n + 1 ∧
    ((∀ t, d.tasks.find? taskId = some t → t.isOpen) → d.results taskId ≤ n)

/-- Every move but an event by hand keeps the number of results of a task. -/
theorem reported_move {k : Kind} {s s' : Hub} (h : Move k s s') (hk : k ≠ .append)
    {taskId : String} {n : ℕ} (hs : s.db.Reported taskId n) : s'.db.Reported taskId n := by
  have hopen : (∀ t, s'.db.tasks.find? taskId = some t → t.isOpen) →
      ∀ t, s.db.tasks.find? taskId = some t → t.isOpen := by
    intro hall t ht
    obtain ⟨t', ht', hbecomes⟩ := (evolves_move h).tasks.find? ht
    by_contra hended
    have hsame := hbecomes.final hended
    exact hended (hsame ▸ hall t' ht')
  obtain hsame | ⟨p, hp, hresult⟩ := payloads_move h
  · rw [Db.Reported, Db.results, hsame]
    exact ⟨hs.1, fun hall => hs.2 (hopen hall)⟩
  · have hcount : s'.db.results taskId
        = s.db.results taskId + if p.resultOf = some taskId then 1 else 0 := by
      rw [Db.results, hp, List.countP_append, List.countP_singleton]
      simp [Db.results]
    rw [Db.Reported, hcount]
    by_cases hown : p.resultOf = some taskId
    · obtain happend | ⟨t, t', ht, htopen, ht', hended⟩ := hresult taskId hown
      · exact absurd happend hk
      have hbefore : s.db.results taskId ≤ n := by
        refine hs.2 fun u hu => ?_
        obtain rfl := Option.some.inj (ht.symm.trans hu)
        exact htopen
      rw [if_pos hown]
      exact ⟨by omega, fun hall => absurd (hall t' ht') hended⟩
    · rw [if_neg hown]
      exact ⟨hs.1, fun hall => hs.2 (hopen hall)⟩

/-- A call adds a result by hand at most. -/
theorem reported_exec (l : Call) {s : Hub} {taskId : String} {n : ℕ}
    (hs : s.db.Reported taskId n) :
    (l.exec s).db.Reported taskId (n + if l.op.queuesResult taskId then 1 else 0) := by
  by_cases hkind : .append ∈ l.op.kinds
  · obtain ⟨op, clock⟩ := l
    cases op with
    | appendEvent payload =>
      rw [Call.exec_eq rfl clock s]
      rcases atomically_cases (appendEvent payload) (s.connect clock) with
        ⟨e, c', hc, hat⟩ | ⟨e, -, hat⟩
      · obtain ⟨-, ts, hdb⟩ := appendEvent_cases hc
        have hcount : c'.db.results taskId
            = s.db.results taskId + if payload.resultOf = some taskId then 1 else 0 := by
          have hpayloads : ((s.connect clock).db.addEvent payload ts).payloads
              = s.db.payloads ++ [payload] := by
            simp [Db.payloads, Db.addEvent, Hub.connect]
          rw [Db.results, hdb, hpayloads, List.countP_append, List.countP_singleton]
          simp [Db.results]
        rw [hat]
        show c'.db.Reported taskId _
        rw [Db.Reported, hcount, hdb]
        simp only [Op.queuesResult, decide_eq_true_eq]
        have htasks : ((s.connect clock).db.addEvent payload ts).tasks = s.db.tasks := rfl
        rw [htasks]
        have h₁ := hs.1
        exact ⟨by omega, fun hall => Nat.add_le_add_right (hs.2 hall) _⟩
      · rw [hat]
        exact ⟨hs.1.trans (by omega), fun hall => (hs.2 hall).trans (Nat.le_add_right n _)⟩
    | _ => simp [Op.kinds] at hkind
  · have hno : l.op.queuesResult taskId = false := by
      obtain ⟨op, clock⟩ := l
      cases op with
      | appendEvent => simp [Op.kinds] at hkind
      | _ => rfl
    rw [hno]
    refine (moves_exec l s).invariant (I := fun s' => s'.db.Reported taskId n)
      (fun k _ _ hk hmove h => reported_move hmove ?_ h) hs
    rintro rfl
    exact hkind hk

/-- Along a run there are no more results than one and those put in by hand. -/
theorem reported_run {s : Hub} {taskId : String} {n : ℕ} (ls : List Call)
    (hs : s.db.Reported taskId n) :
    (s.run ls).db.Reported taskId (n + ls.countP fun l => l.op.queuesResult taskId) := by
  induction ls generalizing s n with
  | nil => exact hs
  | cons l ls ih =>
    have hrest := ih (reported_exec l hs)
    rw [List.countP_cons]
    rw [Nat.add_assoc, Nat.add_comm (ite _ _ _)] at hrest
    exact hrest

/-- **The life of a task.**  From every state of a run to every later one each task moves along
    the automaton, from `submitted` if it is new, and never back to `submitted`; a claim takes a
    submitted task to `working`, and no task is claimed twice; a task that has ended has no lease
    and keeps its row and its transcript; and a task has at most one `task_completed` or
    `task_failed` event, besides those that `append_event` queues by hand. -/
theorem task_lifecycle (u : Uuids) (ls later : List Call) :
    let s := (Hub.start u).run ls
    let s' := s.run later
    (∀ id t, s.db.tasks.find? id = some t → ∃ t', s'.db.tasks.find? id = some t' ∧
      ReflTransGen TaskState.Step t.state t'.state ∧
      (t.state ≠ .submitted → t'.state ≠ .submitted) ∧
      (¬ t.isOpen → t' = t ∧ t.leaseExpires = none ∧ s'.db.transcript id = s.db.transcript id)) ∧
    (∀ id t', s.db.tasks.find? id = none → s'.db.tasks.find? id = some t' →
      ReflTransGen TaskState.Step .submitted t'.state) ∧
    (∀ (l : Call) id, l.claimed s = some id → ∃ t ts, s.db.tasks.find? id = some t ∧
      t.state = .submitted ∧
      (l.exec s).db.tasks.find? id = some { t with state := .working, updated := ts }) ∧
    (ClaimRun.run u ls).log.Nodup ∧
    ∀ id, s.db.results id ≤ 1 + ls.countP fun l => l.op.queuesResult id := by
  intro s s'
  refine ⟨fun id t ht => ?_, (advances_run s later).2, fun l id => claimed_cases,
    claims_nodup u ls, fun id => ?_⟩
  · obtain ⟨t', ht', hsteps⟩ := (advances_run s later).1 id t ht
    refine ⟨t', ht', hsteps, TaskState.ne_submitted_of_steps hsteps, fun hended => ?_⟩
    obtain ⟨hrow, htranscript⟩ := ended_run later ht hended
    have hsame : t' = t := Option.some.inj (ht'.symm.trans hrow)
    exact ⟨hsame, endedUnleased_run u ls id t ht hended, htranscript⟩
  · have hnone : (Hub.start u).db.Reported id 0 := ⟨Nat.zero_le 1, fun _ => Nat.le_refl 0⟩
    have h := (reported_run ls hnone).1
    rw [Nat.zero_add] at h
    rw [Nat.add_comm]
    exact h

end AgentHub
