import AgentHub.Hub.System

namespace AgentHub

open Relational

/-!
# Who holds which task

An open task and the agent that works on it point at each other, and this survives release,
loss, re-admission, cancellation and override in any order.

* `Roster` — the abstract state: the status and task of each agent, the assignee of each open
  task; its actions are the only ways ownership ever changes;
* `Roster.Consistent` — the invariant, with one lemma for each action;
* `roster_*` — what each write of the store does to the roster;
* `consistent_run` — the invariant in every state of every run.
-/

/-- Agents with their status and the task they hold, and the assignee of each open task. -/
@[ext] structure Roster where
  agent : String → Option (AgentStatus × Option String)
  openTask : String → Option (Option String)

namespace Roster

/-- Open tasks and their workers point at each other. -/
structure Consistent (r : Roster) : Prop where
  held : ∀ {id owner}, r.openTask id = some owner → ∃ name status, owner = some name ∧
    r.agent name = some (status, some id) ∧ (status = .busy ∨ status = .released)
  holds : ∀ {name status id}, r.agent name = some (status, some id) →
    r.openTask id = some (some name)
  busy : ∀ {name task}, r.agent name = some (.busy, task) → task.isSome = true
  free : ∀ {name status task}, r.agent name = some (status, task) →
    status = .idle ∨ status = .lost → task = none

/-! ### Actions -/

/-- An agent appears, with nothing to do. -/
def join (r : Roster) (name : String) : Roster :=
  { r with agent := Function.update r.agent name (some (.idle, none)) }

/-- An agent changes its status and keeps its task. -/
def mark (r : Roster) (name : String) (status : AgentStatus) : Roster :=
  { r with agent := Function.update r.agent name ((r.agent name).map fun a => (status, a.2)) }

/-- An agent is given a new task. -/
def give (r : Roster) (name id : String) : Roster where
  agent := Function.update r.agent name (some (.busy, some id))
  openTask := Function.update r.openTask id (some (some name))

/-- What ending the task `id` leaves of an agent. -/
def freed (id : String) (a : AgentStatus × Option String) : AgentStatus × Option String :=
  if a.2 = some id then (if a.1 = .busy then .idle else a.1, none) else a

/-- A task ends, and whoever holds it is free. -/
def finish (r : Roster) (id : String) : Roster where
  agent name := (r.agent name).map (freed id)
  openTask := Function.update r.openTask id none

/-! ### Each action keeps the invariant -/

variable {r : Roster} {name id : String}

/-- A new agent holds nothing, so the roster stays consistent. -/
theorem Consistent.join (h : r.Consistent) (hnew : r.agent name = none) :
    (r.join name).Consistent where
  held := by
    intro id owner ht
    obtain ⟨n, st, rfl, ha, hst⟩ := h.held ht
    have hn : n ≠ name := fun e => by rw [e, hnew] at ha; cases ha
    exact ⟨n, st, rfl, (Function.update_of_ne hn _ _).trans ha, hst⟩
  holds := by
    intro n st id ha
    by_cases hn : n = name
    · subst hn; simp [Roster.join] at ha
    · exact h.holds ((Function.update_of_ne hn _ _).symm.trans ha)
  busy := by
    intro n task ha
    by_cases hn : n = name
    · subst hn; simp [Roster.join] at ha
    · exact h.busy ((Function.update_of_ne hn _ _).symm.trans ha)
  free := by
    intro n st task ha hst
    by_cases hn : n = name
    · subst hn; simp_all [Roster.join]
    · exact h.free ((Function.update_of_ne hn _ _).symm.trans ha) hst

/-- A status may change freely as long as it fits the task: `busy` only with one, `idle` and
    `lost` only without. -/
theorem Consistent.mark (h : r.Consistent) {status : AgentStatus}
    (hfit : ∀ a ∈ r.agent name, (status = .busy → a.2.isSome = true) ∧
      (status = .idle ∨ status = .lost → a.2 = none)) :
    (r.mark name status).Consistent where
  held := by
    intro id owner ht
    obtain ⟨n, st, rfl, ha, hst⟩ := h.held ht
    by_cases hn : n = name
    · subst hn
      refine ⟨n, status, rfl, by simp [Roster.mark, ha], ?_⟩
      obtain ⟨-, hfree⟩ := hfit _ ha
      cases status <;> simp_all
    · exact ⟨n, st, rfl, (Function.update_of_ne hn _ _).trans ha, hst⟩
  holds := by
    intro n st id ha
    by_cases hn : n = name
    · subst hn
      obtain ⟨⟨st', task⟩, ha', heq⟩ : ∃ a, r.agent n = some a ∧ (status, a.2) = (st, some id) := by
        simpa [Roster.mark] using ha
      obtain ⟨-, rfl⟩ := Prod.mk.inj heq
      exact h.holds ha'
    · exact h.holds ((Function.update_of_ne hn _ _).symm.trans ha)
  busy := by
    intro n task ha
    by_cases hn : n = name
    · subst hn
      obtain ⟨a, ha', heq⟩ : ∃ a, r.agent n = some a ∧ (status, a.2) = (.busy, task) := by
        simpa [Roster.mark] using ha
      obtain ⟨rfl, rfl⟩ := Prod.mk.inj heq
      exact (hfit a ha').1 rfl
    · exact h.busy ((Function.update_of_ne hn _ _).symm.trans ha)
  free := by
    intro n st task ha hst
    by_cases hn : n = name
    · subst hn
      obtain ⟨a, ha', heq⟩ : ∃ a, r.agent n = some a ∧ (status, a.2) = (st, task) := by
        simpa [Roster.mark] using ha
      obtain ⟨rfl, rfl⟩ := Prod.mk.inj heq
      exact (hfit a ha').2 hst
    · exact h.free ((Function.update_of_ne hn _ _).symm.trans ha) hst

/-- A free task goes to an idle agent, so no task and no agent is taken twice. -/
theorem Consistent.give (h : r.Consistent) (hidle : ∃ task, r.agent name = some (.idle, task))
    (hfree : r.openTask id = none) : (r.give name id).Consistent where
  held := by
    intro id' owner ht
    by_cases hid : id' = id
    · subst hid
      obtain rfl : some name = owner := by simpa [Roster.give] using ht
      exact ⟨name, .busy, rfl, by simp [Roster.give], .inl rfl⟩
    · obtain ⟨n, st, rfl, ha, hst⟩ := h.held ((Function.update_of_ne hid _ _).symm.trans ht)
      have hn : n ≠ name := by
        rintro rfl
        obtain ⟨task, hidle⟩ := hidle
        rw [ha] at hidle
        cases hidle
        simp at hst
      exact ⟨n, st, rfl, (Function.update_of_ne hn _ _).trans ha, hst⟩
  holds := by
    intro n st id' ha
    by_cases hn : n = name
    · subst hn
      obtain ⟨rfl, rfl⟩ : .busy = st ∧ id = id' := by simpa [Roster.give] using ha
      simp [Roster.give]
    · have ht := h.holds ((Function.update_of_ne hn _ _).symm.trans ha)
      have hid : id' ≠ id := by rintro rfl; rw [hfree] at ht; cases ht
      exact (Function.update_of_ne hid _ _).trans ht
  busy := by
    intro n task ha
    by_cases hn : n = name
    · subst hn
      obtain rfl : some id = task := by simpa [Roster.give] using ha
      rfl
    · exact h.busy ((Function.update_of_ne hn _ _).symm.trans ha)
  free := by
    intro n st task ha hst
    by_cases hn : n = name
    · subst hn
      obtain ⟨rfl, -⟩ : .busy = st ∧ some id = task := by simpa [Roster.give] using ha
      simp at hst
    · exact h.free ((Function.update_of_ne hn _ _).symm.trans ha) hst

/-- Ending a task frees its holder and nobody else. -/
theorem Consistent.finish (h : r.Consistent) : (r.finish id).Consistent where
  held := by
    intro id' owner ht
    have hid : id' ≠ id := by rintro rfl; simp [Roster.finish] at ht
    obtain ⟨n, st, rfl, ha, hst⟩ := h.held ((Function.update_of_ne hid _ _).symm.trans ht)
    exact ⟨n, st, rfl, by simp [Roster.finish, ha, freed, hid], hst⟩
  holds := by
    intro n st id' ha
    obtain ⟨⟨st', task⟩, ha', heq⟩ : ∃ a, r.agent n = some a ∧ freed id a = (st, some id') := by
      simpa [Roster.finish] using ha
    unfold freed at heq
    split at heq
    · cases heq
    · rename_i hne
      cases heq
      have hid : id' ≠ id := fun e => hne (by rw [e])
      exact (Function.update_of_ne hid _ _).trans (h.holds ha')
  busy := by
    intro n task ha
    obtain ⟨⟨st', task'⟩, ha', heq⟩ : ∃ a, r.agent n = some a ∧ freed id a = (.busy, task) := by
      simpa [Roster.finish] using ha
    unfold freed at heq
    split at heq
    · split at heq <;> simp_all
    · cases heq
      exact h.busy ha'
  free := by
    intro n st task ha hst
    obtain ⟨⟨st', task'⟩, ha', heq⟩ : ∃ a, r.agent n = some a ∧ freed id a = (st, task) := by
      simpa [Roster.finish] using ha
    unfold freed at heq
    split at heq
    · cases heq
      rfl
    · cases heq
      exact h.free ha' hst

end Roster

/-! ### The roster of a database -/

/-- The roster the tables stand for. -/
def Db.roster (d : Db) : Roster where
  agent name := (d.agents.find? name).map fun a => (a.status, a.currentTaskId)
  openTask id := ((d.tasks.find? id).filter fun t => t.isOpen).map TaskRecord.assignee

section

variable {d : Db} {name taskId : String}

/-- The roster shows the holder of an open task. -/
theorem roster_openTask_of {t : TaskRecord} (ht : d.tasks.find? taskId = some t) (h : t.isOpen) :
    d.roster.openTask taskId = some t.assignee := by
  simp [Db.roster, ht, h]

/-- The roster shows what an agent's row says. -/
theorem roster_agent_of {a : AgentRecord} (ha : d.agents.find? name = some a) :
    d.roster.agent name = some (a.status, a.currentTaskId) := by
  simp [Db.roster, ha]

/-- A rewrite of agents that leaves status and task alone is not seen. -/
theorem roster_updateAgent {d' : Db} {f : AgentRecord → AgentRecord}
    {hf : ∀ a, (f a).name = a.name} (hagents : d'.agents = d.agents.modify name f hf)
    (htasks : d'.tasks = d.tasks)
    (hsame : ∀ a, (f a).status = a.status ∧ (f a).currentTaskId = a.currentTaskId) :
    d'.roster = d.roster := by
  ext1
  · funext n
    simp only [Db.roster, hagents, Table.find?_modify]
    by_cases hn : n = name <;> cases d.agents.find? n <;> simp [hn, hsame]
  · rw [Db.roster, Db.roster, htasks]

/-- A rewrite of a task that leaves its assignee alone, and open what was open, is not seen. -/
theorem roster_updateTask {d' : Db} {f : TaskRecord → TaskRecord} {hf : ∀ t, (f t).id = t.id}
    (hagents : d'.agents = d.agents) (htasks : d'.tasks = d.tasks.modify taskId f hf)
    (hsame : ∀ t, d.tasks.find? taskId = some t →
      (f t).assignee = t.assignee ∧ ((f t).isOpen ↔ t.isOpen)) :
    d'.roster = d.roster := by
  ext1
  · rw [Db.roster, Db.roster, hagents]
  · funext id
    simp only [Db.roster, htasks, Table.find?_modify]
    by_cases hid : id = taskId
    · subst hid
      cases ht : d.tasks.find? id with
      | none => simp
      | some t =>
        obtain ⟨ha, hopen⟩ := hsame t ht
        by_cases h : t.isOpen <;> simp [Option.filter_some, h, hopen, ha]
    · simp [hid]

/-- A state change between open states leaves the roster alone. -/
theorem roster_setState {ts : Stamp} {t : TaskRecord} {state : TaskState}
    (ht : d.tasks.find? taskId = some t) (hopen : t.isOpen) (hstate : state.terminal = false) :
    (d.setState taskId state ts).roster = d.roster := by
  refine roster_updateTask rfl (Db.setState_tasks ..) fun t' ht' => ⟨rfl, ?_⟩
  obtain rfl := Option.some.inj (ht.symm.trans ht')
  exact ⟨fun _ => hopen, fun _ => hstate⟩

/-- A lease leaves the roster alone. -/
theorem roster_setLease {expires : Option Stamp} {ts : Stamp} :
    (d.setLease taskId expires ts).roster = d.roster :=
  roster_updateTask rfl (Db.setLease_tasks ..) fun _ _ => ⟨rfl, Iff.rfl⟩

/-- A status change marks the roster. -/
theorem roster_setStatus {status : AgentStatus} :
    (d.setStatus name status).roster = d.roster.mark name status := by
  ext1
  · funext n
    by_cases hn : n = name
    · subst hn
      simp [Db.roster, Roster.mark, Function.comp_def]
    · simp [Db.roster, Roster.mark, hn, Table.find?_modify_ne]
  · rfl

/-- Ending a task finishes it on the roster. -/
theorem roster_finish {state : TaskState} {result : Option Json} {ts : Stamp}
    (hstate : state.terminal = true) :
    (d.finish taskId state result ts).roster = d.roster.finish taskId := by
  ext1
  · funext n
    simp only [Db.roster, Db.finish_agents, Table.find?_updateWhere, Roster.finish,
      Option.map_map]
    cases d.agents.find? n with
    | none => rfl
    | some a => by_cases h : a.currentTaskId = some taskId <;> simp [h, Roster.freed]
  · funext id
    simp only [Db.roster, Db.finish_tasks, Table.find?_modify, Roster.finish]
    by_cases hid : id = taskId
    · subst hid
      cases d.tasks.find? id <;> simp [TaskRecord.isOpen, hstate]
    · simp [hid]

end

/-! ### The invariant of the hub -/

/-- A loss may be marked before or after the lost agent's task is finished. -/
theorem Roster.mark_finish (r : Roster) (name id : String) :
    (r.mark name .lost).finish id = (r.finish id).mark name .lost := by
  ext1
  · funext n
    by_cases hn : n = name
    · subst hn
      have hcomp : Roster.freed id ∘ (fun a => (.lost, a.2))
          = (fun a : AgentStatus × Option String => (AgentStatus.lost, a.2)) ∘ Roster.freed id := by
        funext a
        by_cases h : a.2 = some id <;> simp [Roster.freed, h]
      simp [Roster.mark, Roster.finish, hcomp]
    · simp [Roster.mark, Roster.finish, hn]
  · rfl

section

variable {d : Db} {name : String}

/-- A held task is open. -/
theorem Roster.Consistent.openTaskId (h : d.roster.Consistent) {a : AgentRecord}
    (ha : d.agents.find? name = some a) : d.openTaskId a.currentTaskId = a.currentTaskId := by
  cases hcurrent : a.currentTaskId with
  | none => rfl
  | some id =>
    have hopen := h.holds (hcurrent ▸ roster_agent_of ha)
    rw [Db.openTaskId_eq_some_iff]
    simp only [Db.roster, Option.map_eq_some_iff, Option.filter_eq_some_iff] at hopen
    obtain ⟨t, ⟨ht, hto⟩, -⟩ := hopen
    exact ⟨rfl, t, ht, of_decide_eq_true hto⟩

/-- Whatever way a check-in admits an agent, the roster stays consistent. -/
theorem Roster.Consistent.admits (h : d.roster.Consistent) {d' : Db}
    {instanceId contextId : String} {profile : AgentProfile} {remoteAddr : Option String}
    {ts : Stamp} (hadmits : Admits d name instanceId profile remoteAddr ts contextId d') :
    d'.roster.Consistent := by
  cases hadmits with
  | new _ hnew hcontext =>
    have hroster : Db.roster
        { d with
          agents := d.agents.insertOrIgnore
            (newAgent name contextId instanceId profile remoteAddr ts) } = d.roster.join name := by
      ext1
      · funext n
        simp only [Db.roster, Roster.join]
        rw [Table.find?_insertOrIgnore (by exact hnew)]
        by_cases hn : name = n
        · subst hn; simp [newAgent]
        · simp [newAgent, hn, Function.update_of_ne (Ne.symm hn)]
      · rfl
    rw [hroster]
    exact h.join (by simp [Db.roster, hnew])
  | returned previous hprev hnot =>
    have hcurrent := h.openTaskId hprev
    have hagent := roster_agent_of hprev
    have hroster : (d.readmit name (d.openTaskId previous.currentTaskId) instanceId profile
        remoteAddr ts).roster
          = d.roster.mark name (readmitted previous.status previous.currentTaskId) := by
      rw [hcurrent]
      ext1
      · funext n
        by_cases hn : n = name
        · subst hn
          simp [Db.roster, Roster.mark, hprev, AgentRecord.returned]
        · simp [Db.roster, Roster.mark, hn, Table.find?_modify_ne]
      · rfl
    rw [hroster]
    refine h.mark fun a ha => ?_
    obtain rfl : (previous.status, previous.currentTaskId) = a :=
      Option.some.inj (hagent.symm.trans ha)
    unfold readmitted
    split
    · simp
    · split
      · rename_i hsome
        simp [hsome]
      · rename_i hnone
        simpa using hnone

end

/-- **Every move keeps the roster consistent.** -/
theorem consistent_move {k : Kind} {s s' : Hub} (hmove : Move k s s')
    (h : s.db.roster.Consistent) : s'.db.roster.Consistent := by
  cases hmove with
  | draw | create | setWorkflowStatus | decide | append | lease | ack => exact h
  | @checkIn d u name contextId instanceId profile remoteAddr row d' ts ts₁ ts₂ _ _ hadmits =>
    have hadmitted := Roster.Consistent.admits (d := d) h hadmits
    exact hadmitted
  | @beat d u agent ts remoteAddr =>
    have hsame : (d.beat agent.name ts remoteAddr).roster = d.roster :=
      roster_updateAgent (Db.beat_agents ..) rfl fun _ => ⟨rfl, rfl⟩
    exact hsame ▸ h
  | @renew d u task expires renewed ts =>
    show (d.setLease task.id (some renewed) ts).roster.Consistent
    rw [roster_setLease]
    exact h
  | @release d u agent hagent hstatus =>
    show (d.setStatus agent.name .released).roster.Consistent
    rw [roster_setStatus]
    exact h.mark fun _ _ => by simp
  | @assign d u agent request id sourceEventId parts expires ts ts' workflow _ hagent hidle
      hassignee hfree =>
    have hroster : (d.assign (request.task id sourceEventId expires ts) agent.name
        agent.contextId parts ts').roster = d.roster.give agent.name id := by
      -- the two rosters agree at the new holder, at the new task and elsewhere
      ext1
      · funext n
        by_cases hn : n = agent.name
        · subst hn
          simp [Db.roster, Roster.give, hagent, TaskRequest.task]
        · simp [Db.roster, Roster.give, hn, Table.find?_modify_ne]
      · funext i
        simp only [Db.roster, Roster.give, Db.assign_tasks]
        rw [Table.find?_insertOrIgnore (by exact hfree)]
        by_cases hi : id = i
        · subst hi; simp [TaskRequest.task, TaskRecord.isOpen, TaskState.terminal, hassignee]
        · simp [TaskRequest.task, hi, Function.update_of_ne (Ne.symm hi)]
    rw [hroster]
    refine h.give ⟨agent.currentTaskId, hidle ▸ roster_agent_of hagent⟩ ?_
    simp [Db.roster, hfree]
  | @progress d u task worker note row ts ts₁ ts₂ =>
    have hsame : (d.progress task.id worker.name worker.contextId note ts ts₁ ts₂).roster
        = d.roster :=
      roster_updateAgent (Db.progressAt_agents ..) rfl fun _ => ⟨rfl, rfl⟩
    exact hsame ▸ h
  | @ask d u task worker question sentAs ts ts₁ ts₂ htask hopen =>
    have hsame : (d.setState task.id .inputRequired ts₁).roster = d.roster :=
      roster_setState htask hopen rfl
    exact hsame ▸ h
  | @answer d u taskId contextId text messageId ts ts' hanswerable =>
    obtain ⟨⟨t, ht, hstate⟩, -⟩ := hanswerable
    have hsame : (d.setState taskId .working ts').roster = d.roster :=
      roster_setState ht (by rw [TaskRecord.isOpen, hstate]; rfl) rfl
    exact hsame ▸ h
  | @settle d u task worker s row ts ts₁ ts₂ _ _ _ hstate =>
    -- ending the task is the only write of a settlement that the roster shows
    have hroster : (d.finish task.id s.state (some (.obj s.payload)) ts₁).roster
        = d.roster.finish task.id := roster_finish hstate
    exact hroster ▸ h.finish
  | @cancel d u task ts =>
    show (d.finish task.id .canceled none ts).roster.Consistent
    rw [roster_finish rfl]
    exact h.finish
  | @override d u task contextId note state ts ts' _ _ hstate =>
    have hroster : (d.finish task.id state
        (some (.obj [("status", .str state.value), ("summary", .str note)])) ts').roster
          = d.roster.finish task.id := roster_finish hstate
    exact hroster ▸ h.finish
  | @claim d u agent task ts hagent hstatus htask =>
    obtain ⟨hfound, -, hstate⟩ := Db.submittedTo?_mem htask
    have hsame : (d.setState task.id .working ts).roster = d.roster :=
      roster_setState hfound (by rw [TaskRecord.isOpen, hstate]; rfl) rfl
    exact hsame ▸ h
  | @expire d u task expires ts =>
    show (d.setLease task.id none ts).roster.Consistent
    rw [roster_setLease]
    exact h
  | @lose d u agent ts hagent _ hnone =>
    show (d.setStatus agent.name .lost).roster.Consistent
    rw [roster_setStatus]
    refine h.mark fun a ha => ?_
    obtain rfl : (agent.status, agent.currentTaskId) = a :=
      Option.some.inj ((roster_agent_of hagent).symm.trans ha)
    -- whoever is lost without a task holds nothing that would stay behind
    have hfree : agent.currentTaskId = none := (h.openTaskId hagent).symm.trans hnone
    simp [hfree]
  | @loseTask d u agent taskId ts ts' hagent _ hopen =>
    show ((d.setStatus agent.name .lost).finish taskId .failed _ ts).roster.Consistent
    rw [roster_finish rfl, roster_setStatus, Roster.mark_finish]
    refine h.finish.mark fun a ha => ?_
    -- the roster names the task that the loss ended, so the agent is freed of it
    have hheld : agent.currentTaskId = some taskId := (h.openTaskId hagent).symm.trans hopen
    have hfreed : (d.roster.finish taskId).agent agent.name
        = some (Roster.freed taskId (agent.status, agent.currentTaskId)) := by
      simp [Roster.finish, roster_agent_of hagent]
    rw [hfreed] at ha
    obtain rfl := Option.some.inj ha
    simp [Roster.freed, hheld]

/-- A new hub's roster is consistent: it is empty. -/
theorem consistent_start (u : Uuids) : (Hub.start u).db.roster.Consistent := by
  constructor <;> intros <;> simp_all [Hub.start, Db.empty, Db.roster]

/-- **Ownership, in every state of every run.** -/
theorem consistent_run (u : Uuids) (ls : List Call) :
    ((Hub.start u).run ls).db.roster.Consistent :=
  (moves_run (Hub.start u) ls).invariant (I := fun s => s.db.roster.Consistent)
    (fun _ _ _ _ hmove h => consistent_move hmove h) (consistent_start u)

section

variable {d : Db}

/-- An open task is held by a busy or released agent whose row names it. -/
theorem Roster.Consistent.task_held (h : d.roster.Consistent) {t : TaskRecord} (ht : t ∈ d.tasks)
    (hopen : t.isOpen) : ∃ a ∈ d.agents, t.assignee = some a.name ∧ a.currentTaskId = some t.id ∧
      (a.status = .busy ∨ a.status = .released) := by
  obtain ⟨name, status, howner, hagent, hstatus⟩ :=
    h.held (roster_openTask_of (Table.find?_of_mem ht) hopen)
  simp only [Db.roster, Option.map_eq_some_iff, Prod.mk.injEq] at hagent
  obtain ⟨a, ha, rfl, hcurrent⟩ := hagent
  obtain rfl : a.name = name := Table.find?_key ha
  exact ⟨a, Table.mem_of_find? ha, howner, hcurrent, hstatus⟩

/-- A busy agent holds an open task that names it. -/
theorem Roster.Consistent.busy_holds (h : d.roster.Consistent) {a : AgentRecord}
    (ha : a ∈ d.agents) (hbusy : a.status = .busy) :
    ∃ t ∈ d.tasks, a.currentTaskId = some t.id ∧ t.isOpen ∧ t.assignee = some a.name := by
  have hagent := roster_agent_of (Table.find?_of_mem ha)
  obtain ⟨id, hid⟩ := Option.isSome_iff_exists.mp (h.busy (hbusy ▸ hagent))
  have hopen := h.holds (hid ▸ hagent)
  simp only [Db.roster, Option.map_eq_some_iff, Option.filter_eq_some_iff] at hopen
  obtain ⟨t, ⟨ht, hto⟩, howner⟩ := hopen
  obtain rfl : t.id = id := Table.find?_key ht
  exact ⟨t, Table.mem_of_find? ht, hid, of_decide_eq_true hto, howner⟩

end

/-- **Task ownership.**  In every state of every run an open task is held by its assignee, a busy
    agent holds an open task of its own, an idle or lost agent holds none, and no agent has two
    open tasks. -/
theorem task_ownership (u : Uuids) (ls : List Call) :
    let d := ((Hub.start u).run ls).db
    (∀ t ∈ d.tasks, t.isOpen → ∃ a ∈ d.agents, t.assignee = some a.name ∧
      a.currentTaskId = some t.id ∧ (a.status = .busy ∨ a.status = .released)) ∧
    (∀ a ∈ d.agents, a.status = .busy →
      ∃ t ∈ d.tasks, a.currentTaskId = some t.id ∧ t.isOpen ∧ t.assignee = some a.name) ∧
    (∀ a ∈ d.agents, a.status = .idle ∨ a.status = .lost → a.currentTaskId = none) ∧
    ∀ a ∈ d.agents, ∀ t ∈ d.tasks, ∀ t' ∈ d.tasks, t.isOpen → t'.isOpen →
      t.assignee = some a.name → t'.assignee = some a.name → t = t' := by
  intro d
  have h : d.roster.Consistent := consistent_run u ls
  refine ⟨fun t => h.task_held, fun a => h.busy_holds, fun a ha => ?_, ?_⟩
  · exact h.free (roster_agent_of (Table.find?_of_mem ha))
  · intro a ha t ht t' ht' hopen hopen' howner howner'
    obtain ⟨b, hb, hname, hcurrent, -⟩ := h.task_held ht hopen
    obtain ⟨b', hb', hname', hcurrent', -⟩ := h.task_held ht' hopen'
    -- both tasks are the current task of the one agent of this name
    obtain rfl : b = b' := Table.eq_of_key_eq hb hb' (Option.some.inj
      (hname.symm.trans (howner.trans (howner'.symm.trans hname'))))
    exact Table.eq_of_key_eq ht ht' (Option.some.inj (hcurrent.symm.trans hcurrent'))

end AgentHub
