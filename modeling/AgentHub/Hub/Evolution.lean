import AgentHub.Hub.System
import AgentHub.Relational.Evolution

namespace AgentHub

open Relational

/-!
# What never changes again

Rows are never removed, and much of a row is fixed once it is written: what was asked for in an
assignment, the context of an agent, every message, every decision, every ledger row.  Some
states are final: a released agent, an ended task, an acknowledged event.

* `TaskRecord.Becomes`, `AgentRecord.Becomes`, `EventRecord.Becomes` — what may become of a row;
* `Db.Evolves` — the same for the whole database; `evolves_run`, that every run evolves it.
-/

/-- What may become of a task: the assignment is fixed, an ended task is final, and no task is
    submitted twice. -/
structure TaskRecord.Becomes (t t' : TaskRecord) : Prop where
  request : t'.request = t.request
  source : t'.sourceEventId = t.sourceEventId
  created : t'.created = t.created
  final : ¬ t.isOpen → t' = t
  submitted : t'.state = .submitted → t.state = .submitted

/-- What may become of an agent: its context is fixed, and a release is final. -/
structure AgentRecord.Becomes (a a' : AgentRecord) : Prop where
  context : a'.contextId = a.contextId
  released : a.status = .released → a'.status = .released

/-- What may become of an event: its content is fixed, and an acknowledgement is final. -/
structure EventRecord.Becomes (e e' : EventRecord) : Prop where
  payload : e'.payload = e.payload
  acked : e.state = .acked → e' = e

/-- A task that stays as it is. -/
theorem TaskRecord.Becomes.refl (t : TaskRecord) : t.Becomes t :=
  ⟨rfl, rfl, rfl, fun _ => rfl, fun h => h⟩

/-- What becomes of a task in two steps. -/
theorem TaskRecord.Becomes.trans (t t' t'' : TaskRecord) (h : t.Becomes t')
    (h' : t'.Becomes t'') : t.Becomes t'' where
  request := h'.request.trans h.request
  source := h'.source.trans h.source
  created := h'.created.trans h.created
  final hended := by
    obtain rfl := h.final hended
    exact h'.final hended
  submitted hsub := h.submitted (h'.submitted hsub)

/-- An agent that stays as it is. -/
theorem AgentRecord.Becomes.refl (a : AgentRecord) : a.Becomes a := ⟨rfl, fun h => h⟩

/-- What becomes of an agent in two steps. -/
theorem AgentRecord.Becomes.trans (a a' a'' : AgentRecord) (h : a.Becomes a')
    (h' : a'.Becomes a'') : a.Becomes a'' :=
  ⟨h'.context.trans h.context, fun hr => h'.released (h.released hr)⟩

/-- An event that stays as it is. -/
theorem EventRecord.Becomes.refl (e : EventRecord) : e.Becomes e := ⟨rfl, fun _ => rfl⟩

/-- What becomes of an event in two steps. -/
theorem EventRecord.Becomes.trans (e e' e'' : EventRecord) (h : e.Becomes e')
    (h' : e'.Becomes e'') : e.Becomes e'' := by
  refine ⟨h'.payload.trans h.payload, fun hacked => ?_⟩
  obtain rfl := h.acked hacked
  exact h'.acked hacked

/-- An open task changes its state, lease or result, and nothing else. -/
theorem TaskRecord.Becomes.of_open {t t' : TaskRecord} (hopen : t.isOpen)
    (hrequest : t'.request = t.request) (hsource : t'.sourceEventId = t.sourceEventId)
    (hcreated : t'.created = t.created)
    (hsub : t'.state = .submitted → t.state = .submitted) : t.Becomes t' :=
  ⟨hrequest, hsource, hcreated, fun h => absurd hopen h, hsub⟩

/-- What may become of the tables. -/
structure Db.Evolves (d d' : Db) : Prop where
  workflow : ∀ w ∈ d.workflow, ∃ w' ∈ d'.workflow,
    w'.id = w.id ∧ w'.goal = w.goal ∧ w'.policy = w.policy
  agents : d.agents.Evolves AgentRecord.Becomes d'.agents
  tasks : d.tasks.Evolves TaskRecord.Becomes d'.tasks
  messages : d.messages.Evolves Eq d'.messages
  events : d.events.Evolves EventRecord.Becomes d'.events
  decisions : d.decisions.Evolves Eq d'.decisions
  operations : d.operations.Evolves Eq d'.operations

/-- A database that stays as it is. -/
theorem Db.Evolves.refl (d : Db) : d.Evolves d where
  workflow w hw := ⟨w, hw, rfl, rfl, rfl⟩
  agents := Table.Evolves.refl AgentRecord.Becomes.refl _
  tasks := Table.Evolves.refl TaskRecord.Becomes.refl _
  messages := Serial.Evolves.refl (fun _ => rfl) _
  events := Serial.Evolves.refl EventRecord.Becomes.refl _
  decisions := Serial.Evolves.refl (fun _ => rfl) _
  operations := Table.Evolves.refl (fun _ => rfl) _

/-- What becomes of a database in two steps. -/
theorem Db.Evolves.trans {d d' d'' : Db} (h : d.Evolves d') (h' : d'.Evolves d'') :
    d.Evolves d'' where
  workflow w hw := by
    obtain ⟨w', hw', hid, hgoal, hpolicy⟩ := h.workflow w hw
    obtain ⟨w'', hw'', hid', hgoal', hpolicy'⟩ := h'.workflow w' hw'
    exact ⟨w'', hw'', hid'.trans hid, hgoal'.trans hgoal, hpolicy'.trans hpolicy⟩
  agents := Table.Evolves.trans AgentRecord.Becomes.trans h.agents h'.agents
  tasks := Table.Evolves.trans TaskRecord.Becomes.trans h.tasks h'.tasks
  messages := Serial.Evolves.trans (R := Eq) (fun _ _ _ => Eq.trans) h.messages h'.messages
  events := Serial.Evolves.trans EventRecord.Becomes.trans h.events h'.events
  decisions := Serial.Evolves.trans (R := Eq) (fun _ _ _ => Eq.trans) h.decisions h'.decisions
  operations := Table.Evolves.trans (R := Eq) (fun _ _ _ => Eq.trans) h.operations h'.operations

/-! ### Every write evolves the database -/

section

variable {d : Db}

/-- A message is appended to the transcript. -/
theorem evolves_addMessage {taskId : Option String} {contextId sender : String}
    {direction : Direction} {parts : List Part} {ts : Stamp} :
    d.Evolves (d.addMessage taskId contextId sender direction parts ts) :=
  { Db.Evolves.refl d with messages := Serial.evolves_append (fun _ => rfl) _ }

/-- An event is appended to the inbox. -/
theorem evolves_addEvent {payload : EventPayload} {ts : Stamp} :
    d.Evolves (d.addEvent payload ts) :=
  { Db.Evolves.refl d with events := Serial.evolves_append EventRecord.Becomes.refl _ }

/-- A decision is appended to the log. -/
theorem evolves_addDecision {summary rationale : String} {key : Option String} {ts : Stamp} :
    d.Evolves (d.addDecision summary rationale key ts) :=
  { Db.Evolves.refl d with decisions := Serial.evolves_append (fun _ => rfl) _ }

/-- A row under a free key is appended to the ledger. -/
theorem evolves_record {row : Option OperationRecord}
    (hrow : ∀ r ∈ row, d.operations.find? r.key = none) : d.Evolves (d.record row) := by
  cases row with
  | none => exact Db.Evolves.refl d
  | some r =>
    exact { Db.Evolves.refl d with
            operations := Table.evolves_insertOrIgnore (fun _ => rfl) (hrow r rfl) }

/-- An open task changes its state, but never back to submitted. -/
theorem evolves_setState {taskId : String} {state : TaskState} {ts : Stamp}
    (hopen : ∀ t, d.tasks.find? taskId = some t → t.isOpen) (hstate : state ≠ .submitted) :
    d.Evolves (d.setState taskId state ts) :=
  { Db.Evolves.refl d with
    tasks := Table.evolves_modify TaskRecord.Becomes.refl (Db.setState_tasks ..) fun t ht =>
      .of_open (hopen t ht) rfl rfl rfl fun h => absurd h hstate }

/-- An open task changes its lease. -/
theorem evolves_setLease {taskId : String} {expires : Option Stamp} {ts : Stamp}
    (hopen : ∀ t, d.tasks.find? taskId = some t → t.isOpen) :
    d.Evolves (d.setLease taskId expires ts) :=
  { Db.Evolves.refl d with
    tasks := Table.evolves_modify TaskRecord.Becomes.refl (Db.setLease_tasks ..) fun t ht =>
      .of_open (hopen t ht) rfl rfl rfl fun h => h }

/-- An open task is finished. -/
theorem evolves_finish {taskId : String} {state : TaskState} {result : Option Json} {ts : Stamp}
    (hopen : ∀ t, d.tasks.find? taskId = some t → t.isOpen) (hstate : state.terminal = true) :
    d.Evolves (d.finish taskId state result ts) :=
  { Db.Evolves.refl d with
    tasks := Table.evolves_modify TaskRecord.Becomes.refl (Db.finish_tasks ..) fun t ht =>
      .of_open (hopen t ht) rfl rfl rfl fun h => by
        have hsub : state = .submitted := h
        rw [hsub] at hstate
        cases hstate
    agents := Table.evolves_updateWhere AgentRecord.Becomes.refl (Db.finish_agents ..) fun a _ _ =>
      ⟨rfl, fun h => by simp [h]⟩ }

/-- A status other than `released` is set on an agent that is not released. -/
theorem evolves_setStatus {name : String} {status : AgentStatus}
    (hstatus : ∀ a, d.agents.find? name = some a → a.status = .released → status = .released) :
    d.Evolves (d.setStatus name status) :=
  { Db.Evolves.refl d with
    agents := Table.evolves_modify AgentRecord.Becomes.refl (Db.setStatus_agents ..) fun a ha =>
      ⟨rfl, hstatus a ha⟩ }

/-- A live agent is lost. -/
theorem evolves_lost {agent : AgentRecord} (hagent : d.agents.find? agent.name = some agent)
    (hlive : agent.status.live) : d.Evolves (d.setStatus agent.name .lost) := by
  refine evolves_setStatus fun a ha hr => ?_
  obtain rfl := Option.some.inj (hagent.symm.trans ha)
  rw [hr] at hlive
  simp [AgentStatus.live] at hlive

/-- A check-in renews its agent, or adds one under a new name. -/
theorem evolves_admits {d' : Db} {name instanceId contextId : String} {profile : AgentProfile}
    {remoteAddr : Option String} {ts : Stamp}
    (h : Admits d name instanceId profile remoteAddr ts contextId d') : d.Evolves d' := by
  cases h with
  | new _ hnew =>
    exact { Db.Evolves.refl d with
            agents := Table.evolves_insertOrIgnore AgentRecord.Becomes.refl hnew }
  | returned previous hprev =>
    exact { Db.Evolves.refl d with
            agents := Table.evolves_modify AgentRecord.Becomes.refl (Db.readmit_agents ..)
              fun a _ =>
              ⟨rfl, fun hr => by simp [AgentRecord.returned, readmitted, hr]⟩ }

end

/-- **Every move evolves the database.** -/
theorem evolves_move {k : Kind} {s s' : Hub} (hmove : Move k s s') : s.db.Evolves s'.db := by
  -- the row found under a task's id is the task itself
  have hopen_of {d : Db} {t : TaskRecord} (ht : d.tasks.find? t.id = some t) (hopen : t.isOpen) :
      ∀ t', d.tasks.find? t.id = some t' → t'.isOpen := fun t' ht' =>
    Option.some.inj (ht.symm.trans ht') ▸ hopen
  cases hmove with
  | draw => exact .refl _
  | @create d u w hnone =>
    exact { Db.Evolves.refl d with
            workflow := fun w' hw' => by rw [hnone] at hw'; cases hw' }
  | @setWorkflowStatus d u w status summary rationale ts hw =>
    have hset : d.Evolves { d with workflow := some { w with status } } :=
      { Db.Evolves.refl d with
        workflow := fun w' hw' => by
          obtain rfl := Option.some.inj (hw.symm.trans hw')
          exact ⟨_, rfl, rfl, rfl, rfl⟩ }
    exact hset.trans evolves_addDecision
  | decide => exact evolves_addDecision
  | @checkIn d u name contextId instanceId profile remoteAddr row d' ts ts₁ ts₂ _ _ hadmits hrow =>
    refine (evolves_admits hadmits).trans (Db.Evolves.trans ?_ (evolves_record fun r hr => ?_))
    · exact evolves_addMessage.trans evolves_addEvent
    · have hops : d'.operations = d.operations := hadmits.frame Db.operations fun _ => rfl
      exact (congrArg (fun o : Table OperationRecord.key => o.find? r.key) hops).trans (hrow r hr).2
  | @beat d u agent ts remoteAddr =>
    exact { Db.Evolves.refl d with
            agents := Table.evolves_modify AgentRecord.Becomes.refl (Db.beat_agents ..) fun _ _ =>
              ⟨rfl, fun h => h⟩ }
  | renew task expires renewed ts htask hopen => exact evolves_setLease (hopen_of htask hopen)
  | release => exact evolves_setStatus fun _ _ _ => rfl
  | @assign d u agent request id sourceEventId parts expires ts ts' workflow _ hagent hidle _
      hfree =>
    exact { Db.Evolves.refl d with
            tasks := Table.evolves_insertOrIgnore TaskRecord.Becomes.refl hfree
            agents := Table.evolves_modify AgentRecord.Becomes.refl (Db.assign_agents ..)
              fun a ha => ⟨rfl, fun hr => by
                obtain rfl := Option.some.inj (hagent.symm.trans ha)
                rw [hidle] at hr
                cases hr⟩
            messages := Serial.evolves_append (fun _ => rfl) _ }
  | @progress d u task worker note row ts ts₁ ts₂ _ _ _ hrow =>
    have hnoted : d.Evolves (d.progress task.id worker.name worker.contextId note ts ts₁ ts₂) :=
      { Db.Evolves.refl d with
        messages := Serial.evolves_append (fun _ => rfl) _
        events := Serial.evolves_append EventRecord.Becomes.refl _
        agents := Table.evolves_modify AgentRecord.Becomes.refl (Db.progressAt_agents ..) fun _ _ =>
          ⟨rfl, fun h => h⟩ }
    exact hnoted.trans (evolves_record fun r hr => (hrow r hr).2)
  | @ask d u task worker question sentAs ts ts₁ ts₂ htask hopen =>
    have hparked : d.Evolves (d.setState task.id .inputRequired ts₁) :=
      evolves_setState (hopen_of htask hopen) (by simp)
    exact hparked.trans (evolves_addMessage.trans evolves_addEvent)
  | @answer d u taskId contextId text messageId ts ts' hanswerable =>
    obtain ⟨⟨t, ht, hstate⟩, -⟩ := hanswerable
    have hanswered : d.Evolves (d.setState taskId .working ts') := by
      refine evolves_setState (fun t' ht' => ?_) (by simp)
      obtain rfl := Option.some.inj (ht.symm.trans ht')
      rw [TaskRecord.isOpen, hstate]
      rfl
    exact hanswered.trans evolves_addMessage
  | @settle d u task worker s row ts ts₁ ts₂ htask hopen _ hstate hrow =>
    have hended : d.Evolves (d.finish task.id s.state (some (.obj s.payload)) ts₁) :=
      evolves_finish (hopen_of htask hopen) hstate
    have hsettled : d.Evolves (d.settle task.id worker.name worker.contextId s ts ts₁ ts₂) :=
      hended.trans (evolves_addMessage.trans evolves_addEvent)
    exact hsettled.trans (evolves_record fun r hr => (hrow r hr).2)
  | cancel task ts htask hopen => exact evolves_finish (hopen_of htask hopen) rfl
  | @override d u task contextId note state ts ts' htask hopen hstate =>
    have hended : d.Evolves (d.finish task.id state
        (some (.obj [("status", .str state.value), ("summary", .str note)])) ts') :=
      evolves_finish (hopen_of htask hopen) hstate
    exact hended.trans evolves_addMessage
  | @claim d u agent task ts hagent hstatus htask =>
    obtain ⟨hfound, -, hstate⟩ := Db.submittedTo?_mem htask
    exact evolves_setState (hopen_of hfound (by rw [TaskRecord.isOpen, hstate]; rfl)) (by simp)
  | expire task expires ts ts' htask hopen =>
    exact (evolves_setLease (hopen_of htask hopen)).trans evolves_addEvent
  | lose agent ts hagent hlive => exact (evolves_lost hagent hlive).trans evolves_addEvent
  | @loseTask d u agent taskId ts ts' hagent hlive hopen =>
    obtain ⟨-, t, ht, hto⟩ := Db.openTaskId_eq_some_iff.mp hopen
    have hended : (d.setStatus agent.name .lost).Evolves ((d.setStatus agent.name .lost).finish
        taskId .failed (some (lostResult agent.name)) ts) := by
      refine evolves_finish (fun t' ht' => ?_) rfl
      obtain rfl := Option.some.inj (ht.symm.trans ht')
      exact hto
    exact ((evolves_lost hagent hlive).trans hended).trans evolves_addEvent
  | append => exact evolves_addEvent
  | @lease d u event ts expires hfirst =>
    refine { Db.Evolves.refl d with
             events := Serial.evolves_updateWhere EventRecord.Becomes.refl (Db.lease_events ..)
               fun e he hid => ⟨rfl, fun hacked => ?_⟩ }
    obtain rfl : e = event := Serial.eq_of_key_eq he (Serial.mem_of_first? hfirst) hid
    have hleasable : e.leasable ts := Serial.of_first? (p := (EventRecord.leasable · ts)) hfirst
    -- an acknowledged event is not leasable, so this lease was not of one
    simp [EventRecord.leasable, hacked] at hleasable
  | @ack d u id ts =>
    refine { Db.Evolves.refl d with
             events := Serial.evolves_updateWhere EventRecord.Becomes.refl (Db.ack_events ..)
               fun e _ hout => ⟨rfl, fun hacked => ?_⟩ }
    -- the acknowledged event was out until now
    rw [hout.2] at hacked
    cases hacked

/-- Every run of moves is an evolution. -/
theorem evolves_moves {K : Kind → Prop} {s s' : Hub} (h : Moves K s s') : s.db.Evolves s'.db :=
  h.invariant (I := fun t => s.db.Evolves t.db)
    (fun _ _ _ _ hmove ih => ih.trans (evolves_move hmove)) (.refl _)

/-- **Every run evolves the database.** -/
theorem evolves_run (s : Hub) (ls : List Call) : s.db.Evolves (s.run ls).db :=
  evolves_moves (moves_run s ls)

/-- The task has ended. -/
def Db.Closed (d : Db) (taskId : String) : Prop :=
  ∃ t, d.tasks.find? taskId = some t ∧ ¬ t.isOpen

/-- A closed task stays closed. -/
theorem Db.Evolves.closed {d d' : Db} (h : d.Evolves d') {taskId : String}
    (hclosed : d.Closed taskId) :
    d'.Closed taskId := by
  obtain ⟨t, ht, hended⟩ := hclosed
  obtain ⟨t', ht', hbecomes⟩ := h.tasks.find? ht
  obtain rfl := hbecomes.final hended
  exact ⟨t', ht', hended⟩

end AgentHub
