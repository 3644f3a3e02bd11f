import AgentHub.Hub.Lifecycle
import AgentHub.Hub.Streams

namespace AgentHub

open Relational

/-!
# Assignments on their way

A claim commits before its answer is sent, and the answer may be lost.  A task that was claimed is
no longer `submitted`, and a later `NEXT` looks for submitted tasks only.

* `Db.Awaits` — an open task whose worker is busy with it and has not received it;
* `Db.Retrievable` — every such task is still submitted; `retrievable_move`, which moves keep it;
* `Switchboard.NothingLost` — a further `NEXT` yields every such task;
* `nothing_lost` — exactly when no assignment is lost.
-/

/-- The task is open, and the current process of its busy worker has not received it. -/
def Db.Awaits (d : Db) (received : List (String × String)) (a : AgentRecord) (t : TaskRecord) :
    Prop :=
  d.agents.find? a.name = some a ∧ a.status = .busy ∧ d.tasks.find? t.id = some t ∧ t.isOpen ∧
    t.assignee = some a.name ∧ (a.workerInstanceId, t.id) ∉ received

/-- Every task its worker has not received can still be claimed. -/
def Db.Retrievable (d : Db) (received : List (String × String)) : Prop :=
  ∀ a t, d.Awaits received a t → t.state = .submitted

/-! ### Moves -/

/-- The process of a live agent is its own until it is lost or released. -/
theorem live_instance_move {k : Kind} {s s' : Hub} (h : Move k s s') (hs : s.db.Instanced)
    {a b : AgentRecord} (ha : s.db.agents.find? a.name = some a) (hlive : a.status.live)
    (hb : s'.db.agents.find? a.name = some b) : b.workerInstanceId = a.workerInstanceId := by
  by_cases hk : k = .checkIn
  · subst hk
    cases h with
    | @checkIn d _ name _ _ _ _ _ d' _ _ _ _ _ hadmits =>
      obtain ⟨hothers, hnot, -⟩ := admits_agents hadmits hs
      have hb' : d'.agents.find? a.name = some b := hb
      by_cases hname : a.name = name
      · exact absurd hlive (hnot a (hname ▸ ha))
      · rw [hothers a.name hname] at hb'
        rw [Option.some.inj (hb'.symm.trans ha)]
  · obtain ⟨b', hb', hstays⟩ := ((agents_move h hk) a.name).1 a ha
    obtain rfl : b' = b := Option.some.inj (hb'.symm.trans hb)
    exact hstays.instanceId

/-- An open task of a worker that is busy after a move was the task of the same busy process
    before it. -/
theorem busy_before {k : Kind} {s s' : Hub} (h : Move k s s') (hroster : s.db.roster.Consistent)
    (hs : s.db.Instanced) {b : AgentRecord} (hb : s'.db.agents.find? b.name = some b)
    (hbusy : b.status = .busy) {t : TaskRecord} (ht : s.db.tasks.find? t.id = some t)
    (hopen : t.isOpen) (howner : t.assignee = some b.name) :
    ∃ a, s.db.agents.find? a.name = some a ∧ a.name = b.name ∧ a.status = .busy ∧
      a.workerInstanceId = b.workerInstanceId := by
  obtain ⟨a, hmem, hassignee, -, hstatus⟩ := hroster.task_held (Table.mem_of_find? ht) hopen
  have hname : a.name = b.name := Option.some.inj (hassignee.symm.trans howner)
  have ha : s.db.agents.find? a.name = some a := Table.find?_of_mem hmem
  obtain ⟨b', hb', hbecomes⟩ := (evolves_move h).agents.find? ha
  obtain rfl : b' = b := Option.some.inj (hb'.symm.trans (hname ▸ hb))
  rcases hstatus with hbusy' | hreleased
  · exact ⟨a, ha, hname, hbusy',
      (live_instance_move h hs ha (.inr hbusy') hb').symm⟩
  · -- a release is final
    rw [hbecomes.released hreleased] at hbusy
    cases hbusy

/-- **A move that neither claims nor asks** leaves every awaited task to be claimed. -/
theorem retrievable_move {k : Kind} {s s' : Hub} (h : Move k s s') (hclaim : k ≠ .claim)
    (hask : k ≠ .ask) (hroster : s.db.roster.Consistent) (hs : s.db.Instanced)
    {received : List (String × String)} (hd : s.db.Retrievable received) :
    s'.db.Retrievable received := by
  rintro b t' ⟨hb, hbusy, ht', hopen', howner, hunreceived⟩
  -- a task that was open before is one the same process was waiting for
  have hbefore {t : TaskRecord} (ht : s.db.tasks.find? t.id = some t) (hopen : t.isOpen)
      (hid : t.id = t'.id) (howner' : t.assignee = t'.assignee) : t.state = .submitted := by
    obtain ⟨a, ha, hname, hbusy', hinstance⟩ :=
      busy_before h hroster hs hb hbusy ht hopen (howner'.trans howner)
    refine hd a t ⟨ha, hbusy', ht, hopen, ?_, ?_⟩
    · rw [howner', howner, hname]
    · rw [hinstance, hid]
      exact hunreceived
  have hkept (ht : s.db.tasks.find? t'.id = some t') : t'.state = .submitted :=
    hbefore ht hopen' rfl rfl
  obtain hsame | ⟨-, new, -, hstate, hrewrites⟩ | ⟨old, new, hold, hwrites, hrewrites⟩ :=
    tasks_move h
  · exact hkept (hsame ▸ ht')
  · rw [hrewrites] at ht'
    split at ht'
    · rw [← Option.some.inj ht']
      exact hstate
    · exact hkept ht'
  · rw [hrewrites] at ht'
    split at ht'
    · obtain rfl := Option.some.inj ht'
      cases hwrites with
      | claim => exact absurd rfl hclaim
      | ask => exact absurd rfl hask
      | answer hstate =>
        have hopen : old.isOpen := by
          rw [TaskRecord.isOpen, hstate]
          rfl
        rw [hbefore hold hopen rfl rfl] at hstate
        cases hstate
      | renew hopen => exact hbefore (t := old) hold hopen rfl rfl
      | expire hopen => exact hbefore (t := old) hold hopen rfl rfl
      | finish _ state hstate =>
        have hclosed : state.terminal = false := hopen'
        rw [hstate] at hclosed
        cases hclosed
    · exact hkept ht'

/-! ### Calls -/

/-- Only `claim_assignment` claims a task. -/
theorem claim_mem_kinds {op : Op} (h : Kind.claim ∈ op.kinds) :
    ∃ name, op = .claimAssignment name := by
  cases op <;> simp [Op.kinds] at h ⊢

/-- Only `open_question` asks a question. -/
theorem ask_mem_kinds {op : Op} (h : Kind.ask ∈ op.kinds) :
    ∃ taskId agent question sentAs, op = .openQuestion taskId agent question sentAs := by
  cases op <;> simp [Op.kinds] at h ⊢

/-- Any call but a claim and a question leaves every awaited task to be claimed. -/
theorem retrievable_call (l : Call) {s : Hub} {received : List (String × String)}
    (hclaim : ∀ name, l.op ≠ .claimAssignment name)
    (hask : ∀ taskId agent question sentAs, l.op ≠ .openQuestion taskId agent question sentAs)
    (hroster : s.db.roster.Consistent) (hs : s.db.Instanced) (hd : s.db.Retrievable received) :
    (l.exec s).db.Retrievable received := by
  have hall := (moves_exec l s).invariant
    (I := fun s => s.db.roster.Consistent ∧ s.db.Instanced ∧ s.db.Retrievable received)
    (fun k t t' hk hmove hI => ?_) ⟨hroster, hs, hd⟩
  · exact hall.2.2
  · refine ⟨consistent_move hmove hI.1, instanced_move hmove hI.2.1, ?_⟩
    refine retrievable_move hmove ?_ ?_ hI.1 hI.2.1 hI.2.2
    · rintro rfl
      obtain ⟨name, hop⟩ := claim_mem_kinds hk
      exact hclaim name hop
    · rintro rfl
      obtain ⟨taskId, agent, question, sentAs, hop⟩ := ask_mem_kinds hk
      exact hask taskId agent question sentAs hop

/-- A new question is opened on a task that its worker has not received. -/
def Db.AsksUnseen (d : Db) (received : List (String × String))
    (taskId agent question sentAs : String) : Prop :=
  (∃ a t, d.Awaits received a t ∧ t.id = taskId) ∧ (d.agents.find? agent).isSome = true ∧
    d.askedQuestion taskId sentAs = none ∧ PartsFit (questionParts question sentAs)

/-- A question on an open task that has not been asked before is accepted. -/
theorem openQuestion_accepts {c : Conn} {taskId agent question sentAs : String} {t : TaskRecord}
    (ht : c.db.tasks.find? taskId = some t) (hopen : t.isOpen)
    (hagent : (c.db.agents.find? agent).isSome = true)
    (hnew : c.db.askedQuestion taskId sentAs = none)
    (hfit : PartsFit (questionParts question sentAs)) :
    Accepts (openQuestion taskId agent question sentAs) c := by
  obtain ⟨worker, hworker⟩ := Option.isSome_iff_exists.mp hagent
  obtain rfl : t.id = taskId := Table.find?_key ht
  unfold openQuestion
  apply Accepts.bind (commits_requireOpenTask.mpr ⟨ht, hopen, rfl⟩)
  apply Accepts.bind (commits_requireAgent.mpr ⟨hworker, rfl⟩)
  apply Accepts.bind (commits_readDb.mpr ⟨rfl, rfl⟩)
  rw [hnew]
  apply Accepts.bind (commits_addMessage.mpr ⟨hfit, rfl, rfl⟩)
  refine Accepts.bind (b := ()) (commits_setState.mpr rfl) ?_
  apply Accepts.bind (commits_addEvent.mpr ⟨rfl, rfl⟩)
  refine Accepts.bind (b := ()) (commits_notify.mpr rfl) ?_
  exact (commits_pure.mpr ⟨rfl, rfl⟩).accepts

/-- A question leaves every awaited task to be claimed exactly when it is not about one. -/
theorem retrievable_ask {taskId agent question sentAs : String} {clock : ℕ → Moment} {s : Hub}
    {received : List (String × String)} (hd : s.db.Retrievable received) :
    ((Call.mk (.openQuestion taskId agent question sentAs) clock).exec s).db.Retrievable received ↔
      ¬ s.db.AsksUnseen received taskId agent question sentAs := by
  rw [Call.exec_eq rfl clock s]
  rcases atomically_cases (openQuestion taskId agent question sentAs) (s.connect clock) with
    ⟨id, c', hc, hat⟩ | ⟨e, hfail, hat⟩
  · rw [hat]
    obtain ⟨-, task, worker, htask, hopen, hworker, ⟨hasked, hdb⟩ | ⟨hnew, -, hfit, ts, ts', ts'',
      hdb⟩⟩ := openQuestion_cases hc
    · -- a question that was asked before is recognised
      have hsame : c'.hub.db = s.db := hdb
      rw [hsame]
      refine ⟨fun _ hunseen => ?_, fun _ => hd⟩
      have hnone : s.db.askedQuestion taskId sentAs = none := hunseen.2.2.1
      rw [show s.db.askedQuestion taskId sentAs = some id from hasked] at hnone
      cases hnone
    · have hafter : c'.hub.db =
        s.db.ask taskId agent worker.contextId question sentAs ts ts' ts'' :=
        hdb
      have hrow : s.db.tasks.find? taskId = some task := htask
      obtain rfl : task.id = taskId := Table.find?_key hrow
      rw [hafter]
      constructor
      · rintro hretrievable ⟨⟨a, t, ⟨ha, hbusy, ht, hto, howner, hun⟩, hid⟩, -⟩
        obtain rfl : t = task := Option.some.inj (ht.symm.trans (hid ▸ hrow))
        have hparked := hretrievable a { t with state := .inputRequired, updated := ts' }
          ⟨ha, hbusy, by simp [ht], rfl, howner, hun⟩
        cases hparked
      · intro hseen b t' hawaits
        obtain ⟨hb, hbusy, ht', hto, howner, hun⟩ := hawaits
        by_cases hid : t'.id = task.id
        · have hparked : t' = { task with state := .inputRequired, updated := ts' } := by
            simpa [hid, hrow, eq_comm] using ht'
          refine absurd ⟨⟨b, task, ⟨hb, hbusy, hrow, hopen, ?_, ?_⟩, rfl⟩, ?_, hnew, hfit⟩ hseen
          · rw [hparked] at howner
            exact howner
          · rw [← hid]
            exact hun
          · exact Option.isSome_iff_exists.mpr ⟨worker, hworker⟩
        · have hbefore : s.db.tasks.find? t'.id = some t' := by
            rw [Db.ask_tasks, Table.find?_modify_ne _ hid] at ht'
            exact ht'
          exact hd b t' ⟨hb, hbusy, hbefore, hto, howner, hun⟩
  · rw [hat]
    refine ⟨fun _ hunseen => ?_, fun _ => hd⟩
    obtain ⟨⟨a, t, ⟨-, -, ht, hto, -, -⟩, rfl⟩, hagent, hnew, hfit⟩ := hunseen
    obtain ⟨id, c', hc⟩ := openQuestion_accepts (c := s.connect clock) ht hto hagent hnew hfit
    exact hfail id c' hc

/-! ### Polls -/

/-- A claim with a task waiting yields the task. -/
theorem claimAssignment_yields {c : Conn} {name : String} {a : AgentRecord} {t : TaskRecord}
    (ha : c.db.agents.find? name = some a) (hnot : a.status ≠ .released)
    (ht : c.db.submittedTo? name = some t) :
    ∃ t' c', Commits (claimAssignment name) c (some (.task t')) c' ∧ t'.id = t.id := by
  refine ⟨{ t with state := .working, updated := (c.clock 0).toIso }, { c with
    clock := fun n => c.clock (n + 1)
    db := c.db.setState t.id .working (c.clock 0).toIso }, ?_, rfl⟩
  apply commits_claimAssignment.mpr
  refine ⟨a, ha, ?_⟩
  rw [if_neg hnot, ht]
  exact ⟨rfl, rfl⟩

namespace Switchboard

/-- A further `NEXT` yields every task that the current process of its busy worker has not
    received. -/
def NothingLost (s : Switchboard) : Prop :=
  ∀ a t, s.hub.db.Awaits s.received a t → ∀ clock, ∃ t' c',
    Commits (claimAssignment a.name) (s.hub.connect clock) (some (.task t')) c' ∧ t'.id = t.id

/-- A task that is still submitted is the one its worker is handed: no worker has two. -/
theorem nothingLost_iff {s : Switchboard} (h : s.Sound) :
    s.NothingLost ↔ s.hub.db.Retrievable s.received := by
  constructor
  · intro hyields a t hawaits
    obtain ⟨t', c', hc, hid⟩ := hyields a t hawaits (fun _ => ⟨0, by decide⟩)
    obtain ⟨b, -, hclaim⟩ := commits_claimAssignment.mp hc
    split at hclaim
    · cases hclaim.1
    · split at hclaim
      · cases hclaim.1
      · rename_i found hfound
        obtain ⟨hrow, -, hstate⟩ := Db.submittedTo?_mem hfound
        have hsame : t'.id = found.id := by
          rw [Claim.task.inj (Option.some.inj hclaim.1)]
        have hfound' : s.hub.db.tasks.find? t.id = some found := by
          rw [← hid, hsame]
          exact hrow
        obtain rfl : t = found := Option.some.inj (hawaits.2.2.1.symm.trans hfound')
        exact hstate
  · rintro hretrievable a t ⟨ha, hbusy, ht, hopen, howner, hun⟩ clock
    have hstate := hretrievable a t ⟨ha, hbusy, ht, hopen, howner, hun⟩
    have hnot : a.status ≠ .released := by
      rw [hbusy]
      decide
    cases hfound : s.hub.db.submittedTo? a.name with
    | none =>
      exact absurd ⟨howner, hstate⟩
        (Db.submittedTo?_eq_none_iff.mp hfound t (Table.mem_of_find? ht))
    | some found =>
      obtain ⟨hrow, howner', hstate'⟩ := Db.submittedTo?_mem hfound
      have hopen' : found.isOpen := by
        rw [TaskRecord.isOpen, hstate']
        rfl
      -- both tasks are the one the worker holds
      have hheld {t₁ : TaskRecord} (ht₁ : s.hub.db.tasks.find? t₁.id = some t₁) (ho : t₁.isOpen)
          (hassignee : t₁.assignee = some a.name) : a.currentTaskId = some t₁.id := by
        obtain ⟨b, hb, hname, hcurrent, -⟩ := h.roster.task_held (Table.mem_of_find? ht₁) ho
        have hsame : a.name = b.name := Option.some.inj (hassignee.symm.trans hname)
        rw [Table.eq_of_key_eq (Table.mem_of_find? ha) hb hsame]
        exact hcurrent
      have hid : found.id = t.id :=
        Option.some.inj ((hheld hrow hopen' howner').symm.trans (hheld ht hopen howner))
      obtain ⟨t', c', hc, hid'⟩ :=
        claimAssignment_yields (c := s.hub.connect clock) ha hnot hfound
      exact ⟨t', c', hc, hid'.trans hid⟩

/-- A poll that finds a task is answered to the current process of its agent, and the answer
    arrives; and a new question is about a task that its worker has received. -/
def Delivers (l : Step) (s : Switchboard) : Prop :=
  match l with
  | .poll n _ delivered => ∀ st ∈ s.streams[n]?, s.hub.db.Offers st.agent →
      delivered = true ∧ ∀ x ∈ st.since, x = st.openedBy
  | .call ⟨.openQuestion taskId agent question sentAs, _⟩ _ =>
    ¬ s.hub.db.AsksUnseen s.received taskId agent question sentAs
  | _ => True

/-- A poll leaves every awaited task to be claimed exactly when its answer arrives where it
    should. -/
theorem retrievable_poll {s : Switchboard} (h : s.Sound) (hd : s.hub.db.Retrievable s.received)
    (n : ℕ) (clock : ℕ → Moment) (delivered : Bool) :
    (s.poll n clock delivered).hub.db.Retrievable (s.poll n clock delivered).received ↔
      Delivers (.poll n clock delivered) s := by
  obtain ⟨hnothing, streams, -, hpoll⟩ | ⟨st, a, t, ts, hst, ha, hstatus, ht, hpoll⟩ :=
    s.poll_cases n clock delivered
  · rw [hpoll]
    exact ⟨fun _ st hst hoffers => absurd hoffers (hnothing st hst), fun _ => hd⟩
  · obtain ⟨b, hb, hcurrent⟩ := h.tracks st (List.mem_of_getElem? hst)
    obtain rfl : a = b := Option.some.inj (ha.symm.trans hb)
    have hoffers : s.hub.db.Offers st.agent := ⟨⟨a, ha, hstatus⟩, by rw [ht]; rfl⟩
    have hcond : Delivers (.poll n clock delivered) s ↔
        delivered = true ∧ a.workerInstanceId = st.openedBy := by
      rw [hcurrent, current_eq_openedBy]
      constructor
      · intro hc
        exact hc st hst hoffers
      · intro hc st' hst' _
        obtain rfl : st = st' := Option.some.inj (hst.symm.trans hst')
        exact hc
    have hname : a.name = st.agent := Table.find?_key ha
    have ha' : s.hub.db.agents.find? a.name = some a := hname.symm ▸ ha
    obtain ⟨hrow, howner, hstate⟩ := Db.submittedTo?_mem ht
    rw [← hname] at howner
    have hopen : t.isOpen := by
      rw [TaskRecord.isOpen, hstate]
      rfl
    rw [hcond, hpoll]
    constructor
    · intro hretrievable
      -- its worker is busy with the task, and did not have it before
      have hbusy : a.status = .busy := by
        obtain ⟨b, hmem, hassignee, -, hbusy⟩ :=
          h.roster.task_held (Table.mem_of_find? hrow) hopen
        have hsame : a.name = b.name := Option.some.inj (howner.symm.trans hassignee)
        rw [← Table.eq_of_key_eq (Table.mem_of_find? ha) hmem hsame] at hbusy
        exact hbusy.resolve_right hstatus
      have hunseen : (a.workerInstanceId, t.id) ∉ s.received := by
        intro hp
        obtain ⟨t', ht', hstate'⟩ := h.received _ hp
        obtain rfl : t = t' := Option.some.inj (hrow.symm.trans ht')
        exact hstate' hstate
      by_contra hnot
      have hparked := hretrievable a { t with state := .working, updated := ts }
        ⟨ha', hbusy, by simp [hrow], rfl, howner, ?_⟩
      · cases hparked
      · cases delivered with
        | false => exact hunseen
        | true =>
          intro hp
          rcases List.mem_cons.mp hp with heq | hp
          · exact hnot ⟨rfl, (Prod.mk.inj heq).1⟩
          · exact hunseen hp
    · rintro ⟨rfl, hinstance⟩ b t' ⟨hb, hbusy, ht', hto, howner', hun⟩
      have hun' : (b.workerInstanceId, t'.id) ≠ (st.openedBy, t.id) ∧
          (b.workerInstanceId, t'.id) ∉ s.received := by
        simpa using hun
      by_cases hid : t'.id = t.id
      · have hnow : t' = { t with state := .working, updated := ts } := by
          simpa [hid, hrow, eq_comm] using ht'
        have hsame : a.name = b.name := by
          rw [hnow] at howner'
          exact Option.some.inj (howner.symm.trans howner')
        rw [← Table.eq_of_key_eq (Table.mem_of_find? ha) (Table.mem_of_find? hb) hsame, hinstance,
          hid] at hun'
        exact absurd rfl hun'.1
      · have hbefore : s.hub.db.tasks.find? t'.id = some t' := by
          rw [Db.setState_tasks, Table.find?_modify_ne _ hid] at ht'
          exact ht'
        exact hd b t' ⟨hb, hbusy, hbefore, hto, howner', hun'.2⟩

/-- One step loses no assignment exactly when it delivers what it hands out. -/
theorem nothingLost_exec (l : Step) (s : Switchboard) (h : s.Sound) (hs : s.NothingLost) :
    (exec l s).NothingLost ↔ Delivers l s := by
  have hd := (nothingLost_iff h).mp hs
  rw [nothingLost_iff (sound_exec l s h)]
  cases l with
  | call l hother =>
    show (l.exec s.hub).db.Retrievable s.received ↔ _
    by_cases hask : ∃ taskId agent question sentAs,
        l.op = .openQuestion taskId agent question sentAs
    · obtain ⟨taskId, agent, question, sentAs, hop⟩ := hask
      obtain ⟨_, clock⟩ := l
      obtain rfl := hop
      exact retrievable_ask hd
    · have hdelivers : Delivers (.call l hother) s := by
        unfold Delivers
        split
        · trivial
        · rename_i heq
          cases heq
          exact absurd ⟨_, _, _, _, rfl⟩ hask
        · trivial
      refine ⟨fun _ => hdelivers, fun _ => ?_⟩
      refine retrievable_call l hother (fun taskId agent question sentAs hop => ?_) h.roster
        h.instanced hd
      exact hask ⟨taskId, agent, question, sentAs, hop⟩
  | close n => exact ⟨fun _ => trivial, fun _ => hd⟩
  | next m clock =>
    refine ⟨fun _ => trivial, fun _ => ?_⟩
    show (s.hold m clock).hub.db.Retrievable (s.hold m clock).received
    obtain hsame | ⟨st, -, hmore⟩ := s.hold_cases m clock
    · rw [hsame]
      exact hd
    · rw [hmore]
      exact hd
  | poll n clock delivered => exact retrievable_poll h hd n clock delivered

/-- **When no assignment is lost.**  In every state of a run a further `NEXT` yields every open
    task that the current process of its busy worker has not received, if and only if every poll
    that finds a task is answered to that process and the answer arrives, and no question is opened
    on a task its worker has not received. -/
theorem nothing_lost (u : Uuids) (ls : List Step) :
    HoldsAlong exec NothingLost (start u) ls ↔ MeetsAlong exec Delivers (start u) ls := by
  refine holdsAlong_iff sound_exec nothingLost_exec (sound_start u) ?_ ls
  rintro a t ⟨ha, -⟩
  cases ha

/-- Ada waits for work and is assigned a task; the claim commits, and the connection breaks before
    the answer arrives. -/
def adaUnanswered : List Step :=
  [.call ⟨.initializeWorkflow "goal" {}, stoppedAt 1000000⟩ (fun _ h => by cases h),
    .call ⟨.checkIn "ada" {} (some "ada-1") {} none, stoppedAt 1000000⟩ (fun _ h => by cases h),
    .next (adaNext "ada-1") (stoppedAt 1000000),
    .call ⟨.assignTask "ada" "implementer" "Fix it" "See issue 7" 30 none none, stoppedAt 2000000⟩
      (fun _ h => by cases h),
    .poll 0 (stoppedAt 2000000) false]

/-- **An assignment is lost.**  Ada sends `NEXT` again, as her client does, and it finds nothing. -/
theorem assignment_lost :
    let s := runFrom exec (start .unary)
      (adaUnanswered ++ [.next (adaNext "ada-1") (stoppedAt 3000000)])
    s.streams.map Stream.openedBy = ["ada-1"] ∧
      (∃ a ∈ s.hub.db.agents.rows, ∃ t ∈ s.hub.db.tasks.rows, a.status = .busy ∧ t.isOpen ∧
        t.assignee = some a.name ∧ (a.workerInstanceId, t.id) ∉ s.received ∧
        (atomically (claimAssignment a.name) (s.hub.connect (stoppedAt 3000000))).1.toOption
          = some none) ∧
      ¬ NothingLost s := by
  intro s
  have hlost : ∃ a ∈ s.hub.db.agents.rows, ∃ t ∈ s.hub.db.tasks.rows, a.status = .busy ∧ t.isOpen ∧
      t.assignee = some a.name ∧ (a.workerInstanceId, t.id) ∉ s.received ∧
      (atomically (claimAssignment a.name) (s.hub.connect (stoppedAt 3000000))).1.toOption
        = some none := by decide +kernel
  refine ⟨by decide +kernel, hlost, fun hyields => ?_⟩
  obtain ⟨a, ha, t, ht, hbusy, hopen, howner, hun, hnothing⟩ := hlost
  obtain ⟨t', c', hc, -⟩ := hyields a t ⟨Table.find?_of_mem (Table.mem_iff.mpr ha), hbusy,
    Table.find?_of_mem (Table.mem_iff.mpr ht), hopen, howner, hun⟩ (stoppedAt 3000000)
  rw [atomically_of_commits hc] at hnothing
  cases hnothing

end Switchboard

end AgentHub
