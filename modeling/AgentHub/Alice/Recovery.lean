import AgentHub.Alice.Driven

namespace AgentHub

open Relational Effects

/-!
# Alice starts over

The process of an Alice may end between any two calls, and the next one knows only what the hub
knows.  `driveOneTask` keeps its promises all the same, in every run: with a process that ends
anywhere, is started again and again, and a hub that others call in between.

* `Outcome.Of`, `Alice.Concluded` — the result of a task, and a lifecycle that is over;
* `Alice.Good` — what holds of the hub wherever the program is;
* `always_waitForEvent`, `always_awaitCheckIn`, `always_awaitResult`, `always_conclude` — so it is
  in each part of the program, for any continuation;
* `one_task_at_a_time`, `concluded_last`, `no_question_dropped` — the promises.
-/

namespace Alice

/-- The outcome is the result of the task. -/
def Outcome.Of (taskId : String) (d : Db) : Outcome → Prop
  | .stored result => ∃ t, d.tasks.find? taskId = some t ∧
      (t.state = .completed ∨ t.state = .failed) ∧ t.result = result
  | .told payload => payload ∈ d.payloads ∧ payload.resultOf = some taskId

/-- The lifecycle is over: the task has its result, the worker is released, the workflow done. -/
def Concluded (agent : String) (outcome : Outcome) (d : Db) : Prop :=
  ∃ taskId, outcome.Of taskId d ∧ d.OnlyTask taskId ∧ d.Released agent ∧
    ∃ w, d.workflow = some w ∧ w.status = .done

/-- What holds wherever the program is: the worker is driven, and the program returns no sooner than
    the lifecycle is over. -/
def Good (u : Uuids) (agent : String) (p : Script Outcome) (s : Hub) : Prop :=
  Sound u agent s ∧ ∀ outcome, p = .done outcome → Concluded agent outcome s.db

/-- An outcome of a task lasts. -/
theorem lasting_of {taskId : String} (outcome : Outcome) :
    Lasting fun d => outcome.Of taskId d := by
  intro d d' h hd
  cases outcome with
  | stored result =>
    obtain ⟨t, ht, hstate, hresult⟩ := hd
    obtain ⟨t', ht', hbecomes⟩ := h.evolves.tasks.find? ht
    have hended : ¬ t.isOpen := by
      rw [TaskRecord.isOpen]
      rcases hstate with hstate | hstate <;> simp [hstate, TaskState.terminal]
    obtain rfl := hbecomes.final hended
    exact ⟨t', ht', hstate, hresult⟩
  | told payload =>
    obtain ⟨e, he, rfl⟩ := List.mem_map.mp hd.1
    obtain ⟨e', he', -, hbecomes⟩ := Evolves.mem h.evolves.events he
    exact ⟨List.mem_map.mpr ⟨e', he', hbecomes.payload⟩, hd.2⟩

/-- What the others do leaves a lifecycle over. -/
theorem Concluded.follows {agent : String} {outcome : Outcome} {d d' : Db} (h : d.Follows d')
    (hd : Concluded agent outcome d) : Concluded agent outcome d' := by
  obtain ⟨taskId, hof, honly, ⟨a, ha, hreleased⟩, w, hw, hdone⟩ := hd
  obtain ⟨a', ha', hbecomes⟩ := h.evolves.agents.find? ha
  refine ⟨taskId, lasting_of outcome _ _ h.extends hof, lasting_onlyTask _ _ h.extends honly,
    ⟨a', ha', hbecomes.released hreleased⟩, ?_⟩
  obtain hsame | ⟨hnone, -⟩ := h.workflow
  · exact ⟨w, hsame.trans hw, hdone⟩
  · rw [hw] at hnone
    cases hnone

section

variable {u : Uuids} {agent : String} {s : Hub}

/-- What the outcome says is final. -/
theorem Outcome.Of.finished {taskId : String} {outcome : Outcome} (hs : Sound u agent s)
    (h : outcome.Of taskId s.db) : s.db.Finished taskId := by
  cases outcome with
  | stored result =>
    obtain ⟨t, ht, hstate, -⟩ := h
    exact ⟨t, ht, hstate⟩
  | told payload => exact hs.reached.resultsFinal payload h.1 taskId h.2

/-! ### One call -/

/-- A sound hub with a lasting fact is stable under the other parties. -/
theorem stable_sound {A : Db → Prop} (hA : ∀ d d', Db.Follows d d' → A d → A d') :
    Stable hub fun s => Sound u agent s ∧ A s.db := by
  rintro s s' ⟨hs, ha⟩ ⟨l, hl, rfl⟩
  exact ⟨hs.others hl, hA _ _ (follows_exec hl s) ha⟩

/-- A call, made at some later point at which what the others keep still holds. -/
theorem always_call {A : Db → Prop} (hA : ∀ d d', Db.Follows d d' → A d → A d') {t : Tool}
    {next : t.Answer → Script Outcome} (hs : Sound u agent s) (ha : A s.db)
    (hnext : ∀ s₁ r s₂, Sound u agent s₁ → A s₁.db → t.exec s₁ r s₂ →
      Always hub (Good u agent) (next r) s₂) :
    Always hub (Good u agent) (.call t next) s :=
  Always.call (stable_sound hA) ⟨hs, ha⟩ (fun _ h => ⟨h.1, fun _ heq => by cases heq⟩)
    fun s₁ r s₂ h hexec => hnext s₁ r s₂ h.1 h.2 hexec

/-- Giving up is good at any sound hub. -/
theorem always_raise {message : String} (hs : Sound u agent s) :
    Always hub (Good u agent) (raise message) s :=
  Always.raise (stable_sound (A := fun _ => True) fun _ _ _ h => h) ⟨hs, trivial⟩
    fun _ h => ⟨h.1, fun _ heq => by cases heq⟩

/-! ### The inbox -/

variable {A : Db → Prop}

/-- Polling is good when the script is good with what the poll may find. -/
theorem always_pollEvents (hA : Lasting A) {last : Option String}
    {k : Option EventRecord → Script Outcome}
    (hnone : ∀ s, Sound u agent s → A s.db → s.db.Acknowledgeable last →
      Always hub (Good u agent) (k none) s)
    (hsome : ∀ e s, Sound u agent s → A s.db → Delivers e s.db →
      Always hub (Good u agent) (k (some e)) s) (polls : ℕ) {s : Hub} (hs : Sound u agent s)
    (ha : A s.db) (hlast : s.db.Acknowledgeable last) :
    Always hub (Good u agent) (pollEvents polls >>= k) s := by
  induction polls generalizing s with
  | zero => exact hnone s hs ha hlast
  | succ polls ih =>
    refine always_call (t := .leaseNextEvent) (A := fun d => A d ∧ d.Acknowledgeable last)
      (fun d d' h hd => ⟨hA _ _ h.extends hd.1, h.acknowledgeable hd.2⟩) hs ⟨ha, hlast⟩ ?_
    rintro s₁ o s₂ hs₁ ⟨ha₁, hlast₁⟩ hexec
    obtain ⟨hs₂, hextends, hsame, hdelivers⟩ := leaseNextEvent_spec hexec hs₁
    cases o with
    | none =>
      refine ih hs₂ (hA _ _ hextends ha₁) ?_
      rw [hsame rfl]
      exact hlast₁
    | some e => exact hsome e s₂ hs₂ (hA _ _ hextends ha₁) (hdelivers e rfl)

/-- **A wait**: the prior delivery was handled, and then nothing comes or one event is delivered. -/
theorem always_waitForEvent (hA : Lasting A) {last : Option String}
    {k : Option EventRecord → Script Outcome}
    (hnone : ∀ s, Sound u agent s → A s.db → s.db.Acknowledgeable last →
      Always hub (Good u agent) (k none) s)
    (hsome : ∀ e s, Sound u agent s → A s.db → Delivers e s.db →
      Always hub (Good u agent) (k (some e)) s) {s : Hub} (hs : Sound u agent s) (ha : A s.db)
    (hlast : s.db.Acknowledgeable last) :
    Always hub (Good u agent) (waitForEvent last >>= k) s := by
  have hpolls : ∀ s, Sound u agent s → A s.db → s.db.Acknowledgeable last →
      Always hub (Good u agent) (.call .turns fun polls => pollEvents (polls + 1) >>= k) s := by
    intro s hs ha hlast
    refine always_call (A := fun d => A d ∧ d.Acknowledgeable last)
      (fun d d' h hd => ⟨hA _ _ h.extends hd.1, h.acknowledgeable hd.2⟩) hs ⟨ha, hlast⟩ ?_
    rintro s₁ polls s₂ hs₁ ⟨ha₁, hlast₁⟩ rfl
    exact always_pollEvents hA hnone hsome (polls + 1) hs₁ ha₁ hlast₁
  cases last with
  | none => exact hpolls s hs ha hlast
  | some id =>
    refine always_call (t := .ackEvent id) (A := fun d => A d ∧ d.Acknowledgeable (some id))
      (fun d d' h hd => ⟨hA _ _ h.extends hd.1, h.acknowledgeable hd.2⟩) hs ⟨ha, hlast⟩ ?_
    rintro s₁ acked s₂ hs₁ ⟨ha₁, hlast₁⟩ hexec
    obtain ⟨hs₂, hextends, hlast₂⟩ := ackEvent_spec hexec hs₁ hlast₁
    exact hpolls s₂ hs₂ (hA _ _ hextends ha₁) hlast₂

/-! ### Waiting for the worker -/

/-- While every task is canceled, every event may be acknowledged: its question, if it has one, is
    about a task that has ended. -/
theorem Sound.acknowledgeable (hs : Sound u agent s) (hcanceled : s.db.AllCanceled)
    (delivery : Option String) : s.db.Acknowledgeable delivery := by
  intro id _ e he _ taskId asker question messageId hpayload
  obtain ⟨m, hm, -, ⟨htask, -⟩, -⟩ := hs.reached.asked he hpayload
  obtain ⟨t, ht⟩ := hs.reached.posted m hm taskId htask
  refine .inl ⟨t, ht, ?_⟩
  rw [TaskRecord.isOpen, hcanceled t (Table.mem_of_find? ht)]
  simp [TaskState.terminal]

/-- The check-in read off the state is in the inbox. -/
theorem checkIn_of_checkInOf {at' : Moment} {e : EventRecord} {d : Db}
    (he : (d.state at').checkInOf agent = some e) : d.CheckIn agent e.id := by
  have hmem := mem_state_unacked.mp (List.mem_of_find?_eq_some he)
  exact ⟨e, hmem.1, rfl, by simpa using List.find?_some he⟩

/-- A delivered check-in is in the inbox. -/
theorem Delivers.checkIn {e : EventRecord} {d : Db} (h : Delivers e d)
    (hpayload : e.payload.checksIn agent = true) : d.CheckIn agent e.id := by
  obtain ⟨⟨e', he', hid, hsame⟩, -⟩ := h
  exact ⟨e', he', hid, by rw [hsame, hpayload]⟩

/-- **The check-in she acts on** is one of the worker's, and there still is no task for it. -/
theorem always_awaitCheckIn {w : Errand} {k : Option CheckedIn × Option String → Script Outcome}
    (hnone : ∀ last s, Sound u w.agent s → Always hub (Good u w.agent) (k (none, last)) s)
    (hsome : ∀ found last s, Sound u w.agent s → s.db.AllCanceled →
      s.db.CheckIn w.agent found.eventId →
      Always hub (Good u w.agent) (k (some found, last)) s)
    (turns : ℕ) {last : Option String} {s : Hub} (hs : Sound u w.agent s)
    (hcanceled : s.db.AllCanceled) :
    Always hub (Good u w.agent) (awaitCheckIn w turns last >>= k) s := by
  induction turns generalizing last s with
  | zero => exact hnone last s hs
  | succ turns ih =>
    refine always_call (t := .getState) (A := Db.AllCanceled)
      (fun d d' h hd => lasting_allCanceled _ _ h.extends hd) hs hcanceled ?_
    intro s₁ state s₂ hs₁ hcanceled₁ hexec
    obtain ⟨rfl, at', rfl⟩ := getState_spec hexec
    let A : Db → Prop := fun d => d.AllCanceled ∧
      ∀ e, (s₂.db.state at').checkInOf w.agent = some e → d.CheckIn w.agent e.id
    have hA : Lasting A := fun d d' h hd => ⟨lasting_allCanceled _ _ h hd.1,
      fun e he => h.evolves.checkIn (hd.2 e he)⟩
    show Always hub _ ((waitForEvent last >>= _) >>= k) s₂
    rw [Program.bind_assoc]
    refine always_waitForEvent hA ?_ ?_ hs₁ ⟨hcanceled₁, fun e he => checkIn_of_checkInOf he⟩
      (hs₁.acknowledgeable hcanceled₁ last)
    · rintro s hs ⟨hcanceled, hknown⟩ -
      dsimp only
      split
      · next source _ hsource =>
        exact hsome _ _ s hs hcanceled (hknown source hsource)
      · exact ih hs hcanceled
    · rintro e s hs ⟨hcanceled, -⟩ hdelivers
      dsimp only
      split
      · next name profile contextId instanceId hpayload =>
        split
        · next hname =>
          refine hsome _ _ s hs hcanceled (hdelivers.checkIn ?_)
          rw [hpayload]
          simpa [EventPayload.checksIn] using hname
        · exact ih hs hcanceled
      · exact ih hs hcanceled

/-! ### Waiting for the result -/

/-- An event delivered stays one. -/
theorem Delivers.follows {e : EventRecord} {d d' : Db} (h : d.Follows d') (hd : Delivers e d) :
    Delivers e d' := by
  obtain ⟨⟨a, ha, hid, hpayload⟩, hout⟩ := hd
  obtain ⟨a', ha', hid', hbecomes⟩ := Evolves.mem h.evolves.events ha
  refine ⟨⟨a', ha', hid'.trans hid, hbecomes.payload.trans hpayload⟩,
    fun id hdelivery b hb hb' => ?_⟩
  exact hout id hdelivery b (h.delivered b hb (by simp [hb'.2])) hb'

/-- What was delivered may be acknowledged once it was handled. -/
theorem Delivers.acknowledgeable {e : EventRecord} {d : Db} (h : Delivers e d)
    (hhandled : d.Handled e.payload) : d.Acknowledgeable e.deliveryId := by
  intro id hid e' he' hout
  rw [h.2 id hid e' he' hout]
  exact hhandled

/-- The task she finds for the worker. -/
theorem mem_of_findTask {at' : Moment} {d : Db} {task : TaskSummary}
    (h : (d.state at').findTask agent = some task) :
    ∃ t ∈ d.tasks, t.toSummary = task ∧ t.state ≠ .canceled := by
  obtain ⟨t, ht, rfl⟩ := mem_state_tasks.mp (List.mem_of_find?_eq_some h)
  refine ⟨t, ht, rfl, fun hcanceled => ?_⟩
  have hfound := List.find?_some h
  simp [TaskRecord.toSummary, hcanceled] at hfound

/-- **The result she waits for** is the task's, and whatever she was told of before may be
    acknowledged. -/
theorem always_awaitResult {w : Errand} {taskId : String}
    {k : Option Outcome × Option String → Script Outcome}
    (hnone : ∀ last s, Sound u agent s → Always hub (Good u agent) (k (none, last)) s)
    (hsome : ∀ outcome last s, Sound u agent s → s.db.OnlyTask taskId → outcome.Of taskId s.db →
      s.db.Acknowledgeable last → Always hub (Good u agent) (k (some outcome, last)) s)
    (turns : ℕ) {last : Option String} {s : Hub} (hs : Sound u agent s)
    (honly : s.db.OnlyTask taskId) (hlast : s.db.Acknowledgeable last) :
    Always hub (Good u agent) (awaitResult w taskId turns last >>= k) s := by
  induction turns generalizing last s with
  | zero => exact hnone last s hs
  | succ turns ih =>
    show Always hub _ ((waitForEvent last >>= _) >>= k) s
    rw [Program.bind_assoc]
    refine always_waitForEvent (@lasting_onlyTask taskId) ?_ ?_ hs honly hlast
    · intro s hs honly hlast
      refine always_call (t := .getState) (A := fun d => d.OnlyTask taskId ∧ d.Acknowledgeable last)
        (fun d d' h hd => ⟨lasting_onlyTask _ _ h.extends hd.1, h.acknowledgeable hd.2⟩) hs
        ⟨honly, hlast⟩ ?_
      rintro s₁ state s₂ hs₁ ⟨honly₁, hlast₁⟩ hexec
      obtain ⟨rfl, at', rfl⟩ := getState_spec hexec
      dsimp only [Program.bind]
      split
      · next task htask =>
        split
        · next hended =>
          obtain ⟨t, ht, rfl, -⟩ := mem_of_findTask htask
          obtain ⟨hid, hstate⟩ := hended
          refine hsome _ _ s₂ hs₁ honly₁ ⟨t, ?_, ?_, rfl⟩ hlast₁
          · rw [← hid]
            exact Table.find?_of_mem ht
          · simpa [TaskRecord.toSummary] using hstate
        · exact ih hs₁ honly₁ hlast₁
      · exact ih hs₁ honly₁ hlast₁
    · intro e s hs honly hdelivers
      dsimp only
      split
      · next qTask asker question messageId hpayload =>
        refine always_call (t := .reply _ _ _) (A := fun d => d.OnlyTask taskId ∧ Delivers e d)
          (fun d d' h hd => ⟨lasting_onlyTask _ _ h.extends hd.1, hd.2.follows h⟩) hs
          ⟨honly, hdelivers⟩ ?_
        rintro s₁ applied s₂ hs₁ ⟨honly₁, hdelivers₁⟩ hexec
        obtain ⟨e', he', -, hsame⟩ := hdelivers₁.1
        obtain ⟨hs₂, hfollows, hsettled⟩ :=
          reply_spec hexec hs₁ (hs₁.reached.asked he' (hsame.trans hpayload))
        refine ih hs₂ (lasting_onlyTask _ _ hfollows.extends honly₁)
          ((hdelivers₁.follows hfollows).acknowledgeable ?_)
        intro taskId' asker' question' messageId' heq
        rw [hpayload] at heq
        cases heq
        exact hsettled
      · next hnot =>
        -- no question, so there is nothing to settle
        have hlast' : s.db.Acknowledgeable e.deliveryId :=
          hdelivers.acknowledgeable fun a b c d heq => absurd heq (hnot a b c d)
        split
        · next hresult =>
          obtain ⟨e', he', -, hsame⟩ := hdelivers.1
          refine hsome _ _ s hs honly ⟨?_, hresult⟩ hlast'
          exact List.mem_map.mpr ⟨e', he', hsame⟩
        · exact ih hs honly hlast'

/-! ### The lifecycle -/

/-- Releasing the agent and closing the workflow is good once the task ended. -/
theorem always_finish {w : Errand} {taskId : String} (summary : String) {outcome : Outcome}
    {s : Hub} (hs : Sound u w.agent s) (honly : s.db.OnlyTask taskId)
    (hof : outcome.Of taskId s.db) :
    Always hub (Good u w.agent) (.call (.releaseAgent w.agent) fun _ =>
      .call (.setWorkflowStatus .done summary) fun _ => .done outcome) s := by
  have hlasting : Lasting fun d => d.OnlyTask taskId ∧ outcome.Of taskId d := fun d d' h hd =>
    ⟨lasting_onlyTask _ _ h hd.1, lasting_of outcome _ _ h hd.2⟩
  refine always_call (fun d d' h hd => hlasting _ _ h.extends hd) hs ⟨honly, hof⟩ ?_
  rintro s₁ a s₂ hs₁ ⟨honly₁, hof₁⟩ hexec
  obtain ⟨hs₂, hextends, hreleased⟩ := releaseAgent_spec hexec hs₁ (hof₁.finished hs₁)
  refine always_call (A := fun d => (d.OnlyTask taskId ∧ outcome.Of taskId d) ∧ d.Released w.agent)
    (fun d d' h hd => ⟨hlasting _ _ h.extends hd.1, ?_⟩) hs₂
    ⟨hlasting _ _ hextends ⟨honly₁, hof₁⟩, hreleased⟩ ?_
  · obtain ⟨b, hb, hb'⟩ := hd.2
    obtain ⟨b', hfound, hbecomes⟩ := h.evolves.agents.find? hb
    exact ⟨b', hfound, hbecomes.released hb'⟩
  rintro s₃ v s₄ hs₃ ⟨⟨honly₃, hof₃⟩, hreleased₃⟩ hexec
  obtain ⟨hs₄, hextends, hagents, hdone⟩ := setWorkflowStatus_spec hexec hs₃ (hof₃.finished hs₃)
  have hconcluded : Concluded w.agent outcome s₄.db := by
    obtain ⟨honly₄, hof₄⟩ := hlasting _ _ hextends ⟨honly₃, hof₃⟩
    refine ⟨taskId, hof₄, honly₄, ?_, hdone⟩
    rw [Db.Released, hagents]
    exact hreleased₃
  refine Always.done (stable_sound (A := Concluded w.agent outcome)
    fun _ _ h hd => Concluded.follows h hd) ⟨hs₄, hconcluded⟩ ?_
  rintro s₅ ⟨hs₅, hconcluded₅⟩
  refine ⟨hs₅, fun o ho => ?_⟩
  cases ho
  exact hconcluded₅

/-- Concluding is good when there is only the one task. -/
theorem always_conclude {w : Errand} {taskId : String} {last : Option String} {s : Hub}
    (hs : Sound u w.agent s) (honly : s.db.OnlyTask taskId) (hlast : s.db.Acknowledgeable last) :
    Always hub (Good u w.agent) (conclude w taskId last) s := by
  refine always_call (t := .turns) (A := fun d => d.OnlyTask taskId ∧ d.Acknowledgeable last)
    (fun d d' h hd => ⟨lasting_onlyTask _ _ h.extends hd.1, h.acknowledgeable hd.2⟩) hs
    ⟨honly, hlast⟩ ?_
  rintro s₁ turns s₂ hs₁ ⟨honly₁, hlast₁⟩ rfl
  refine always_awaitResult (fun last s hs => always_raise hs) ?_ turns hs₁ honly₁ hlast₁
  intro outcome last s hs honly hof hlast
  have hfinish := fun s (hs : Sound u w.agent s)
      (hA : s.db.OnlyTask taskId ∧ outcome.Of taskId s.db) =>
    always_finish s!"Task {taskId} finished successfully" hs hA.1 hA.2
  dsimp only
  split
  · exact hfinish s hs ⟨honly, hof⟩
  · exact hfinish s hs ⟨honly, hof⟩
  · -- whatever is delivered now comes again to the next driver
    refine always_waitForEvent (A := fun d => d.OnlyTask taskId ∧ outcome.Of taskId d)
      (fun d d' h hd => ⟨lasting_onlyTask _ _ h hd.1, lasting_of outcome _ _ h hd.2⟩)
      (fun s hs hA _ => hfinish s hs hA) (fun _ s hs hA _ => hfinish s hs hA) hs ⟨honly, hof⟩ hlast

/-- Checking the harness is good when what follows is. -/
theorem always_checkHarness {w : Errand} {checkedIn : Option String} {k : Unit → Script Outcome}
    (hs : Sound u agent s) (hk : Always hub (Good u agent) (k ()) s) :
    Always hub (Good u agent) (checkHarness w checkedIn >>= k) s := by
  unfold checkHarness
  split
  · exact always_raise hs
  · exact hk

/-- The task she finds is the one that was not canceled. -/
theorem onlyTask_of_findTask {at' : Moment} {d : Db} {task : TaskSummary} (hd : d.Driven agent)
    (h : (d.state at').findTask agent = some task) : d.OnlyTask task.id := by
  obtain ⟨t, ht, rfl, hstate⟩ := mem_of_findTask h
  refine ⟨⟨t, Table.find?_of_mem ht⟩, fun t' ht' hstate' => ?_⟩
  rw [hd.single t' ht' t ht hstate' hstate]
  rfl

/-- If she finds none, every task was canceled. -/
theorem allCanceled_of_findTask {at' : Moment} {d : Db} (hd : d.Driven agent)
    (h : (d.state at').findTask agent = none) : d.AllCanceled := by
  intro t ht
  have hnone := List.find?_eq_none.mp h _ (mem_state_tasks.mpr ⟨t, ht, rfl⟩)
  have hassignee : t.toSummary.assignee = some agent := (hd.audited t ht).1
  have hstate : t.toSummary.state = t.state := rfl
  simp only [hassignee, hstate, true_and, decide_eq_true_eq] at hnone
  cases ht' : t.state <;> simp [ht'] at hnone ⊢

/-- **The whole program**, from any hub with the driven worker. -/
theorem always_driveOneTask (w : Errand) {s : Hub} (hs : Sound u w.agent s) :
    Always hub (Good u w.agent) (driveOneTask w) s := by
  refine always_call (t := .initializeWorkflow w.goal w.policy) (A := fun _ => True)
    (fun _ _ _ h => h) hs trivial ?_
  intro s₁ id s₂ hs₁ _ hexec
  obtain ⟨hs₂, -⟩ := hexec.others (.initializeWorkflow w.goal w.policy) rfl rfl hs₁
  refine always_call (t := .getState) (A := fun _ => True) (fun _ _ _ h => h) hs₂ trivial ?_
  intro s₃ state s₄ hs₃ _ hexec
  obtain ⟨rfl, at', rfl⟩ := getState_spec hexec
  dsimp only [Program.bind]
  split
  · next task htask =>
    refine always_checkHarness hs₃ (always_conclude hs₃ (onlyTask_of_findTask hs₃.driven htask) ?_)
    exact fun id hid => by cases hid
  · next hnone =>
    refine always_call (t := .turns) (A := Db.AllCanceled)
      (fun _ _ h hd => lasting_allCanceled _ _ h.extends hd) hs₃
      (allCanceled_of_findTask hs₃.driven hnone) ?_
    rintro s₅ turns s₆ hs₅ hcanceled rfl
    refine always_awaitCheckIn (fun last s hs => always_raise hs) ?_ turns hs₅ hcanceled
    intro found last s hs hcanceled hcheckIn
    refine always_checkHarness hs ?_
    refine always_call (t := .logDecision _ _ _)
      (A := fun d => d.AllCanceled ∧ d.CheckIn w.agent found.eventId)
      (fun _ _ h hd => ⟨lasting_allCanceled _ _ h.extends hd.1, h.evolves.checkIn hd.2⟩) hs
      ⟨hcanceled, hcheckIn⟩ ?_
    rintro s₇ n s₈ hs₇ ⟨hcanceled₇, hcheckIn₇⟩ hexec
    obtain ⟨hs₈, hfollows, hlogged⟩ := logDecision_spec hexec hs₇
    refine always_call (t := .assignTask _ _ _ _ _)
      (A := fun d => d.AllCanceled ∧ d.CheckIn w.agent found.eventId ∧ d.Logged found.eventId)
      (fun _ _ h hd => ⟨lasting_allCanceled _ _ h.extends hd.1, h.evolves.checkIn hd.2.1,
        h.evolves.logged hd.2.2⟩) hs₈
      ⟨lasting_allCanceled _ _ hfollows.extends hcanceled₇, hfollows.evolves.checkIn hcheckIn₇,
        hlogged⟩ ?_
    rintro s₉ task s₁₀ hs₉ ⟨hcanceled₉, hcheckIn₉, hlogged₉⟩ hexec
    obtain ⟨hs₁₀, honly, hevolves, hevents⟩ :=
      assignTask_spec hexec hs₉ hcanceled₉ hcheckIn₉ hlogged₉
    refine always_conclude hs₁₀ honly ?_
    exact (hs₉.acknowledgeable hcanceled₉ last).later hevolves fun e he _ => hevents ▸ he

/-- A new hub is sound. -/
theorem sound_start (u : Uuids) (agent : String) : Sound u agent (Hub.start u) where
  reached := .start
  driven := by constructor <;> simp [Hub.start, Db.empty]

/-- Wherever a run is, whatever processes it has seen. -/
theorem good_reachable {w : Errand} {s : System Tool Tool.Answer Outcome Hub}
    (h : Reachable hub (driveOneTask w) (Hub.start u) s) :
    Sound u w.agent s.world ∧ ∀ p, s.running = some p → Good u w.agent p s.world := by
  have hstable : Stable hub (Sound u w.agent) := by
    rintro s s' hs ⟨l, hl, rfl⟩
    exact hs.others hl
  exact reachable_always hstable (fun _ _ hgood => hgood.1)
    (fun _ hs => always_driveOneTask w hs) (sound_start u w.agent) h

end

/-! ### Runs to look at -/

/-- What a call does at this clock, with so many turns before the deadline. -/
def Tool.serve (turns : ℕ) (clock : ℕ → Moment) :
    (t : Tool) → Hub → Except StoreError t.Answer × Hub
  | .initializeWorkflow goal policy => serving (AgentHub.initializeWorkflow goal policy)
  | .getState => serving AgentHub.getState
  | .ackEvent deliveryId => serving (AgentHub.ackEvent (some deliveryId))
  | .leaseNextEvent => serving AgentHub.leaseNextEvent
  | .turns => fun s => (.ok turns, s)
  | .logDecision summary rationale key =>
    serving (AgentHub.logDecision summary rationale (some key))
  | .assignTask agent role title instructions eventId => serving
    (AgentHub.assignTask agent role title instructions defaultLeaseMin none (some eventId))
  | .reply taskId text messageId => serving (AgentHub.reply taskId text messageId)
  | .releaseAgent agent => serving (AgentHub.releaseAgent agent)
  | .setWorkflowStatus status summary => serving (AgentHub.setWorkflowStatus status summary)
where
  serving {α : Type} (x : Txn α) (s : Hub) : Except StoreError α × Hub :=
    ((atomically x (s.connect clock)).1, (atomically x (s.connect clock)).2.hub)

/-- The program makes its next calls. -/
def play (turns : ℕ) (clock : ℕ → Moment) {A : Type} : ℕ → Script A → Hub → Script A × Hub
  | calls + 1, .call t next, s =>
    match t.serve turns clock s with
    | (.ok r, s') => play turns clock calls (next r) s'
    | (.error _, _) => (.call t next, s)
  | _, p, s => (p, s)

/-- What happens next in a run. -/
inductive Deed where
  | invoke
  | calls (n : ℕ)
  | stop
  | others (l : Call) (h : l.op.isAlices = false)

/-- One run of the program and the others. -/
def rehearse (turns : ℕ) (clock : ℕ → Moment) (start : Script Outcome) :
    List Deed → System Tool Tool.Answer Outcome Hub → System Tool Tool.Answer Outcome Hub
  | [], s => s
  | .invoke :: later, ⟨s, none⟩ => rehearse turns clock start later ⟨s, some start⟩
  | .calls n :: later, ⟨s, some p⟩ =>
    let (p, s) := play turns clock n p s
    rehearse turns clock start later ⟨s, some p⟩
  | .stop :: later, ⟨s, some _⟩ => rehearse turns clock start later ⟨s, none⟩
  | .others l _ :: later, ⟨s, p⟩ => rehearse turns clock start later ⟨l.exec s, p⟩
  | _ :: later, s => rehearse turns clock start later s

section

variable {turns : ℕ} {clock : ℕ → Moment} {s s' : Hub}

/-- A tool that answers was served. -/
theorem Tool.serves_of_serving {α : Type} {x : Txn α} {a : α}
    (h : Tool.serve.serving clock x s = (.ok a, s')) : Serves x s a s' := by
  obtain ⟨hok, rfl⟩ := Prod.mk.inj h
  obtain ⟨b, c', hc, heq⟩ | ⟨e, -, heq⟩ := atomically_cases x (s.connect clock)
  · rw [heq] at hok ⊢
    cases hok
    exact ⟨clock, c', hc, rfl⟩
  · rw [heq] at hok
    cases hok

/-- A tool that answers acts as the driver's world has it. -/
theorem Tool.exec_of_serve {t : Tool} {r : t.Answer} (h : t.serve turns clock s = (.ok r, s')) :
    t.exec s r s' := by
  cases t with
  | turns =>
    cases h
    rfl
  | _ => exact Tool.serves_of_serving h

variable {start : Script Outcome} {w : Hub}

/-- Playing the script reaches a state of the driver. -/
theorem reachable_play (calls : ℕ) {p : Script Outcome} (h : Reachable hub start w ⟨s, some p⟩) :
    Reachable hub start w
      ⟨(play turns clock calls p s).2, some (play turns clock calls p s).1⟩ := by
  induction calls generalizing p s with
  | zero => exact h
  | succ calls ih =>
    cases p with
    | done | raise => exact h
    | call t next =>
      rw [play]
      split
      · next r s' hserve => exact ih (h.tail (.act (Tool.exec_of_serve hserve)))
      · exact h

/-- What a rehearsal comes to, a run comes to. -/
theorem reachable_rehearse (deeds : List Deed) {x : System Tool Tool.Answer Outcome Hub}
    (h : Reachable hub start w x) :
    Reachable hub start w (rehearse turns clock start deeds x) := by
  induction deeds generalizing x with
  | nil => exact h
  | cons deed later ih =>
    obtain ⟨s, running⟩ := x
    cases deed with
    | invoke =>
      cases running with
      | none => exact ih (h.tail .invoke)
      | some p => exact ih h
    | calls n =>
      cases running with
      | none => exact ih h
      | some p => exact ih (reachable_play n h)
    | stop =>
      cases running with
      | none => exact ih h
      | some p => exact ih (h.tail .stop)
    | others l hl => exact ih (h.tail (.interfere ⟨l, hl, rfl⟩))

end

/-! ### The promises -/

section

variable {u : Uuids} {w : Errand} {s : System Tool Tool.Answer Outcome Hub}

/-- **One task at a time.**  In every run, however often the process ends and wherever it does, all
    tasks are the worker's, each was given to it for one of its check-ins after the decision was
    logged, and one of them at most was not canceled. -/
theorem one_task_at_a_time (h : Reachable hub (driveOneTask w) (Hub.start u) s) :
    (∀ t ∈ s.world.db.tasks, s.world.db.Audited w.agent t) ∧
      ∀ t ∈ s.world.db.tasks, ∀ t' ∈ s.world.db.tasks,
        t.state ≠ .canceled → t'.state ≠ .canceled → t = t' :=
  have hs := (good_reachable h).1
  ⟨hs.driven.audited, hs.driven.single⟩

/-- **The lifecycle is concluded last.**  In every run, nobody is released and the workflow is not
    done before the worker has finished a task and none is open; and when the program returns, it
    returns the result of the only task, the worker is released and the workflow is done. -/
theorem concluded_last (h : Reachable hub (driveOneTask w) (Hub.start u) s) :
    (((∃ a ∈ s.world.db.agents, a.status = .released) ∨
        ∃ row ∈ s.world.db.workflow, row.status = .done) →
      (∃ taskId, s.world.db.Finished taskId) ∧ ∀ t ∈ s.world.db.tasks, ¬ t.isOpen) ∧
    ∀ outcome, s.running = some (.done outcome) → Concluded w.agent outcome s.world.db := by
  obtain ⟨hs, hrunning⟩ := good_reachable h
  refine ⟨fun hover => ?_, fun outcome hdone => (hrunning _ hdone).2 outcome rfl⟩
  have hfinished : ∃ taskId, s.world.db.Finished taskId := by
    rcases hover with ⟨a, ha, hr⟩ | ⟨row, hrow, hdone⟩
    · exact hs.driven.released a ha hr
    · exact hs.driven.done row hrow hdone
  refine ⟨hfinished, fun t ht hopen => ?_⟩
  obtain ⟨taskId, t', ht', hended⟩ := hfinished
  -- an open task would be a second one that was not canceled
  have hstate : t.state ≠ .canceled := by
    intro hcanceled
    rw [TaskRecord.isOpen, hcanceled] at hopen
    cases hopen
  have hstate' : t'.state ≠ .canceled := by
    rcases hended with hended | hended <;> simp [hended]
  obtain rfl := hs.driven.single t ht t' (Table.mem_of_find? ht') hstate hstate'
  rw [TaskRecord.isOpen] at hopen
  rcases hended with hended | hended <;> simp [hended, TaskState.terminal] at hopen

/-- **No question is dropped.**  In every run, a question that was taken from the inbox for good was
    answered, or the worker has asked a newer one, or its task has ended. -/
theorem no_question_dropped (h : Reachable hub (driveOneTask w) (Hub.start u) s)
    {e : EventRecord} (he : e ∈ s.world.db.events) (hacked : e.state = .acked)
    {taskId asker question : String} {messageId : ℕ}
    (hpayload : e.payload = .workerQuestion taskId asker question messageId) :
    s.world.db.Settled taskId messageId :=
  (good_reachable h).1.driven.settled e he hacked taskId asker question messageId hpayload

end

/-! ### Ada's task -/

/-- Ada checks in; Alice assigns her a task and dies; Ada asks; the next Alice answers; Ada ends her
    task. -/
def adaDeeds : List Deed :=
  [.invoke, .calls 1, .others ⟨.checkIn "ada" {} (some "ada-1") {} none, stoppedClock⟩ rfl,
    .calls 7, .stop, .others ⟨.openQuestion "uuuu" "ada" "Ship it?" "q-1", stoppedClock⟩ rfl,
    .invoke, .calls 6,
    .others ⟨.submitResult "uuuu" "ada" (some (.status .completed)) "Done." [] none {},
      stoppedClock⟩ rfl, .calls 12]

/-- The hub after the first deeds, and where Alice is. -/
def adaRun (deeds : ℕ) : System Tool Tool.Answer Outcome Hub :=
  rehearse 2 stoppedClock (driveOneTask { agent := "ada" }) (adaDeeds.take deeds)
    ⟨Hub.start .unary, none⟩

/-- The demonstration run is a run of the driver. -/
theorem reachable_adaRun (deeds : ℕ) :
    Reachable hub (driveOneTask { agent := "ada" }) (Hub.start .unary) (adaRun deeds) :=
  reachable_rehearse _ .refl

/-- The second Alice has found the task of the first. -/
theorem one_task_for_ada :
    (adaRun 8).world.db.tasks.rows.map TaskRecord.id = ["uuuu"] ∧
      (∀ t ∈ (adaRun 8).world.db.tasks, (adaRun 8).world.db.Audited "ada" t) ∧
      ∀ t ∈ (adaRun 8).world.db.tasks, ∀ t' ∈ (adaRun 8).world.db.tasks,
        t.state ≠ .canceled → t'.state ≠ .canceled → t = t' :=
  ⟨by decide +kernel, one_task_at_a_time (reachable_adaRun 8)⟩

/-- Ada is released with her task completed. -/
theorem ada_concluded : ∃ taskId, (adaRun 10).world.db.Finished taskId :=
  ((concluded_last (reachable_adaRun 10)).1 (.inl (by decide +kernel))).1

/-- Her question was answered before its event was acknowledged. -/
theorem ada_answered : (adaRun 10).world.db.Settled "uuuu" 3 := by
  have hasked : ∃ e ∈ (adaRun 10).world.db.events.rows, e.state = .acked ∧
      e.payload = .workerQuestion "uuuu" "ada" "Ship it?" 3 := by decide +kernel
  obtain ⟨e, he, hacked, hpayload⟩ := hasked
  exact no_question_dropped (reachable_adaRun 10) he hacked hpayload

end Alice

end AgentHub
