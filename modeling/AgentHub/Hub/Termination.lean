import AgentHub.Hub.Fencing
import AgentHub.Hub.Wakeups

namespace AgentHub

open Relational

/-!
# Ending a task that waits for an answer

A worker that has asked a question holds a stream open for the answer, and asks again under the
same message id when the hold has run out.  When its task ends in the meantime it should be told
so, whichever of the two it is doing.

* `replyStream` — what the stream of a question sends when its wait is over;
* `Attempt` — where the worker is when its task ends, `Attempt.ToldEnded`, that it is told;
* `ended_reaches_worker` — it is told exactly when it holds its stream and Alice has ended the
  task by an override.  A cancel and the loss of the worker write nothing that the poll of the
  stream finds, and a question that is asked again on an ended task is refused.
-/

/-- What the stream of a question sends. -/
inductive StreamEnd where
  | taskEnded (task : TaskRecord) (note : String)
  | timeout (retryAs : String)
  | reply (message : MessageRecord)

/-- The note on an ended task: the summary of its result, or else its state. -/
def endedNote (task : TaskRecord) : String :=
  match task.result with
  | some (.obj fields) =>
    match fields.lookup "summary" with
    | some (.str summary) => summary
    | some other => other.pyRepr
    | none => task.state.value
  | _ => task.state.value

/-- `_reply_stream`, when its wait is over: an ended task goes before a reply. -/
def replyStream (reply : Option MessageRecord) (current : Option TaskRecord) (sentAs : String) :
    StreamEnd :=
  match current.filter fun task => task.state.terminal with
  | some task => .taskEnded task (endedNote task)
  | none =>
    match reply with
    | none => .timeout sentAs
    | some message => .reply message

/-- What the stream of the question `after` sends if it ends now. -/
def Hub.streamEnd (s : Hub) (taskId : String) (after : ℕ) (sentAs : String) : StreamEnd :=
  replyStream (s.db.pendingReply taskId after) (s.db.tasks.find? taskId) sentAs

/-- The stream tells that the task has ended. -/
def StreamEnd.Ended (e : StreamEnd) : Prop := ∃ task note, e = .taskEnded task note

/-- The stream of an ended task is told that it ended. -/
theorem streamEnd_ended {s : Hub} {taskId : String} {t : TaskRecord}
    (ht : s.db.tasks.find? taskId = some t) (hended : ¬ t.isOpen) (after : ℕ) (sentAs : String) :
    (s.streamEnd taskId after sentAs).Ended := by
  have hterminal : t.state.terminal = true := Bool.eq_true_of_not_eq_false hended
  refine ⟨t, endedNote t, ?_⟩
  have hfilter : (some t).filter (fun task => task.state.terminal) = some t := by
    rw [Option.filter, hterminal]
    rfl
  unfold Hub.streamEnd replyStream
  rw [ht, hfilter]

/-- The question `q`, first sent as `sentAs`, waits for its answer. -/
structure Db.Outstanding (d : Db) (taskId sentAs : String) (q : MessageRecord) : Prop where
  parked : ∃ t, d.tasks.find? taskId = some t ∧ t.state = .inputRequired
  mem : q ∈ d.messages
  questionOn : q.questionOn taskId
  asks : q.parts.any (·.asks sentAs) = true
  unanswered : d.pendingReply taskId q.id = none

/-- Where the worker is with its question when its task ends: it holds a stream, or it asks again
    after a while. -/
inductive Attempt where
  | held
  | retried (between : List Call) (m : A2AMessage) (remoteAddr : Option String)
      (clock : ℕ → Moment)

/-- The attempt is one at the question `sentAs` on the task. -/
def Attempt.Repeats (a : Attempt) (taskId sentAs : String) : Prop :=
  match a with
  | .held => True
  | .retried _ m _ _ => m.taskId = some taskId ∧ m.messageId = sentAs

/-- The attempt is answered with the ended task.  A held stream must be released by the call
    itself: its wait is notified, and its poll finds something. -/
def Attempt.ToldEnded (a : Attempt) (r : Rendering) (l : Call) (s : Hub) (taskId sentAs : String)
    (after : ℕ) : Prop :=
  match a with
  | .held =>
    (Wait.reply taskId after).key ∈ l.notifies s ∧
      (∀ now, (Wait.reply taskId after).Ready now (l.exec s)) ∧
      ((l.exec s).streamEnd taskId after sentAs).Ended
  | .retried between m remoteAddr clock =>
    let answered := atomically (dispatch r remoteAddr (.stream m))
      (((l.exec s).run between).connect clock)
    ∃ agent task questionId, answered.1 = .ok (.holdReply agent task questionId sentAs) ∧
      (answered.2.hub.streamEnd taskId questionId sentAs).Ended

section

variable {s : Hub} {l : Call} {taskId : String} {t t' : TaskRecord} {after : ℕ}

/-- Of the calls that end a task, only an override leaves something that a poll finds. -/
theorem override_of_ready (ht : s.db.tasks.find? taskId = some t)
    (hnone : s.db.pendingReply taskId after = none)
    (ht' : (l.exec s).db.tasks.find? taskId = some t') (hended : ¬ t'.isOpen)
    (hready : (l.exec s).db.pendingReply taskId after ≠ none) :
    ∃ state note, l.op = .setTaskState taskId state note := by
  -- a stream gets ready by a reply or an override, and a reply ends no task
  by_cases hkind : .answer ∈ l.op.kinds ∨ .override ∈ l.op.kinds
  · obtain ⟨op, clock⟩ := l
    cases op with
    | reply id text messageId =>
      rw [Call.exec_eq rfl clock s] at ht' hready
      rcases atomically_cases (reply id text messageId) (s.connect clock) with
        ⟨applied, c', hc, hat⟩ | ⟨e, -, hat⟩
      · rw [hat] at ht' hready
        obtain ⟨task, -, h⟩ := commits_reply.mp hc
        split at h
        · obtain ⟨-, -, contextId, -, rfl⟩ := h
          by_cases hid : taskId = id
          · -- a reply puts the task back to work
            subst hid
            have hrow : (s.db.tasks.modify taskId
                (fun t => { t with state := .working, updated := (clock 1).toIso })
                fun _ => rfl).find? taskId = _ := Table.find?_modify_self s.db.tasks taskId
            obtain rfl := Option.some.inj
              ((congrArg (Option.map _) ht.symm).trans (hrow.symm.trans ht'))
            exact absurd rfl hended
          · exact absurd ((pendingReply_answer_ne hid after).trans hnone) hready
        · obtain ⟨-, rfl⟩ := h
          exact absurd hnone hready
      · rw [hat] at hready
        exact absurd hnone hready
    | setTaskState id state note =>
      by_cases hid : taskId = id
      · exact ⟨state, note, by rw [hid]⟩
      · rw [Call.exec_eq rfl clock s] at hready
        rcases atomically_cases (setTaskState id state note) (s.connect clock) with
          ⟨task, c', hc, hat⟩ | ⟨e, -, hat⟩
        · rw [hat] at hready
          obtain ⟨-, -, task, contextId, ts, ts', -, -, -, hdb⟩ := setTaskState_cases hc
          have hhub : c'.hub.db = s.db.override id contextId note state ts ts' := hdb
          rw [hhub] at hready
          refine absurd ((Db.Posts.pendingReply_eq ⟨rfl, rfl⟩ (fun htask => ?_) after).trans hnone)
            hready
          exact absurd (Option.some.inj htask).symm hid
        · rw [hat] at hready
          exact absurd hnone hready
    | _ => simp [Op.kinds] at hkind
  · have hkept := (moves_exec l s).invariant
      (I := fun u => (∃ t, u.db.tasks.find? taskId = some t) ∧
        u.db.pendingReply taskId after = none)
      (fun k u u' hk hmove hI => ?_) ⟨⟨t, ht⟩, hnone⟩
    · exact absurd hkept.2 hready
    · obtain ⟨⟨t, ht⟩, hnone⟩ := hI
      obtain ⟨t', ht', -⟩ := task_move hmove ht
      refine ⟨⟨t', ht'⟩, ?_⟩
      rw [silent_move hmove (fun heq => hkind (.inl (heq ▸ hk)))
        (fun heq => hkind (.inr (heq ▸ hk))) ht after]
      exact hnone

/-- An override releases the stream that is held on its task. -/
theorem release_of_override {state : TaskState} {note : String} {clock : ℕ → Moment}
    (ht : s.db.tasks.find? taskId = some t) (hopen : t.isOpen)
    (hafter : after ≤ s.db.messages.seq)
    (ht' : ((Call.mk (.setTaskState taskId state note) clock).exec s).db.tasks.find? taskId
      = some t') (hended : ¬ t'.isOpen) :
    .task taskId ∈ (Call.mk (.setTaskState taskId state note) clock).notifies s ∧
      ((Call.mk (.setTaskState taskId state note) clock).exec s).db.pendingReply taskId after
        ≠ none := by
  rw [Call.exec_eq rfl clock s] at ht' ⊢
  rw [Call.notifies_eq rfl clock s]
  rcases atomically_cases (setTaskState taskId state note) (s.connect clock) with
    ⟨task, c', hc, hat⟩ | ⟨e, -, hat⟩
  · rw [hat]
    refine ⟨setTaskState_notifies hc, ?_⟩
    obtain ⟨-, -, task, contextId, ts, ts', -, -, -, hdb⟩ := setTaskState_cases hc
    have hhub : c'.hub.db = s.db.override taskId contextId note state ts ts' := hdb
    rw [hhub, ← Option.isSome_iff_ne_none, pendingReply_isSome_iff]
    refine ⟨⟨s.db.messages.seq + 1, some taskId, contextId, "alice", .fromAlice,
      [⟨note, .stateOverride⟩], ts⟩, ?_, rfl, rfl, Nat.lt_succ_of_le hafter⟩
    rw [Db.override_messages]
    exact Serial.mem_append.mpr (.inr rfl)
  · -- a refused override ends nothing
    rw [hat] at ht'
    obtain rfl : t = t' := Option.some.inj (ht.symm.trans ht')
    exact absurd hopen hended

/-- A question that is asked again on an ended task is refused. -/
theorem retry_refused {r : Rendering} {m : A2AMessage} {remoteAddr : Option String}
    {clock : ℕ → Moment} {x : Response} (ht : s.db.tasks.find? taskId = some t)
    (hended : ¬ t.isOpen) (hm : m.taskId = some taskId) :
    (atomically (dispatch r remoteAddr (.stream m)) (s.connect clock)).1 ≠ .ok x := by
  intro h
  have hc := commits_of_atomically h
  simp only [dispatch, commits_bind] at hc
  obtain ⟨_, c, hsizes, hc⟩ := hc
  obtain rfl := checkMessagePartSizes_cases hsizes
  obtain ⟨agent, -, ⟨id, task, questionId, hid, htask, -, hask, -⟩ | ⟨hnone, -⟩⟩ := stream_cases hc
  · obtain rfl : taskId = id := Option.some.inj (hm.symm.trans hid)
    obtain ⟨-, task', -, htask', hopen, -⟩ := openQuestion_cases hask
    have htaskId : task.id = taskId := Table.find?_key htask
    rw [htaskId] at htask'
    obtain rfl : t = task' := Option.some.inj (ht.symm.trans htask')
    exact hended hopen
  · rw [hm] at hnone
    cases hnone

end

/-- **Who is told that the task has ended.**  In every state of every run, with a question that
    waits for its answer, and for every call that ends its task: the worker is told, by that call
    or at its next attempt, if and only if it holds its stream and the call is an override. -/
theorem ended_reaches_worker (r : Rendering) (u : Uuids) (ls : List Call) (l : Call)
    (taskId sentAs : String) (q : MessageRecord) (t : TaskRecord) (a : Attempt)
    (hq : ((Hub.start u).run ls).db.Outstanding taskId sentAs q)
    (ht : (l.exec ((Hub.start u).run ls)).db.tasks.find? taskId = some t) (hended : ¬ t.isOpen)
    (ha : a.Repeats taskId sentAs) :
    a.ToldEnded r l ((Hub.start u).run ls) taskId sentAs q.id ↔
      a = .held ∧ ∃ state note, l.op = .setTaskState taskId state note := by
  obtain ⟨t₀, ht₀, hwaits⟩ := hq.parked
  have hopen : t₀.isOpen := by
    rw [TaskRecord.isOpen, hwaits]
    rfl
  cases a with
  | held =>
    constructor
    · rintro ⟨-, hready, -⟩
      exact ⟨rfl, override_of_ready ht₀ hq.unanswered ht hended
        (ready_reply.mp (hready (l.clock 0)))⟩
    · rintro ⟨-, state, note, hop⟩
      obtain ⟨op, clock⟩ := l
      obtain rfl : op = .setTaskState taskId state note := hop
      obtain ⟨hnotified, hready⟩ :=
        release_of_override ht₀ hopen (Serial.key_le_seq hq.mem) ht hended
      exact ⟨hnotified, fun now => ready_reply.mpr hready, streamEnd_ended ht hended _ _⟩
  | retried between m remoteAddr clock =>
    constructor
    · rintro ⟨agent, task, questionId, hok, -⟩
      exact absurd hok (retry_refused (ended_run between ht hended).1 hended ha.1)
    · rintro ⟨hheld, -⟩
      cases hheld

/-- Ada has asked a question on her task. -/
def adaAsks : List Call :=
  [⟨.initializeWorkflow "goal" {}, stoppedClock⟩,
    ⟨.checkIn "ada" {} (some "ada-1") {} none, stoppedClock⟩,
    ⟨.assignTask "ada" "implementer" "Fix it" "See issue 7" 30 none none, stoppedClock⟩,
    ⟨.claimAssignment "ada", stoppedClock⟩,
    ⟨.openQuestion "uuu" "ada" "Ship it as drafted?" "q-1", stoppedClock⟩]

/-- A rendering to run the hub with. -/
def Rendering.blank : Rendering := ⟨fun _ => "", fun _ => "", fun _ _ => "", fun _ _ => ""⟩

/-- Alice fails the task while Ada holds her stream: Ada is told at once. -/
theorem told_by_override :
    ∃ q ∈ ((Hub.start .unary).run adaAsks).db.messages.rows, Attempt.ToldEnded .held .blank
      ⟨.setTaskState "uuu" .failed "No longer needed", stoppedClock⟩
      ((Hub.start .unary).run adaAsks) "uuu" "q-1" q.id := by
  have hasked : ∃ q ∈ ((Hub.start .unary).run adaAsks).db.messages.rows,
      (∃ t ∈ ((Hub.start .unary).run adaAsks).db.tasks.rows, t.id = "uuu" ∧
        t.state = .inputRequired) ∧ q.questionOn "uuu" ∧ q.parts.any (·.asks "q-1") = true ∧
        ((Hub.start .unary).run adaAsks).db.pendingReply "uuu" q.id = none := by
    decide +kernel
  have hended : ∃ t ∈ ((Call.mk (.setTaskState "uuu" .failed "No longer needed") stoppedClock).exec
      ((Hub.start .unary).run adaAsks)).db.tasks.rows, t.id = "uuu" ∧ ¬ t.isOpen := by
    decide +kernel
  obtain ⟨q, hq, ⟨t, ht, hid, hwaits⟩, hquestion, hasks, hnone⟩ := hasked
  obtain ⟨t', ht', hid', hend⟩ := hended
  have hfound : ((Hub.start .unary).run adaAsks).db.tasks.find? "uuu" = some t :=
    hid ▸ Table.find?_of_mem (Table.mem_iff.mpr ht)
  have hafter : ((Call.mk (.setTaskState "uuu" .failed "No longer needed") stoppedClock).exec
      ((Hub.start .unary).run adaAsks)).db.tasks.find? "uuu" = some t' := by
    rw [← hid']
    rw [← hid'] at ht'
    exact Table.find?_of_mem (Table.mem_iff.mpr ht')
  refine ⟨q, hq, ?_⟩
  exact (ended_reaches_worker .blank .unary adaAsks _ "uuu" "q-1" q t' .held
    ⟨⟨t, hfound, hwaits⟩, hq, hquestion, hasks, hnone⟩ hafter hend trivial).mpr ⟨rfl, _, _, rfl⟩

/-- **A cancel is not heard.**  Alice cancels the task while Ada holds her stream: the task has
    ended, and the poll of the stream finds nothing. -/
theorem canceled_unheard :
    ∃ q ∈ ((Hub.start .unary).run adaAsks).db.messages.rows,
      (∃ t ∈ ((Hub.start .unary).run adaAsks).db.tasks.rows, t.id = "uuu" ∧
        t.state = .inputRequired) ∧ q.questionOn "uuu" ∧ q.parts.any (·.asks "q-1") = true ∧
      ((Hub.start .unary).run adaAsks).db.pendingReply "uuu" q.id = none ∧
      (∃ t ∈ ((Call.mk (.cancelTask "uuu") stoppedClock).exec
        ((Hub.start .unary).run adaAsks)).db.tasks.rows, t.id = "uuu" ∧ ¬ t.isOpen) ∧
      ¬ Attempt.ToldEnded .held .blank ⟨.cancelTask "uuu", stoppedClock⟩
        ((Hub.start .unary).run adaAsks) "uuu" "q-1" q.id := by
  have hasked : ∃ q ∈ ((Hub.start .unary).run adaAsks).db.messages.rows,
      (∃ t ∈ ((Hub.start .unary).run adaAsks).db.tasks.rows, t.id = "uuu" ∧
        t.state = .inputRequired) ∧ q.questionOn "uuu" ∧ q.parts.any (·.asks "q-1") = true ∧
      ((Hub.start .unary).run adaAsks).db.pendingReply "uuu" q.id = none ∧
      ((Call.mk (.cancelTask "uuu") stoppedClock).exec
        ((Hub.start .unary).run adaAsks)).db.pendingReply "uuu" q.id = none := by
    decide +kernel
  have hended : ∃ t ∈ ((Call.mk (.cancelTask "uuu") stoppedClock).exec
      ((Hub.start .unary).run adaAsks)).db.tasks.rows, t.id = "uuu" ∧ ¬ t.isOpen := by
    decide +kernel
  obtain ⟨q, hq, hparked, hquestion, hasks, hnone, hstill⟩ := hasked
  refine ⟨q, hq, hparked, hquestion, hasks, hnone, hended, ?_⟩
  rintro ⟨-, hready, -⟩
  exact ready_reply.mp (hready (stoppedClock 0)) hstill

end AgentHub
