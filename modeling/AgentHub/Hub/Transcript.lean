import AgentHub.Hub.Evolution
import AgentHub.Hub.Ownership

namespace AgentHub

open Relational

/-!
# Which reply answers which question

Replies are addressed by the id of a question, and found by their position: `pending_reply` takes
the first message of Alice's after the question.  A run is observed together with the replies it
applied, so the question a reply was given to is on record.

* `Answer` — one applied reply; `Transcript` — the hub with the replies applied so far;
* `Db.Correlated` — what is found for a question of an open task was said to that question;
* `transcript_move` — outside of `reply`, no move changes what is found for a question;
* `question_answer_correlation` — a run keeps its questions and answers correlated exactly when
  Alice never answers past an older question that is still open.
-/

/-- A reply that was applied: the message it wrote, and what Alice called `reply` with. -/
structure Answer where
  messageId : ℕ
  taskId : String
  text : String
  questionId : ℕ
deriving DecidableEq

/-- The message is a question on the task. -/
def MessageRecord.questionOn (m : MessageRecord) (taskId : String) : Prop :=
  m.reports taskId ∧ m.parts.any Part.isQuestion

instance (m : MessageRecord) (taskId : String) : Decidable (m.questionOn taskId) :=
  inferInstanceAs (Decidable (_ ∧ _))

/-- What a call answers. -/
def Call.answer (l : Call) (s : Hub) : Option Answer :=
  match l.op with
  | .reply taskId text questionId =>
    match (atomically (reply taskId text questionId) (s.connect l.clock)).1 with
    | .ok true => some ⟨(l.exec s).db.messages.seq, taskId, text, questionId⟩
    | _ => none
  | _ => none

/-- Only Alice's reply answers a question. -/
theorem Op.eq_reply {op : Op} (h : Kind.answer ∈ op.kinds) :
    ∃ taskId text questionId, op = .reply taskId text questionId := by
  cases op <;> first | exact ⟨_, _, _, rfl⟩ | simp [Op.kinds] at h

/-- A call that cannot answer adds nothing to the answers. -/
theorem Call.answer_eq_none {l : Call} {s : Hub} (h : Kind.answer ∉ l.op.kinds) :
    l.answer s = none := by
  unfold Call.answer
  split
  · rename_i hop
    rw [hop] at h
    exact absurd List.mem_cons_self h
  · rfl

/-- The hub, and the replies applied so far. -/
abbrev Transcript := Observed Hub Answer

namespace Transcript

/-- A new hub, with no answers given. -/
def start (u : Uuids) : Transcript := ⟨Hub.start u, []⟩

/-- A call, and the answer it gave if it gave one. -/
def exec : Call → Transcript → Transcript := Observed.step Call.exec Call.answer

/-- The transcript after a run of calls. -/
def run (s : Transcript) (ls : List Call) : Transcript := runFrom exec s ls

end Transcript

/-- What `pending_reply` returns for a question of an open task is the message Alice wrote with
    `reply` under the id of this question, and under no other. -/
def Db.Correlated (d : Db) (answers : List Answer) : Prop :=
  ∀ t ∈ d.tasks, t.isOpen → ∀ q ∈ d.messages, q.questionOn t.id →
    ∀ m, d.pendingReply t.id q.id = some m →
      (∃ a ∈ answers, a.messageId = m.id ∧ a.taskId = t.id ∧ a.questionId = q.id ∧
        m.parts = [⟨a.text, .reply⟩]) ∧
      ∀ a ∈ answers, a.messageId = m.id → a.questionId = q.id

/-- Alice has written on the task since the message `after`. -/
def Db.HeardBack (d : Db) (taskId : String) (after : ℕ) : Prop :=
  ∃ m ∈ d.messages, m.taskId = some taskId ∧ m.direction = .fromAlice ∧ after < m.id

/-- `pending_reply` finds something exactly when Alice has written since. -/
theorem pendingReply_isSome_iff {d : Db} {taskId : String} {after : ℕ} :
    (d.pendingReply taskId after).isSome = true ↔ d.HeardBack taskId after := by
  rw [← not_iff_not, Option.not_isSome_iff_eq_none, Db.pendingReply, Serial.first?_eq_none_iff]
  simp [Db.HeardBack]

/-- Nothing is found while Alice has not written since. -/
theorem not_heardBack_iff {d : Db} {taskId : String} {after : ℕ} :
    ¬ d.HeardBack taskId after ↔ d.pendingReply taskId after = none := by
  rw [← pendingReply_isSome_iff, Option.not_isSome_iff_eq_none]

/-- The call does not answer past an open question: when it is a reply that its guards let
    through, every other question of the task has been answered. -/
def AnswersInOrder (l : Call) (s : Transcript) : Prop :=
  ∀ taskId text questionId, l.op = .reply taskId text questionId →
    (∃ t ∈ s.state.db.tasks.find? taskId, t.state = .inputRequired) →
    s.state.db.newestQuestion taskId = some questionId →
    ¬ s.state.db.HeardBack taskId questionId → PartsFit [⟨text, .reply⟩] →
    ∀ q ∈ s.state.db.messages, q.questionOn taskId → q.id ≠ questionId →
      s.state.db.HeardBack taskId q.id

/-! ### What a move does to the transcript -/

/-- One more message. -/
def Db.Posts (d d' : Db) (m : MessageRecord) : Prop :=
  d'.messages.rows = d.messages.rows ++ [m] ∧ m.id = d.messages.seq + 1

/-- **What a move writes to the transcript.**  Nothing, or one message: on no task, or on a task
    that exists, and there from Alice only with a reply, or from Alice on a task that is new or
    ends with it. -/
theorem messages_move {k : Kind} {s s' : Hub} (h : Move k s s') :
    s'.db.messages = s.db.messages ∨ ∃ m, s.db.Posts s'.db m ∧
      (m.taskId = none ∨
        (∃ t, m.taskId = some t.id ∧ s.db.tasks.find? t.id = some t ∧
          (m.direction = .fromAlice → k = .answer)) ∨
        ∃ t, m.taskId = some t.id ∧ s'.db.tasks.find? t.id = some t ∧ m.direction = .fromAlice ∧
          (s.db.tasks.find? t.id = none ∨ ¬ t.isOpen)) := by
  cases h with
  | draw | create | setWorkflowStatus | decide | beat | renew | release | cancel | claim | expire |
    lose | loseTask | append | lease | ack => exact .inl rfl
  | @checkIn d _ name contextId instanceId profile _ row d' ts ts₁ ts₂ _ _ hadmits =>
    have hmessages : d'.messages = d.messages := hadmits.frame Db.messages fun _ => rfl
    refine .inr ⟨_, ⟨congrArg (fun t : Serial MessageRecord.id => t.rows ++ [_]) hmessages, ?_⟩,
      .inl rfl⟩
    exact congrArg (fun t : Serial MessageRecord.id => t.seq + 1) hmessages
  | progress task worker note row ts ts₁ ts₂ htask =>
    exact .inr ⟨_, ⟨rfl, rfl⟩, .inr (.inl ⟨task, rfl, htask, fun hfrom => by cases hfrom⟩)⟩
  | ask task worker question sentAs ts ts₁ ts₂ htask =>
    exact .inr ⟨_, ⟨rfl, rfl⟩, .inr (.inl ⟨task, rfl, htask, fun hfrom => by cases hfrom⟩)⟩
  | settle task worker result row ts ts₁ ts₂ htask =>
    exact .inr ⟨_, ⟨rfl, rfl⟩, .inr (.inl ⟨task, rfl, htask, fun hfrom => by cases hfrom⟩)⟩
  | answer taskId contextId text messageId ts ts' hanswerable =>
    obtain ⟨⟨t, ht, -⟩, -⟩ := hanswerable
    obtain rfl : t.id = taskId := Table.find?_key ht
    exact .inr ⟨_, ⟨rfl, rfl⟩, .inr (.inl ⟨t, rfl, ht, fun _ => rfl⟩)⟩
  | @assign _ _ agent request id sourceEventId parts expires ts ts' _ _ _ _ _ hfree =>
    let task := request.task id sourceEventId expires ts
    exact .inr ⟨_, ⟨rfl, rfl⟩,
      .inr (.inr ⟨task, rfl, Table.find?_insertOrIgnore_self hfree, rfl, .inl hfree⟩)⟩
  | @override d _ task contextId note state ts ts' htask _ hstate =>
    obtain ⟨t, ht, hended⟩ : ∃ t, (d.override task.id contextId note state ts ts').tasks.find?
        task.id = some t ∧ ¬ t.isOpen := by
      refine ⟨_, by simp [htask]; rfl, ?_⟩
      simp [TaskRecord.isOpen, hstate]
    have hid : t.id = task.id := Table.find?_key ht
    exact .inr ⟨_, ⟨rfl, rfl⟩, .inr (.inr ⟨t, congrArg some hid.symm, hid.symm ▸ ht, rfl,
      .inr hended⟩)⟩

/-- Every message on a task is on a task that exists. -/
def Db.Posted (d : Db) : Prop :=
  ∀ m ∈ d.messages, ∀ id, m.taskId = some id → ∃ t, d.tasks.find? id = some t

/-- Every move keeps the messages with the tasks they were posted on. -/
theorem posted_move {k : Kind} {s s' : Hub} (h : Move k s s') (hposted : s.db.Posted) :
    s'.db.Posted := by
  have htasks {id : String} (hold : ∃ t, s.db.tasks.find? id = some t) :
      ∃ t, s'.db.tasks.find? id = some t := by
    obtain ⟨t, ht⟩ := hold
    obtain ⟨t', ht', -⟩ := (evolves_move h).tasks.find? ht
    exact ⟨t', ht'⟩
  intro m hm id hid
  obtain hsame | ⟨new, ⟨hrows, -⟩, hnew⟩ := messages_move h
  · exact htasks (hposted m (hsame ▸ hm) id hid)
  rw [Serial.mem_iff, hrows] at hm
  rcases List.mem_append.mp hm with hm | hm
  · exact htasks (hposted m hm id hid)
  obtain rfl := List.mem_singleton.mp hm
  obtain hnone | ⟨t, htask, ht, -⟩ | ⟨t, htask, ht, -⟩ := hnew
  · rw [hnone] at hid
    cases hid
  · obtain rfl := Option.some.inj (htask.symm.trans hid)
    exact htasks ⟨t, ht⟩
  · obtain rfl := Option.some.inj (htask.symm.trans hid)
    exact ⟨t, ht⟩

section

variable {d d' : Db} {m q : MessageRecord} {taskId : String}

/-- A message that is not Alice's on this task changes nothing that is found on it. -/
theorem Db.Posts.pendingReply_eq (h : d.Posts d' m)
    (hm : m.taskId = some taskId → m.direction ≠ .fromAlice) (after : ℕ) :
    d'.pendingReply taskId after = d.pendingReply taskId after := by
  rw [Db.pendingReply, Db.pendingReply, Serial.first?, Serial.first?, h.1, List.find?_append]
  have hno : ¬ (m.taskId = some taskId ∧ m.direction = .fromAlice ∧ after < m.id) :=
    fun hyes => hm hyes.1 hyes.2.1
  simp [hno]

/-- Nothing comes after the newest message. -/
theorem Db.Posts.pendingReply_self (h : d.Posts d' m) : d'.pendingReply taskId m.id = none := by
  refine Serial.first?_eq_none_iff.mpr fun r hr hafter => ?_
  rw [Serial.mem_iff, h.1] at hr
  rcases List.mem_append.mp hr with hr | hr
  · have hle := Serial.key_le_seq (t := d.messages) hr
    have hid := h.2
    omega
  · rw [List.mem_singleton.mp hr] at hafter
    omega

end

/-- **What is found for a question.**  A move that is not a reply leaves what is found for the
    questions of an open task as it is, and finds nothing for a new question. -/
theorem transcript_move {k : Kind} {s s' : Hub} (h : Move k s s') (hk : k ≠ .answer)
    (hposted : s.db.Posted) {t : TaskRecord} (ht : t ∈ s'.db.tasks) (hopen : t.isOpen)
    {q : MessageRecord} (hq : q ∈ s'.db.messages) (hquestion : q.questionOn t.id) :
    s'.db.pendingReply t.id q.id = none ∨
      q ∈ s.db.messages ∧ s'.db.pendingReply t.id q.id = s.db.pendingReply t.id q.id := by
  obtain hsame | ⟨m, hposts, hm⟩ := messages_move h
  · exact .inr ⟨hsame ▸ hq, by rw [Db.pendingReply, hsame]; rfl⟩
  have hq' := hq
  rw [Serial.mem_iff, hposts.1] at hq'
  rcases List.mem_append.mp hq' with hold | hnew
  · -- the task of an old question is old, and it is open, so the message is not Alice's on it
    obtain ⟨told, htold⟩ := hposted q hold t.id hquestion.1.1
    refine .inr ⟨hold, hposts.pendingReply_eq (fun hmt hfrom => ?_) q.id⟩
    obtain hnone | ⟨_, -, -, honly⟩ | ⟨t', htask, ht', -, hfresh | hended⟩ := hm
    · rw [hnone] at hmt
      cases hmt
    · exact hk (honly hfrom)
    · obtain hid : t'.id = t.id := Option.some.inj (htask.symm.trans hmt)
      rw [hid, htold] at hfresh
      cases hfresh
    · obtain hid : t'.id = t.id := Option.some.inj (htask.symm.trans hmt)
      obtain rfl : t' = t := Table.eq_of_key_eq (Table.mem_of_find? ht') ht hid
      exact hended hopen
  · rw [List.mem_singleton.mp hnew]
    exact .inl hposts.pendingReply_self

/-- A task that is open after a move, and has a message from before it, was open before it. -/
theorem open_before {k : Kind} {s s' : Hub} (h : Move k s s') (hposted : s.db.Posted)
    {t : TaskRecord} (ht : t ∈ s'.db.tasks) (hopen : t.isOpen) {q : MessageRecord}
    (hq : q ∈ s.db.messages) (hqt : q.taskId = some t.id) :
    ∃ told ∈ s.db.tasks, told.id = t.id ∧ told.isOpen := by
  obtain ⟨told, htold⟩ := hposted q hq t.id hqt
  obtain ⟨t', ht', hbecomes⟩ := (evolves_move h).tasks.find? htold
  obtain rfl : t = t' := Option.some.inj ((Table.find?_of_mem ht).symm.trans ht')
  refine ⟨told, Table.mem_of_find? htold, Table.find?_key htold, ?_⟩
  by_contra hended
  rw [hbecomes.final hended] at hopen
  exact hended hopen

/-- A move that answers nothing keeps questions and answers correlated. -/
theorem correlated_move {k : Kind} {s s' : Hub} {answers : List Answer} (h : Move k s s')
    (hk : k ≠ .answer) (hposted : s.db.Posted) (hcorrelated : s.db.Correlated answers) :
    s'.db.Correlated answers := by
  intro t ht hopen q hq hquestion m hm
  obtain hnone | ⟨hold, hsame⟩ := transcript_move h hk hposted ht hopen hq hquestion
  · rw [hnone] at hm
    cases hm
  · obtain ⟨told, htold, hid, htopen⟩ := open_before h hposted ht hopen hold hquestion.1.1
    rw [hsame] at hm
    rw [← hid] at hm hquestion ⊢
    exact hcorrelated told htold htopen q hold hquestion m hm

/-! ### What a reply does -/

section

variable {s : Hub} {taskId : String}

/-- The context of an open task is known: its assignee is an agent. -/
theorem context_of_open (hroster : s.db.roster.Consistent) {t : TaskRecord}
    (ht : s.db.tasks.find? taskId = some t) (hopen : t.isOpen) {c : Conn} (hc : c.db = s.db) :
    ∃ contextId, Commits (taskContextId t) c contextId c := by
  obtain ⟨a, ha, hassignee, -⟩ := hroster.task_held (Table.mem_of_find? ht) hopen
  refine ⟨a.contextId, commits_taskContextId.mpr ⟨?_, rfl⟩⟩
  rw [hassignee, hc]
  exact ⟨a, Table.find?_of_mem ha, rfl⟩

/-- **What a call of `reply` does.**  It is applied when its guards hold and the text fits, and
    is without effect otherwise. -/
theorem reply_exec_cases (hroster : s.db.roster.Consistent) (taskId text : String)
    (questionId : ℕ) (clock : ℕ → Moment) :
    let l : Call := ⟨.reply taskId text questionId, clock⟩
    (s.db.Answerable taskId questionId ∧ PartsFit [⟨text, .reply⟩] ∧
      l.answer s = some ⟨s.db.messages.seq + 1, taskId, text, questionId⟩ ∧
      ∃ contextId ts ts', l.exec s = ⟨s.db.answer taskId contextId text ts ts', s.uuids⟩) ∨
    (¬ (s.db.Answerable taskId questionId ∧ PartsFit [⟨text, .reply⟩]) ∧
      l.answer s = none ∧ l.exec s = s) := by
  intro l
  let c := s.connect clock
  have hexec : l.exec s = (atomically (reply taskId text questionId) c).2.hub :=
    Call.exec_eq rfl clock s
  have hanswer : l.answer s = match (atomically (reply taskId text questionId) c).1 with
    | .ok true => some ⟨(l.exec s).db.messages.seq, taskId, text, questionId⟩
    | _ => none := rfl
  rw [hanswer, hexec]
  obtain ⟨applied, c', hc, h⟩ | ⟨e, hrefused, h⟩ :=
    atomically_cases (reply taskId text questionId) c
  · obtain ⟨task, htask, hc⟩ := commits_reply.mp hc
    rw [h]
    split at hc
    · rename_i hanswerable
      obtain ⟨rfl, hfit, contextId, -, rfl⟩ := hc
      exact .inl ⟨hanswerable, hfit, rfl, contextId, _, _, rfl⟩
    · rename_i hnot
      obtain ⟨rfl, rfl⟩ := hc
      exact .inr ⟨fun hyes => hnot hyes.1, rfl, rfl⟩
  · rw [h]
    refine .inr ⟨?_, rfl, rfl⟩
    rintro ⟨hanswerable, hfit⟩
    obtain ⟨⟨task, htask, hstate⟩, -⟩ := id hanswerable
    have hopen : task.isOpen := by
      rw [TaskRecord.isOpen, hstate]
      rfl
    obtain ⟨contextId, hcontext⟩ := context_of_open hroster htask hopen (c := c) rfl
    let answered : Conn := { c with
      clock := fun n => clock (n + 2)
      db := c.db.answer taskId contextId text (clock 0).toIso (clock 1).toIso
      notified := c.notified ++ [.task taskId] }
    have happlied : Commits (reply taskId text questionId) c true answered :=
      commits_reply.mpr
        ⟨task, htask, (if_pos hanswerable).mpr ⟨rfl, hfit, contextId, hcontext, rfl⟩⟩
    exact hrefused true answered happlied

end

/-! ### Correlation along a run -/

/-- What the transcript and the log of applied replies keep in every run. -/
structure Transcript.Kept (s : Transcript) : Prop where
  posted : s.state.db.Posted
  roster : s.state.db.roster.Consistent
  logged : ∀ a ∈ s.log, a.messageId ≤ s.state.db.messages.seq

/-- Message numbers only grow. -/
theorem seq_exec_le (l : Call) (s : Hub) : s.db.messages.seq ≤ (l.exec s).db.messages.seq := by
  refine (moves_exec l s).invariant (I := fun t => s.db.messages.seq ≤ t.db.messages.seq) ?_
    (Nat.le_refl _)
  intro k t t' _ hmove hle
  refine hle.trans ?_
  cases hmove with
  | checkIn _ _ _ _ _ _ _ _ _ _ _ _ hadmits =>
    have hmessages := hadmits.frame Db.messages fun _ => rfl
    exact (congrArg Serial.seq hmessages).ge.trans (Nat.le_succ _)
  | progress | ask | settle | answer | assign | override => exact Nat.le_succ _
  | _ => exact Nat.le_refl _

/-- A call keeps the transcript's invariant. -/
theorem kept_exec (l : Call) (s : Transcript) (h : s.Kept) : (Transcript.exec l s).Kept where
  posted := (moves_exec l s.state).invariant (I := fun t => t.db.Posted)
    (fun _ _ _ _ hmove hI => posted_move hmove hI) h.posted
  roster := (moves_exec l s.state).invariant (I := fun t => t.db.roster.Consistent)
    (fun _ _ _ _ hmove hI => consistent_move hmove hI) h.roster
  logged := by
    intro a ha
    rcases List.mem_append.mp ha with ha | ha
    · exact (h.logged a ha).trans (seq_exec_le l s.state)
    · by_cases hkind : .answer ∈ l.op.kinds
      · obtain ⟨op, clock⟩ := l
        obtain ⟨taskId, text, questionId, rfl⟩ := Op.eq_reply hkind
        obtain ⟨-, -, hanswer, _, _, _, hexec⟩ | ⟨-, hanswer, -⟩ :=
          reply_exec_cases h.roster taskId text questionId clock
        · rw [hanswer] at ha
          obtain rfl : a = _ := by simpa using ha
          show _ ≤ (Call.exec _ s.state).db.messages.seq
          rw [hexec]
          exact Nat.le_refl _
        · rw [hanswer] at ha
          cases ha
      · rw [Call.answer_eq_none hkind] at ha
        cases ha

/-- A call that is no reply keeps what is found for every question. -/
theorem correlated_exec_of_ne {l : Call} {s : Transcript} (h : s.Kept)
    (hl : .answer ∉ l.op.kinds) (hcorrelated : s.state.db.Correlated s.log) :
    (l.exec s.state).db.Correlated s.log := by
  have hboth := (moves_exec l s.state).invariant
    (I := fun t => t.db.Posted ∧ t.db.Correlated s.log) ?_ ⟨h.posted, hcorrelated⟩
  · exact hboth.2
  · rintro k t t' hk hmove ⟨hposted, hI⟩
    have hne : k ≠ .answer := fun heq => hl (heq ▸ hk)
    exact ⟨posted_move hmove hposted, correlated_move hmove hne hposted hI⟩

section

variable {d : Db} {answers : List Answer} {taskId contextId text : String} {questionId : ℕ}
  {ts ts' : Stamp}

/-- The message a reply writes. -/
def Db.replyMessage (d : Db) (taskId contextId text : String) (ts : Stamp) : MessageRecord :=
  ⟨d.messages.seq + 1, some taskId, contextId, "alice", .fromAlice, [⟨text, .reply⟩], ts⟩

/-- A reply is found for every question of its task that had no answer. -/
theorem pendingReply_answer {q : MessageRecord} (hq : q ∈ d.messages) :
    (d.answer taskId contextId text ts ts').pendingReply taskId q.id
      = (d.pendingReply taskId q.id).or (some (d.replyMessage taskId contextId text ts)) := by
  have hlt : q.id < d.messages.seq + 1 := Nat.lt_succ_of_le (Serial.key_le_seq hq)
  rw [Db.pendingReply, Db.answer_messages, Serial.first?_append]
  simp [hlt, Db.pendingReply, Db.replyMessage]

/-- A reply leaves what is found on the other tasks. -/
theorem pendingReply_answer_ne {id : String} (hid : id ≠ taskId) (after : ℕ) :
    (d.answer taskId contextId text ts ts').pendingReply id after = d.pendingReply id after := by
  rw [Db.pendingReply, Db.answer_messages, Serial.first?_append]
  simp [Ne.symm hid, Db.pendingReply]

/-- After a reply the questions are the same ones. -/
theorem question_of_answer {q : MessageRecord} {id : String}
    (hq : q ∈ (d.answer taskId contextId text ts ts').messages) (hquestion : q.questionOn id) :
    q ∈ d.messages := by
  rw [Db.answer_messages, Serial.mem_append] at hq
  rcases hq with hq | rfl
  · exact hq
  · cases hquestion.1.2

/-- A reply found has a number already given out. -/
theorem le_seq_of_pendingReply {id : String} {after : ℕ} {m : MessageRecord}
    (hm : d.pendingReply id after = some m) : m.id ≤ d.messages.seq :=
  Serial.key_le_seq (Serial.mem_of_first? hm)

/-- A reply to `questionId` keeps a question correlated when it had its answer before, or is
    `questionId` itself. -/
theorem correlated_answer_self {q m : MessageRecord} (hq : q ∈ d.messages)
    (hlogged : ∀ a ∈ answers, a.messageId ≤ d.messages.seq)
    (hself : q.id = questionId) (hnone : d.pendingReply taskId questionId = none)
    (hm : (d.answer taskId contextId text ts ts').pendingReply taskId q.id = some m) :
    let answers' := answers ++ [⟨d.messages.seq + 1, taskId, text, questionId⟩]
    (∃ a ∈ answers', a.messageId = m.id ∧ a.taskId = taskId ∧ a.questionId = q.id ∧
      m.parts = [⟨a.text, .reply⟩]) ∧ ∀ a ∈ answers', a.messageId = m.id → a.questionId = q.id := by
  intro answers'
  rw [pendingReply_answer hq, hself, hnone] at hm
  obtain rfl : d.replyMessage taskId contextId text ts = m := Option.some.inj hm
  refine ⟨⟨_, List.mem_append_right _ List.mem_cons_self, rfl, rfl, hself.symm, rfl⟩, ?_⟩
  intro a ha hid
  rcases List.mem_append.mp ha with ha | ha
  · have hle := hlogged a ha
    rw [hid] at hle
    exact absurd hle (Nat.not_succ_le_self _)
  · rw [List.mem_singleton.mp ha]
    exact hself.symm

/-- A reply logged after the others is no answer to what was found before it. -/
theorem correlated_answer_old {id : String} {q m : MessageRecord} {a₀ : Answer}
    (hle : m.id ≤ d.messages.seq) (ha₀ : a₀.messageId = d.messages.seq + 1)
    (h : (∃ a ∈ answers, a.messageId = m.id ∧ a.taskId = id ∧ a.questionId = q.id ∧
      m.parts = [⟨a.text, .reply⟩]) ∧ ∀ a ∈ answers, a.messageId = m.id → a.questionId = q.id) :
    (∃ a ∈ answers ++ [a₀], a.messageId = m.id ∧ a.taskId = id ∧ a.questionId = q.id ∧
      m.parts = [⟨a.text, .reply⟩]) ∧
      ∀ a ∈ answers ++ [a₀], a.messageId = m.id → a.questionId = q.id := by
  obtain ⟨⟨a, ha, hanswer⟩, hunique⟩ := h
  refine ⟨⟨a, List.mem_append_left _ ha, hanswer⟩, fun b hb hid => ?_⟩
  rcases List.mem_append.mp hb with hb | hb
  · exact hunique b hb hid
  · rw [List.mem_singleton.mp hb, ha₀] at hid
    omega

/-- **An answer to the newest question** keeps all questions correlated exactly when every other
    question of the task has its answer already. -/
theorem correlated_answer (hanswerable : d.Answerable taskId questionId)
    (hlogged : ∀ a ∈ answers, a.messageId ≤ d.messages.seq) (hcorrelated : d.Correlated answers) :
    (d.answer taskId contextId text ts ts').Correlated
        (answers ++ [⟨d.messages.seq + 1, taskId, text, questionId⟩]) ↔
      ∀ q ∈ d.messages, q.questionOn taskId → q.id ≠ questionId → d.HeardBack taskId q.id := by
  obtain ⟨⟨task, htask, hstate⟩, -, hnone⟩ := hanswerable
  obtain rfl : task.id = taskId := Table.find?_key htask
  constructor
  · -- a question without an answer would be given this one
    intro h q hq hquestion hne
    by_contra hopen
    rw [← pendingReply_isSome_iff, Option.not_isSome_iff_eq_none] at hopen
    let answered : TaskRecord := { task with state := .working, updated := ts' }
    have hanswered : (d.answer task.id contextId text ts ts').tasks.find? task.id
        = some answered := by
      rw [Db.answer_tasks, Table.find?_modify_self, htask]
      rfl
    have hq' : q ∈ (d.answer task.id contextId text ts ts').messages := by
      rw [Db.answer_messages, Serial.mem_append]
      exact .inl hq
    have hfound : (d.answer task.id contextId text ts ts').pendingReply task.id q.id
        = some (d.replyMessage task.id contextId text ts) := by
      rw [pendingReply_answer hq, hopen, Option.none_or]
    have hunique := (h answered (Table.mem_of_find? hanswered) rfl q hq' hquestion _ hfound).2
    exact hne (hunique _ (List.mem_append_right _ List.mem_cons_self) rfl).symm
  · intro h t ht hopen q hq' hquestion m hm
    have hq : q ∈ d.messages := question_of_answer hq' hquestion
    by_cases hid : t.id = task.id
    · rw [hid] at hm hquestion ⊢
      by_cases hself : q.id = questionId
      · exact correlated_answer_self hq hlogged hself hnone hm
      · obtain ⟨m', hm'⟩ := Option.isSome_iff_exists.mp
          (pendingReply_isSome_iff.mpr (h q hq hquestion hself))
        rw [pendingReply_answer hq, hm', Option.some_or] at hm
        obtain rfl := Option.some.inj hm
        have hopen' : task.isOpen := by
          rw [TaskRecord.isOpen, hstate]
          rfl
        exact correlated_answer_old (le_seq_of_pendingReply hm') rfl
          (hcorrelated task (Table.mem_of_find? htask) hopen' q hq hquestion m' hm')
    · rw [pendingReply_answer_ne hid] at hm
      have ht' : d.tasks.find? t.id = some t := by
        have hfound := Table.find?_of_mem ht
        rwa [Db.answer_tasks, Table.find?_modify_ne _ hid] at hfound
      exact correlated_answer_old (le_seq_of_pendingReply hm) rfl
        (hcorrelated t (Table.mem_of_find? ht') hopen q hq hquestion m hm)

end

/-- **One call** keeps questions and answers correlated exactly when it answers in order. -/
theorem correlated_exec (l : Call) (s : Transcript) (h : s.Kept)
    (hcorrelated : s.state.db.Correlated s.log) :
    (Transcript.exec l s).state.db.Correlated (Transcript.exec l s).log ↔ AnswersInOrder l s := by
  rw [Transcript.exec, Observed.step]
  by_cases hkind : .answer ∈ l.op.kinds
  · obtain ⟨op, clock⟩ := l
    obtain ⟨taskId, text, questionId, rfl⟩ := Op.eq_reply hkind
    obtain ⟨hanswerable, hfit, hanswer, contextId, ts, ts', hexec⟩ | ⟨hnot, hanswer, hexec⟩ :=
      reply_exec_cases h.roster taskId text questionId clock
    · rw [hanswer, hexec]
      refine (correlated_answer hanswerable h.logged hcorrelated).trans
        ⟨fun hall => ?_, fun hall => ?_⟩
      · rintro _ _ _ ⟨⟩ - - - -
        exact hall
      · exact hall taskId text questionId rfl hanswerable.1 hanswerable.2.1
          (not_heardBack_iff.mpr hanswerable.2.2) hfit
    · rw [hanswer, hexec, Option.toList_none, List.append_nil]
      refine ⟨fun _ => ?_, fun _ => hcorrelated⟩
      rintro _ _ _ ⟨⟩ hstate hnewest hopen hfit
      exact absurd ⟨⟨hstate, hnewest, not_heardBack_iff.mp hopen⟩, hfit⟩ hnot
  · rw [Call.answer_eq_none hkind, Option.toList_none, List.append_nil]
    refine ⟨fun _ taskId text questionId hop => ?_, fun _ => ?_⟩
    · rw [hop] at hkind
      exact absurd List.mem_cons_self hkind
    · exact correlated_exec_of_ne h hkind hcorrelated

/-- A new hub keeps the transcript's invariant: nothing is written in it. -/
theorem kept_start (u : Uuids) : (Transcript.start u).Kept where
  posted := by simp [Transcript.start, Hub.start, Db.empty, Db.Posted]
  roster := consistent_start u
  logged := by simp [Transcript.start]

/-- **Questions and answers are correlated** in every state of a run if and only if every reply
    of the run answers in order: the newest question, when all others of its task have theirs. -/
theorem question_answer_correlation (u : Uuids) (ls : List Call) :
    HoldsAlong Transcript.exec (fun s => s.state.db.Correlated s.log) (Transcript.start u) ls ↔
      MeetsAlong Transcript.exec AnswersInOrder (Transcript.start u) ls := by
  refine holdsAlong_iff kept_exec correlated_exec (kept_start u) ?_ ls
  simp [Transcript.start, Hub.start, Db.empty, Db.Correlated]

/-- Ada asks twice, and Alice answers the second question: that answer is what is found for the
    first one. -/
theorem answer_to_another_question :
    let s := (Transcript.start .unary).run
      [⟨.initializeWorkflow "goal" {}, stoppedClock⟩,
        ⟨.checkIn "ada" {} (some "ada-1") {} none, stoppedClock⟩,
        ⟨.assignTask "ada" "implementer" "Fix it" "See issue 7" 30 none none, stoppedClock⟩,
        ⟨.claimAssignment "ada", stoppedClock⟩,
        ⟨.openQuestion "uuu" "ada" "Ship it as drafted?" "q-1", stoppedClock⟩,
        ⟨.openQuestion "uuu" "ada" "Drop the old module?" "q-2", stoppedClock⟩,
        ⟨.reply "uuu" "yes" 4, stoppedClock⟩]
    ¬ s.state.db.Correlated s.log := by
  intro s h
  have hfound : ∃ t ∈ s.state.db.tasks.rows, t.isOpen ∧ ∃ q ∈ s.state.db.messages.rows,
      q.questionOn t.id ∧ ∃ m ∈ s.state.db.messages.rows,
        s.state.db.pendingReply t.id q.id = some m ∧
          ∃ a ∈ s.log, a.messageId = m.id ∧ a.questionId ≠ q.id := by decide +kernel
  obtain ⟨t, ht, hopen, q, hq, hquestion, m, -, hm, a, ha, hid, hne⟩ := hfound
  exact hne ((h t ht hopen q hq hquestion m hm).2 a ha hid)

end AgentHub
