import AgentHub.Hub.Transcript

namespace AgentHub

open Relational

/-!
# Questions that are answered

An answer is looked up by its place in the transcript, and nothing is ever written before it; so
what is found for a question once is found for it ever after, and a second reply to the question
finds the first and is not applied.

* `Db.Newest` — the newest question of a task;
* `Transcript.Answered` — every applied reply is what is found for its question, no question has
  two, and what is found for the newest question of an open task is a reply to it;
* `answered_run` — so it is in every run.
-/

/-- The newest question on the task. -/
structure Db.Newest (d : Db) (taskId : String) (q : MessageRecord) : Prop where
  mem : q ∈ d.messages
  questionOn : q.questionOn taskId
  newest : ∀ q' ∈ d.messages, q'.questionOn taskId → q'.id ≤ q.id

/-- What is found for the question of the answer is the message that the answer wrote. -/
def Db.Finds (d : Db) (a : Answer) : Prop :=
  ∃ m, d.pendingReply a.taskId a.questionId = some m ∧ m.id = a.messageId ∧
    m.parts = [⟨a.text, .reply⟩]

/-- The replies that were applied, and what is found for the questions. -/
structure Transcript.Answered (s : Transcript) : Prop where
  found : ∀ a ∈ s.log, s.state.db.Finds a
  once : s.log.Pairwise fun a b => ¬ (a.taskId = b.taskId ∧ a.questionId = b.questionId)
  newest : ∀ t ∈ s.state.db.tasks, t.isOpen → ∀ q, s.state.db.Newest t.id q →
    ∀ m, s.state.db.pendingReply t.id q.id = some m →
      ∃ a ∈ s.log, a.messageId = m.id ∧ a.taskId = t.id ∧ a.questionId = q.id

/-! ### What is found stays -/

section

variable {d d' : Db} {taskId : String} {after : ℕ} {m : MessageRecord}

/-- What is found stays what is found. -/
theorem Db.Posts.pendingReply_some {new : MessageRecord} (h : d.Posts d' new)
    (hm : d.pendingReply taskId after = some m) : d'.pendingReply taskId after = some m := by
  have hfind : d.messages.rows.find? (fun m => decide
      (m.taskId = some taskId ∧ m.direction = .fromAlice ∧ after < m.id)) = some m := hm
  rw [Db.pendingReply, Serial.first?, h.1, List.find?_append, hfind, Option.some_or]

/-- No move changes the reply that is found. -/
theorem pendingReply_move {k : Kind} {s s' : Hub} (h : Move k s s')
    (hm : s.db.pendingReply taskId after = some m) :
    s'.db.pendingReply taskId after = some m := by
  obtain hsame | ⟨new, hposts, -⟩ := messages_move h
  · rw [Db.pendingReply, hsame]
    exact hm
  · exact hposts.pendingReply_some hm

/-- No call changes the reply that is found. -/
theorem pendingReply_exec (l : Call) (s : Hub) (hm : s.db.pendingReply taskId after = some m) :
    (l.exec s).db.pendingReply taskId after = some m :=
  (moves_exec l s).invariant (I := fun t => t.db.pendingReply taskId after = some m)
    (fun _ _ _ _ hmove hI => pendingReply_move hmove hI) hm

/-- A question stays on its task. -/
theorem Db.Newest.of_move {k : Kind} {s s' : Hub} (h : Move k s s') {q : MessageRecord}
    (hq : s'.db.Newest taskId q) (hold : q ∈ s.db.messages) : s.db.Newest taskId q := by
  refine ⟨hold, hq.questionOn, fun q' hq' => hq.newest q' ?_⟩
  obtain hsame | ⟨new, ⟨hrows, -⟩, -⟩ := messages_move h
  · exact hsame ▸ hq'
  · rw [Serial.mem_iff, hrows]
    exact List.mem_append_left _ hq'

end

/-! ### A call that is no reply -/

/-- What is found for the newest question of an open task is a logged reply to it. -/
def Db.NewestAnswered (d : Db) (answers : List Answer) : Prop :=
  ∀ t ∈ d.tasks, t.isOpen → ∀ q, d.Newest t.id q → ∀ m, d.pendingReply t.id q.id = some m →
    ∃ a ∈ answers, a.messageId = m.id ∧ a.taskId = t.id ∧ a.questionId = q.id

/-- Every move but an answer leaves the newest question of an open task as answered as it was. -/
theorem newestAnswered_move {k : Kind} {s s' : Hub} {answers : List Answer} (h : Move k s s')
    (hk : k ≠ .answer) (hposted : s.db.Posted) (hanswered : s.db.NewestAnswered answers) :
    s'.db.NewestAnswered answers := by
  intro t ht hopen q hq m hm
  obtain hnone | ⟨hold, hsame⟩ := transcript_move h hk hposted ht hopen hq.mem hq.questionOn
  · rw [hnone] at hm
    cases hm
  · obtain ⟨told, htold, hid, htopen⟩ := open_before h hposted ht hopen hold hq.questionOn.1.1
    rw [hsame] at hm
    have hq' := hq.of_move h hold
    rw [← hid] at hm hq' ⊢
    exact hanswered told htold htopen q hq' m hm

/-- So does every call that is no `reply`. -/
theorem newestAnswered_exec_of_ne {l : Call} {s : Transcript} (h : s.Kept)
    (hl : .answer ∉ l.op.kinds) (hanswered : s.state.db.NewestAnswered s.log) :
    (l.exec s.state).db.NewestAnswered s.log := by
  have hboth := (moves_exec l s.state).invariant
    (I := fun t => t.db.Posted ∧ t.db.NewestAnswered s.log) ?_ ⟨h.posted, hanswered⟩
  · exact hboth.2
  · rintro k t t' hk hmove ⟨hposted, hI⟩
    have hne : k ≠ .answer := fun heq => hl (heq ▸ hk)
    exact ⟨posted_move hmove hposted, newestAnswered_move hmove hne hposted hI⟩

/-! ### A reply -/

section

variable {d : Db} {answers : List Answer} {taskId contextId text : String} {questionId : ℕ}
  {ts ts' : Stamp}

/-- A reply is found for the question it was given to. -/
theorem finds_answer (hanswerable : d.Answerable taskId questionId) :
    (d.answer taskId contextId text ts ts').Finds
      ⟨d.messages.seq + 1, taskId, text, questionId⟩ := by
  obtain ⟨-, hnewest, hnone⟩ := hanswerable
  obtain ⟨q, hq, rfl⟩ := Option.map_eq_some_iff.mp hnewest
  refine ⟨d.replyMessage taskId contextId text ts, ?_, rfl, rfl⟩
  rw [pendingReply_answer (Serial.mem_of_last? hq), hnone, Option.none_or]

/-- A reply that is applied answers the newest question. -/
theorem newestAnswered_answer (hanswerable : d.Answerable taskId questionId)
    (hanswered : d.NewestAnswered answers) :
    (d.answer taskId contextId text ts ts').NewestAnswered
      (answers ++ [⟨d.messages.seq + 1, taskId, text, questionId⟩]) := by
  obtain ⟨⟨task, htask, hstate⟩, hnewest, hnone⟩ := hanswerable
  obtain rfl : task.id = taskId := Table.find?_key htask
  intro t ht hopen q hq m hm
  have hold : q ∈ d.messages := question_of_answer hq.mem hq.questionOn
  have hq' : d.Newest t.id q := by
    refine ⟨hold, hq.questionOn, fun q' hq' => hq.newest q' ?_⟩
    rw [Db.answer_messages, Serial.mem_append]
    exact .inl hq'
  by_cases hid : t.id = task.id
  · -- the newest question is the one that was answered now
    rw [hid] at hq' hm
    obtain ⟨last, hlast, rfl⟩ := Option.map_eq_some_iff.mp hnewest
    have hasked := Serial.of_last? hlast
    have hself : q.id = last.id :=
      Nat.le_antisymm (Serial.le_last? hlast hq'.mem hq'.questionOn)
        (hq'.newest last (Serial.mem_of_last? hlast) hasked)
    rw [pendingReply_answer hold, hself, hnone] at hm
    obtain rfl : d.replyMessage task.id contextId text ts = m := Option.some.inj hm
    exact ⟨_, List.mem_append_right _ List.mem_cons_self, rfl, hid.symm, hself.symm⟩
  · rw [pendingReply_answer_ne hid] at hm
    have ht' : d.tasks.find? t.id = some t := by
      have hfound := Table.find?_of_mem ht
      rwa [Db.answer_tasks, Table.find?_modify_ne _ hid] at hfound
    obtain ⟨a, ha, hrest⟩ := hanswered t (Table.mem_of_find? ht') hopen q hq' m hm
    exact ⟨a, List.mem_append_left _ ha, hrest⟩

end

/-! ### Runs -/

/-- Every call keeps the replies and the transcript in agreement. -/
theorem answered_exec (l : Call) (s : Transcript) (h : s.Kept) (hanswered : s.Answered) :
    (Transcript.exec l s).Answered := by
  have hstays (a : Answer) (ha : a ∈ s.log) : (l.exec s.state).db.Finds a := by
    obtain ⟨m, hm, hrest⟩ := hanswered.found a ha
    exact ⟨m, pendingReply_exec l s.state hm, hrest⟩
  by_cases hkind : .answer ∈ l.op.kinds
  · obtain ⟨op, clock⟩ := l
    obtain ⟨taskId, text, questionId, rfl⟩ := Op.eq_reply hkind
    obtain ⟨hanswerable, -, hanswer, contextId, ts, ts', hexec⟩ | ⟨-, hanswer, hexec⟩ :=
      reply_exec_cases h.roster taskId text questionId clock
    · have hlog : (Transcript.exec ⟨.reply taskId text questionId, clock⟩ s).log =
          s.log ++ [⟨s.state.db.messages.seq + 1, taskId, text, questionId⟩] := by
        rw [Transcript.exec, Observed.step, hanswer]
        rfl
      have hdb : (Transcript.exec ⟨.reply taskId text questionId, clock⟩ s).state.db =
          s.state.db.answer taskId contextId text ts ts' := congrArg Hub.db hexec
      constructor
      · intro a ha
        rw [hlog, List.mem_append, List.mem_singleton] at ha
        rcases ha with ha | rfl
        · exact hstays a ha
        · rw [hdb]
          exact finds_answer hanswerable
      · rw [hlog, List.pairwise_append]
        refine ⟨hanswered.once, List.pairwise_singleton _ _, fun a ha b hb => ?_⟩
        obtain rfl := List.mem_singleton.mp hb
        -- the question had no answer yet
        rintro ⟨htask, hquestion⟩
        obtain ⟨m, hm, -⟩ := hanswered.found a ha
        rw [htask, hquestion, hanswerable.2.2] at hm
        cases hm
      · rw [hlog, hdb]
        exact newestAnswered_answer hanswerable hanswered.newest
    · rw [Transcript.exec, Observed.step, hanswer, hexec, Option.toList_none, List.append_nil]
      exact hanswered
  · rw [Transcript.exec, Observed.step, Call.answer_eq_none hkind, Option.toList_none,
      List.append_nil]
    exact ⟨hstays, hanswered.once, newestAnswered_exec_of_ne h hkind hanswered.newest⟩

/-- An empty hub has no replies. -/
theorem answered_start (u : Uuids) : (Transcript.start u).Answered where
  found := by simp [Transcript.start]
  once := List.Pairwise.nil
  newest := by simp [Transcript.start, Hub.start, Db.empty]

/-- What every run keeps of the transcript and the replies. -/
theorem answered_run (u : Uuids) (ls : List Call) :
    ((Transcript.start u).run ls).Kept ∧ ((Transcript.start u).run ls).Answered :=
  run_invariant (I := fun s => s.Kept ∧ s.Answered)
    (fun l s h => ⟨kept_exec l s h.1, answered_exec l s h.1 h.2⟩)
    ⟨kept_start u, answered_start u⟩ ls

/-- **No question is answered twice.**  In every state of every run: the message an applied reply
    wrote is what is found for the question it was given to; no two applied replies were given to
    one question; and what is found for the newest question of an open task was said to it. -/
theorem answered_once (u : Uuids) (ls : List Call) :
    let s := (Transcript.start u).run ls
    (∀ a ∈ s.log, s.state.db.Finds a) ∧
      (s.log.Pairwise fun a b => ¬ (a.taskId = b.taskId ∧ a.questionId = b.questionId)) ∧
      ∀ t ∈ s.state.db.tasks, t.isOpen → ∀ q, s.state.db.Newest t.id q →
        ∀ m, s.state.db.pendingReply t.id q.id = some m →
          ∃ a ∈ s.log, a.messageId = m.id ∧ a.taskId = t.id ∧ a.questionId = q.id :=
  have h := (answered_run u ls).2
  ⟨h.found, h.once, h.newest⟩

/-! ### The id a question was asked under -/

/-- A part that asks is a question. -/
theorem Part.isQuestion_of_asks {p : Part} {sentAs : String} (h : p.asks sentAs = true) :
    p.isQuestion = true := by
  have hmetadata : p.metadata = .question sentAs := by simpa [Part.asks] using h
  rw [Part.isQuestion, hmetadata]

section

variable {d d' : Db} {taskId sentAs : String} {m : MessageRecord}

/-- A message asks under an id on one task. -/
def MessageRecord.asksOn (m : MessageRecord) (taskId sentAs : String) : Prop :=
  m.reports taskId ∧ m.parts.any (·.asks sentAs)

instance (m : MessageRecord) (taskId sentAs : String) : Decidable (m.asksOn taskId sentAs) :=
  inferInstanceAs (Decidable (_ ∧ _))

/-- Under an id that is not empty the question is looked up in the transcript. -/
theorem askedQuestion_eq (hne : sentAs ≠ "") : d.askedQuestion taskId sentAs =
    (d.messages.first? fun m => m.asksOn taskId sentAs).map MessageRecord.id := if_neg hne

/-- A message that asks on a task is a question on it. -/
theorem MessageRecord.asksOn.questionOn (h : m.asksOn taskId sentAs) : m.questionOn taskId := by
  obtain ⟨hreports, hasks⟩ := h
  obtain ⟨p, hp, hpasks⟩ := List.any_eq_true.mp hasks
  exact ⟨hreports, List.any_eq_true.mpr ⟨p, hp, Part.isQuestion_of_asks hpasks⟩⟩

/-- A message that does not ask under the id changes nothing about it. -/
theorem Db.Posts.askedQuestion_eq (h : d.Posts d' m) (hm : ¬ m.asksOn taskId sentAs) :
    d'.askedQuestion taskId sentAs = d.askedQuestion taskId sentAs := by
  by_cases hne : sentAs = ""
  · simp [Db.askedQuestion, hne]
  · rw [AgentHub.askedQuestion_eq hne, AgentHub.askedQuestion_eq hne, Serial.first?, Serial.first?,
      h.1, List.find?_append]
    simp [hm]

/-- What was asked under an id stays what was asked first. -/
theorem Db.Posts.askedQuestion_some {id : ℕ} (h : d.Posts d' m)
    (hasked : d.askedQuestion taskId sentAs = some id) :
    d'.askedQuestion taskId sentAs = some id := by
  have hne : sentAs ≠ "" := by
    rintro rfl
    simp [Db.askedQuestion] at hasked
  rw [AgentHub.askedQuestion_eq hne] at hasked ⊢
  obtain ⟨q, hq, rfl⟩ := Option.map_eq_some_iff.mp hasked
  have hfind : d.messages.rows.find? (fun m => decide (m.asksOn taskId sentAs)) = some q := hq
  rw [Serial.first?, h.1, List.find?_append, hfind]
  rfl

end

/-- A result is no question. -/
theorem isQuestion_resultPart (summary : String) (state : TaskState) :
    (resultPart summary state).isQuestion = false := by
  unfold resultPart
  split <;> rfl

/-- Only a question asks. -/
theorem unasked_move {k : Kind} {s s' : Hub} (h : Move k s s') (hk : k ≠ .ask)
    (taskId sentAs : String) :
    s'.db.askedQuestion taskId sentAs = s.db.askedQuestion taskId sentAs := by
  have hsilent {d d' : Db} {m : MessageRecord} (hposts : d.Posts d' m)
      (hparts : m.direction = .fromAlice ∨ ∀ p ∈ m.parts, p.isQuestion = false) :
      d'.askedQuestion taskId sentAs = d.askedQuestion taskId sentAs := by
    refine hposts.askedQuestion_eq fun hasks => ?_
    obtain ⟨hreports, hany⟩ := hasks.questionOn
    rcases hparts with hfrom | hparts
    · rw [hreports.2] at hfrom
      cases hfrom
    · obtain ⟨p, hp, hquestion⟩ := List.any_eq_true.mp hany
      rw [hparts p hp] at hquestion
      cases hquestion
  cases h with
  | ask => exact absurd rfl hk
  | draw | create | setWorkflowStatus | decide | beat | renew | release | cancel | claim | expire |
    lose | loseTask | append | lease | ack => rfl
  | @checkIn d _ name contextId instanceId profile _ row d' ts ts₁ ts₂ _ _ hadmits =>
    have hmessages : d'.messages = d.messages := hadmits.frame Db.messages fun _ => rfl
    refine hsilent (m := ⟨d'.messages.seq + 1, none, contextId, name, .toAlice, readyParts profile,
      ts₁⟩) ⟨?_, ?_⟩ (.inr fun p hp => ?_)
    · exact congrArg (fun t : Serial MessageRecord.id => t.rows ++ [_]) hmessages
    · exact congrArg (fun t : Serial MessageRecord.id => t.seq + 1) hmessages
    · obtain rfl := List.mem_singleton.mp hp
      rfl
  | progress =>
    refine hsilent ⟨rfl, rfl⟩ (.inr fun p hp => ?_)
    obtain rfl := List.mem_singleton.mp hp
    rfl
  | settle =>
    refine hsilent ⟨rfl, rfl⟩ (.inr fun p hp => ?_)
    obtain rfl := List.mem_singleton.mp hp
    exact isQuestion_resultPart ..
  | answer | assign | override => exact hsilent ⟨rfl, rfl⟩ (.inl rfl)

/-- A call that does not ask under the id leaves what was asked under it. -/
theorem askedQuestion_exec (l : Call) (s : Hub) {taskId sentAs : String}
    (hl : ∀ agent text, l.op ≠ .openQuestion taskId agent text sentAs) :
    (l.exec s).db.askedQuestion taskId sentAs = s.db.askedQuestion taskId sentAs := by
  by_cases hkind : .ask ∈ l.op.kinds
  · obtain ⟨op, clock⟩ := l
    cases op <;> simp [Op.kinds] at hkind
    case openQuestion id agent text sentAs' =>
    rw [Call.exec_eq rfl clock s]
    rcases atomically_cases (openQuestion id agent text sentAs') (s.connect clock) with
      ⟨questionId, c', hc, hat⟩ | ⟨e, -, hat⟩
    · rw [hat]
      obtain ⟨-, task, worker, -, -, -, ⟨-, hdb⟩ | ⟨-, -, -, ts, ts', ts'', hdb⟩⟩ :=
        openQuestion_cases hc
      · exact congrArg (·.askedQuestion taskId sentAs) hdb
      · have hhub : c'.hub.db = s.db.ask id agent worker.contextId text sentAs' ts ts' ts'' := hdb
        rw [hhub]
        refine Db.Posts.askedQuestion_eq ⟨rfl, rfl⟩ fun hasks => ?_
        obtain ⟨⟨htask, -⟩, hany⟩ := hasks
        obtain rfl : id = taskId := Option.some.inj htask
        have hsame : sentAs' = sentAs := by
          simpa [questionParts, Part.asks] using hany
        exact hl agent text (by rw [hsame])
    · rw [hat]
      rfl
  · refine (moves_exec l s).invariant (I := fun t => t.db.askedQuestion taskId sentAs =
      s.db.askedQuestion taskId sentAs) (fun k t t' hk hmove hI => ?_) rfl
    rw [unasked_move hmove (fun heq => hkind (heq ▸ hk)), hI]

/-- What a question was asked as, and what was found for it, stay. -/
structure Db.Keeps (d d' : Db) : Prop where
  mem : ∀ m ∈ d.messages, m ∈ d'.messages
  asked : ∀ taskId sentAs id, d.askedQuestion taskId sentAs = some id →
    d'.askedQuestion taskId sentAs = some id
  found : ∀ taskId after m, d.pendingReply taskId after = some m →
    d'.pendingReply taskId after = some m

/-- A database keeps what it has. -/
theorem Db.Keeps.refl (d : Db) : d.Keeps d := ⟨fun _ h => h, fun _ _ _ h => h, fun _ _ _ h => h⟩

/-- What is kept in two steps is kept. -/
theorem Db.Keeps.trans {d d' d'' : Db} (h : d.Keeps d') (h' : d'.Keeps d'') : d.Keeps d'' where
  mem m hm := h'.mem m (h.mem m hm)
  asked taskId sentAs id hid := h'.asked taskId sentAs id (h.asked taskId sentAs id hid)
  found taskId after m hm := h'.found taskId after m (h.found taskId after m hm)

/-- Every move keeps messages, questions and replies. -/
theorem keeps_move {k : Kind} {s s' : Hub} (h : Move k s s') : s.db.Keeps s'.db := by
  obtain hsame | ⟨m, hposts, -⟩ := messages_move h
  · refine ⟨fun m hm => hsame ▸ hm, fun taskId sentAs id hid => ?_, fun _ _ _ =>
      pendingReply_move h⟩
    rw [Db.askedQuestion, hsame]
    exact hid
  · refine ⟨fun m hm => ?_, fun _ _ _ => hposts.askedQuestion_some, fun _ _ _ =>
      hposts.pendingReply_some⟩
    rw [Serial.mem_iff, hposts.1]
    exact List.mem_append_left _ hm

/-- Every call keeps messages, questions and replies. -/
theorem keeps_exec (l : Call) (s : Hub) : s.db.Keeps (l.exec s).db :=
  (moves_exec l s).invariant (I := fun t => s.db.Keeps t.db)
    (fun _ _ _ _ hmove hI => hI.trans (keeps_move hmove)) (.refl _)

end AgentHub
