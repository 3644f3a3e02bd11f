import AgentHub.Hub.Lifecycle
import AgentHub.Hub.Transcript

namespace AgentHub

open Relational

/-!
# When a reply applies

A question parks its task and a reply resumes it, so the state of an open task can be read off its
transcript.  From this the three guards of `reply` come down to two.

* `Db.Waits` — the newest question of a task has had no word from Alice since;
* `Db.Parked` — an open task is `input-required` exactly when it waits; `parked_run`;
* `AnsweredOnce` — the replies applied so far went to different questions;
* `reply_guards` — a reply applies exactly to the newest question of a parked task.
-/

/-- The task has a question, and Alice has written nothing since the newest one. -/
def Db.Waits (d : Db) (taskId : String) : Prop :=
  ∃ q, d.newestQuestion taskId = some q ∧ d.pendingReply taskId q = none

/-- An open task is parked exactly when it waits. -/
def Db.Parked (d : Db) : Prop :=
  ∀ id t, d.tasks.find? id = some t → t.isOpen → (t.state = .inputRequired ↔ d.Waits id)

section

variable {d d' : Db} {m : MessageRecord} {taskId : String}

/-- A message that is no question of the task leaves the newest one. -/
theorem Db.Posts.newestQuestion_eq (h : d.Posts d' m) (hm : ¬ m.questionOn taskId) :
    d'.newestQuestion taskId = d.newestQuestion taskId := by
  have hno : ¬ (m.reports taskId ∧ m.parts.any Part.isQuestion = true) := hm
  rw [Db.newestQuestion, Db.newestQuestion, Serial.last?, Serial.last?, h.1, List.reverse_append,
    List.find?_append, List.reverse_singleton, List.find?_singleton, decide_eq_false hno]
  rfl

/-- A question of the task is the newest one. -/
theorem Db.Posts.newestQuestion_self (h : d.Posts d' m) (hm : m.questionOn taskId) :
    d'.newestQuestion taskId = some m.id := by
  have hyes : m.reports taskId ∧ m.parts.any Part.isQuestion = true := hm
  rw [Db.newestQuestion, Serial.last?, h.1, List.reverse_append, List.find?_append,
    List.reverse_singleton, List.find?_singleton, decide_eq_true hyes]
  rfl

/-- A message that is neither Alice's nor a question leaves a task waiting, or not. -/
theorem Db.Posts.waits_iff (h : d.Posts d' m)
    (hm : m.taskId = some taskId → m.direction = .toAlice ∧ m.parts.any Part.isQuestion = false) :
    d'.Waits taskId ↔ d.Waits taskId := by
  have hquestion : ¬ m.questionOn taskId := by
    rintro ⟨⟨htask, -⟩, hany⟩
    rw [(hm htask).2] at hany
    cases hany
  have hfrom : m.taskId = some taskId → m.direction ≠ .fromAlice := by
    intro htask heq
    rw [(hm htask).1] at heq
    cases heq
  simp only [Db.Waits, h.newestQuestion_eq hquestion, h.pendingReply_eq hfrom]

/-- A question makes its task wait. -/
theorem Db.Posts.waits_self (h : d.Posts d' m) (hm : m.questionOn taskId) : d'.Waits taskId :=
  ⟨m.id, h.newestQuestion_self hm, h.pendingReply_self⟩

/-- One row was written; the other tasks wait as before. -/
theorem parked_of_rewrites {t' : TaskRecord} (hrewrites : d.Rewrites d' t')
    (hothers : ∀ id, id ≠ t'.id → (d'.Waits id ↔ d.Waits id))
    (hself : t'.isOpen → (t'.state = .inputRequired ↔ d'.Waits t'.id)) (hd : d.Parked) :
    d'.Parked := by
  intro id t ht hopen
  rw [hrewrites] at ht
  split at ht
  · rename_i hid
    obtain rfl := Option.some.inj ht
    rw [hid]
    exact hself hopen
  · rename_i hid
    rw [hothers id hid]
    exact hd id t ht hopen

/-- No row was written, and every task waits as before. -/
theorem parked_of_tasks_eq (htasks : d'.tasks = d.tasks)
    (hwaits : ∀ id, d'.Waits id ↔ d.Waits id) (hd : d.Parked) : d'.Parked := by
  intro id t ht hopen
  rw [hwaits]
  rw [htasks] at ht
  exact hd id t ht hopen

end

/-- **Every move keeps parked what waits.** -/
theorem parked_move {k : Kind} {s s' : Hub} (h : Move k s s') (hposted : s.db.Posted)
    (hs : s.db.Parked) : s'.db.Parked := by
  cases h with
  | draw | create | setWorkflowStatus | decide | beat | release | append | lease | ack | lose =>
    exact hs
  | @checkIn d _ name contextId instanceId profile _ row d' ts ts₁ ts₂ _ _ hadmits =>
    have htasks : d'.tasks = d.tasks := hadmits.frame Db.tasks fun _ => rfl
    have hmessages : d'.messages = d.messages := hadmits.frame Db.messages fun _ => rfl
    have hposts : d.Posts (d'.announce name contextId instanceId profile ts₁ ts₂)
        ⟨d'.messages.seq + 1, none, contextId, name, .toAlice, readyParts profile, ts₁⟩ :=
      ⟨congrArg (fun t : Serial MessageRecord.id => t.rows ++ [_]) hmessages,
        congrArg (fun t : Serial MessageRecord.id => t.seq + 1) hmessages⟩
    exact parked_of_tasks_eq htasks
      (fun id => hposts.waits_iff (fun hid => by cases hid)) hs
  | @progress d _ task worker note row ts ts₁ ts₂ htask =>
    have hposts : d.Posts (d.progress task.id worker.name worker.contextId note ts ts₁ ts₂)
        ⟨d.messages.seq + 1, some task.id, worker.contextId, worker.name, .toAlice,
          [⟨note, .progress⟩], ts⟩ := ⟨rfl, rfl⟩
    exact parked_of_tasks_eq (d := d) rfl (fun id => hposts.waits_iff fun _ => ⟨rfl, rfl⟩) hs
  | @renew d _ task expires renewed ts htask hopen hexpires =>
    exact parked_of_rewrites (rewrites_modify htask (Db.setLease_tasks ..) rfl)
      (fun _ _ => Iff.rfl) (hs task.id task htask) hs
  | @expire d _ task expires ts ts' htask hopen hexpires =>
    exact parked_of_rewrites (d := d) (rewrites_modify htask (Db.setLease_tasks ..) rfl)
      (fun _ _ => Iff.rfl) (hs task.id task htask) hs
  | @claim d _ agent task ts _ _ htask =>
    obtain ⟨hfound, -, hstate⟩ := Db.submittedTo?_mem htask
    -- a task that is only submitted has no question waiting on it
    have hbefore : ¬ d.Waits task.id := by
      intro hwaits
      have hparked := (hs task.id task hfound (by rw [TaskRecord.isOpen, hstate]; rfl)).mpr hwaits
      rw [hstate] at hparked
      cases hparked
    refine parked_of_rewrites (rewrites_modify hfound (Db.setState_tasks ..) rfl)
      (fun _ _ => Iff.rfl) (fun _ => ⟨fun heq => ?_, fun hwaits => absurd hwaits hbefore⟩) hs
    cases heq
  | @cancel d _ task ts htask =>
    exact parked_of_rewrites (rewrites_modify htask (Db.finish_tasks ..) rfl)
      (fun _ _ => Iff.rfl) (fun hopen => by cases hopen) hs
  | @loseTask d _ agent taskId ts ts' _ _ hopen =>
    obtain ⟨-, task, htask, -⟩ := Db.openTaskId_eq_some_iff.mp hopen
    obtain rfl : task.id = taskId := Table.find?_key htask
    exact parked_of_rewrites (d := d) (rewrites_modify htask (Db.finish_tasks ..) rfl)
      (fun _ _ => Iff.rfl) (fun hopen => by cases hopen) hs
  | @ask d _ task worker question sentAs ts ts₁ ts₂ htask =>
    have hposts : d.Posts (d.ask task.id worker.name worker.contextId question sentAs ts ts₁ ts₂)
        ⟨d.messages.seq + 1, some task.id, worker.contextId, worker.name, .toAlice,
          questionParts question sentAs, ts⟩ := ⟨rfl, rfl⟩
    refine parked_of_rewrites (rewrites_modify htask (Db.ask_tasks ..) rfl) (fun id hid => ?_)
      (fun _ => ⟨fun _ => hposts.waits_self ⟨⟨rfl, rfl⟩, rfl⟩, fun _ => rfl⟩) hs
    refine hposts.waits_iff fun heq => absurd ?_ hid
    exact (Option.some.inj heq).symm
  | @settle d _ task worker result row ts ts₁ ts₂ htask hopen _ hstate =>
    have hposts : d.Posts (d.settle task.id worker.name worker.contextId result ts ts₁ ts₂)
        ⟨d.messages.seq + 1, some task.id, worker.contextId, worker.name, .toAlice,
          [resultPart result.summary result.state], ts⟩ := ⟨rfl, rfl⟩
    have hrewrites : d.Rewrites
      (d.finish task.id result.state (some (.obj result.payload)) ts₁) _ :=
      rewrites_modify htask (Db.finish_tasks ..) rfl
    refine parked_of_rewrites (d := d) hrewrites (fun id hid => ?_) (fun hopen' => ?_) hs
    · exact hposts.waits_iff fun heq => absurd (Option.some.inj heq).symm hid
    · have hterminal : result.state.terminal = false := hopen'
      rw [hstate] at hterminal
      cases hterminal
  | @override d _ task contextId note state ts ts' htask _ hstate =>
    have hposts : d.Posts (d.override task.id contextId note state ts ts')
        ⟨d.messages.seq + 1, some task.id, contextId, "alice", .fromAlice,
          [⟨note, .stateOverride⟩], ts⟩ := ⟨rfl, rfl⟩
    have hrewrites : d.Rewrites (d.finish task.id state
        (some (.obj [("status", .str state.value), ("summary", .str note)])) ts') _ :=
      rewrites_modify htask (Db.finish_tasks ..) rfl
    refine parked_of_rewrites (d := d) hrewrites (fun id hid => ?_) (fun hopen' => ?_) hs
    · exact hposts.waits_iff fun heq => absurd (Option.some.inj heq).symm hid
    · have hterminal : state.terminal = false := hopen'
      rw [hstate] at hterminal
      cases hterminal
  | @answer d _ taskId contextId text messageId ts ts' hanswerable =>
    obtain ⟨⟨task, htask, hstate⟩, hnewest, -⟩ := hanswerable
    obtain rfl : task.id = taskId := Table.find?_key htask
    have hposts : d.Posts (d.answer task.id contextId text ts ts')
        ⟨d.messages.seq + 1, some task.id, contextId, "alice", .fromAlice, [⟨text, .reply⟩], ts⟩ :=
      ⟨rfl, rfl⟩
    refine parked_of_rewrites (rewrites_modify htask (Db.answer_tasks ..) rfl) (fun id hid => ?_)
      (fun _ => ⟨fun heq => (by cases heq), fun hwaits => ?_⟩) hs
    · exact hposts.waits_iff fun heq => absurd (Option.some.inj heq).symm hid
    · -- the reply itself comes after the newest question
      obtain ⟨q, hq, hnone⟩ := hwaits
      have hsame : Db.newestQuestion _ task.id = d.newestQuestion task.id :=
        hposts.newestQuestion_eq fun h => by cases h.1.2
      obtain ⟨m, hm, rfl⟩ := Option.map_eq_some_iff.mp (hsame.symm.trans hq)
      have hmem : m ∈ d.messages := Serial.mem_of_last? hm
      rw [pendingReply_answer hmem] at hnone
      cases hpending : d.pendingReply task.id m.id <;> rw [hpending] at hnone <;> cases hnone
  | @assign d _ agent request id sourceEventId parts expires ts ts' _ _ _ _ _ hfree _ _ hparts =>
    have hposts : d.Posts (d.assign (request.task id sourceEventId expires ts) agent.name
          agent.contextId parts ts')
        ⟨d.messages.seq + 1, some id, agent.contextId, "alice", .fromAlice, parts, ts'⟩ :=
      ⟨rfl, rfl⟩
    have hrewrites : d.Rewrites (d.assign (request.task id sourceEventId expires ts) agent.name
        agent.contextId parts ts') (request.task id sourceEventId expires ts) := by
      intro id'
      rw [Db.assign_tasks, Table.find?_insertOrIgnore hfree]
      exact if_congr eq_comm rfl rfl
    refine parked_of_rewrites hrewrites (fun id' hid => ?_)
      (fun _ => ⟨fun heq => (by cases heq), fun hwaits => ?_⟩) hs
    · exact hposts.waits_iff fun heq => absurd (Option.some.inj heq).symm hid
    · -- the assignment is no question, and the new task has no other message
      obtain ⟨q, hq, -⟩ := hwaits
      have hsame : Db.newestQuestion _ id = d.newestQuestion id :=
        hposts.newestQuestion_eq fun h => by cases h.1.2
      obtain ⟨m, hm, -⟩ := Option.map_eq_some_iff.mp (hsame.symm.trans hq)
      have hreports := (Serial.of_last? (p := fun m => MessageRecord.reports m id ∧ _) hm).1
      obtain ⟨t, ht⟩ := hposted m (Serial.mem_of_last? hm) id hreports.1
      rw [hfree] at ht
      cases ht

/-- **An open task is parked exactly when it waits**, in every state of every run. -/
theorem parked_run (u : Uuids) (ls : List Call) : ((Hub.start u).run ls).db.Parked := by
  have hboth := (moves_run (Hub.start u) ls).invariant (I := fun s => s.db.Posted ∧ s.db.Parked)
    (fun _ _ _ _ hmove h => ⟨posted_move hmove h.1, parked_move hmove h.1 h.2⟩)
    ⟨(kept_start u).posted, fun id t ht => by cases ht⟩
  exact hboth.2

/-- With the first two guards the third one holds. -/
theorem answerable_iff {d : Db} (hd : d.Parked) {taskId : String} {messageId : ℕ} :
    d.Answerable taskId messageId ↔
      (∃ t ∈ d.tasks.find? taskId, t.state = .inputRequired) ∧
        d.newestQuestion taskId = some messageId := by
  refine ⟨fun h => ⟨h.1, h.2.1⟩, fun ⟨⟨t, ht, hstate⟩, hnewest⟩ => ⟨⟨t, ht, hstate⟩, hnewest, ?_⟩⟩
  have hopen : t.isOpen := by
    rw [TaskRecord.isOpen, hstate]
    rfl
  obtain ⟨q, hq, hnone⟩ := (hd taskId t ht hopen).mp hstate
  obtain rfl : q = messageId := Option.some.inj (hq.symm.trans hnewest)
  exact hnone

/-! ### One reply for each question -/

/-- The replies applied so far went to different questions, and each of these has been heard. -/
structure AnsweredOnce (r : Transcript) : Prop where
  nodup : (r.log.map Answer.questionId).Nodup
  heard : ∀ a ∈ r.log, (∃ q ∈ r.state.db.messages, q.id = a.questionId ∧ q.questionOn a.taskId) ∧
    r.state.db.HeardBack a.taskId a.questionId

/-- No call takes a message away. -/
theorem message_exec (l : Call) {s : Hub} {m : MessageRecord} (hm : m ∈ s.db.messages) :
    m ∈ (l.exec s).db.messages := by
  obtain ⟨m', hm', -, rfl⟩ := Evolves.mem (evolves_run s [l]).messages hm
  exact hm'

/-- An answer heard stays heard. -/
theorem heard_exec (l : Call) {s : Hub} {a : Answer}
    (h : (∃ q ∈ s.db.messages, q.id = a.questionId ∧ q.questionOn a.taskId) ∧
      s.db.HeardBack a.taskId a.questionId) :
    (∃ q ∈ (l.exec s).db.messages, q.id = a.questionId ∧ q.questionOn a.taskId) ∧
      (l.exec s).db.HeardBack a.taskId a.questionId := by
  obtain ⟨⟨q, hq, hquestion⟩, m, hm, hafter⟩ := h
  exact ⟨⟨q, message_exec l hq, hquestion⟩, m, message_exec l hm, hafter⟩

/-- A call answers no question a second time. -/
theorem answeredOnce_exec (l : Call) (r : Transcript) (hkept : r.Kept) (h : AnsweredOnce r) :
    AnsweredOnce (Transcript.exec l r) := by
  -- what was answered before is still answered after the call
  have hold : ∀ a ∈ r.log, _ := fun a ha => heard_exec l (h.heard a ha)
  by_cases hkind : .answer ∈ l.op.kinds
  · obtain ⟨op, clock⟩ := l
    obtain ⟨taskId, text, questionId, rfl⟩ := Op.eq_reply hkind
    obtain ⟨hanswerable, -, hanswer, contextId, ts, ts', hexec⟩ | ⟨-, hanswer, -⟩ :=
      reply_exec_cases hkept.roster taskId text questionId clock
    · obtain ⟨-, hnewest, hnone⟩ := hanswerable
      obtain ⟨q, hlast, hqid⟩ := Option.map_eq_some_iff.mp hnewest
      have hq : q ∈ r.state.db.messages := Serial.mem_of_last? hlast
      have hquestion : q.questionOn taskId :=
        Serial.of_last? (p := fun m => MessageRecord.questionOn m taskId) hlast
      -- a question answered before would have its reply after it, and this one has none
      have hnew : questionId ∉ r.log.map Answer.questionId := by
        intro hmem
        obtain ⟨a, ha, haid⟩ := List.mem_map.mp hmem
        obtain ⟨⟨q', hq', hqid', hquestion'⟩, hheard⟩ := h.heard a ha
        obtain rfl : q' = q :=
          Serial.eq_of_key_eq hq' hq (hqid'.trans (haid.trans hqid.symm))
        have htask : a.taskId = taskId :=
          Option.some.inj (hquestion'.1.1.symm.trans hquestion.1.1)
        rw [htask, haid] at hheard
        exact not_heardBack_iff.mpr hnone hheard
      have hlog : (Transcript.exec ⟨.reply taskId text questionId, clock⟩ r).log
          = r.log ++ [⟨r.state.db.messages.seq + 1, taskId, text, questionId⟩] := by
        show r.log ++ (Call.answer _ r.state).toList = _
        rw [hanswer]
        rfl
      constructor
      · rw [hlog, List.map_append, List.nodup_append]
        refine ⟨h.nodup, List.nodup_singleton questionId, fun a ha b hb heq => hnew ?_⟩
        have hb' : b = questionId := List.mem_singleton.mp hb
        rw [← hb', ← heq]
        exact ha
      · intro a ha
        rw [hlog] at ha
        rcases List.mem_append.mp ha with ha | ha
        · exact hold a ha
        · obtain rfl := List.mem_singleton.mp ha
          refine ⟨⟨q, message_exec _ hq, hqid, hquestion⟩, ?_⟩
          show (Call.exec _ r.state).db.HeardBack taskId questionId
          rw [hexec]
          refine ⟨r.state.db.replyMessage taskId contextId text ts, ?_, rfl, rfl, ?_⟩
          · show _ ∈ (r.state.db.answer taskId contextId text ts ts').messages
            rw [Db.answer_messages, Serial.mem_append]
            exact .inr rfl
          · rw [← hqid]
            exact Nat.lt_succ_of_le (Serial.key_le_seq hq)
    · have hlog : (Transcript.exec ⟨.reply taskId text questionId, clock⟩ r).log = r.log := by
        show r.log ++ (Call.answer _ r.state).toList = _
        rw [hanswer, Option.toList_none, List.append_nil]
      exact ⟨hlog ▸ h.nodup, fun a ha => hold a (hlog ▸ ha)⟩
  · have hlog : (Transcript.exec l r).log = r.log := by
      show r.log ++ (l.answer r.state).toList = _
      rw [Call.answer_eq_none hkind, Option.toList_none, List.append_nil]
    exact ⟨hlog ▸ h.nodup, fun a ha => hold a (hlog ▸ ha)⟩

/-- After any run every question has at most one answer. -/
theorem answeredOnce_run (u : Uuids) (ls : List Call) :
    AnsweredOnce ((Transcript.start u).run ls) := by
  have h0 : (Transcript.start u).Kept ∧ AnsweredOnce (Transcript.start u) :=
    ⟨kept_start u, ⟨List.nodup_nil, fun a ha => by cases ha⟩⟩
  have hboth : ((Transcript.start u).run ls).Kept ∧ AnsweredOnce ((Transcript.start u).run ls) :=
    run_invariant (I := fun r => r.Kept ∧ AnsweredOnce r)
      (fun l r h => ⟨kept_exec l r h.1, answeredOnce_exec l r h.1 h.2⟩) h0 ls
  exact hboth.2

/-- **When a reply applies.**  A call of `reply` with a text within the cap applies exactly when
    the task is `input-required` and the message is its newest question: it then appends one reply
    and sets the task `working`, and otherwise changes nothing.  An open task is `input-required`
    exactly when it has a question and Alice has written nothing since the newest one.  No
    question is answered twice. -/
theorem reply_guards (u : Uuids) (ls : List Call) :
    let r := (Transcript.start u).run ls
    let d := r.state.db
    (∀ taskId text messageId clock,
      let l : Call := ⟨.reply taskId text messageId, clock⟩
      ((l.answer r.state).isSome = true ↔
        (∃ t ∈ d.tasks.find? taskId, t.state = .inputRequired) ∧
          d.newestQuestion taskId = some messageId ∧ PartsFit [⟨text, .reply⟩]) ∧
      ((l.answer r.state).isSome = true → ∃ contextId ts ts',
        l.exec r.state = ⟨d.answer taskId contextId text ts ts', r.state.uuids⟩) ∧
      (l.answer r.state = none → l.exec r.state = r.state)) ∧
    (∀ id t, d.tasks.find? id = some t → t.isOpen →
      (t.state = .inputRequired ↔ ∃ q, d.newestQuestion id = some q ∧ ¬ d.HeardBack id q)) ∧
    (r.log.map Answer.questionId).Nodup := by
  intro r d
  have hstate : r.state = (Hub.start u).run ls := Observed.state_runFrom Call.exec _ _ ls
  have hparked : d.Parked := by
    show r.state.db.Parked
    rw [hstate]
    exact parked_run u ls
  have hroster : r.state.db.roster.Consistent := by
    rw [hstate]
    exact consistent_run u ls
  refine ⟨fun taskId text messageId clock => ?_, fun id t ht hopen => ?_,
    (answeredOnce_run u ls).nodup⟩
  · obtain ⟨hanswerable, hfit, hanswer, contextId, ts, ts', hexec⟩ | ⟨hnot, hanswer, hexec⟩ :=
      reply_exec_cases hroster taskId text messageId clock
    · obtain ⟨hstate', hnewest⟩ := (answerable_iff hparked).mp hanswerable
      refine ⟨⟨fun _ => ⟨hstate', hnewest, hfit⟩, fun _ => by rw [hanswer]; rfl⟩,
        fun _ => ⟨contextId, ts, ts', hexec⟩, fun hnone => ?_⟩
      rw [hanswer] at hnone
      cases hnone
    · refine ⟨⟨fun hsome => ?_, fun hguards => absurd ?_ hnot⟩, fun hsome => ?_, fun _ => hexec⟩
      · rw [hanswer] at hsome
        cases hsome
      · exact ⟨(answerable_iff hparked).mpr ⟨hguards.1, hguards.2.1⟩, hguards.2.2⟩
      · rw [hanswer] at hsome
        cases hsome
  · rw [hparked id t ht hopen]
    simp only [Db.Waits, not_heardBack_iff]

end AgentHub
