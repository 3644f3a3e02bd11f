import AgentHub.Hub.Answers
import AgentHub.Worker.Asking
import AgentHub.Worker.ExactlyOnce

namespace AgentHub

open Relational

/-!
# A question is asked once

A question goes out again and again under its id: after a failed attempt, after a hold that timed
out, or in a copy that comes late.  The hub asks it once, and whatever a stream of it ends with is
about that one message.

* `Db.AskedAs` — the message and the event of a question;
* `dispatch_question_cases` — a question is refused, recognised, or asked;
* `Network.Questioned` — which question each hold, answer and return is about;
* `question_asked_once` — an undisturbed logical call asks one question, and a reply that it
  returns is what Alice applied to that question.
-/

/-- The message and the event of a question that was asked under `sentAs`. -/
structure Db.AskedAs (d : Db) (taskId text sentAs : String) (q : MessageRecord) (e : EventRecord) :
    Prop where
  mem : q ∈ d.messages
  asked : d.askedQuestion taskId sentAs = some q.id
  reports : q.reports taskId
  parts : q.parts = questionParts text sentAs
  event : ∃ agent, e.payload = .workerQuestion taskId agent text q.id

/-- The request asks the question `questionId` of the task. -/
def Db.AskedBy (d : Db) (out : Outgoing) (taskId : String) (questionId : ℕ) : Prop :=
  (∃ text, out.subject = .question taskId text) ∧ d.askedQuestion taskId out.id = some questionId

/-! ### A question reaches the hub -/

section

variable {d d' : Db} {taskId text sentAs : String} {q : MessageRecord} {e : EventRecord}
  {questionId : ℕ} {out : Outgoing}

/-- A question asked stays asked, with its event. -/
theorem Db.Keeps.askedAs (h : d.Keeps d') (hasked : d.AskedAs taskId text sentAs q e) :
    d'.AskedAs taskId text sentAs q e where
  mem := h.mem q hasked.mem
  asked := h.asked _ _ _ hasked.asked
  reports := hasked.reports
  parts := hasked.parts
  event := hasked.event

/-- The question an answer is for stays that one. -/
theorem Db.Keeps.askedBy (h : d.Keeps d') (hasked : d.AskedBy out taskId questionId) :
    d'.AskedBy out taskId questionId := ⟨hasked.1, h.asked _ _ _ hasked.2⟩

/-- Asking for the first time. -/
theorem askedAs_ask {agent contextId : String} {ts ts' ts'' : Stamp} (hne : sentAs ≠ "")
    (hnone : d.askedQuestion taskId sentAs = none) :
    ∃ q e, q.id = d.messages.seq + 1 ∧
      (d.ask taskId agent contextId text sentAs ts ts' ts'').AskedAs taskId text sentAs q e ∧
      d.written (d.ask taskId agent contextId text sentAs ts ts' ts'') =
        [.message q, .event e] := by
  let q : MessageRecord := ⟨d.messages.seq + 1, some taskId, contextId, agent, .toAlice,
    questionParts text sentAs, ts⟩
  let e : EventRecord :=
    { id := d.events.seq + 1, ts := ts'',
      payload := .workerQuestion taskId agent text (d.messages.seq + 1) }
  have hasks : q.asksOn taskId sentAs := by
    refine ⟨⟨rfl, rfl⟩, ?_⟩
    simp [q, questionParts, Part.asks]
  refine ⟨q, e, rfl, ⟨?_, ?_, ⟨rfl, rfl⟩, rfl, agent, rfl⟩, ?_⟩
  · rw [Db.ask_messages, Serial.mem_append]
    exact .inr rfl
  · rw [askedQuestion_eq hne] at hnone ⊢
    have hnone' : d.messages.rows.find? (fun m => decide (m.asksOn taskId sentAs)) = none := by
      simpa [Serial.first?] using hnone
    have hrows : (d.ask taskId agent contextId text sentAs ts ts' ts'').messages.rows =
      d.messages.rows ++ [q] := rfl
    rw [Serial.first?, hrows, List.find?_append, hnone']
    simp [hasks]
  · simp [Db.written, q, e]

/-- A mutation gives no answer. -/
theorem Op.answer_notMem_kinds {op : Op} {mu : Mutating} (h : op.mutating? = some mu) :
    Kind.answer ∉ op.kinds := by
  cases op <;> simp [Op.mutating?] at h <;> simp [Op.kinds]

variable {r : Rendering} {remoteAddr : Option String}

/-- **A question reaches the hub.**  It is refused; or its stream is held, for the question that was
    asked under its id before or is asked now. -/
theorem dispatch_question_cases (hasks : out.Asks taskId text) (hne : out.id ≠ "") (s : Hub)
    (clock : ℕ → Moment) :
    let served := atomically (dispatch r remoteAddr out.request) (s.connect clock)
    (∃ e, served = (.error e, s.connect clock)) ∨
    ∃ agent task questionId,
      served.1 = .ok (.holdReply agent task questionId out.id) ∧ task.id = taskId ∧
      served.2.hub =
        (Call.mk (.openQuestion taskId agent.name (strip text) out.id) clock).exec s ∧
      ((s.db.askedQuestion taskId out.id = some questionId ∧ served.2.db = s.db) ∨
        s.db.askedQuestion taskId out.id = none ∧ ∃ q e, q.id = questionId ∧
          served.2.db.AskedAs taskId (strip text) out.id q e ∧
          s.db.written served.2.db = [.message q, .event e]) := by
  intro served
  rcases atomically_cases (dispatch r remoteAddr out.request) (s.connect clock) with
    ⟨x, c', hc, hat⟩ | ⟨e, -, hat⟩
  · right
    have hserved : served = (.ok x, c') := hat
    rw [hserved]
    rw [hasks.request] at hc
    simp only [dispatch, commits_bind] at hc
    obtain ⟨_, t, hsizes, hc⟩ := hc
    obtain rfl := checkMessagePartSizes_cases hsizes
    obtain ⟨agent, -, ⟨taskId', task, questionId, htaskId, hrow, -, hask, rfl⟩ | ⟨hnone, -⟩⟩ :=
      stream_cases hc
    · obtain rfl : taskId' = taskId := Option.some.inj (htaskId.symm.trans hasks.task)
      obtain rfl : task.id = taskId' := Table.find?_key hrow
      rw [hasks.text, hasks.messageId] at hask
      refine ⟨agent, task, questionId, by rw [hasks.messageId], rfl, ?_, ?_⟩
      · rw [Call.exec_eq rfl clock s, atomically_of_commits hask]
      · obtain ⟨-, -, worker, -, -, -, ⟨hasked, hdb⟩ | ⟨hnone, hquestion, -, ts, ts', ts'', hdb⟩⟩ :=
          openQuestion_cases hask
        · exact .inl ⟨hasked, hdb⟩
        · have hnone' : s.db.askedQuestion task.id out.id = none := hnone
          obtain ⟨q, e, hq, hasked, hwritten⟩ := @askedAs_ask s.db task.id (strip text) out.id
            agent.name worker.contextId ts ts' ts'' hne hnone'
          have hdb' : c'.db = s.db.ask task.id agent.name worker.contextId (strip text) out.id
            ts ts' ts'' := hdb
          exact .inr ⟨hnone', q, e, hq.trans hquestion.symm, hdb' ▸ hasked, hdb' ▸ hwritten⟩
    · rw [hasks.task] at hnone
      cases hnone
  · exact .inl ⟨e, hat⟩

end

namespace Network

/-! ### What is about which question -/

/-- What was written under the message id of a question. -/
def underQuestion (w : Network) (id : String) : List Written :=
  (w.posts.filter fun p => ¬ p.key.Mutates ∧ p.id = id).flatMap Post.writes

/-- The hub, and the replies that were applied. -/
def transcript (w : Network) : Transcript := ⟨w.hub, w.replies⟩

/-- The stream is held for the question that its request asks, and named after it. -/
def Holds (w : Network) (held : HeldQuestion) : Prop :=
  ∃ i, w.invocations[held.invocation]? = some i ∧ held.sentAs = i.id ∧
    w.hub.db.AskedBy i.toOutgoing held.taskId held.questionId

/-- What a stream ended with is about the question that the request asks. -/
def Streams (w : Network) (n : ℕ) (e : StreamEnd) : Prop :=
  ∃ i taskId questionId, w.invocations[n]? = some i ∧
    w.hub.db.AskedBy i.toOutgoing taskId questionId ∧
    (∀ retryAs, e = .timeout retryAs → retryAs = i.id) ∧
    ∀ m, e = .reply m → w.hub.db.pendingReply taskId questionId = some m

/-- What an ask returned is about a question that a request of its call asks. -/
def Gives (w : Network) (x : Return) : Prop :=
  ∀ c, w.logicals[x.logical]? = some c → ¬ c.subject.key.Mutates →
    ∃ i ∈ w.invocations, i.logical = x.logical ∧ ∃ taskId questionId,
      w.hub.db.AskedBy i.toOutgoing taskId questionId ∧
      ∀ text, x.value = .reply text → ∃ m, w.hub.db.pendingReply taskId questionId = some m ∧
        text = String.join (m.parts.map Part.text)

/-- The questions: only the worker's requests ask under its ids, under an id there is one message
    and one event once it was asked, and every hold, answer and return is about the question of its
    request. -/
structure Questioned (u : HexUuids) (w : Network) : Prop where
  kept : w.transcript.Kept
  answered : w.transcript.Answered
  known : ∀ taskId id questionId, ¬ u.Misses id →
    w.hub.db.askedQuestion taskId id = some questionId →
    ∃ i ∈ w.invocations, ¬ i.subject.key.Mutates ∧ i.id = id
  holds : ∀ held ∈ w.holds, w.Holds held
  answers : ∀ n e, (n, .streamed e) ∈ w.answers → w.Streams n e
  written : ∀ i ∈ w.invocations, ∀ taskId text, i.subject = .question taskId text →
    (w.hub.db.askedQuestion taskId i.id = none ∧ w.underQuestion i.id = []) ∨
      ∃ q e, w.hub.db.AskedAs taskId (strip text) i.id q e ∧
        w.underQuestion i.id = [.message q, .event e]
  returned : ∀ x ∈ w.returns, w.Gives x

section

variable {w w' : Network} {u : HexUuids} {settings : WorkerSettings} {n : ℕ} {out : Outgoing}

/-- A hold that times out is retried under the id it was sent with. -/
theorem Questioned.retries (h : w.Questioned u) : w.Retries := by
  intro n retryAs i ha hget
  obtain ⟨j, taskId, questionId, hj, -, hretry, -⟩ := h.answers n _ ha
  obtain rfl := Option.some.inj (hget.symm.trans hj)
  exact hretry retryAs rfl

/-- One more post under the message id of a question. -/
theorem underQuestion_append {p : Post} (hposts : w'.posts = w.posts ++ [p]) (id : String) :
    w'.underQuestion id =
      w.underQuestion id ++ if ¬ p.key.Mutates ∧ p.id = id then p.writes else [] := by
  by_cases hp : ¬ p.key.Mutates ∧ p.id = id <;>
    simp [underQuestion, hposts, List.filter_append, hp]

/-! ### What stays -/

/-- The requests and the logical calls so far are still there, and so is what was asked and
    found. -/
structure Extends (w w' : Network) : Prop where
  keeps : w.hub.db.Keeps w'.hub.db
  invocations : ∀ (n : ℕ) i, w.invocations[n]? = some i → w'.invocations[n]? = some i
  logicals : ∀ (n : ℕ) c, w.logicals[n]? = some c → w'.logicals[n]? = some c

/-- A message sent stays sent. -/
theorem Extends.mem (h : w.Extends w') {i : Invocation} (hi : i ∈ w.invocations) :
    i ∈ w'.invocations := by
  obtain ⟨n, hn⟩ := List.mem_iff_getElem?.mp hi
  exact List.mem_of_getElem? (h.invocations n i hn)

/-- A question held stays held, or its stream has ended. -/
theorem Extends.holds (h : w.Extends w') {held : HeldQuestion} (hheld : w.Holds held) :
    w'.Holds held := by
  obtain ⟨i, hi, hid, hasked⟩ := hheld
  exact ⟨i, h.invocations _ i hi, hid, h.keeps.askedBy hasked⟩

/-- A stream that ended stays ended. -/
theorem Extends.streams (h : w.Extends w') {e : StreamEnd} (he : w.Streams n e) :
    w'.Streams n e := by
  obtain ⟨i, taskId, questionId, hi, hasked, hretry, hreply⟩ := he
  exact ⟨i, taskId, questionId, h.invocations _ i hi, h.keeps.askedBy hasked, hretry,
    fun m hm => h.keeps.found _ _ _ (hreply m hm)⟩

/-- What a call returned is still given by the answers. -/
theorem Extends.gives (h : w.Extends w') {x : Return} (hlogical : x.logical < w.logicals.length)
    (hx : w.Gives x) : w'.Gives x := by
  intro c hc hm
  have hold := List.getElem?_eq_getElem hlogical
  obtain rfl := Option.some.inj ((h.logicals _ _ hold).symm.trans hc)
  obtain ⟨i, hi, hn, taskId, questionId, hasked, hreply⟩ := hx _ hold hm
  refine ⟨i, h.mem hi, hn, taskId, questionId, h.keeps.askedBy hasked, fun text htext => ?_⟩
  obtain ⟨m, hm, heq⟩ := hreply text htext
  exact ⟨m, h.keeps.found _ _ _ hm, heq⟩

/-- Nothing is asked under the worker's ids. -/
theorem Questioned.of_extends (h : w.Questioned u) (hids : w.Identified u settings)
    (hasking : w.Asking u) (hkept : w'.transcript.Kept) (hanswered : w'.transcript.Answered)
    (hextends : w.Extends w') (hinvocations : w'.invocations = w.invocations)
    (hasked : ∀ taskId id, ¬ u.Misses id →
      w'.hub.db.askedQuestion taskId id = w.hub.db.askedQuestion taskId id)
    (hunder : ∀ id, w'.underQuestion id = w.underQuestion id)
    (hholds : ∀ held ∈ w'.holds, held ∈ w.holds ∨ w.Holds held)
    (hanswers : ∀ n e, (n, .streamed e) ∈ w'.answers →
      (n, .streamed e) ∈ w.answers ∨ w.Streams n e)
    (hreturns : ∀ x ∈ w'.returns, x ∈ w.returns ∨ w.Gives x ∧ x.logical < w.logicals.length) :
    w'.Questioned u where
  kept := hkept
  answered := hanswered
  known taskId id questionId hdrawn hid := by
    rw [hasked taskId id hdrawn] at hid
    rw [hinvocations]
    exact h.known taskId id questionId hdrawn hid
  holds held hheld := hextends.holds ((hholds held hheld).elim (h.holds held) id)
  answers n e he := hextends.streams ((hanswers n e he).elim (h.answers n e) id)
  written i hi taskId text hsubject := by
    rw [hinvocations] at hi
    have hm : ¬ i.subject.key.Mutates := by
      rw [hsubject]
      exact id
    rw [hunder, hasked taskId i.id (hasking.drawn i hi hm)]
    refine (h.written i hi taskId text hsubject).imp id ?_
    rintro ⟨q, e, hq, hwritten⟩
    exact ⟨q, e, hextends.keeps.askedAs hq, hwritten⟩
  returned x hx := by
    rcases hreturns x hx with hold | ⟨hgives, hlogical⟩
    · exact hextends.gives (hids.returned x hold) (h.returned x hold)
    · exact hextends.gives hlogical hgives

/-- A call that is no reply leaves the replies as they are. -/
theorem Questioned.transcript_call (h : w.Questioned u) {l : Call}
    (hl : Kind.answer ∉ l.op.kinds) :
    Transcript.Kept ⟨l.exec w.hub, w.replies⟩ ∧ Transcript.Answered ⟨l.exec w.hub, w.replies⟩ := by
  have hstep : Transcript.exec l w.transcript = ⟨l.exec w.hub, w.replies⟩ := by
    show Observed.mk (l.exec w.hub) (w.replies ++ (l.answer w.hub).toList) = _
    rw [Call.answer_eq_none hl, Option.toList_none, List.append_nil]
  rw [← hstep]
  exact ⟨kept_exec l _ h.kept, answered_exec l _ h.kept h.answered⟩

/-! ### A question goes out -/

/-- A call sent keeps what is known of the questions. -/
theorem Questioned.invoked (h : w.Questioned u) (hids : w.Identified u settings)
    (hledger : w.Accounted u settings) (hasking : w.Asking u) (hinvoked : w.Invoked w' out n) :
    w'.Questioned u := by
  obtain ⟨hhub, hholds, hanswers, hposts, hreturns, hreplies⟩ := hinvoked.rest
  have htranscript : w'.transcript = w.transcript := by
    rw [transcript, transcript, hhub, hreplies]
  have hunder (id : String) : w'.underQuestion id = w.underQuestion id := by
    rw [underQuestion, underQuestion, hposts]
  have hextends : w.Extends w' := by
    refine ⟨hhub ▸ Db.Keeps.refl _, fun m i hi => ?_, fun m c => hinvoked.logicals_get⟩
    rw [hinvoked.invocations]
    exact (List.getElem?_append_left (List.getElem?_eq_some_iff.mp hi).1).trans hi
  constructor
  · exact htranscript ▸ h.kept
  · exact htranscript ▸ h.answered
  · intro taskId id questionId hdrawn hid
    rw [hhub] at hid
    obtain ⟨i, hi, hrest⟩ := h.known taskId id questionId hdrawn hid
    exact ⟨i, hinvoked.mem_invocations.mpr (.inl hi), hrest⟩
  · rw [hholds]
    exact fun held hheld => hextends.holds (h.holds held hheld)
  · rw [hanswers]
    exact fun m e he => hextends.streams (h.answers m e he)
  · intro i hi taskId text hsubject
    rw [hhub, hunder]
    rcases hinvoked.mem_invocations.mp hi with hi | rfl
    · exact h.written i hi taskId text hsubject
    have hm : ¬ out.subject.key.Mutates := by
      have hsubject' : out.subject = .question taskId text := hsubject
      rw [hsubject']
      exact id
    rcases hasking.reuses hinvoked hm with ⟨j, hj, hsame, hid, -⟩ | ⟨-, hhead, -⟩
    · have hwritten := h.written j hj taskId text (hsame.trans hsubject)
      rw [hid] at hwritten
      exact hwritten
    · -- nothing is known of a fresh id
      refine .inl ⟨?_, ?_⟩
      · rw [Option.eq_none_iff_forall_ne_some]
        intro questionId hid
        have hdrawn : ¬ u.Misses out.id := hhead ▸ hids.head_drawn
        obtain ⟨j, hj, hmj, hid'⟩ := h.known taskId out.id questionId hdrawn hid
        exact hasking.head_ne hj hmj (hid'.trans hhead)
      · show w.underQuestion out.id = []
        rw [underQuestion, List.filter_eq_nil_iff.mpr, List.flatMap_nil]
        intro p hp hunder
        obtain ⟨hmp, hid⟩ := of_decide_eq_true hunder
        obtain ⟨j, hj, hj', -, hkey⟩ := hledger.posts p hp
        exact hasking.head_ne hj (hkey ▸ hmp) (hj'.trans (hid.trans hhead))
  · intro x hx
    rw [hreturns] at hx
    exact hextends.gives (hids.returned x hx) (h.returned x hx)

/-! ### A request reaches the hub -/

/-- What is answered at once is no stream's end. -/
theorem notMem_of_streamed {x : Except ProtocolError Response} {e : StreamEnd} {m : ℕ} :
    (m, HubAnswer.streamed e) ∉ ((HubAnswer.of x).map fun a => (n, a)).toList := by
  intro h
  obtain ⟨a, ha, heq⟩ := Option.map_eq_some_iff.mp (Option.mem_toList.mp h)
  obtain ⟨-, rfl⟩ := Prod.mk.inj heq
  unfold HubAnswer.of at ha
  split at ha <;> simp at ha

/-- **A question is asked** under an id that nothing was asked under. -/
theorem Questioned.asked (h : w.Questioned u) (hids : w.Identified u settings)
    (hasking : w.Asking u) {i : Invocation} (hget : w.invocations[n]? = some i)
    {taskId text agent : String} (hsubject : i.subject = .question taskId text)
    {clock : ℕ → Moment} {q : MessageRecord} {e : EventRecord}
    (hnone : w.hub.db.askedQuestion taskId i.id = none)
    (hhub : w'.hub = (Call.mk (.openQuestion taskId agent (strip text) i.id) clock).exec w.hub)
    (hasked : w'.hub.db.AskedAs taskId (strip text) i.id q e)
    (hkept : w'.transcript.Kept) (hanswered : w'.transcript.Answered)
    (hinvocations : w'.invocations = w.invocations) (hlogicals : w'.logicals = w.logicals)
    (hposts : w'.posts = w.posts ++ [⟨i.logical, i.subject.key, i.id, [.message q, .event e]⟩])
    (hholds : w'.holds = w.holds ++ [⟨n, taskId, q.id, i.id⟩])
    (hanswers : ∀ m e, (m, .streamed e) ∈ w'.answers → (m, .streamed e) ∈ w.answers)
    (hreturns : w'.returns = w.returns) : w'.Questioned u := by
  have hi : i ∈ w.invocations := List.mem_of_getElem? hget
  have hm : ¬ i.subject.key.Mutates := by
    rw [hsubject]
    exact id
  have hextends : w.Extends w' :=
    ⟨hhub ▸ keeps_exec _ w.hub, fun m j hj => hinvocations ▸ hj, fun m c hc => hlogicals ▸ hc⟩
  -- under another id nothing is asked
  have hother {taskId' id : String} (hne : id ≠ i.id) :
      w'.hub.db.askedQuestion taskId' id = w.hub.db.askedQuestion taskId' id := by
    rw [hhub]
    refine askedQuestion_exec _ w.hub fun agent' text' heq => hne ?_
    obtain ⟨-, -, -, hid⟩ := Op.openQuestion.inj heq
    exact hid.symm
  constructor
  · exact hkept
  · exact hanswered
  · intro taskId' id questionId hdrawn hid
    rw [hinvocations]
    by_cases hsame : id = i.id
    · exact ⟨i, hi, hm, hsame.symm⟩
    · rw [hother hsame] at hid
      exact h.known taskId' id questionId hdrawn hid
  · intro held hheld
    rw [hholds, List.mem_append, List.mem_singleton] at hheld
    rcases hheld with hheld | rfl
    · exact hextends.holds (h.holds held hheld)
    · exact ⟨i, hextends.invocations n i hget, rfl, ⟨text, hsubject⟩, hasked.asked⟩
  · exact fun m e' he => hextends.streams (h.answers m e' (hanswers m e' he))
  · intro j hj taskId' text' hsubject'
    rw [hinvocations] at hj
    have hmj : ¬ j.subject.key.Mutates := by
      rw [hsubject']
      exact id
    rw [underQuestion_append hposts]
    by_cases hid : i.id = j.id
    · have hsame := hasking.sameId i hi j hj hm hmj hid
      obtain ⟨rfl, rfl⟩ := Subject.question.inj (hsubject.symm.trans (hsame.trans hsubject'))
      have hnil : w.underQuestion j.id = [] := by
        rcases h.written i hi taskId text hsubject with ⟨-, hnil⟩ | ⟨q', e', hq', -⟩
        · exact hid ▸ hnil
        · have hsome := hq'.asked
          rw [hnone] at hsome
          cases hsome
      rw [hnil, if_pos ⟨hm, hid⟩, ← hid]
      exact .inr ⟨q, e, hasked, rfl⟩
    · rw [if_neg fun hp => hid hp.2, List.append_nil, hother fun heq => hid heq.symm]
      refine (h.written j hj taskId' text' hsubject').imp id ?_
      rintro ⟨q', e', hq', hwritten⟩
      exact ⟨q', e', hextends.keeps.askedAs hq', hwritten⟩
  · intro x hx
    rw [hreturns] at hx
    exact hextends.gives (hids.returned x hx) (h.returned x hx)

/-- A request is served, and asks nothing new. -/
theorem Questioned.served (h : w.Questioned u) (hids : w.Identified u settings)
    (hasking : w.Asking u) {i : Invocation} {hub : Hub} {writes : List Written}
    {holds : List HeldQuestion} {answers : List (ℕ × HubAnswer)}
    (htranscript : Transcript.Kept ⟨hub, w.replies⟩ ∧ Transcript.Answered ⟨hub, w.replies⟩)
    (hkeeps : w.hub.db.Keeps hub.db)
    (hasked : ∀ taskId id, hub.db.askedQuestion taskId id = w.hub.db.askedQuestion taskId id)
    (hwrites : i.subject.key.Mutates ∨ writes = []) (hholds : ∀ held ∈ holds, w.Holds held)
    (hanswers : ∀ m e, (m, .streamed e) ∉ answers) :
    Questioned u { w with
      hub
      posts := w.posts ++ [⟨i.logical, i.subject.key, i.id, writes⟩]
      answers := w.answers ++ answers
      holds := w.holds ++ holds } := by
  refine h.of_extends hids hasking htranscript.1 htranscript.2
    ⟨hkeeps, fun _ _ => id, fun _ _ => id⟩
    rfl (fun taskId id _ => hasked taskId id) (fun id => ?_) (fun held hheld => ?_)
    (fun m e he => .inl ?_) fun x => .inl
  · rw [underQuestion_append rfl]
    rcases hwrites with hm | hnil
    · rw [if_neg fun hp => hp.1 hm, List.append_nil]
    · rw [hnil, ite_self, List.append_nil]
  · exact (List.mem_append.mp hheld).imp id (hholds held)
  · exact (List.mem_append.mp he).resolve_right (hanswers m e)

/-- A delivery is the dispatch of its message at the hub. -/
theorem deliver_eq {r : Rendering} {remoteAddr : Option String} {clock : ℕ → Moment}
    {i : Invocation} {x : Except ProtocolError Response} {c : Conn}
    (hget : w.invocations[n]? = some i)
    (hat : atomically (dispatch r remoteAddr i.request) (w.hub.connect clock) = (x, c)) :
    w.deliver r n remoteAddr clock = { w with
      hub := c.hub
      posts := w.posts ++ [⟨i.logical, i.subject.key, i.id, w.hub.db.written c.db⟩]
      answers := w.answers ++ ((HubAnswer.of x).map fun a => (n, a)).toList
      holds := w.holds ++ (HeldQuestion.of n x).toList } := by
  simp only [Network.deliver, hget, hat]

/-- A delivery keeps what is known of the questions. -/
theorem Questioned.deliver (h : w.Questioned u) (hids : w.Identified u settings)
    (hasking : w.Asking u) (r : Rendering) (n : ℕ) (remoteAddr : Option String)
    (clock : ℕ → Moment) : (w.deliver r n remoteAddr clock).Questioned u := by
  cases hget : w.invocations[n]? with
  | none =>
    simp only [Network.deliver, hget]
    exact h
  | some i =>
    have hi : i ∈ w.invocations := List.mem_of_getElem? hget
    -- a mutation asks nothing and answers nothing
    by_cases hm : i.subject.key.Mutates
    · rcases atomically_cases (dispatch r remoteAddr i.request) (w.hub.connect clock) with
        ⟨x, c', hc, hat⟩ | ⟨e, -, hat⟩ <;> rw [deliver_eq hget hat]
      · obtain ⟨op, mu, o, hop, -, -, -, -, hrespond, rfl⟩ :=
          dispatch_mutation (hids.carries i hi hm) hm hc
        have hhub : c'.hub = (Call.mk op clock).exec w.hub := by
          rw [exec_eq_respond, atomically_of_commits hrespond]
        rw [hhub]
        refine h.served hids hasking (h.transcript_call (Op.answer_notMem_kinds hop))
          (keeps_exec _ w.hub) (fun taskId id => ?_) (.inl hm) (by simp [HeldQuestion.of])
          fun m e => notMem_of_streamed
        refine askedQuestion_exec _ w.hub fun agent text heq => ?_
        rw [show op = _ from heq] at hop
        cases hop
      · exact h.served hids hasking ⟨h.kept, h.answered⟩ (.refl _) (fun _ _ => rfl) (.inl hm)
          (by simp [HeldQuestion.of]) fun m e => notMem_of_streamed
    -- the other requests are questions, asked anew or found in the transcript
    obtain ⟨taskId, text, hsubject⟩ : ∃ taskId text, i.subject = .question taskId text := by
      cases hsubject : i.subject with
      | question taskId text => exact ⟨taskId, text, rfl⟩
      | _ =>
        rw [hsubject] at hm
        exact absurd trivial hm
    have hne : i.id ≠ "" := by
      intro hempty
      refine hasking.drawn i hi hm fun k => ?_
      rw [hempty]
      exact u.ne_empty k
    obtain ⟨x, c', hat⟩ : ∃ x c', atomically (dispatch r remoteAddr i.request)
      (w.hub.connect clock) = (x, c') := ⟨_, _, rfl⟩
    have hserved := @dispatch_question_cases taskId text i.toOutgoing r remoteAddr
      (hasking.asks i hi taskId text hsubject) hne w.hub clock
    rw [deliver_eq hget hat]
    simp only [hat] at hserved
    rcases hserved with ⟨e, heq⟩ | ⟨agent, task, questionId, rfl, rfl, hhub, hcases⟩
    · obtain ⟨rfl, rfl⟩ := Prod.mk.inj heq
      exact h.served hids hasking ⟨h.kept, h.answered⟩ (.refl _) (fun _ _ => rfl)
        (.inr (Db.written_of_eq rfl)) (by simp [HeldQuestion.of]) fun m e => notMem_of_streamed
    -- asking gives no answer, so the transcript's answers are as they were
    have hsilent : Kind.answer ∉ (Call.mk (.openQuestion task.id agent.name (strip text) i.id)
        clock).op.kinds := by
      simp [Op.kinds]
    have htranscript := h.transcript_call hsilent
    rw [← hhub] at htranscript
    rcases hcases with ⟨hasked, hdb⟩ | ⟨hnone, q, e, rfl, hasked, hwritten⟩
    · refine h.served hids hasking htranscript ?_ ?_ (.inr (Db.written_of_eq hdb)) ?_
        fun m e => notMem_of_streamed
      · rw [hhub]
        exact keeps_exec _ w.hub
      · intro taskId id
        exact congrArg (·.askedQuestion taskId id) hdb
      · intro held hheld
        obtain rfl : held = ⟨n, task.id, questionId, i.id⟩ := by
          simpa [HeldQuestion.of] using hheld
        exact ⟨i, hget, rfl, ⟨text, hsubject⟩, hasked⟩
    · refine h.asked hids hasking hget hsubject hnone hhub hasked htranscript.1 htranscript.2 rfl
        rfl ?_ rfl (fun m e he => ?_) rfl
      · rw [hwritten]
      · exact (List.mem_append.mp he).resolve_right notMem_of_streamed

/-! ### The other steps -/

/-- A hold that times out names the question it held. -/
theorem replyStream_timeout {reply : Option MessageRecord} {current : Option TaskRecord}
    {sentAs retryAs : String} (h : replyStream reply current sentAs = .timeout retryAs) :
    retryAs = sentAs := by
  unfold replyStream at h
  split at h
  · cases h
  · split at h
    · exact (StreamEnd.timeout.inj h).symm
    · cases h

/-- A hold answered carries the reply it found. -/
theorem replyStream_reply {reply : Option MessageRecord} {current : Option TaskRecord}
    {sentAs : String} {m : MessageRecord} (h : replyStream reply current sentAs = .reply m) :
    reply = some m := by
  unfold replyStream at h
  split at h
  · cases h
  · split at h
    · cases h
    · rw [StreamEnd.reply.inj h]

/-- The hub and the requests stay as they are. -/
theorem Questioned.of_eq (h : w.Questioned u) (hids : w.Identified u settings)
    (hasking : w.Asking u) (hhub : w'.hub = w.hub) (hinvocations : w'.invocations = w.invocations)
    (hlogicals : w'.logicals = w.logicals) (hposts : w'.posts = w.posts)
    (hreplies : w'.replies = w.replies) (hholds : ∀ held ∈ w'.holds, held ∈ w.holds)
    (hanswers : ∀ n e, (n, .streamed e) ∈ w'.answers →
      (n, .streamed e) ∈ w.answers ∨ w.Streams n e)
    (hreturns : ∀ x ∈ w'.returns, x ∈ w.returns ∨ w.Gives x ∧ x.logical < w.logicals.length) :
    w'.Questioned u := by
  have htranscript : w'.transcript = w.transcript := by
    rw [transcript, transcript, hhub, hreplies]
  refine h.of_extends hids hasking (htranscript ▸ h.kept) (htranscript ▸ h.answered)
    ⟨hhub ▸ .refl _, fun n i hi => hinvocations ▸ hi, fun n c hc => hlogicals ▸ hc⟩ hinvocations
    (fun taskId id _ => by rw [hhub]) (fun id => ?_) (fun held hheld => .inl (hholds held hheld))
    hanswers hreturns
  rw [underQuestion, underQuestion, hposts]

/-- A hold released keeps what is known of the questions. -/
theorem Questioned.release (h : w.Questioned u) (hids : w.Identified u settings)
    (hasking : w.Asking u) (k : ℕ) (found : Bool) : (w.release k found).Questioned u := by
  unfold Network.release
  split
  · exact h
  next held hheld =>
    obtain ⟨i, hget, hid, hasked⟩ := h.holds held (List.mem_of_getElem? hheld)
    refine h.of_eq hids hasking rfl rfl rfl rfl rfl (fun _ => List.mem_of_mem_eraseIdx)
      (fun n e he => ?_) fun x => .inl
    rcases List.mem_append.mp he with he | he
    · exact .inl he
    obtain ⟨rfl, heq⟩ := Prod.mk.inj (List.mem_singleton.mp he)
    have hend := HubAnswer.streamed.inj heq
    refine .inr ⟨i, held.taskId, held.questionId, hget, hasked, ?_, ?_⟩
    · rintro retryAs rfl
      exact (replyStream_timeout hend.symm).trans hid
    · rintro m rfl
      have hreply := replyStream_reply hend.symm
      cases found with
      | false => cases hreply
      | true => exact hreply

/-- An answer received keeps what is known of the questions. -/
theorem Questioned.receive (h : w.Questioned u) (hids : w.Identified u settings)
    (hasking : w.Asking u) (contextOf : String → Option String) (n k : ℕ) :
    (w.receive contextOf n k).Questioned u := by
  rcases w.receive_cases contextOf n k with hsame | ⟨attempts, i, a, -, hget, ha, hw⟩
  · rw [hsame]
    exact h
  have hi : i ∈ w.invocations := List.mem_of_getElem? hget
  rw [hw]
  refine h.of_eq hids hasking rfl rfl rfl rfl rfl (fun _ => id) (fun _ _ => .inl) fun x hx => ?_
  rcases List.mem_append.mp hx with hx | hx
  · exact .inl hx
  obtain ⟨v, hv, rfl⟩ := Option.map_eq_some_iff.mp (Option.mem_toList.mp hx)
  obtain ⟨d, hd, hsubject⟩ := hids.logical i hi
  refine .inr ⟨fun c hc hm => ?_, (List.getElem?_eq_some_iff.mp hd).1⟩
  obtain rfl := Option.some.inj (hd.symm.trans hc)
  rw [hsubject] at hm
  rcases w.client.finish_question contextOf i.subject a hm with
    ⟨-, hnone⟩ | ⟨-, e, v', rfl, hv', -, hreply⟩
  · rw [hnone rfl] at hv
    cases hv
  obtain rfl := Option.some.inj (hv'.symm.trans hv)
  obtain ⟨j, taskId, questionId, hj, hasked, -, hfound⟩ := h.answers n e ha
  obtain rfl := Option.some.inj (hget.symm.trans hj)
  refine ⟨i, hi, rfl, taskId, questionId, hasked, fun text htext => ?_⟩
  obtain ⟨m, he, htext'⟩ := hreply text htext
  exact ⟨m, hfound m he, htext'⟩

/-- There are no questions at the start. -/
theorem questioned_start (v : Uuids) (instanceId : String) :
    (start v u settings instanceId).Questioned u where
  kept := kept_start v
  answered := answered_start v
  known taskId id questionId _ hasked := by
    simp [start, Hub.start, Db.empty, Db.askedQuestion, Serial.first?, Serial.empty] at hasked
  holds := by simp [start]
  answers := by simp [start]
  written := by simp [start]
  returned := by simp [start]

/-- Every step keeps what is known of the questions. -/
theorem questioned_exec (r : Rendering) (contextOf : String → Option String)
    (l : NetStep u.toUuids) (w : Network) (hids : w.Identified u settings)
    (hledger : w.Accounted u settings) (hasking : w.Asking u) (h : w.Questioned u) :
    (exec r contextOf l w).Questioned u := by
  cases l with
  | call l hforeign =>
    refine h.of_extends hids hasking (kept_exec l _ h.kept) (answered_exec l _ h.kept h.answered)
      ⟨keeps_exec l w.hub, fun _ _ => id, fun _ _ => id⟩ rfl (fun taskId id hdrawn => ?_)
      (fun _ => rfl) (fun _ => .inl) (fun _ _ => .inl) fun _ => .inl
    -- no one else asks under the worker's ids
    exact askedQuestion_exec l w.hub fun agent text heq =>
      hdrawn (hforeign.question taskId agent text id heq)
  | invoke call =>
    rcases w.invoke_cases call with ⟨-, hw⟩ | ⟨out, n, -, hinvoked⟩
    · obtain ⟨current, hgive, -⟩ := w.giveUp_eq call
      show (w.invoke call).Questioned u
      rw [hw, hgive]
      exact h.of_eq hids hasking rfl rfl rfl rfl rfl (fun _ => id) (fun _ _ => .inl) fun _ => .inl
    · exact h.invoked hids hledger hasking hinvoked
  | deliver n remoteAddr clock => exact h.deliver hids hasking r n remoteAddr clock
  | release k found => exact h.release hids hasking k found
  | receive n k => exact h.receive hids hasking contextOf n k
  | fail n f =>
    simp only [exec, Network.fail]
    split
    · exact h
    · split <;> exact h.of_eq hids hasking rfl rfl rfl rfl rfl (fun _ => id) (fun _ _ => .inl)
        fun _ => .inl

/-! ### Runs -/

/-- What a worker's questions are in every state. -/
structure Curious (u : HexUuids) (settings : WorkerSettings) (w : Network) : Prop where
  ids : w.Identified u settings
  ledger : w.Accounted u settings
  asking : w.Asking u
  oneQuestion : w.OneQuestion
  questioned : w.Questioned u

/-- Every run of the network keeps what is known of the questions. -/
theorem curious_run (r : Rendering) (contextOf : String → Option String) (v : Uuids)
    (instanceId : String) (steps : List (NetStep u.toUuids)) :
    (runFrom (exec r contextOf) (start v u settings instanceId) steps).Curious u settings := by
  refine run_invariant (I := Curious u settings) (fun l w h => ?_) ?_ steps
  · have hasking := asking_exec r contextOf l w h.ids h.questioned.retries h.asking h.oneQuestion
    exact ⟨identified_exec r contextOf l w h.ids, accounted_exec r contextOf l w h.ids h.ledger,
      hasking.1, hasking.2, questioned_exec r contextOf l w h.ids h.ledger h.asking h.questioned⟩
  · exact ⟨identified_start v instanceId, accounted_start v instanceId, asking_start v instanceId,
      oneQuestion_start v instanceId, questioned_start v instanceId⟩

end

end Network

/-- **A question is asked once.**  All requests of a logical ask carry one id.  Nothing was asked
    under it, and nothing returned; or exactly one message and one event were written under it, and
    while the task is open and has no newer question, a reply that the call returned is the text
    of the one reply that Alice applied to this message. -/
theorem question_asked_once (r : Rendering) (contextOf : String → Option String) (v : Uuids)
    (u : HexUuids) (settings : WorkerSettings) (instanceId : String)
    (steps : List (NetStep u.toUuids)) (n : ℕ) (c : LogicalCall) (taskId text : String) :
    let w := runFrom (Network.exec r contextOf) (.start v u settings instanceId) steps
    w.logicals[n]? = some c → c.subject = .question taskId text → c.alone = true →
      ∃ id, (∀ i ∈ w.invocations, i.logical = n → i.id = id) ∧
        ((w.underQuestion id = [] ∧ ∀ x ∈ w.returns, x.logical ≠ n) ∨
          ∃ q e, w.hub.db.AskedAs taskId (strip text) id q e ∧
            w.underQuestion id = [.message q, .event e] ∧
            ∀ t, w.hub.db.tasks.find? taskId = some t → t.isOpen → w.hub.db.Newest taskId q →
              ∀ x ∈ w.returns, x.logical = n → ∀ reply, x.value = .reply reply →
                ∃ a ∈ w.replies, a.taskId = taskId ∧ a.questionId = q.id ∧ a.text = reply ∧
                  ∀ b ∈ w.replies, b.taskId = taskId → b.questionId = q.id → b = a) := by
  intro w hc hsubject halone
  have h : w.Curious u settings := Network.curious_run r contextOf v instanceId steps
  have hm : ¬ c.subject.key.Mutates := by
    rw [hsubject]
    exact id
  obtain ⟨i, hi, hin, hall⟩ := h.oneQuestion.oneId n c hc halone hm
  refine ⟨i.id, hall, ?_⟩
  have hsubject {j : Invocation} (hj : j ∈ w.invocations) (hjn : j.logical = n) :
      j.subject = .question taskId text := by
    obtain ⟨d, hd, hsame⟩ := h.ids.logical j hj
    obtain rfl := Option.some.inj ((hjn ▸ hd).symm.trans hc)
    exact hsame.symm.trans hsubject
  -- what the call returned is about the question under its id
  have hreturned {x : Return} (hx : x ∈ w.returns) (hxn : x.logical = n) : ∃ questionId,
      w.hub.db.askedQuestion taskId i.id = some questionId ∧ ∀ reply, x.value = .reply reply →
        ∃ m, w.hub.db.pendingReply taskId questionId = some m ∧
          reply = String.join (m.parts.map Part.text) := by
    subst hxn
    obtain ⟨j, hj, hjn, taskId', questionId, ⟨⟨text', hj'⟩, hasked⟩, hreply⟩ :=
      h.questioned.returned x hx c hc hm
    obtain ⟨rfl, rfl⟩ := Subject.question.inj (hj'.symm.trans (hsubject hj hjn))
    exact ⟨questionId, hall j hj hjn ▸ hasked, hreply⟩
  rcases h.questioned.written i hi taskId text (hsubject hi hin) with
    ⟨hnone, hnil⟩ | ⟨q, e, hq, hwritten⟩
  · refine .inl ⟨hnil, fun x hx hxn => ?_⟩
    obtain ⟨questionId, hasked, -⟩ := hreturned hx hxn
    rw [hnone] at hasked
    cases hasked
  · refine .inr ⟨q, e, hq, hwritten, fun t ht hopen hnewest x hx hxn reply hreply => ?_⟩
    obtain rfl : t.id = taskId := Table.find?_key ht
    obtain ⟨questionId, hasked, hfound⟩ := hreturned hx hxn
    obtain rfl : questionId = q.id := Option.some.inj (hasked.symm.trans hq.asked)
    obtain ⟨m, hm, rfl⟩ := hfound reply hreply
    have hanswered := h.questioned.answered
    obtain ⟨a, ha, -, hat, haq⟩ :=
      hanswered.newest t (Table.mem_of_find? ht) hopen q hnewest m hm
    obtain ⟨m', hm', -, hparts⟩ := hanswered.found a ha
    rw [hat, haq] at hm'
    obtain rfl := Option.some.inj (hm.symm.trans hm')
    refine ⟨a, ha, hat, haq, by simp [hparts, String.join], fun b hb hbt hbq => ?_⟩
    by_contra hne
    have hsymm : Std.Symm fun a b : Answer =>
        ¬ (a.taskId = b.taskId ∧ a.questionId = b.questionId) :=
      ⟨fun _ _ hab hba => hab ⟨hba.1.symm, hba.2.symm⟩⟩
    exact hanswered.once.forall hb ha hne ⟨hbt.trans hat.symm, hbq.trans haq.symm⟩

/-- A question whose hold times out, and that is asked again once Alice has replied. -/
theorem question_asked_once_retry :
    let w := runFrom
      (Network.exec (u := .unary) { Rendering.blank with checkInAck := AgentRecord.contextId } some)
      (.start .unary .unary { agentName := "ada" } "ada-1")
      [.call ⟨.initializeWorkflow "goal" {}, stoppedClock⟩ (Call.foreign rfl (by simp)),
        .invoke (.checkIn ["python"] none), .deliver 0 none stoppedClock, .receive 0 0,
        .call ⟨.assignTask "ada" "implementer" "Fix it" "See issue 7" 30 none none, stoppedClock⟩
          (Call.foreign rfl (by simp)),
        .call ⟨.claimAssignment "ada", stoppedClock⟩ (Call.foreign rfl (by simp)),
        .invoke (.askAlice "uuu" "Which branch?" none), .deliver 1 none stoppedClock,
        .release 0 false, .receive 1 1,
        .call ⟨.reply "uuu" "main" 3, stoppedClock⟩ (Call.foreign rfl (by simp)),
        .invoke (.askAlice "uuu" "Which branch?" none), .deliver 2 none stoppedClock,
        .release 0 true, .receive 2 2]
    ∃ id q e, w.underQuestion id = [.message q, .event e] ∧
      ∃ a ∈ w.replies, a.questionId = q.id ∧ a.text = "main" := by
  intro w
  have hcall : w.logicals[1]? = some ⟨.question "uuu" "Which branch?", true⟩ := by decide +kernel
  have hreturned : ∃ x ∈ w.returns, x.logical = 1 ∧ x.value = .reply "main" := by decide +kernel
  have hinvoked : ∃ i ∈ w.invocations, i.logical = 1 ∧ i.id = "aaa" := by decide +kernel
  obtain ⟨x, hx, hlogical, hvalue⟩ := hreturned
  obtain ⟨id, hall, ⟨-, hnone⟩ | ⟨q, e, hq, hwritten, hreply⟩⟩ :=
    question_asked_once _ _ _ _ _ _ _ 1 _ "uuu" "Which branch?" hcall rfl rfl
  · exact absurd hlogical (hnone x hx)
  · obtain ⟨i, hi, hi', hid⟩ := hinvoked
    obtain rfl : id = "aaa" := (hall i hi hi').symm.trans hid
    have hasked : w.hub.db.askedQuestion "uuu" "aaa" = some 3 := by decide +kernel
    have hthree : q.id = 3 := Option.some.inj (hq.asked.symm.trans hasked)
    have hopen : ∃ t ∈ w.hub.db.tasks.find? "uuu", t.isOpen := by decide +kernel
    have hnewest : ∀ q' ∈ w.hub.db.messages.rows, q'.questionOn "uuu" → q'.id ≤ 3 := by
      decide +kernel
    obtain ⟨t, ht, hopen⟩ := hopen
    have hon : q.questionOn "uuu" := by
      refine ⟨hq.reports, ?_⟩
      rw [hq.parts]
      rfl
    obtain ⟨a, ha, -, haq, hat, -⟩ := hreply t ht hopen
      ⟨hq.mem, hon, fun q' hq' hon' => hthree ▸ hnewest q' hq' hon'⟩ x hx hlogical "main" hvalue
    exact ⟨_, q, e, hwritten, a, ha, haq, hat⟩

end AgentHub
