import AgentHub.Hub.Answers
import AgentHub.Worker.Ids

namespace AgentHub

open Relational

/-!
# The ids of a worker's questions

A question goes out under a message id, which is pending until the question is answered.  A hold
that times out names the id to ask again under, and that is the one it was asked under.

* `Outgoing.Asks` — what the hub finds in the message of a question;
* `Network.Asking` — what the message ids of the client's questions are;
* `Network.OneQuestion` — an undisturbed logical call asks under one id.
-/

/-! ### The client -/

/-- What the hub finds in the message of a question. -/
structure Outgoing.Asks (out : Outgoing) (taskId text : String) : Prop where
  request : out.request = .stream out.message
  messageId : out.message.messageId = out.id
  task : out.message.taskId = some taskId
  text : out.message.text = strip text

/-- The calls that write nothing are questions. -/
theorem CallKey.exists_task {k : CallKey} (h : ¬ k.Mutates) : ∃ taskId, k = .question taskId := by
  cases k with
  | question taskId => exact ⟨taskId, rfl⟩
  | _ => exact absurd trivial h

section

variable {w : WorkerClient} {s : Subject} {k : CallKey}

/-- Drawing an id for one key leaves the others pending. -/
theorem WorkerClient.idFor_pending_ne (w : WorkerClient) (hk : k ≠ s.key) :
    (w.idFor s).2.pending k = w.pending k := by
  obtain ⟨id, -, htaken⟩ | ⟨-, htaken⟩ := w.idFor_cases s <;> rw [htaken]
  exact Function.update_of_ne hk ..

/-- A question names its task, its text and its id. -/
theorem WorkerClient.invoke_asks {call : WorkerCall} {out : Outgoing}
    (h : (w.invoke call).2 = some out) {taskId text : String}
    (hsubject : out.subject = .question taskId text) : out.Asks taskId text := by
  cases call with
  | checkIn capabilities model =>
    obtain rfl := Option.some.inj h
    cases hsubject
  | reportProgress taskId' note =>
    simp only [invoke] at h
    split at h
    · cases h
    · obtain rfl := Option.some.inj h
      cases hsubject
  | askAlice taskId' text' timeoutS =>
    simp only [invoke] at h
    split at h
    · cases h
    · obtain rfl := Option.some.inj h
      obtain ⟨rfl, rfl⟩ := Subject.question.inj hsubject
      refine ⟨rfl, rfl, rfl, ?_⟩
      simp [question, A2AMessage.text, textPart, String.join]
  | submitResult taskId' result summary artifacts =>
    simp only [invoke] at h
    split at h
    · cases h
    · cases hbody : result.body? summary artifacts with
      | none =>
        rw [hbody] at h
        cases h
      | some body =>
        rw [hbody] at h
        obtain rfl := Option.some.inj h
        cases hsubject

/-- The call gives up the question on this key. -/
def WorkerCall.givesUp (call : WorkerCall) (k : CallKey) : Prop :=
  match call with
  | .submitResult taskId .. => k = .question taskId
  | _ => False

/-- A question that a method neither asks nor gives up stays pending. -/
theorem WorkerClient.invoke_pending {call : WorkerCall} (hgives : ¬ call.givesUp k)
    (hout : ∀ out ∈ (w.invoke call).2, out.subject.key ≠ k) :
    (w.invoke call).1.pending k = w.pending k := by
  cases call with
  | checkIn capabilities model =>
    exact w.idFor_pending_ne fun heq => hout _ rfl heq.symm
  | reportProgress taskId note =>
    by_cases hcontext : w.contextId = none
    · simp only [invoke, if_pos hcontext]
    · simp only [invoke, if_neg hcontext] at hout ⊢
      exact w.idFor_pending_ne fun heq => hout _ rfl heq.symm
  | askAlice taskId text timeoutS =>
    by_cases hcontext : w.contextId = none
    · simp only [invoke, if_pos hcontext]
    · simp only [invoke, if_neg hcontext] at hout ⊢
      exact w.idFor_pending_ne fun heq => hout _ rfl heq.symm
  | submitResult taskId result summary artifacts =>
    have hforget : (w.forget (.question taskId)).pending k = w.pending k :=
      Function.update_of_ne hgives ..
    by_cases hcontext : w.contextId = none
    · simp only [invoke, if_pos hcontext]
    · simp only [invoke, if_neg hcontext] at hout ⊢
      cases hbody : result.body? summary artifacts with
      | none => exact hforget
      | some body =>
        rw [hbody] at hout
        exact ((w.forget (.question taskId)).idFor_pending_ne
          fun heq => hout _ rfl heq.symm).trans hforget

/-- What a method that gives up a question leaves pending. -/
theorem WorkerClient.invoke_pending_or {call : WorkerCall}
    (hout : ∀ out ∈ (w.invoke call).2, out.subject.key ≠ k) :
    (w.invoke call).1.pending k = w.pending k ∨ (w.invoke call).1.pending k = none := by
  by_cases hgives : call.givesUp k
  · cases call with
    | submitResult taskId result summary artifacts =>
      obtain rfl : k = .question taskId := hgives
      have hforget : (w.forget (.question taskId)).pending (.question taskId) = none :=
        Function.update_self ..
      by_cases hcontext : w.contextId = none
      · left
        simp only [invoke, if_pos hcontext]
      · right
        simp only [invoke, if_neg hcontext] at hout ⊢
        cases hbody : result.body? summary artifacts with
        | none => exact hforget
        | some body =>
          rw [hbody] at hout
          exact ((w.forget (.question taskId)).idFor_pending_ne
            fun heq => hout _ rfl heq.symm).trans hforget
    | _ => exact hgives.elim
  · exact .inl (invoke_pending hgives hout)

/-- **What an answer leaves of a question.**  It stays as it is; or its own stream ended: at a
    deadline it is pending under the id that the answer names, and otherwise it is over. -/
theorem WorkerClient.finish_question (contextOf : String → Option String) (w : WorkerClient)
    (s : Subject) (a : HubAnswer) (hk : ¬ k.Mutates) :
    ((w.finish contextOf s a).1.pending k = w.pending k ∧
      (s.key = k → (w.finish contextOf s a).2 = none)) ∨
    s.key = k ∧ ∃ e v, a = .streamed e ∧ (w.finish contextOf s a).2 = some v ∧
      ((∃ retryAs, e = .timeout retryAs ∧
          (w.finish contextOf s a).1.pending k = some (s, retryAs)) ∨
        v.Final ∧ (w.finish contextOf s a).1.pending k = none) ∧
      (∀ text, v = .reply text →
        ∃ m, e = .reply m ∧ text = String.join (m.parts.map Part.text)) := by
  obtain ⟨taskId, rfl⟩ := CallKey.exists_task hk
  have hforget {k' : CallKey} (hk' : k' ≠ .question taskId) :
      (w.forget k').pending (.question taskId) = w.pending (.question taskId) :=
    Function.update_of_ne hk'.symm ..
  cases a with
  | refused e => exact .inl ⟨rfl, fun _ => rfl⟩
  | stored responseJson =>
    left
    cases s with
    | checkIn p =>
      refine ⟨?_, fun h => by cases h⟩
      cases hcontext : contextOf responseJson with
      | none => simp only [finish, hcontext]
      | some contextId =>
        simp only [finish, hcontext]
        exact hforget (by simp)
    | question => exact ⟨rfl, fun _ => rfl⟩
    | progress taskId' note =>
      exact ⟨hforget (by simp : CallKey.progress taskId' ≠ _), fun h => by cases h⟩
    | result taskId' body =>
      exact ⟨hforget (by simp : CallKey.progress taskId' ≠ _), fun h => by cases h⟩
  | streamed e =>
    cases s with
    | question taskId' text =>
      by_cases hid : taskId' = taskId
      · subst hid
        refine .inr ⟨rfl, e, ?_⟩
        cases e with
        | taskEnded task note =>
          refine ⟨_, rfl, rfl, .inr ⟨by simp [Returned.Final], Function.update_self ..⟩, ?_⟩
          intro reply h
          cases h
        | timeout retryAs =>
          refine ⟨_, rfl, rfl, .inl ⟨retryAs, rfl, Function.update_self ..⟩, ?_⟩
          intro reply h
          cases h
        | reply m =>
          refine ⟨_, rfl, rfl, .inr ⟨by simp [Returned.Final], Function.update_self ..⟩, ?_⟩
          intro reply h
          obtain rfl := Returned.reply.inj h
          exact ⟨m, rfl, rfl⟩
      · left
        have hne : (CallKey.question taskId) ≠ .question taskId' :=
          fun h => hid (CallKey.question.inj h).symm
        refine ⟨?_, fun h => absurd h.symm hne⟩
        cases e <;> exact Function.update_of_ne hne ..
    | _ => exact .inl ⟨rfl, fun _ => rfl⟩

end

namespace Network

/-! ### The invariants -/

/-- The message ids of the client's questions: a question carries its id, an id is of one question,
    and a pending id is one that was used for what is pending. -/
structure Asking (u : HexUuids) (w : Network) : Prop where
  missed : ∀ i ∈ w.invocations, ¬ i.subject.key.Mutates → w.client.uuids.Misses i.id
  drawn : ∀ i ∈ w.invocations, ¬ i.subject.key.Mutates → ¬ u.Misses i.id
  asks : ∀ i ∈ w.invocations, ∀ taskId text, i.subject = .question taskId text →
    i.Asks taskId text
  sameId : ∀ i ∈ w.invocations, ∀ j ∈ w.invocations, ¬ i.subject.key.Mutates →
    ¬ j.subject.key.Mutates → i.id = j.id → i.subject = j.subject
  pending : ∀ k s id, ¬ k.Mutates → w.client.pending k = some (s, id) → s.key = k ∧
    ∃ i ∈ w.invocations, i.subject = s ∧ i.id = id
  current : ∀ k n, ¬ k.Mutates → w.current k = some n →
    ∃ c, w.logicals[n]? = some c ∧ c.subject.key = k

/-- A logical ask that began alone: while it is the current one, what is under way for its task is
    its own, and its id is pending until it has returned; and all its requests carry one id. -/
structure OneQuestion (w : Network) : Prop where
  underWay : ∀ k n c, ¬ k.Mutates → w.current k = some n → w.logicals[n]? = some c →
    c.alone = true → ∀ p ∈ w.underWay, ∀ i ∈ w.invocations[p.1]?, i.subject.key = k → i.logical = n
  pending : ∀ k n c, ¬ k.Mutates → w.current k = some n → w.logicals[n]? = some c →
    c.alone = true → (∃ i ∈ w.invocations, i.logical = n ∧
      w.client.pending k = some (c.subject, i.id)) ∨ w.HasReturned n
  oneId : ∀ n c, w.logicals[n]? = some c → c.alone = true → ¬ c.subject.key.Mutates →
    ∃ i ∈ w.invocations, i.logical = n ∧ ∀ j ∈ w.invocations, j.logical = n → j.id = i.id

section

variable {w w' : Network} {u : HexUuids} {settings : WorkerSettings} {n : ℕ} {out : Outgoing}

/-! ### An invocation -/

/-- A new call of one key leaves the others current. -/
theorem logicalFor_current_ne {s : Subject} {k : CallKey} (hk : k ≠ s.key) :
    (w.logicalFor s).2.current k = w.current k := by
  obtain ⟨n, -, -, htaken⟩ | ⟨-, htaken⟩ := w.logicalFor_cases s <;> rw [htaken]
  exact Function.update_of_ne hk ..

/-- What is current of a question that a method does not ask: it is as before, or given up. -/
theorem invoke_current {call : WorkerCall} {k : CallKey}
    (hout : ∀ out ∈ (w.client.invoke call).2, out.subject.key ≠ k) :
    (¬ call.givesUp k ∧ (w.invoke call).current k = w.current k) ∨
      (w.invoke call).current k = none := by
  have hgive : (¬ call.givesUp k ∧ (w.giveUp call).current k = w.current k) ∨
      (w.giveUp call).current k = none := by
    by_cases hgives : call.givesUp k
    · right
      cases call with
      | submitResult taskId result summary artifacts =>
        obtain rfl : k = .question taskId := hgives
        exact Function.update_self ..
      | _ => exact hgives.elim
    · left
      refine ⟨hgives, ?_⟩
      cases call with
      | submitResult taskId result summary artifacts => exact Function.update_of_ne hgives ..
      | _ => rfl
  have hsame : (w.invoke call).current k = (w.giveUp call).current k := by
    unfold invoke
    rcases hinvoke : w.client.invoke call with ⟨client, _ | out⟩
    · rfl
    · rw [hinvoke] at hout
      exact logicalFor_current_ne fun heq => hout out rfl heq.symm
  rw [hsame]
  exact hgive

/-- **A question goes out** under an id that it went out under before, or under the next uuid. -/
theorem Asking.reuses (h : w.Asking u) (hinvoked : w.Invoked w' out n)
    (hm : ¬ out.subject.key.Mutates) :
    (∃ i ∈ w.invocations, i.subject = out.subject ∧ i.id = out.id ∧
      w.client.pending out.subject.key = some (out.subject, out.id)) ∨
    (∀ id, w.client.pending out.subject.key ≠ some (out.subject, id)) ∧
      out.id = w.client.uuids.head ∧ w'.client.uuids.Misses out.id := by
  rcases hinvoked.client.id with hpending | hfresh
  · obtain ⟨-, i, hi, hsubject, hid⟩ := h.pending _ _ _ hm hpending
    exact .inl ⟨i, hi, hsubject, hid, hpending⟩
  · exact .inr hfresh

/-- No question was sent under an id not drawn yet. -/
theorem Asking.head_ne (h : w.Asking u) {i : Invocation} (hi : i ∈ w.invocations)
    (hm : ¬ i.subject.key.Mutates) : i.id ≠ w.client.uuids.head :=
  fun heq => h.missed i hi hm 0 heq.symm

/-- A call sent keeps what is known of the questions. -/
theorem Asking.invoked (h : w.Asking u) (hids : w.Identified u settings)
    (hinvoked : w.Invoked w' out n)
    (hasks : ∀ taskId text, out.subject = .question taskId text → out.Asks taskId text)
    (hpending : ∀ k, k ≠ out.subject.key → w'.client.pending k = w.client.pending k ∨
      w'.client.pending k = none ∨ k.Mutates)
    (hcurrent : ∀ k, k ≠ out.subject.key → w'.current k = w.current k ∨ w'.current k = none ∨
      k.Mutates) : w'.Asking u := by
  constructor
  · intro i hi hm
    rcases hinvoked.mem_invocations.mp hi with hi | rfl
    · exact hinvoked.client.within _ (h.missed i hi hm)
    · -- a question repeated goes out under its old id, a new one under the next id
      rcases h.reuses hinvoked hm with ⟨j, hj, hsubject, hid, -⟩ | ⟨-, -, hmisses⟩
      · exact hid ▸ hinvoked.client.within _ (h.missed j hj (hsubject ▸ hm))
      · exact hmisses
  · intro i hi hm
    rcases hinvoked.mem_invocations.mp hi with hi | rfl
    · exact h.drawn i hi hm
    · show ¬ u.Misses out.id
      rcases h.reuses hinvoked hm with ⟨j, hj, hsubject, hid, -⟩ | ⟨-, hid, -⟩
      · exact hid ▸ h.drawn j hj (hsubject ▸ hm)
      · exact hid ▸ hids.head_drawn
  · intro i hi
    rcases hinvoked.mem_invocations.mp hi with hi | rfl
    · exact h.asks i hi
    · exact hasks
  · -- a question under the same id is the question repeated
    have hsame (i : Invocation) (hi : i ∈ w.invocations) (hmi : ¬ i.subject.key.Mutates)
        (hm : ¬ out.subject.key.Mutates) (hid : i.id = out.id) : i.subject = out.subject := by
      rcases h.reuses hinvoked hm with ⟨j, hj, hsubject, hj', -⟩ | ⟨-, hhead, -⟩
      · exact (h.sameId i hi j hj hmi (hsubject ▸ hm) (hid.trans hj'.symm)).trans hsubject
      · exact absurd (hid.trans hhead) (h.head_ne hi hmi)
    intro i hi j hj hmi hmj hid
    rcases hinvoked.mem_invocations.mp hi with hi | rfl <;>
      rcases hinvoked.mem_invocations.mp hj with hj | rfl
    · exact h.sameId i hi j hj hmi hmj hid
    · exact hsame i hi hmi hmj hid
    · exact (hsame j hj hmj hmi hid.symm).symm
    · rfl
  · intro k s id hk hp
    -- under the call's own key it is pending now; under the others as before
    by_cases hkey : k = out.subject.key
    · subst hkey
      obtain ⟨rfl, rfl⟩ : out.subject = s ∧ out.id = id := by
        simpa using hinvoked.client.pending_self.symm.trans hp
      exact ⟨rfl, ⟨out, n⟩, hinvoked.mem_invocations.mpr (.inr rfl), rfl, rfl⟩
    · rcases hpending k hkey with hsame | hnone | hmutates
      · obtain ⟨hs, i, hi, hrest⟩ := h.pending k s id hk (hsame ▸ hp)
        exact ⟨hs, i, hinvoked.mem_invocations.mpr (.inl hi), hrest⟩
      · rw [hnone] at hp
        cases hp
      · exact absurd hmutates hk
  · intro k m hk hm
    by_cases hkey : k = out.subject.key
    · subst hkey
      obtain rfl := Option.some.inj (hinvoked.current_self.symm.trans hm)
      obtain ⟨c, hc, hsubject⟩ := hinvoked.logicals_self
      exact ⟨c, hc, by rw [hsubject]⟩
    · rcases hcurrent k hkey with hsame | hnone | hmutates
      · obtain ⟨c, hc, hsubject⟩ := h.current k m hk (hsame ▸ hm)
        exact ⟨c, hinvoked.logicals_get hc, hsubject⟩
      · rw [hnone] at hm
        cases hm
      · exact absurd hmutates hk

/-- **A question goes out**: a call that goes on has its id still. -/
theorem OneQuestion.invoked (h : w.OneQuestion) (hasking : w.Asking u)
    (hids : w.Identified u settings) (hinvoked : w.Invoked w' out n)
    (hother : ∀ k, k ≠ out.subject.key → (w'.current k = w.current k ∧
      w'.client.pending k = w.client.pending k) ∨ w'.current k = none ∨ k.Mutates) :
    w'.OneQuestion := by
  have hget {m : ℕ} {i : Invocation} (hi : w'.invocations[m]? = some i) :
      w.invocations[m]? = some i ∨ i = ⟨out, n⟩ := by
    rw [hinvoked.invocations, List.getElem?_append] at hi
    split at hi
    · exact .inl hi
    · exact .inr (List.mem_singleton.mp (List.mem_of_getElem? hi))
  have hold {k : CallKey} {m : ℕ} {c : LogicalCall} (hkey : k ≠ out.subject.key) (hk : ¬ k.Mutates)
      (hm : w'.current k = some m) (hc : w'.logicals[m]? = some c) : w.current k = some m ∧
        w.logicals[m]? = some c ∧ w'.client.pending k = w.client.pending k := by
    rcases hother k hkey with ⟨hcurrent, hpending⟩ | hnone | hmutates
    · rw [hcurrent] at hm
      obtain ⟨d, hd, -⟩ := hasking.current k m hk hm
      obtain rfl := Option.some.inj ((hinvoked.logicals_get hd).symm.trans hc)
      exact ⟨hm, hd, hpending⟩
    · rw [hnone] at hm
      cases hm
    · exact absurd hmutates hk
  constructor
  · intro k m c hk hm hc halone p hp i hi hkey
    by_cases hkey' : k = out.subject.key
    · subst hkey'
      obtain rfl : n = m := Option.some.inj (hinvoked.current_self.symm.trans hm)
      rcases hget hi with hi | rfl
      swap
      · rfl
      rw [hinvoked.underWay, List.mem_append] at hp
      rcases hp with hp | hp
      · rcases hinvoked.logical with ⟨hn, -, heq⟩ | ⟨-, rfl, heq⟩
        · exact h.underWay _ n c hk hn (heq ▸ hc) halone p hp i hi hkey
        · rw [heq, List.getElem?_concat_length] at hc
          obtain rfl := Option.some.inj hc
          exact absurd hkey (of_decide_eq_true halone p hp i hi)
      · obtain rfl := List.mem_singleton.mp hp
        simp at hi
    · obtain ⟨hm, hc, -⟩ := hold hkey' hk hm hc
      rcases hget hi with hi | rfl
      · rw [hinvoked.underWay, List.mem_append] at hp
        rcases hp with hp | hp
        · exact h.underWay k m c hk hm hc halone p hp i hi hkey
        · obtain rfl := List.mem_singleton.mp hp
          simp at hi
      · exact absurd hkey.symm hkey'
  · intro k m c hk hm hc halone
    by_cases hkey : k = out.subject.key
    · subst hkey
      obtain rfl : n = m := Option.some.inj (hinvoked.current_self.symm.trans hm)
      obtain ⟨d, hd, hsubject⟩ := hinvoked.logicals_self
      obtain rfl := Option.some.inj (hd.symm.trans hc)
      exact .inl ⟨⟨out, n⟩, hinvoked.mem_invocations.mpr (.inr rfl), rfl,
        hsubject ▸ hinvoked.client.pending_self⟩
    · obtain ⟨hm, hc, hpending⟩ := hold hkey hk hm hc
      rw [hpending, hinvoked.hasReturned]
      rcases h.pending k m c hk hm hc halone with ⟨i, hi, hrest⟩ | hreturned
      · exact .inl ⟨i, hinvoked.mem_invocations.mpr (.inl hi), hrest⟩
      · exact .inr hreturned
  · intro m c hc halone hm
    by_cases hbefore : ∃ d, w.logicals[m]? = some d
    · obtain ⟨d, hd⟩ := hbefore
      obtain rfl := Option.some.inj ((hinvoked.logicals_get hd).symm.trans hc)
      obtain ⟨i, hi, hlogical, hall⟩ := h.oneId m d hd halone hm
      refine ⟨i, hinvoked.mem_invocations.mpr (.inl hi), hlogical, fun j hj hj' => ?_⟩
      rcases hinvoked.mem_invocations.mp hj with hj | rfl
      · exact hall j hj hj'
      -- the call goes on, so it has not returned and its id is pending
      obtain rfl : n = m := hj'
      obtain ⟨d', hd', hsubject⟩ := hinvoked.logicals_self
      obtain rfl := Option.some.inj (hd'.symm.trans hc)
      have hk : ¬ out.subject.key.Mutates := hsubject ▸ hm
      have hn : w.current out.subject.key = some n := by
        rcases hinvoked.logical with ⟨hn, -⟩ | ⟨-, rfl, -⟩
        · exact hn
        · simp at hd
      rcases h.pending _ n d' hk hn hd halone with ⟨j, hj, hjn, hpending⟩ | hreturned
      · rw [hsubject] at hpending
        rcases hasking.reuses hinvoked hk with ⟨-, -, -, -, hreused⟩ | ⟨hnone, -⟩
        · have hid : j.id = out.id := by
            simpa using hpending.symm.trans hreused
          exact hid.symm.trans (hall j hj hjn)
        · exact absurd hpending (hnone j.id)
      · rcases hids.invoked_open hinvoked with hopen | hopen
        · obtain ⟨taskId, hkey⟩ := CallKey.exists_task hk
          rw [hkey] at hopen
          cases hopen
        · exact absurd hreturned hopen
    · refine ⟨⟨out, n⟩, hinvoked.mem_invocations.mpr (.inr rfl), ?_, fun j hj hj' => ?_⟩
      · rcases hinvoked.logical with ⟨-, -, heq⟩ | ⟨-, rfl, heq⟩
        · exact absurd ⟨c, heq ▸ hc⟩ hbefore
        · rw [heq] at hc
          have hlt := (List.getElem?_eq_some_iff.mp hc).1
          have hge : w.logicals.length ≤ m := by
            by_contra hlt'
            exact hbefore ⟨_, List.getElem?_eq_getElem (Nat.lt_of_not_le hlt')⟩
          simp only [List.length_append, List.length_singleton] at hlt
          show w.logicals.length = m
          omega
      · rcases hinvoked.mem_invocations.mp hj with hj | rfl
        · obtain ⟨d, hd, -⟩ := hids.logical j hj
          exact absurd ⟨d, hj' ▸ hd⟩ hbefore
        · rfl

/-! ### The other steps -/

/-- The client, the requests and the logical calls are what `Asking` is about. -/
theorem Asking.of_eq (h : w.Asking u) (huuids : w'.client.uuids = w.client.uuids)
    (hpending : ∀ k s id, ¬ k.Mutates → w'.client.pending k = some (s, id) →
      w.client.pending k = some (s, id) ∨ s.key = k ∧ ∃ i ∈ w.invocations, i.subject = s ∧
        i.id = id)
    (hinvocations : w'.invocations = w.invocations) (hlogicals : w'.logicals = w.logicals)
    (hcurrent : ∀ k n, ¬ k.Mutates → w'.current k = some n → w.current k = some n) :
    w'.Asking u := by
  constructor
  · rw [huuids, hinvocations]; exact h.missed
  · rw [hinvocations]; exact h.drawn
  · rw [hinvocations]; exact h.asks
  · rw [hinvocations]; exact h.sameId
  · intro k s id hk hp
    rw [hinvocations]
    exact (hpending k s id hk hp).elim (h.pending k s id hk) fun hnew => hnew
  · intro k n hk hn
    rw [hlogicals]
    exact h.current k n hk (hcurrent k n hk hn)

/-- What leaves the pending question alone keeps it the only one. -/
theorem OneQuestion.of_eq (h : w.OneQuestion)
    (hpending : ∀ k n c i, ¬ k.Mutates → w'.current k = some n → w.logicals[n]? = some c →
      c.alone = true → i ∈ w.invocations → i.logical = n →
      w.client.pending k = some (c.subject, i.id) →
      (∃ i ∈ w.invocations, i.logical = n ∧ w'.client.pending k = some (c.subject, i.id)) ∨
        w'.HasReturned n)
    (hcurrent : ∀ k n, ¬ k.Mutates → w'.current k = some n → w.current k = some n)
    (hinvocations : w'.invocations = w.invocations) (hlogicals : w'.logicals = w.logicals)
    (hreturned : ∀ n, w.HasReturned n → w'.HasReturned n)
    (hunderWay : ∀ p ∈ w'.underWay, ∃ q ∈ w.underWay, q.1 = p.1) : w'.OneQuestion := by
  constructor
  · intro k n c hk hn hc halone p hp i hi hkey
    rw [hlogicals] at hc
    rw [hinvocations] at hi
    obtain ⟨q, hq, hsame⟩ := hunderWay p hp
    exact h.underWay k n c hk (hcurrent k n hk hn) hc halone q hq i (hsame ▸ hi) hkey
  · intro k n c hk hn hc halone
    rw [hlogicals] at hc
    rw [hinvocations]
    rcases h.pending k n c hk (hcurrent k n hk hn) hc halone with ⟨i, hi, hin, hp⟩ | hreturn
    · exact hpending k n c i hk hn hc halone hi hin hp
    · exact .inr (hreturned n hreturn)
  · rw [hlogicals, hinvocations]
    exact h.oneId

/-- What is under way after an attempt failed was under way before. -/
theorem fail_underWay (w : Network) (n : ℕ) (f : Failure) :
    ∀ p ∈ (w.fail n f).underWay, ∃ q ∈ w.underWay, q.1 = p.1 := by
  intro p hp
  unfold Network.fail at hp
  split at hp
  · exact ⟨p, hp, rfl⟩
  split at hp
  · obtain ⟨q, hq, rfl⟩ := List.mem_map.mp hp
    refine ⟨q, hq, ?_⟩
    split
    · next hn => exact hn
    · rfl
  · exact ⟨p, List.mem_of_mem_filter hp, rfl⟩

/-- A hold that times out names the id its question was asked under. -/
def Retries (w : Network) : Prop :=
  ∀ n retryAs i, (n, .streamed (.timeout retryAs)) ∈ w.answers → w.invocations[n]? = some i →
    retryAs = i.id

/-- An answer received keeps what is known of the questions. -/
theorem Asking.receive (h : w.Asking u) (hretries : w.Retries)
    (contextOf : String → Option String) (n k : ℕ) : (w.receive contextOf n k).Asking u := by
  rcases w.receive_cases contextOf n k with hsame | ⟨attempts, i, a, -, hget, ha, hw⟩
  · rw [hsame]
    exact h
  have hi : i ∈ w.invocations := List.mem_of_getElem? hget
  rw [hw]
  refine h.of_eq (w.client.finish_cases contextOf i.subject a).2.1 ?_ rfl rfl fun _ _ _ => id
  intro key s id hk hp
  rcases w.client.finish_question contextOf i.subject a hk with
    ⟨hsame, -⟩ | ⟨hkey, e, v, rfl, -, ⟨retryAs, rfl, htimeout⟩ | ⟨-, hnone⟩, -⟩
  · exact .inl (hsame ▸ hp)
  · obtain ⟨rfl, rfl⟩ : i.subject = s ∧ retryAs = id := by
      simpa using htimeout.symm.trans hp
    exact .inr ⟨hkey, i, hi, rfl, (hretries n retryAs i ha hget).symm⟩
  · have hp' : (w.client.finish contextOf i.subject (.streamed e)).1.pending key = _ := hp
    rw [hnone] at hp'
    cases hp'

/-- An answer received keeps the pending question the only one. -/
theorem OneQuestion.receive (h : w.OneQuestion) (hids : w.Identified u settings)
    (hretries : w.Retries) (contextOf : String → Option String) (n k : ℕ) :
    (w.receive contextOf n k).OneQuestion := by
  rcases w.receive_cases contextOf n k with hsame | ⟨attempts, i, a, hunderWay, hget, ha, hw⟩
  · rw [hsame]
    exact h
  have hi : i ∈ w.invocations := List.mem_of_getElem? hget
  rw [hw]
  refine h.of_eq ?_ (fun _ _ _ => id) rfl rfl
    (fun m ⟨x, hx, hrest⟩ => ⟨x, List.mem_append_left _ hx, hrest⟩)
    (fun p hp => ⟨p, List.mem_of_mem_filter hp, rfl⟩)
  intro key m c j hk hm hc halone hj hjm hpending
  rcases w.client.finish_question contextOf i.subject a hk with
    ⟨hsame, -⟩ | ⟨hkey, e, v, rfl, hv, hend, -⟩
  · exact .inl ⟨j, hj, hjm, hsame.trans hpending⟩
  -- what is read is about the call itself
  have hlogical : i.logical = m := h.underWay key m c hk hm hc halone _ hunderWay i hget hkey
  rcases hend with ⟨retryAs, rfl, htimeout⟩ | ⟨hfinal, -⟩
  · obtain ⟨d, hd, hsubject⟩ := hids.logical i hi
    obtain rfl := Option.some.inj ((hlogical ▸ hd).symm.trans hc)
    refine .inl ⟨i, hi, hlogical, htimeout.trans ?_⟩
    rw [hsubject, hretries n retryAs i ha hget]
  · right
    refine ⟨⟨i.logical, v⟩, ?_, hlogical, hfinal⟩
    simp [hv]

/-- Nothing is asked at the start. -/
theorem asking_start (v : Uuids) (instanceId : String) :
    (start v u settings instanceId).Asking u where
  missed := by simp [start]
  drawn := by simp [start]
  asks := by simp [start]
  sameId := by simp [start]
  pending := by simp [start]
  current := by simp [start]

/-- Nothing is under way at the start. -/
theorem oneQuestion_start (v : Uuids) (instanceId : String) :
    (start v u settings instanceId).OneQuestion where
  underWay := by simp [start]
  pending := by simp [start]
  oneId := by simp [start]

/-- **Every step** keeps the ids of the questions. -/
theorem asking_exec (r : Rendering) (contextOf : String → Option String) (l : NetStep u.toUuids)
    (w : Network) (hids : w.Identified u settings) (hretries : w.Retries) (h : w.Asking u)
    (hone : w.OneQuestion) :
    (exec r contextOf l w).Asking u ∧ (exec r contextOf l w).OneQuestion := by
  -- where the client stays as it is, so do its questions
  have hstays {w' : Network} (hclient : w'.client = w.client)
      (hinvocations : w'.invocations = w.invocations) (hlogicals : w'.logicals = w.logicals)
      (hcurrent : w'.current = w.current) (hreturns : w'.returns = w.returns)
      (hunderWay : ∀ p ∈ w'.underWay, ∃ q ∈ w.underWay, q.1 = p.1) :
      w'.Asking u ∧ w'.OneQuestion := by
    refine ⟨h.of_eq (by rw [hclient]) (fun _ _ _ _ hp => .inl (hclient ▸ hp)) hinvocations
      hlogicals (fun _ _ _ hn => hcurrent ▸ hn), hone.of_eq ?_ (fun _ _ _ hn => hcurrent ▸ hn)
      hinvocations hlogicals (fun n hn => ?_) hunderWay⟩
    · intro k n c i _ _ _ _ hi hin hp
      exact .inl ⟨i, hi, hin, by rw [hclient]; exact hp⟩
    · simpa only [HasReturned, hreturns] using hn
  cases l with
  | call l hforeign => exact hstays rfl rfl rfl rfl rfl fun p hp => ⟨p, hp, rfl⟩
  | invoke call =>
    show (w.invoke call).Asking u ∧ (w.invoke call).OneQuestion
    rcases w.invoke_cases call with ⟨hnone, hw⟩ | ⟨out, n, hout, hinvoked⟩
    · have hsilent {k : CallKey} : ∀ out ∈ (w.client.invoke call).2, out.subject.key ≠ k := by
        rw [hnone]
        intro out hout
        cases hout
      obtain ⟨current, hgive, -⟩ := w.giveUp_eq call
      have hcurrent (k : CallKey) (n : ℕ) (hn : (w.invoke call).current k = some n) :
          ¬ call.givesUp k ∧ w.current k = some n := by
        rcases invoke_current hsilent with ⟨hgives, hsame⟩ | hgone
        · exact ⟨hgives, hsame ▸ hn⟩
        · rw [hgone] at hn
          cases hn
      have huuids : (w.client.invoke call).1.uuids = w.client.uuids := by
        rcases w.client.invoke_cases call with ⟨-, -, huuids, -⟩ | ⟨out, hout, -⟩
        · exact huuids
        · rw [hnone] at hout
          cases hout
      have hpending {k : CallKey} := w.client.invoke_pending_or (hsilent (k := k))
      rw [hw, hgive] at hcurrent ⊢
      refine ⟨h.of_eq huuids (fun k s id hk hp => ?_) rfl rfl (fun k n _ hn => (hcurrent k n hn).2),
        hone.of_eq (fun k n c i hk hn _ _ hi hin hp => ?_) (fun k n _ hn => (hcurrent k n hn).2) rfl
          rfl (fun _ => id) fun p hp => ⟨p, hp, rfl⟩⟩
      · rcases hpending with hsame | hgone
        · exact .inl (hsame ▸ hp)
        · exact absurd (hgone.symm.trans hp) (by simp)
      · refine .inl ⟨i, hi, hin, ?_⟩
        exact (WorkerClient.invoke_pending (hcurrent k n hn).1 hsilent).trans hp
    · have hsilent {k : CallKey} (hk : k ≠ out.subject.key) :
          ∀ out ∈ (w.client.invoke call).2, out.subject.key ≠ k := by
        intro out' hout'
        obtain rfl := Option.some.inj (hout.symm.trans hout')
        exact hk.symm
      have hclient : (w.invoke call).client = (w.client.invoke call).1 := by
        unfold Network.invoke
        rcases w.client.invoke call with ⟨client, _ | out⟩ <;> rfl
      refine ⟨h.invoked hids hinvoked (fun _ _ => WorkerClient.invoke_asks hout)
        (fun k hk => ?_) (fun k hk => ?_), hone.invoked h hids hinvoked fun k hk => ?_⟩
      · rw [hclient]
        exact (w.client.invoke_pending_or (hsilent hk)).imp_right .inl
      · exact (invoke_current (hsilent hk)).imp (·.2) .inl
      · rcases invoke_current (hsilent hk) with ⟨hgives, hsame⟩ | hgone
        · refine .inl ⟨hsame, ?_⟩
          rw [hclient]
          exact WorkerClient.invoke_pending hgives (hsilent hk)
        · exact .inr (.inl hgone)
  | deliver n remoteAddr clock =>
    simp only [exec, deliver]
    split
    · exact ⟨h, hone⟩
    · exact hstays rfl rfl rfl rfl rfl fun p hp => ⟨p, hp, rfl⟩
  | release k found =>
    simp only [exec, release]
    split
    · exact ⟨h, hone⟩
    · exact hstays rfl rfl rfl rfl rfl fun p hp => ⟨p, hp, rfl⟩
  | receive n k =>
    exact ⟨h.receive hretries contextOf n k, hone.receive hids hretries contextOf n k⟩
  | fail n f =>
    have hunderWay := w.fail_underWay n f
    show (w.fail n f).Asking u ∧ (w.fail n f).OneQuestion
    unfold Network.fail at hunderWay ⊢
    split
    · exact ⟨h, hone⟩
    · next hlookup =>
      simp only [hlookup] at hunderWay
      split <;> rename_i hretry <;> simp only [hretry] at hunderWay
      · exact hstays rfl rfl rfl rfl rfl hunderWay
      · exact hstays rfl rfl rfl rfl rfl hunderWay

end

end Network

end AgentHub
