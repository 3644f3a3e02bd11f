import AgentHub.Worker.Delivery
import AgentHub.Worker.Ids

namespace AgentHub

open Relational

/-!
# Mutations take effect once

A logical call goes out under one operation id, whatever the network does to its requests, and the
ledger takes an id once; so it writes one message and one event at most, and has written them when
it returns.  Progress loses its id when a result of the task returns, and goes out under another
one then; but by that time the task has ended.

* `Network.Accounted` — the ledger, and what was written under each id;
* `Network.OneId` — an undisturbed logical call has one id that can be recorded;
* `exactly_once` — what a logical call has written, in every state of every run.
-/

namespace Network

/-- What was written under an operation id. -/
def under (w : Network) (id : String) : List Written :=
  (w.posts.filter fun p => p.key.Mutates ∧ p.id = id).flatMap Post.writes

/-- What the requests of a logical call wrote. -/
def wrote (w : Network) (n : ℕ) : List Written :=
  (w.posts.filter fun p => p.logical = n).flatMap Post.writes

/-! ### The invariants -/

/-- The ledger and the requests: a row under one of the client's ids was written by a request of
    the worker, for one recorder; a stored answer and a return come with a row; and under an id
    there is one message and one event if there is a row, and nothing if there is none. -/
structure Accounted (u : HexUuids) (settings : WorkerSettings) (w : Network) : Prop where
  rows : ∀ row ∈ w.hub.db.operations, ¬ u.Misses row.operationId →
    ∃ i ∈ w.invocations, i.subject.key.Mutates ∧ i.id = row.operationId
  recorder : ∀ row ∈ w.hub.db.operations, ∀ i ∈ w.invocations, i.subject.key.Mutates →
    i.id = row.operationId → w.hub.db.recorder? settings i.subject.key = some row.actor
  closed : ∀ i ∈ w.invocations, ∀ taskId, i.subject.key = .result taskId →
    w.hub.db.HasRow i.id → w.hub.db.Closed taskId
  answered : ∀ n responseJson, (n, .stored responseJson) ∈ w.answers →
    ∃ i, w.invocations[n]? = some i ∧ (i.subject.key.Mutates → w.hub.db.HasRow i.id)
  posts : ∀ p ∈ w.posts, ∃ i ∈ w.invocations, i.id = p.id ∧ i.logical = p.logical ∧
    i.subject.key = p.key
  written : ∀ i ∈ w.invocations, i.subject.key.Mutates →
    (¬ w.hub.db.HasRow i.id ∧ w.under i.id = []) ∨
      w.hub.db.HasRow i.id ∧ ∃ m e, i.subject.key.Wrote m e ∧ w.under i.id = [.message m, .event e]
  returned : ∀ n c, w.logicals[n]? = some c → c.subject.key.Mutates → w.HasReturned n →
    ∃ i ∈ w.invocations, i.logical = n ∧ w.hub.db.HasRow i.id

end Network

/-- Nothing will ever be recorded under this id: it is of a progress note on an ended task. -/
def Db.Dead (d : Db) (k : CallKey) (id : String) : Prop :=
  (∃ taskId, k = .progress taskId ∧ d.Closed taskId) ∧ ¬ d.HasRow id

namespace Network

/-- A logical call that began alone: while it is the current one, what is under way for its key is
    its own, and its id is pending unless it has returned or its task has ended; and all its
    requests go out under one id, but for such as are dead. -/
structure OneId (w : Network) : Prop where
  underWay : ∀ k n c, k.Mutates → w.current k = some n → w.logicals[n]? = some c →
    c.alone = true → ∀ p ∈ w.underWay, ∀ i ∈ w.invocations[p.1]?, i.subject.key = k → i.logical = n
  pending : ∀ k n c, k.Mutates → w.current k = some n → w.logicals[n]? = some c →
    c.alone = true → (∃ id, w.client.pending k = some (c.subject, id)) ∨
      (k.isResult = false ∧ w.HasReturned n) ∨ ∃ taskId, k = .progress taskId ∧
        w.hub.db.Closed taskId
  oneId : ∀ n c, w.logicals[n]? = some c → c.alone = true → c.subject.key.Mutates →
    ∃ i ∈ w.invocations, i.logical = n ∧ ∀ j ∈ w.invocations, j.logical = n →
      j.id = i.id ∨ w.hub.db.Dead j.subject.key j.id

section

variable {w w' : Network} {u : HexUuids} {settings : WorkerSettings} {i j : Invocation}
  {n : ℕ} {out : Outgoing}

/-! ### The ledger -/

/-- One more post under an id. -/
theorem under_append {p : Post} (hposts : w'.posts = w.posts ++ [p]) (id : String) :
    w'.under id = w.under id ++ if p.key.Mutates ∧ p.id = id then p.writes else [] := by
  by_cases hp : p.key.Mutates ∧ p.id = id <;> simp [under, hposts, List.filter_append, hp]

/-- The ledger gains no row under the client's ids, and nothing is written under one. -/
theorem Accounted.of_evolves (h : w.Accounted u settings) (hids : w.Identified u settings)
    (hevolves : w.hub.db.Evolves w'.hub.db)
    (hrows : ∀ row ∈ w'.hub.db.operations, ¬ u.Misses row.operationId →
      row ∈ w.hub.db.operations)
    (hinvocations : w'.invocations = w.invocations) (hlogicals : w'.logicals = w.logicals)
    (hposts : ∀ p ∈ w'.posts, p ∈ w.posts ∨ ∃ i ∈ w.invocations, i.id = p.id ∧
      i.logical = p.logical ∧ i.subject.key = p.key)
    (hunder : ∀ id, w'.under id = w.under id)
    (hanswered : ∀ n responseJson, (n, .stored responseJson) ∈ w'.answers →
      ∃ i, w.invocations[n]? = some i ∧ (i.subject.key.Mutates → w.hub.db.HasRow i.id))
    (hreturned : ∀ n c, w.logicals[n]? = some c → c.subject.key.Mutates → w'.HasReturned n →
      ∃ i ∈ w.invocations, i.logical = n ∧ w.hub.db.HasRow i.id) :
    w'.Accounted u settings := by
  have hrow (i : Invocation) (hi : i ∈ w.invocations) (hm : i.subject.key.Mutates) :
      w'.hub.db.HasRow i.id ↔ w.hub.db.HasRow i.id := by
    constructor
    · rintro ⟨row, hrow, hid⟩
      exact ⟨row, hrows row hrow (hid ▸ hids.drawn i hi hm), hid⟩
    · exact hevolves.hasRow
  constructor
  · intro row hrow hdrawn
    rw [hinvocations]
    exact h.rows row (hrows row hrow hdrawn) hdrawn
  · intro row hrow i hi hm hid
    rw [hinvocations] at hi
    exact hevolves.recorder?
      (h.recorder row (hrows row hrow (hid ▸ hids.drawn i hi hm)) i hi hm hid)
  · intro i hi taskId hkey hhas
    rw [hinvocations] at hi
    have hm : i.subject.key.Mutates := hkey ▸ trivial
    exact hevolves.closed (h.closed i hi taskId hkey ((hrow i hi hm).mp hhas))
  · intro n responseJson hanswer
    rw [hinvocations]
    obtain ⟨i, hi, hhas⟩ := hanswered n responseJson hanswer
    exact ⟨i, hi, fun hm => hevolves.hasRow (hhas hm)⟩
  · intro p hp
    rw [hinvocations]
    exact (hposts p hp).elim (h.posts p) id
  · intro i hi hm
    rw [hinvocations] at hi
    rw [hunder, hrow i hi hm]
    exact h.written i hi hm
  · intro n c hc hm hreturn
    rw [hlogicals] at hc
    obtain ⟨i, hi, hlogical, hhas⟩ := hreturned n c hc hm hreturn
    exact ⟨i, hinvocations ▸ hi, hlogical, hevolves.hasRow hhas⟩

/-- **A mutation that is recorded** had no row before: a row under its id would be for the same
    recorder. -/
theorem Accounted.no_row (h : w.Accounted u settings) (hi : i ∈ w.invocations)
    (hm : i.subject.key.Mutates) {d' : Db} {row : OperationRecord} {m : MessageRecord}
    {e : EventRecord} (hrec : w.hub.db.Records d' settings i.toOutgoing row m e) :
    ¬ w.hub.db.HasRow i.id := by
  rintro ⟨row', hrow', hid⟩
  have hactor : row'.actor = row.actor :=
    Option.some.inj ((h.recorder row' hrow' i hi hm hid.symm).symm.trans hrec.recorder)
  have hkey : row'.key = row.key := by
    rw [OperationRecord.key, OperationRecord.key, hactor, hid, hrec.id]
  exact Table.find?_eq_none_iff.mp (hrec.mutates.fresh row rfl) row' hrow' hkey

/-- One of the worker's mutations is recorded. -/
theorem Accounted.records (h : w.Accounted u settings) (hids : w.Identified u settings)
    (hi : i ∈ w.invocations) (hm : i.subject.key.Mutates) {row : OperationRecord}
    {m : MessageRecord} {e : EventRecord}
    (hrec : w.hub.db.Records w'.hub.db settings i.toOutgoing row m e)
    (hevolves : w.hub.db.Evolves w'.hub.db)
    (hinvocations : w'.invocations = w.invocations) (hlogicals : w'.logicals = w.logicals)
    (hposts : w'.posts = w.posts ++
      [⟨i.logical, i.subject.key, i.id, w.hub.db.written w'.hub.db⟩])
    (hanswered : ∀ n responseJson, (n, .stored responseJson) ∈ w'.answers →
      (n, .stored responseJson) ∈ w.answers ∨ w.invocations[n]? = some i)
    (hreturns : w'.returns = w.returns) : w'.Accounted u settings := by
  have hmem {x : OperationRecord} : x ∈ w'.hub.db.operations ↔ x ∈ w.hub.db.operations ∨ x = row :=
    hrec.mutates.mem_operations
  have hself : w'.hub.db.HasRow i.id := ⟨row, hmem.mpr (.inr rfl), hrec.id⟩
  -- the ledger has one operation more, the one of this invocation
  have hrow (id : String) : w'.hub.db.HasRow id ↔ w.hub.db.HasRow id ∨ id = i.id := by
    constructor
    · rintro ⟨x, hx, rfl⟩
      rcases hmem.mp hx with hx | rfl
      · exact .inl ⟨x, hx, rfl⟩
      · exact .inr hrec.id
    · rintro (hhas | rfl)
      · exact hevolves.hasRow hhas
      · exact hself
  -- two mutations that share an id are about the same subject
  have hsubject (j : Invocation) (hj : j ∈ w.invocations) (hmj : j.subject.key.Mutates)
      (hid : j.id = i.id) : j.subject = i.subject :=
    hids.subject_eq hj hi (hids.sameId j hj i hi hmj hm hid)
  constructor
  · intro x hx hdrawn
    rw [hinvocations]
    rcases hmem.mp hx with hx | rfl
    · exact h.rows x hx hdrawn
    · exact ⟨i, hi, hm, hrec.id.symm⟩
  · intro x hx j hj hmj hid
    rw [hinvocations] at hj
    rcases hmem.mp hx with hx | rfl
    · exact hevolves.recorder? (h.recorder x hx j hj hmj hid)
    · rw [hsubject j hj hmj (hid.trans hrec.id)]
      exact hevolves.recorder? hrec.recorder
  · intro j hj taskId hkey hhas
    rw [hinvocations] at hj
    rcases (hrow j.id).mp hhas with hold | hid
    · exact hevolves.closed (h.closed j hj taskId hkey hold)
    · refine hrec.closes taskId ?_
      rw [← hkey, hsubject j hj (hkey ▸ trivial) hid]
  · intro n responseJson hanswer
    rw [hinvocations]
    rcases hanswered n responseJson hanswer with hold | hget
    · obtain ⟨j, hj, hhas⟩ := h.answered n responseJson hold
      exact ⟨j, hj, fun hmj => hevolves.hasRow (hhas hmj)⟩
    · exact ⟨i, hget, fun _ => hself⟩
  · intro p hp
    rw [hinvocations]
    rw [hposts, List.mem_append, List.mem_singleton] at hp
    rcases hp with hp | rfl
    · exact h.posts p hp
    · exact ⟨i, hi, rfl, rfl, rfl⟩
  · intro j hj hmj
    rw [hinvocations] at hj
    rw [under_append hposts]
    by_cases hid : i.id = j.id
    · right
      refine ⟨hid ▸ hself, m, e, ?_, ?_⟩
      · rw [hsubject j hj hmj hid.symm]
        exact hrec.wrote
      · -- before the delivery the id had no row, so nothing was written under it
        have hnone : w.under j.id = [] := by
          rcases h.written j hj hmj with ⟨-, hnone⟩ | ⟨hhas, -⟩
          · exact hnone
          · exact absurd (hid ▸ hhas) (h.no_row hi hm hrec)
        rw [hnone, if_pos ⟨hm, hid⟩]
        exact hrec.mutates.written
    · have hsame : w'.hub.db.HasRow j.id ↔ w.hub.db.HasRow j.id := by
        rw [hrow]
        exact or_iff_left fun heq => hid heq.symm
      rw [if_neg fun hp => hid hp.2, List.append_nil, hsame]
      exact h.written j hj hmj
  · intro n c hc hmc hreturn
    rw [hlogicals] at hc
    have hold : w.HasReturned n := by
      simpa only [HasReturned, hreturns] using hreturn
    obtain ⟨j, hj, hlogical, hhas⟩ := h.returned n c hc hmc hold
    exact ⟨j, hinvocations ▸ hj, hlogical, hevolves.hasRow hhas⟩

/-- Nothing is recorded or written under the uuid that is drawn next. -/
theorem Accounted.head_unwritten (h : w.Accounted u settings) (hids : w.Identified u settings) :
    ¬ w.hub.db.HasRow w.client.uuids.head ∧ w.under w.client.uuids.head = [] := by
  constructor
  · rintro ⟨row, hrow, hid⟩
    obtain ⟨i, hi, hm, hi'⟩ := h.rows row hrow (hid ▸ hids.head_drawn)
    exact hids.head_ne hi hm (hi'.trans hid)
  · rw [under, List.filter_eq_nil_iff.mpr, List.flatMap_nil]
    intro p hp hunder
    obtain ⟨hm, hid⟩ := of_decide_eq_true hunder
    obtain ⟨i, hi, hi', -, hkey⟩ := h.posts p hp
    exact hids.head_ne hi (hkey ▸ hm) (hi'.trans hid)

/-- **A mutation goes out**: an id that is reused is accounted for, and nothing is known of a fresh
    one. -/
theorem Accounted.invoked (h : w.Accounted u settings) (hids : w.Identified u settings)
    (hinvoked : w.Invoked w' out n) : w'.Accounted u settings := by
  obtain ⟨hhub, hholds, hanswers, hposts, hreturns, hreplies⟩ := hinvoked.rest
  have hunder (id : String) : w'.under id = w.under id := by
    rw [under, under, hposts]
  -- an id just drawn has no row and no writes
  have hfresh (hid : out.id = w.client.uuids.head) :
      ¬ w.hub.db.HasRow out.id ∧ w.under out.id = [] := hid ▸ h.head_unwritten hids
  constructor
  · intro row hrow hdrawn
    rw [hhub] at hrow
    obtain ⟨i, hi, hmi, hid⟩ := h.rows row hrow hdrawn
    exact ⟨i, hinvoked.mem_invocations.mpr (.inl hi), hmi, hid⟩
  · intro row hrow i hi hm hid
    rw [hhub] at hrow ⊢
    rcases hinvoked.mem_invocations.mp hi with hi | rfl
    · exact h.recorder row hrow i hi hm hid
    · rcases hids.reuses hinvoked hm with ⟨j, hj, hsubject, hj', -⟩ | ⟨-, hhead, -⟩
      · show w.hub.db.recorder? settings out.subject.key = _
        rw [← hsubject]
        exact h.recorder row hrow j hj (hsubject ▸ hm) (hj'.trans hid)
      · exact absurd ⟨row, hrow, hid.symm⟩ (hfresh hhead).1
  · intro i hi taskId hkey hhas
    rw [hhub] at hhas ⊢
    rcases hinvoked.mem_invocations.mp hi with hi | rfl
    · exact h.closed i hi taskId hkey hhas
    · have hm : out.subject.key.Mutates := hkey ▸ trivial
      rcases hids.reuses hinvoked hm with ⟨j, hj, hsubject, hj', -⟩ | ⟨-, hhead, -⟩
      · exact h.closed j hj taskId (hsubject ▸ hkey) (hj' ▸ hhas)
      · exact absurd hhas (hfresh hhead).1
  · intro k responseJson hanswer
    rw [hanswers] at hanswer
    rw [hhub, hinvoked.invocations]
    obtain ⟨i, hi, hhas⟩ := h.answered k responseJson hanswer
    exact ⟨i, (List.getElem?_append_left (List.getElem?_eq_some_iff.mp hi).1).trans hi, hhas⟩
  · intro p hp
    obtain ⟨i, hi, hi'⟩ := h.posts p (hposts ▸ hp)
    exact ⟨i, hinvoked.mem_invocations.mpr (.inl hi), hi'⟩
  · intro i hi hm
    rw [hhub, hunder]
    rcases hinvoked.mem_invocations.mp hi with hi | rfl
    · exact h.written i hi hm
    · -- a retry sends a known id again; otherwise the id is new
      rcases hids.reuses hinvoked hm with ⟨j, hj, hsubject, hj', -⟩ | ⟨-, hhead, -⟩
      · have hwritten := h.written j hj (hsubject ▸ hm)
        rw [hsubject, hj'] at hwritten
        exact hwritten
      · exact .inl (hfresh hhead)
  · intro m c hc hm hreturn
    rw [hinvoked.hasReturned] at hreturn
    rw [hhub]
    obtain ⟨x, hx, hlogical, hfinal⟩ := hreturn
    obtain ⟨d, hd⟩ : ∃ d, w.logicals[m]? = some d :=
      ⟨_, List.getElem?_eq_getElem (hlogical ▸ hids.returned x hx)⟩
    obtain rfl : d = c := Option.some.inj ((hinvoked.logicals_get hd).symm.trans hc)
    obtain ⟨i, hi, hi'⟩ := h.returned m d hd hm ⟨x, hx, hlogical, hfinal⟩
    exact ⟨i, hinvoked.mem_invocations.mpr (.inl hi), hi'⟩

/-- **A request of the worker reaches the hub.**  The ledger stays as it is, and a mutation writes
    nothing; or a mutation is recorded. -/
theorem deliver_cases (hids : w.Identified u settings) (r : Rendering) (n : ℕ)
    (remoteAddr : Option String) (clock : ℕ → Moment) :
    w.deliver r n remoteAddr clock = w ∨ ∃ i hub answers holds, w.invocations[n]? = some i ∧
      w.hub.db.Evolves hub.db ∧
      w.deliver r n remoteAddr clock = { w with
        hub
        posts := w.posts ++ [⟨i.logical, i.subject.key, i.id, w.hub.db.written hub.db⟩]
        answers := w.answers ++ answers
        holds := w.holds ++ holds } ∧
      (∀ p ∈ answers, p.1 = n) ∧
      ((hub.db.operations = w.hub.db.operations ∧ (i.subject.key.Mutates →
          w.hub.db.written hub.db = [] ∧
            ∀ responseJson, (n, .stored responseJson) ∈ answers → w.hub.db.HasRow i.id)) ∨
        i.subject.key.Mutates ∧
          ∃ row m e, w.hub.db.Records hub.db settings i.toOutgoing row m e) := by
  unfold deliver
  cases hget : w.invocations[n]? with
  | none => exact .inl rfl
  | some i =>
    have hi : i ∈ w.invocations := List.mem_of_getElem? hget
    refine .inr ⟨i, _, _, _, rfl, evolves_request r i.request remoteAddr clock w.hub, rfl, ?_, ?_⟩
    · intro p hp
      obtain ⟨a, -, rfl⟩ := Option.map_eq_some_iff.mp (Option.mem_toList.mp hp)
      rfl
    by_cases hm : i.subject.key.Mutates
    · rcases @dispatch_mutation_cases r remoteAddr settings i.toOutgoing (hids.carries i hi hm) hm
        w.hub clock with ⟨e, hserved⟩ | ⟨responseJson, hresponse, hdb, hhas⟩ |
        ⟨responseJson, row, m, e, -, hrec⟩
      · left
        rw [hserved]
        refine ⟨rfl, fun _ => ⟨Db.written_of_eq rfl, fun responseJson h => ?_⟩⟩
        simp [HubAnswer.of] at h
      · left
        have hdb' : (atomically (dispatch r remoteAddr i.request) (w.hub.connect clock)).2.hub.db =
          w.hub.db := hdb
        exact ⟨congrArg Db.operations hdb', fun _ => ⟨Db.written_of_eq hdb, fun _ _ => hhas⟩⟩
      · exact .inr ⟨hm, row, m, e, hrec⟩
    · left
      refine ⟨?_, fun h => absurd h hm⟩
      cases hsubject : i.subject with
      | question taskId text =>
        have hrequest : i.request = .stream i.message := by
          rw [Outgoing.request, hsubject]
        rw [hrequest]
        exact operations_stream r i.message remoteAddr clock w.hub
      | _ =>
        rw [hsubject] at hm
        exact absurd trivial hm

/-- A delivery keeps the ledger accounted for. -/
theorem Accounted.deliver (h : w.Accounted u settings) (hids : w.Identified u settings)
    (r : Rendering) (n : ℕ) (remoteAddr : Option String) (clock : ℕ → Moment) :
    (w.deliver r n remoteAddr clock).Accounted u settings := by
  rcases deliver_cases hids r n remoteAddr clock with
    hsame | ⟨i, hub, answers, holds, hget, hevolves, hw, hfor, ⟨hoperations, hquiet⟩ |
      ⟨hm, row, m, e, hrec⟩⟩
  · rw [hsame]
    exact h
  · have hi : i ∈ w.invocations := List.mem_of_getElem? hget
    rw [hw]
    refine h.of_evolves hids hevolves (fun row hrow _ => hoperations ▸ hrow) rfl rfl ?_ ?_ ?_
      h.returned
    · intro p hp
      rcases List.mem_append.mp hp with hp | hp
      · exact .inl hp
      · obtain rfl := List.mem_singleton.mp hp
        exact .inr ⟨i, hi, rfl, rfl, rfl⟩
    · intro id
      rw [under_append rfl]
      split
      · next hp => rw [(hquiet hp.1).1, List.append_nil]
      · rw [List.append_nil]
    · intro k responseJson hanswer
      rcases List.mem_append.mp hanswer with hanswer | hanswer
      · exact h.answered k responseJson hanswer
      · obtain rfl : k = n := hfor _ hanswer
        exact ⟨i, hget, fun hm => (hquiet hm).2 responseJson hanswer⟩
  · have hi : i ∈ w.invocations := List.mem_of_getElem? hget
    rw [hw]
    refine h.records hids hi hm hrec hevolves rfl rfl rfl ?_ rfl
    intro k responseJson hanswer
    rcases List.mem_append.mp hanswer with hanswer | hanswer
    · exact .inl hanswer
    · obtain rfl : k = n := hfor _ hanswer
      exact .inr hget

/-- An answer received keeps the ledger accounted for. -/
theorem Accounted.receive (h : w.Accounted u settings) (hids : w.Identified u settings)
    (contextOf : String → Option String) (n k : ℕ) :
    (w.receive contextOf n k).Accounted u settings := by
  rcases w.receive_cases contextOf n k with hsame | ⟨attempts, i, a, -, hget, ha, hw⟩
  · rw [hsame]
    exact h
  have hi : i ∈ w.invocations := List.mem_of_getElem? hget
  rw [hw]
  refine h.of_evolves hids (Db.Evolves.refl _) (fun _ hrow _ => hrow) rfl rfl (fun _ => .inl)
    (fun _ => rfl) h.answered ?_
  intro m c hc hm hreturn
  by_cases hold : w.HasReturned m
  · exact h.returned m c hc hm hold
  obtain ⟨x, hx, rfl, hfinal⟩ := hreturn
  rcases List.mem_append.mp hx with hx | hx
  · exact absurd ⟨x, hx, rfl, hfinal⟩ hold
  obtain ⟨v, hv, rfl⟩ := Option.map_eq_some_iff.mp (Option.mem_toList.mp hx)
  obtain ⟨d, hd, hsubject⟩ := hids.logical i hi
  obtain rfl : d = c := Option.some.inj (hd.symm.trans hc)
  rw [hsubject] at hm
  obtain ⟨-, -, hnone | ⟨responseJson, -, rfl, -⟩ | ⟨-, -, -, hquestion, -⟩⟩ :=
    w.client.finish_cases contextOf i.subject a
  · rw [hnone] at hv
    cases hv
  · obtain ⟨j, hj, hhas⟩ := h.answered n responseJson ha
    obtain rfl := Option.some.inj (hget.symm.trans hj)
    exact ⟨i, hi, rfl, hhas hm⟩
  · exact absurd hm hquestion

/-- The ledger is accounted for at the start: it is empty. -/
theorem accounted_start (v : Uuids) (instanceId : String) :
    (start v u settings instanceId).Accounted u settings where
  rows row hrow := by cases hrow
  recorder row hrow := by cases hrow
  closed := by simp [start]
  answered := by simp [start]
  posts := by simp [start]
  written := by simp [start]
  returned := by simp [start]

/-- Every step keeps the ledger accounted for. -/
theorem accounted_exec (r : Rendering) (contextOf : String → Option String)
    (l : NetStep u.toUuids) (w : Network) (hids : w.Identified u settings)
    (h : w.Accounted u settings) : (exec r contextOf l w).Accounted u settings := by
  -- where the hub stays as it is, the ledger does
  have hstays {w' : Network} (hhub : w'.hub = w.hub) (hinvocations : w'.invocations = w.invocations)
      (hlogicals : w'.logicals = w.logicals) (hposts : w'.posts = w.posts)
      (hanswers : ∀ n responseJson, (n, .stored responseJson) ∈ w'.answers →
        (n, .stored responseJson) ∈ w.answers)
      (hreturns : w'.returns = w.returns) : w'.Accounted u settings := by
    refine h.of_evolves hids (hhub ▸ Db.Evolves.refl _) (fun row hrow _ => hhub ▸ hrow) hinvocations
      hlogicals (fun p hp => .inl (hposts ▸ hp)) (fun id => ?_)
      (fun n responseJson hanswer => h.answered n responseJson (hanswers n responseJson hanswer))
      (fun n c hc hm hreturn => h.returned n c hc hm ?_)
    · rw [under, under, hposts]
    · simpa only [HasReturned, hreturns] using hreturn
  cases l with
  | call l hforeign =>
    exact h.of_evolves hids (evolves_run w.hub [l])
      (fun row hrow hdrawn => hasRow_foreign hforeign hdrawn hrow rfl) rfl rfl (fun _ => .inl)
      (fun _ => rfl) h.answered h.returned
  | invoke call =>
    rcases w.invoke_cases call with ⟨-, hw⟩ | ⟨out, n, -, hinvoked⟩
    · obtain ⟨current, hgive, -⟩ := w.giveUp_eq call
      show (w.invoke call).Accounted u settings
      rw [hw, hgive]
      exact hstays rfl rfl rfl rfl (fun _ _ => id) rfl
    · exact h.invoked hids hinvoked
  | deliver n remoteAddr clock => exact h.deliver hids r n remoteAddr clock
  | release k found =>
    simp only [exec, release]
    split
    · exact h
    · exact hstays rfl rfl rfl rfl (fun _ _ hanswer => by simpa using hanswer) rfl
  | receive n k => exact h.receive hids contextOf n k
  | fail n f =>
    simp only [exec, fail]
    split
    · exact h
    · split <;> exact hstays rfl rfl rfl rfl (fun _ _ => id) rfl

/-! ### One id -/

/-- The client forgets an id only when its call has returned or its task has ended. -/
theorem OneId.of_eq (h : w.OneId)
    (hpending : ∀ k n c id, k.Mutates → w.current k = some n → w.logicals[n]? = some c →
      c.alone = true → w.client.pending k = some (c.subject, id) →
      w'.client.pending k = w.client.pending k ∨ (k.isResult = false ∧ w'.HasReturned n) ∨
        ∃ taskId, k = .progress taskId ∧ w'.hub.db.Closed taskId)
    (hcurrent : ∀ k, k.Mutates → w'.current k = w.current k)
    (hinvocations : w'.invocations = w.invocations) (hlogicals : w'.logicals = w.logicals)
    (hreturned : ∀ n, w.HasReturned n → w'.HasReturned n)
    (hunderWay : ∀ p ∈ w'.underWay, ∃ q ∈ w.underWay, q.1 = p.1)
    (hclosed : ∀ taskId, w.hub.db.Closed taskId → w'.hub.db.Closed taskId)
    (hdead : ∀ i ∈ w.invocations, w.hub.db.Dead i.subject.key i.id →
      w'.hub.db.Dead i.subject.key i.id) : w'.OneId := by
  constructor
  · intro k n c hk hn hc halone p hp i hi hkey
    rw [hcurrent k hk] at hn
    rw [hlogicals] at hc
    rw [hinvocations] at hi
    obtain ⟨q, hq, hsame⟩ := hunderWay p hp
    exact h.underWay k n c hk hn hc halone q hq i (hsame ▸ hi) hkey
  · intro k n c hk hn hc halone
    rw [hcurrent k hk] at hn
    rw [hlogicals] at hc
    rcases h.pending k n c hk hn hc halone with ⟨id, hid⟩ | ⟨hresult, hreturn⟩ | ⟨taskId, hkey, ht⟩
    · rcases hpending k n c id hk hn hc halone hid with hkept | hrest
      · exact .inl ⟨id, hkept.trans hid⟩
      · exact .inr hrest
    · exact .inr (.inl ⟨hresult, hreturned n hreturn⟩)
    · exact .inr (.inr ⟨taskId, hkey, hclosed taskId ht⟩)
  · intro n c hc halone hm
    rw [hlogicals] at hc
    obtain ⟨i, hi, hlogical, hall⟩ := h.oneId n c hc halone hm
    refine ⟨i, hinvocations ▸ hi, hlogical, fun j hj hj' => ?_⟩
    rw [hinvocations] at hj
    exact (hall j hj hj').imp_right (hdead j hj)

/-- **A mutation goes out**: a call that goes on has its id still, or its task has ended. -/
theorem OneId.invoked (h : w.OneId) (hids : w.Identified u settings)
    (hledger : w.Accounted u settings) (hinvoked : w.Invoked w' out n) : w'.OneId := by
  have hhub : w'.hub = w.hub := hinvoked.rest.1
  have hget {m : ℕ} {i : Invocation} (hi : w'.invocations[m]? = some i) :
      w.invocations[m]? = some i ∨ i = ⟨out, n⟩ := by
    rw [hinvoked.invocations, List.getElem?_append] at hi
    split at hi
    · exact .inl hi
    · exact .inr (List.mem_singleton.mp (List.mem_of_getElem? hi))
  -- the logical call of another key is what it was
  have hother {k : CallKey} {m : ℕ} {c : LogicalCall} (hkey : k ≠ out.subject.key) (hk : k.Mutates)
      (hm : w'.current k = some m) (hc : w'.logicals[m]? = some c) :
      w.current k = some m ∧ w.logicals[m]? = some c := by
    rw [hinvoked.current_ne k hkey hk] at hm
    obtain ⟨d, hd, -⟩ := hids.current k m hk hm
    obtain rfl := Option.some.inj ((hinvoked.logicals_get hd).symm.trans hc)
    exact ⟨hm, hd⟩
  constructor
  · intro k m c hk hm hc halone p hp i hi hkey
    by_cases hkey' : k = out.subject.key
    · subst hkey'
      obtain rfl : n = m := Option.some.inj (hinvoked.current_self.symm.trans hm)
      rcases hget hi with hi | rfl
      swap
      · rfl
      rw [hinvoked.underWay, List.mem_append] at hp
      rcases hp with hp | hp
      · rcases hinvoked.logical with ⟨hn, -, heq⟩ | ⟨-, rfl, heq⟩
        · exact h.underWay _ n c hk hn (heq ▸ hc) halone p hp i hi hkey
        · rw [heq, List.getElem?_concat_length] at hc
          obtain rfl := Option.some.inj hc
          exact absurd hkey (of_decide_eq_true halone p hp i hi)
      · obtain rfl := List.mem_singleton.mp hp
        simp at hi
    · obtain ⟨hm, hc⟩ := hother hkey' hk hm hc
      rcases hget hi with hi | rfl
      · rw [hinvoked.underWay, List.mem_append] at hp
        rcases hp with hp | hp
        · exact h.underWay k m c hk hm hc halone p hp i hi hkey
        · obtain rfl := List.mem_singleton.mp hp
          simp at hi
      · exact absurd hkey.symm hkey'
  · intro k m c hk hm hc halone
    by_cases hkey : k = out.subject.key
    · subst hkey
      obtain rfl : n = m := Option.some.inj (hinvoked.current_self.symm.trans hm)
      obtain ⟨d, hd, hsubject⟩ := hinvoked.logicals_self
      obtain rfl := Option.some.inj (hd.symm.trans hc)
      exact .inl ⟨out.id, hsubject ▸ hinvoked.client.pending_self⟩
    · obtain ⟨hm, hc⟩ := hother hkey hk hm hc
      rw [hinvoked.client.pending_ne k hkey hk, hinvoked.hasReturned, hhub]
      exact h.pending k m c hk hm hc halone
  · intro m c hc halone hm
    rw [hhub]
    by_cases hold : ∃ d, w.logicals[m]? = some d
    · obtain ⟨d, hd⟩ := hold
      obtain rfl := Option.some.inj ((hinvoked.logicals_get hd).symm.trans hc)
      obtain ⟨i, hi, hlogical, hall⟩ := h.oneId m d hd halone hm
      refine ⟨i, hinvoked.mem_invocations.mpr (.inl hi), hlogical, fun j hj hj' => ?_⟩
      rcases hinvoked.mem_invocations.mp hj with hj | rfl
      · exact hall j hj hj'
      obtain rfl : n = m := hj'
      obtain ⟨d', hd', hsubject⟩ := hinvoked.logicals_self
      obtain rfl := Option.some.inj (hd'.symm.trans hc)
      rw [hsubject] at hm
      rcases hids.reuses hinvoked hm with ⟨j, hj, hj', hid, hlogical', -⟩ | ⟨hnone, hhead, -⟩
      · have hj'' := hall j hj hlogical'
        rw [hid, hj'] at hj''
        exact hj''
      · right
        have hn : w.current out.subject.key = some n := by
          rcases hinvoked.logical with ⟨hn, -⟩ | ⟨-, rfl, -⟩
          · exact hn
          · simp at hd
        rcases h.pending _ n d' hm hn hd halone with ⟨id, hid⟩ | ⟨hresult, hreturn⟩ |
          ⟨taskId, hkey, hclosed⟩
        · rw [hsubject] at hid
          exact absurd hid (hnone id)
        · rcases hids.invoked_open hinvoked with hopen | hopen
          · rw [hopen] at hresult
            cases hresult
          · exact absurd hreturn hopen
        · exact ⟨⟨taskId, hkey, hclosed⟩, hhead ▸ (hledger.head_unwritten hids).1⟩
    · refine ⟨⟨out, n⟩, hinvoked.mem_invocations.mpr (.inr rfl), ?_, fun j hj hj' => ?_⟩
      · rcases hinvoked.logical with ⟨-, -, heq⟩ | ⟨-, rfl, heq⟩
        · exact absurd ⟨c, heq ▸ hc⟩ hold
        · rw [heq] at hc
          have hlt := (List.getElem?_eq_some_iff.mp hc).1
          have hge : w.logicals.length ≤ m := by
            by_contra hlt'
            exact hold ⟨_, List.getElem?_eq_getElem (Nat.lt_of_not_le hlt')⟩
          simp only [List.length_append, List.length_singleton] at hlt
          show w.logicals.length = m
          omega
      · rcases hinvoked.mem_invocations.mp hj with hj | rfl
        · obtain ⟨d, hd, -⟩ := hids.logical j hj
          exact absurd ⟨d, hj' ▸ hd⟩ hold
        · exact .inl rfl

/-- What is dead stays dead: a request on an ended task is refused. -/
theorem dead_deliver (hids : w.Identified u settings) (r : Rendering) (n : ℕ)
    (remoteAddr : Option String) (clock : ℕ → Moment) (hi : i ∈ w.invocations)
    (hdead : w.hub.db.Dead i.subject.key i.id) :
    (w.deliver r n remoteAddr clock).hub.db.Dead i.subject.key i.id := by
  obtain ⟨⟨taskId, hkey, hclosed⟩, hnone⟩ := hdead
  have hm : i.subject.key.Mutates := hkey ▸ trivial
  rcases deliver_cases hids r n remoteAddr clock with
    hsame | ⟨j, hub, answers, holds, hget, hevolves, hw, -, hrest⟩
  · rw [hsame]
    exact ⟨⟨taskId, hkey, hclosed⟩, hnone⟩
  rw [hw]
  refine ⟨⟨taskId, hkey, hevolves.closed hclosed⟩, ?_⟩
  rintro ⟨row, hrow, hid⟩
  rcases hrest with ⟨hoperations, -⟩ | ⟨hmj, row', m, e, hrec⟩
  · exact hnone ⟨row, hoperations ▸ hrow, hid⟩
  · rcases hrec.mutates.mem_operations.mp hrow with hrow | rfl
    · exact hnone ⟨row, hrow, hid⟩
    · have hj : j ∈ w.invocations := List.mem_of_getElem? hget
      have hsubject := hids.subject_eq hi hj (hids.sameId i hi j hj hm hmj (hid ▸ hrec.id))
      exact hrec.opened taskId (hsubject ▸ hkey) hclosed

/-- An answer received keeps one id to a call. -/
theorem OneId.receive (h : w.OneId) (hledger : w.Accounted u settings)
    (contextOf : String → Option String) (n k : ℕ) : (w.receive contextOf n k).OneId := by
  rcases w.receive_cases contextOf n k with hsame | ⟨attempts, i, a, hunderWay, hget, ha, hw⟩
  · rw [hsame]
    exact h
  have hi : i ∈ w.invocations := List.mem_of_getElem? hget
  rw [hw]
  refine h.of_eq ?_ (fun _ _ => rfl) rfl rfl
    (fun m ⟨x, hx, hrest⟩ => ⟨x, List.mem_append_left _ hx, hrest⟩)
    (fun p hp => ⟨p, List.mem_of_mem_filter hp, rfl⟩) (fun _ => id) (fun _ _ => id)
  intro key m c id hk hm hc halone hpending
  obtain ⟨-, -, hnone | ⟨responseJson, v, rfl, hmi, hfinal, hv, hforget⟩ |
    ⟨-, -, -, -, -, hkept⟩⟩ :=
    w.client.finish_cases contextOf i.subject a
  · left
    show (w.client.finish contextOf i.subject a).1.pending key = _
    rw [hnone]
  · by_cases hcleared : key = i.subject.key.cleared
    · right
      cases hkey : i.subject.key with
      | result taskId =>
        rw [hkey] at hcleared
        obtain ⟨j, hj, hhas⟩ := hledger.answered n responseJson ha
        obtain rfl := Option.some.inj (hget.symm.trans hj)
        exact .inr ⟨taskId, hcleared, hledger.closed i hi taskId hkey (hhas hmi)⟩
      | _ =>
        rw [hkey] at hcleared
        have hlogical := h.underWay key m c hk hm hc halone _ hunderWay i hget
          (hkey.trans hcleared.symm)
        refine .inl ⟨by rw [hcleared]; rfl, ⟨i.logical, v⟩, ?_, hlogical, hfinal⟩
        simp [hv]
    · left
      show (w.client.finish contextOf i.subject _).1.pending key = _
      rw [hforget]
      exact Function.update_of_ne hcleared ..
  · exact .inl (hkept key hk)

/-- Nothing is under way at the start. -/
theorem oneId_start (v : Uuids) (instanceId : String) : (start v u settings instanceId).OneId where
  underWay := by simp [start]
  pending := by simp [start]
  oneId := by simp [start]

/-- Every step keeps one id to a call. -/
theorem oneId_exec (r : Rendering) (contextOf : String → Option String) (l : NetStep u.toUuids)
    (w : Network) (hids : w.Identified u settings) (hledger : w.Accounted u settings)
    (h : w.OneId) : (exec r contextOf l w).OneId := by
  cases l with
  | call l hforeign =>
    refine h.of_eq (fun _ _ _ _ _ _ _ _ _ => .inl rfl) (fun _ _ => rfl) rfl rfl (fun _ => id)
      (fun p hp => ⟨p, hp, rfl⟩) (fun _ => (evolves_run w.hub [l]).closed) ?_
    -- another party's call leaves no row under an id that the worker drew
    rintro i hi ⟨⟨taskId, hkey, hclosed⟩, hnone⟩
    refine ⟨⟨taskId, hkey, (evolves_run w.hub [l]).closed hclosed⟩, ?_⟩
    rintro ⟨row, hrow, hid⟩
    exact hnone ⟨row, hasRow_foreign hforeign (hids.drawn i hi (hkey ▸ trivial)) hrow hid, hid⟩
  | invoke call =>
    rcases w.invoke_cases call with ⟨hnone, hw⟩ | ⟨out, n, -, hinvoked⟩
    · obtain ⟨current, hgive, hcurrent⟩ := w.giveUp_eq call
      rcases w.client.invoke_cases call with ⟨-, -, -, hpending⟩ | ⟨out, hout, -⟩
      · show (w.invoke call).OneId
        rw [hw, hgive]
        exact h.of_eq (fun k _ _ _ hk _ _ _ _ => .inl (hpending k hk)) hcurrent rfl rfl
          (fun _ => id) (fun p hp => ⟨p, hp, rfl⟩) (fun _ => id) (fun _ _ => id)
      · rw [hnone] at hout
        cases hout
    · exact h.invoked hids hledger hinvoked
  | deliver n remoteAddr clock =>
    have hdead := fun i hi => dead_deliver hids r n remoteAddr clock (i := i) hi
    show (w.deliver r n remoteAddr clock).OneId
    rcases deliver_cases hids r n remoteAddr clock with
      hsame | ⟨i, hub, answers, holds, -, hevolves, hw, -⟩
    · rw [hsame]
      exact h
    · rw [hw] at hdead ⊢
      exact h.of_eq (fun _ _ _ _ _ _ _ _ _ => .inl rfl) (fun _ _ => rfl) rfl rfl (fun _ => id)
        (fun p hp => ⟨p, hp, rfl⟩) (fun _ => hevolves.closed) hdead
  | release k found =>
    simp only [exec, Network.release]
    split
    · exact h
    · exact h.of_eq (fun _ _ _ _ _ _ _ _ _ => .inl rfl) (fun _ _ => rfl) rfl rfl (fun _ => id)
        (fun p hp => ⟨p, hp, rfl⟩) (fun _ => id) (fun _ _ => id)
  | receive n k => exact h.receive hledger contextOf n k
  | fail n f =>
    simp only [exec, Network.fail]
    split
    · exact h
    split
    · -- another attempt: the invocation stays under way, with one attempt more
      refine h.of_eq (fun _ _ _ _ _ _ _ _ _ => .inl rfl) (fun _ _ => rfl) rfl rfl (fun _ => id)
        (fun p hp => ?_) (fun _ => id) (fun _ _ => id)
      obtain ⟨q, hq, rfl⟩ := List.mem_map.mp hp
      refine ⟨q, hq, ?_⟩
      split
      · next hn => exact hn
      · rfl
    · exact h.of_eq (fun _ _ _ _ _ _ _ _ _ => .inl rfl) (fun _ _ => rfl) rfl rfl (fun _ => id)
        (fun p hp => ⟨p, List.mem_of_mem_filter hp, rfl⟩) (fun _ => id) (fun _ _ => id)

/-! ### Runs -/

/-- What a worker's mutations are in every state: identified, accounted for, and of one id. -/
structure Sound (u : HexUuids) (settings : WorkerSettings) (w : Network) : Prop where
  ids : w.Identified u settings
  ledger : w.Accounted u settings
  oneId : w.OneId

/-- Every run of the network is sound. -/
theorem sound_run (r : Rendering) (contextOf : String → Option String) (v : Uuids)
    (instanceId : String) (steps : List (NetStep u.toUuids)) :
    (runFrom (exec r contextOf) (start v u settings instanceId) steps).Sound u settings :=
  run_invariant (I := Sound u settings)
    (fun l w h => ⟨identified_exec r contextOf l w h.ids,
      accounted_exec r contextOf l w h.ids h.ledger,
      oneId_exec r contextOf l w h.ids h.ledger h.oneId⟩)
    ⟨identified_start v instanceId, accounted_start v instanceId, oneId_start v instanceId⟩ steps

end

end Network

/-- Two selections read the same, if what one leaves out of the other reads nothing. -/
theorem flatMap_filter_congr {α β : Type} {p q : α → Prop} [DecidablePred p] [DecidablePred q]
    {f : α → List β} {l : List α} (hq : ∀ a ∈ l, q a → p a) (hp : ∀ a ∈ l, p a → q a ∨ f a = []) :
    (l.filter p).flatMap f = (l.filter q).flatMap f := by
  induction l with
  | nil => rfl
  | cons a l ih =>
    have htail := ih (fun b hb => hq b (List.mem_cons_of_mem _ hb))
      (fun b hb => hp b (List.mem_cons_of_mem _ hb))
    by_cases hpa : p a
    · by_cases hqa : q a
      · simpa [hpa, hqa] using htail
      · have hnil := (hp a List.mem_cons_self hpa).resolve_left hqa
        simpa [hpa, hqa, hnil] using htail
    · have hqa : ¬ q a := fun h => hpa (hq a List.mem_cons_self h)
      simpa [hpa, hqa] using htail

namespace Network

section

variable {w : Network} {u : HexUuids} {settings : WorkerSettings}

/-- What a logical call that began alone writes is what is written under its one id. -/
theorem Sound.wrote_eq (h : w.Sound u settings) {n : ℕ} {c : LogicalCall}
    (hc : w.logicals[n]? = some c) (hm : c.subject.key.Mutates) {i : Invocation}
    (hi : i ∈ w.invocations) (hlogical : i.logical = n)
    (hall : ∀ j ∈ w.invocations, j.logical = n →
      j.id = i.id ∨ w.hub.db.Dead j.subject.key j.id) : w.wrote n = w.under i.id := by
  have hsubject (j : Invocation) (hj : j ∈ w.invocations) (hn : j.logical = n) :
      j.subject.key.Mutates := by
    obtain ⟨d, hd, hs⟩ := h.ids.logical j hj
    rw [hn] at hd
    obtain rfl := Option.some.inj (hd.symm.trans hc)
    exact hs ▸ hm
  refine flatMap_filter_congr ?_ ?_
  · rintro p hp ⟨hmp, hid⟩
    obtain ⟨j, hj, hj', hjn, hkey⟩ := h.ledger.posts p hp
    rw [← hjn, ← hlogical]
    exact h.ids.sameId j hj i hi (hkey ▸ hmp) (hsubject i hi hlogical) (hj'.trans hid)
  · intro p hp hn
    obtain ⟨j, hj, hj', hjn, hkey⟩ := h.ledger.posts p hp
    have hmj := hsubject j hj (hjn.trans hn)
    rcases hall j hj (hjn.trans hn) with hid | ⟨-, hnone⟩
    · exact .inl ⟨hkey ▸ hmj, hj'.symm.trans hid⟩
    · right
      -- nothing was written under an id without a row
      have hnil : w.under j.id = [] := by
        rcases h.ledger.written j hj hmj with ⟨-, hnil⟩ | ⟨hhas, -⟩
        · exact hnil
        · exact absurd hhas hnone
      exact List.flatMap_eq_nil_iff.mp hnil p
        (List.mem_filter.mpr ⟨hp, decide_eq_true ⟨hkey ▸ hmj, hj'.symm⟩⟩)

end

end Network

/-- **A mutation takes effect once.**  A logical call writes nothing, or one message and one event;
    and if it has returned it has written them, and writes nothing more. -/
theorem exactly_once (r : Rendering) (contextOf : String → Option String) (v : Uuids)
    (u : HexUuids) (settings : WorkerSettings) (instanceId : String)
    (steps : List (NetStep u.toUuids)) (n : ℕ) (c : LogicalCall) :
    let w := runFrom (Network.exec r contextOf) (.start v u settings instanceId) steps
    w.logicals[n]? = some c → c.subject.key.Mutates → c.alone = true →
      (w.wrote n = [] ∨
        ∃ m e, c.subject.key.Wrote m e ∧ w.wrote n = [.message m, .event e]) ∧
      (w.HasReturned n →
        ∃ m e, c.subject.key.Wrote m e ∧ w.wrote n = [.message m, .event e]) := by
  intro w hc hm halone
  have h : w.Sound u settings := Network.sound_run r contextOf v instanceId steps
  obtain ⟨i, hi, hlogical, hall⟩ := h.oneId.oneId n c hc halone hm
  obtain ⟨d, hd, hsubject⟩ := h.ids.logical i hi
  obtain rfl : d = c := Option.some.inj ((hlogical ▸ hd).symm.trans hc)
  rw [h.wrote_eq hc hm hi hlogical hall, hsubject]
  rw [hsubject] at hm
  refine ⟨(h.ledger.written i hi hm).imp And.right And.right, fun hreturn => ?_⟩
  obtain ⟨j, hj, hjn, hhas⟩ := h.ledger.returned n d hc (hsubject ▸ hm) hreturn
  rcases hall j hj hjn with hid | ⟨-, hnone⟩
  · rcases h.ledger.written i hi hm with ⟨hnone, -⟩ | ⟨-, hwritten⟩
    · exact absurd (hid ▸ hhas) hnone
    · exact hwritten
  · exact absurd hhas hnone

/-- A progress note whose answer is lost, and which reaches the hub again before and after the call
    returns. -/
theorem exactly_once_progress :
    let w := runFrom
      (Network.exec (u := .unary) { Rendering.blank with checkInAck := AgentRecord.contextId } some)
      (.start .unary .unary { agentName := "ada" } "ada-1")
      [.call ⟨.initializeWorkflow "goal" {}, stoppedClock⟩ (Call.foreign rfl (by simp)),
        .invoke (.checkIn ["python"] none), .deliver 0 none stoppedClock, .receive 0 0,
        .call ⟨.assignTask "ada" "implementer" "Fix it" "See issue 7" 30 none none, stoppedClock⟩
          (Call.foreign rfl (by simp)),
        .call ⟨.claimAssignment "ada", stoppedClock⟩ (Call.foreign rfl (by simp)),
        .invoke (.reportProgress "uuu" "halfway"), .deliver 1 none stoppedClock,
        .fail 1 .transport, .deliver 1 none stoppedClock, .receive 1 2,
        .deliver 1 none stoppedClock]
    ∃ m e, (CallKey.progress "uuu").Wrote m e ∧ w.wrote 1 = [.message m, .event e] := by
  intro w
  have hcall : w.logicals[1]? = some ⟨.progress "uuu" "halfway", true⟩ := by decide +kernel
  have hreturned : w.HasReturned 1 := by decide +kernel
  exact (exactly_once _ _ _ _ _ _ _ 1 _ hcall trivial rfl).2 hreturned

end AgentHub
