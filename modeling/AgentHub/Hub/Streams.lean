import AgentHub.Hub.Fencing
import AgentHub.Hub.Leases
import AgentHub.Hub.Ownership

namespace AgentHub

open Relational

/-!
# Held streams

A `NEXT` stream is opened by one process of an agent and held while anything else happens.  The
fence reads the process once, when the stream is opened; its polls go by the name of the agent.

* `Stream`, `Switchboard` — the streams that are held, the hub they poll, and what was handed out;
* `Step`, `Switchboard.exec` — opening a stream, a poll of it, its end, and every other call;
* `Switchboard.Sound` — what holds in every state; `sound_exec`;
* `claims_current` — exactly when a task is only ever handed to the current process.
-/

/-! ### The streams -/

/-- A held `NEXT` stream. -/
structure Stream where
  agent : String
  /-- The process that opened it. -/
  openedBy : String
  /-- The process of the last check-in under the agent's name since it was opened. -/
  since : Option String := none
deriving DecidableEq

/-- The process the agent has, as far as the stream can tell. -/
def Stream.current (st : Stream) : String := st.since.getD st.openedBy

/-- A task handed to a stream. -/
structure Handed where
  taskId : String
  openedBy : String
  /-- The agent's process at the moment of the claim. -/
  current : Option String
deriving DecidableEq

/-- The hub with its held streams, the tasks that were handed out, and the tasks each process has
    received. -/
structure Switchboard where
  hub : Hub
  streams : List Stream
  claims : List Handed
  received : List (String × String)

/-- A step of the hub and the workers that wait on it. -/
inductive Step where
  /-- A call of the store that is no poll of a stream. -/
  | call (l : Call) (hother : ∀ name, l.op ≠ .claimAssignment name)
  /-- A worker sends `NEXT`. -/
  | next (m : A2AMessage) (clock : ℕ → Moment)
  /-- A stream polls.  What it finds is sent, and arrives or is lost on the way. -/
  | poll (n : ℕ) (clock : ℕ → Moment) (delivered : Bool)
  /-- A stream ends at its deadline, or with its connection. -/
  | close (n : ℕ)

/-- The check-in that the call makes: the name, and the process it is known by from then on.  A
    check-in that is answered from the ledger makes none. -/
def Call.admission (l : Call) (s : Hub) : Option (String × String) :=
  match l.op with
  | .checkIn name profile workerInstanceId op remoteAddr =>
    match (atomically (checkIn name profile workerInstanceId op remoteAddr)
        (s.connect l.clock)).1 with
    | .ok (.replayed _) | .error _ => none
    | .ok _ => ((l.exec s).db.agents.find? name).map fun a => (name, a.workerInstanceId)
  | _ => none

/-- The stream after a check-in. -/
def Stream.note (admission : Option (String × String)) (st : Stream) : Stream :=
  match admission with
  | some (name, instanceId) =>
    if name = st.agent then { st with since := some instanceId } else st
  | none => st

namespace Switchboard

/-- `await_assignment` of an admitted `NEXT`. -/
def hold (s : Switchboard) (m : A2AMessage) (clock : ℕ → Moment) : Switchboard :=
  match atomically (stream m) (s.hub.connect clock) with
  | (.ok (.holdAssignment agent), c) =>
    { s with
      hub := c.hub
      streams := s.streams ++ [⟨agent.name, m.instance?.getD "", none⟩] }
  | _ => s

/-- One turn of `_wait_for`, of the stream at `n`.  A stream that has an answer is done. -/
def poll (s : Switchboard) (n : ℕ) (clock : ℕ → Moment) (delivered : Bool) : Switchboard :=
  match s.streams[n]? with
  | none => s
  | some st =>
    match atomically (claimAssignment st.agent) (s.hub.connect clock) with
    | (.ok (some (.task t)), c) =>
      { hub := c.hub
        streams := s.streams.eraseIdx n
        claims := s.claims ++ [⟨t.id, st.openedBy,
          (s.hub.db.agents.find? st.agent).map AgentRecord.workerInstanceId⟩]
        received := if delivered then (st.openedBy, t.id) :: s.received else s.received }
    | (.ok (some (.released _)), _) => { s with streams := s.streams.eraseIdx n }
    | _ => s

/-- A call is noted by every stream open at the time; the other steps act on one stream. -/
def exec : Step → Switchboard → Switchboard
  | .call l _, s =>
    { s with
      hub := l.exec s.hub
      streams := s.streams.map (Stream.note (l.admission s.hub)) }
  | .next m clock, s => s.hold m clock
  | .poll n clock delivered, s => s.poll n clock delivered
  | .close n, s => { s with streams := s.streams.eraseIdx n }

/-- The hub over a fresh database, and nobody waiting. -/
def start (u : Uuids) : Switchboard := ⟨.start u, [], [], []⟩

end Switchboard

/-! ### The process of an agent -/

/-- What a call that ran returns is no replay. -/
theorem Ledgered.outcome_ne_replayed {α : Type} (op : Ledgered α) (value : α)
    (responseJson : String) : op.outcome value ≠ .replayed responseJson := by
  rcases op with ⟨_ | _, _ | _, _ | _⟩ <;> simp [Ledgered.outcome]

/-- The agents keep their processes. -/
def Db.KeepProcesses (d d' : Db) : Prop :=
  ∀ name a, d.agents.find? name = some a →
    ∃ b, d'.agents.find? name = some b ∧ b.workerInstanceId = a.workerInstanceId

/-- **What a call does to the processes.**  A check-in gives one agent its process; any other call,
    and a check-in that was made before or is refused, leaves all of them. -/
theorem admission_cases (l : Call) {s : Hub} (hs : s.db.Instanced) :
    (l.admission s = none ∧ s.db.KeepProcesses (l.exec s).db) ∨
      ∃ name b, l.admission s = some (name, b.workerInstanceId) ∧
        (l.exec s).db.agents.find? name = some b ∧
        ∀ n, n ≠ name → (l.exec s).db.agents.find? n = s.db.agents.find? n := by
  obtain ⟨op, clock⟩ := l
  cases op with
  | checkIn name profile workerInstanceId op remoteAddr =>
    rcases atomically_cases (checkIn name profile workerInstanceId op remoteAddr)
      (s.connect clock) with ⟨m, c', hc, hat⟩ | ⟨e, -, hat⟩
    · obtain ⟨-, ⟨_, _, row, -, -, -, rfl, hdb⟩ |
        ⟨instanceId, contextId, d, agent, row, ts, ts₁, ts₂,
        ts₃, -, -, -, -, hadmits, -, -, -, -, rfl, hdb⟩⟩ := checkIn_cases hc
      · left
        rw [Call.exec_eq rfl clock s, hat]
        refine ⟨by simp [Call.admission, hat], fun n a ha => ⟨a, ?_, rfl⟩⟩
        exact (congrArg (fun d => d.agents.find? n) hdb).trans ha
      · right
        obtain ⟨hothers, -, b, hb, -⟩ := admits_agents hadmits hs
        have hagents : c'.db.agents = d.agents := by
          rw [hdb]
          rfl
        have hexec : (Call.exec ⟨.checkIn name profile workerInstanceId op remoteAddr, clock⟩ s)
            = c'.hub := by
          rw [Call.exec_eq rfl clock s, hat]
        have hrow (n : String) : c'.hub.db.agents.find? n = d.agents.find? n :=
          congrArg (fun t => t.find? n) hagents
        refine ⟨name, b, ?_, ?_, fun n hn => ?_⟩
        · have hran : Call.admission ⟨.checkIn name profile workerInstanceId op remoteAddr, clock⟩ s
              = (c'.hub.db.agents.find? name).map fun a => (name, a.workerInstanceId) := by
            unfold Call.admission
            simp only [hat, hexec]
            split
            · rename_i heq
              exact absurd (Except.ok.inj heq) (op.outcome_ne_replayed agent _)
            · rename_i heq
              cases heq
            · rfl
          rw [hran, hrow, hb]
          rfl
        · rw [hexec, hrow]
          exact hb
        · rw [hexec, hrow]
          exact hothers n hn
    · left
      rw [Call.exec_eq rfl clock s, hat]
      exact ⟨by simp [Call.admission, hat], fun n a ha => ⟨a, ha, rfl⟩⟩
  | _ =>
    refine .inl ⟨rfl, fun n a ha => ?_⟩
    obtain rfl : a.name = n := Table.find?_key ha
    obtain ⟨b, hb, hid | ⟨_, _, _, _, hop⟩⟩ := instance_exec ⟨_, clock⟩ hs ha
    · exact ⟨b, hb, hid⟩
    · cases hop

/-- The stream goes by the process of its agent. -/
def Db.Tracks (d : Db) (st : Stream) : Prop :=
  ∃ a, d.agents.find? st.agent = some a ∧ a.workerInstanceId = st.current

/-- A stream that tracks its agent tracks it after any call. -/
theorem tracks_call (l : Call) {s : Hub} (hs : s.db.Instanced) {st : Stream} (h : s.db.Tracks st) :
    (l.exec s).db.Tracks (st.note (l.admission s)) := by
  obtain ⟨a, ha, hcurrent⟩ := h
  obtain ⟨hnone, hkeep⟩ | ⟨name, b, hsome, hb, hothers⟩ := admission_cases l hs
  · obtain ⟨b, hb, hid⟩ := hkeep st.agent a ha
    rw [hnone]
    exact ⟨b, hb, hid.trans hcurrent⟩
  · rw [hsome]
    by_cases hname : name = st.agent
    · refine ⟨b, ?_, ?_⟩
      · simpa [Stream.note, hname] using hname ▸ hb
      · simp [Stream.note, hname, Stream.current]
    · have hnote : st.note (some (name, b.workerInstanceId)) = st := by
        simp [Stream.note, hname]
      rw [hnote]
      exact ⟨a, (hothers st.agent (Ne.symm hname)).trans ha, hcurrent⟩

/-! ### Opening and polling -/

/-- A poll under this name finds a task: the agent is not released, and one is submitted to it. -/
def Db.Offers (d : Db) (name : String) : Prop :=
  (∃ a ∈ d.agents.find? name, a.status ≠ .released) ∧ (d.submittedTo? name).isSome = true

instance (d : Db) (name : String) : Decidable (d.Offers name) :=
  inferInstanceAs (Decidable (_ ∧ _))

/-- A claim by an agent that checked in is not refused. -/
theorem claimAssignment_accepts {c : Conn} {name : String} {a : AgentRecord}
    (ha : c.db.agents.find? name = some a) : Accepts (claimAssignment name) c := by
  by_cases hreleased : a.status = .released
  · exact (commits_claimAssignment.mpr ⟨a, ha, by rw [if_pos hreleased]; exact ⟨rfl, rfl⟩⟩).accepts
  · cases ht : c.db.submittedTo? name with
    | none =>
      exact (commits_claimAssignment.mpr
        ⟨a, ha, by rw [if_neg hreleased, ht]; exact ⟨rfl, rfl⟩⟩).accepts
    | some t =>
      exact (commits_claimAssignment.mpr
        ⟨a, ha, by rw [if_neg hreleased, ht]; exact ⟨rfl, rfl⟩⟩).accepts

namespace Switchboard

/-- **What `NEXT` does.**  It is refused, or one more stream is held, by the process the fence let
    through; the hub is as it was. -/
theorem hold_cases (s : Switchboard) (m : A2AMessage) (clock : ℕ → Moment) :
    s.hold m clock = s ∨ ∃ st, s.hub.db.Tracks st ∧
      s.hold m clock = { s with streams := s.streams ++ [st] } := by
  rcases atomically_cases (stream m) (s.hub.connect clock) with ⟨x, c', hc, hat⟩ | ⟨e, -, hat⟩
  · obtain ⟨agent, hagent, ⟨_, _, _, -, -, -, -, rfl⟩ | ⟨-, rfl, rfl⟩⟩ := stream_cases hc
    · left
      simp [hold, hat]
    · right
      obtain ⟨-, hmem, -, hinstance, -⟩ := resolveAgent_cases hagent
      refine ⟨⟨agent.name, m.instance?.getD "", none⟩, ⟨agent, Table.find?_of_mem hmem, ?_⟩, ?_⟩
      · rw [hinstance]
        rfl
      · simp [hold, hat]
        rfl
  · left
    simp [hold, hat]

/-- **What a poll does.**  It finds nothing, and at most the stream ends; or the stream is handed
    the task that was submitted to its agent. -/
theorem poll_cases (s : Switchboard) (n : ℕ) (clock : ℕ → Moment) (delivered : Bool) :
    ((∀ st ∈ s.streams[n]?, ¬ s.hub.db.Offers st.agent) ∧
      ∃ streams, streams ⊆ s.streams ∧ s.poll n clock delivered = { s with streams }) ∨
    ∃ st a t ts, s.streams[n]? = some st ∧ s.hub.db.agents.find? st.agent = some a ∧
      a.status ≠ .released ∧ s.hub.db.submittedTo? st.agent = some t ∧
      s.poll n clock delivered =
        { hub := ⟨s.hub.db.setState t.id .working ts, s.hub.uuids⟩
          streams := s.streams.eraseIdx n
          claims := s.claims ++ [⟨t.id, st.openedBy, some a.workerInstanceId⟩]
          received := if delivered then (st.openedBy, t.id) :: s.received else s.received } := by
  cases hst : s.streams[n]? with
  | none =>
    refine .inl ⟨by simp, s.streams, List.Subset.refl _, ?_⟩
    simp [poll, hst]
  | some st =>
    rcases atomically_cases (claimAssignment st.agent) (s.hub.connect clock) with
      ⟨o, c', hc, hat⟩ | ⟨e, hfail, hat⟩
    · obtain ⟨a, ha, hclaim⟩ := commits_claimAssignment.mp hc
      have hrow : s.hub.db.agents.find? st.agent = some a := ha
      by_cases hreleased : a.status = .released
      · -- the release is what the stream was waiting for
        rw [if_pos hreleased] at hclaim
        obtain ⟨rfl, -⟩ := hclaim
        refine .inl ⟨?_, s.streams.eraseIdx n, List.eraseIdx_subset, ?_⟩
        · rintro _ ⟨⟩ ⟨⟨b, hb, hnot⟩, -⟩
          obtain rfl : a = b := Option.some.inj (hrow.symm.trans hb)
          exact hnot hreleased
        · simp [poll, hst, hat]
      · rw [if_neg hreleased] at hclaim
        cases ht : (s.hub.connect clock).db.submittedTo? st.agent with
        | none =>
          rw [ht] at hclaim
          obtain ⟨rfl, -⟩ := hclaim
          refine .inl ⟨?_, s.streams, List.Subset.refl _, ?_⟩
          · rintro _ ⟨⟩ ⟨-, hsome⟩
            have hnone : s.hub.db.submittedTo? st.agent = none := ht
            rw [hnone] at hsome
            cases hsome
          · simp [poll, hst, hat]
        | some t =>
          rw [ht] at hclaim
          obtain ⟨rfl, rfl⟩ := hclaim
          refine .inr ⟨st, a, t, (clock 0).toIso, rfl, hrow, hreleased, ht, ?_⟩
          simp only [poll, hst, hat, hrow]
          rfl
    · -- a poll fails only for an agent that is not there
      have hnone : s.hub.db.agents.find? st.agent = none := by
        by_contra hsome
        obtain ⟨a, ha⟩ := Option.ne_none_iff_exists'.mp hsome
        obtain ⟨o, c', hc⟩ := claimAssignment_accepts (c := s.hub.connect clock) ha
        exact hfail o c' hc
      refine .inl ⟨?_, s.streams, List.Subset.refl _, ?_⟩
      · rintro _ ⟨⟩ ⟨⟨b, hb, -⟩, -⟩
        rw [hnone] at hb
        cases hb
      · simp [poll, hst, hat]

end Switchboard

/-! ### What holds in every state -/

namespace Switchboard

/-- What holds in every state: the hub's own invariants, every stream goes by the process of its
    agent, and no task that was received is waiting to be claimed. -/
structure Sound (s : Switchboard) : Prop where
  roster : s.hub.db.roster.Consistent
  instanced : s.hub.db.Instanced
  tracks : ∀ st ∈ s.streams, s.hub.db.Tracks st
  received : ∀ p ∈ s.received, ∃ t, s.hub.db.tasks.find? p.2 = some t ∧ t.state ≠ .submitted

/-- A task that has left `submitted` does not come back. -/
theorem claimed_evolves {d d' : Db} (h : d.Evolves d') {id : String}
    (hd : ∃ t, d.tasks.find? id = some t ∧ t.state ≠ .submitted) :
    ∃ t, d'.tasks.find? id = some t ∧ t.state ≠ .submitted := by
  obtain ⟨t, ht, hstate⟩ := hd
  obtain ⟨t', ht', hbecomes⟩ := h.tasks.find? ht
  exact ⟨t', ht', fun hsub => hstate (hbecomes.submitted hsub)⟩

/-- A call keeps the switchboard sound. -/
theorem sound_call {s : Switchboard} (h : s.Sound) (l : Call) (hother) :
    (exec (.call l hother) s).Sound where
  roster := (moves_exec l s.hub).invariant (I := fun s => s.db.roster.Consistent)
    (fun _ _ _ _ hmove hI => consistent_move hmove hI) h.roster
  instanced := (moves_exec l s.hub).invariant (I := fun s => s.db.Instanced)
    (fun _ _ _ _ hmove hI => instanced_move hmove hI) h.instanced
  tracks := by
    intro st hst
    obtain ⟨st', hst', rfl⟩ := List.mem_map.mp hst
    exact tracks_call l h.instanced (h.tracks st' hst')
  received p hp := claimed_evolves (evolves_moves (moves_exec l s.hub)) (h.received p hp)

/-- Opening a stream keeps the switchboard sound. -/
theorem sound_hold {s : Switchboard} (h : s.Sound) (m : A2AMessage) (clock : ℕ → Moment) :
    (s.hold m clock).Sound := by
  obtain hsame | ⟨st, htracks, hmore⟩ := s.hold_cases m clock
  · rw [hsame]
    exact h
  · rw [hmore]
    refine ⟨h.roster, h.instanced, fun st' hst' => ?_, h.received⟩
    rcases List.mem_append.mp hst' with hold | hnew
    · exact h.tracks st' hold
    · rw [List.mem_singleton.mp hnew]
      exact htracks

/-- A poll of a held stream keeps the switchboard sound. -/
theorem sound_poll {s : Switchboard} (h : s.Sound) (n : ℕ) (clock : ℕ → Moment)
    (delivered : Bool) : (s.poll n clock delivered).Sound := by
  obtain ⟨-, streams, hsub, hpoll⟩ | ⟨st, a, t, ts, -, ha, hstatus, ht, hpoll⟩ :=
    s.poll_cases n clock delivered
  · rw [hpoll]
    exact ⟨h.roster, h.instanced, fun st hst => h.tracks st (hsub hst), h.received⟩
  · rw [hpoll]
    have hname : a.name = st.agent := Table.find?_key ha
    have hmove : Move .claim s.hub ⟨s.hub.db.setState t.id .working ts, s.hub.uuids⟩ :=
      .claim a t ts (hname.symm ▸ ha) hstatus (hname.symm ▸ ht)
    refine ⟨consistent_move hmove h.roster, instanced_move hmove h.instanced, fun st' hst' => ?_,
      fun p hp => ?_⟩
    · exact h.tracks st' (List.eraseIdx_subset hst')
    · have hold : ∀ p ∈ s.received, ∃ t', (s.hub.db.setState t.id .working ts).tasks.find? p.2
          = some t' ∧ t'.state ≠ .submitted :=
        fun p hp => claimed_evolves (evolves_move hmove) (h.received p hp)
      cases delivered with
      | false => exact hold p hp
      | true =>
        rcases List.mem_cons.mp hp with rfl | hp
        · refine ⟨{ t with state := .working, updated := ts }, ?_, by simp⟩
          simp [(Db.submittedTo?_mem ht).1]
        · exact hold p hp

/-- **The invariant of the held streams.** -/
theorem sound_exec (l : Step) (s : Switchboard) (h : s.Sound) : (exec l s).Sound := by
  cases l with
  | call l hother => exact sound_call h l hother
  | next m clock => exact sound_hold h m clock
  | poll n clock delivered => exact sound_poll h n clock delivered
  | close n =>
    exact ⟨h.roster, h.instanced, fun st hst => h.tracks st (List.eraseIdx_subset hst), h.received⟩

/-- A new switchboard is sound. -/
theorem sound_start (u : Uuids) : (start u).Sound where
  roster := consistent_start u
  instanced name a ha := by cases ha
  tracks st hst := by cases hst
  received p hp := by cases hp

/-! ### Who is handed a task -/

/-- Every task was handed to the process its agent had at the moment of the claim. -/
def ClaimsCurrent (s : Switchboard) : Prop := ∀ c ∈ s.claims, c.current = some c.openedBy

/-- A poll that finds a task is of a stream whose agent has not checked in from another process
    since the stream was opened. -/
def PollsCurrent (l : Step) (s : Switchboard) : Prop :=
  match l with
  | .poll n _ _ => ∀ st ∈ s.streams[n]?, s.hub.db.Offers st.agent → ∀ x ∈ st.since, x = st.openedBy
  | _ => True

/-- The instance that opened the stream is current while no other has checked in since. -/
theorem current_eq_openedBy {st : Stream} :
    st.current = st.openedBy ↔ ∀ x ∈ st.since, x = st.openedBy := by
  cases hsince : st.since with
  | none => simp [Stream.current, hsince]
  | some x => simp [Stream.current, hsince]

/-- One step keeps every claim current exactly when its poll does. -/
theorem claimsCurrent_exec (l : Step) (s : Switchboard) (h : s.Sound) (hs : s.ClaimsCurrent) :
    (exec l s).ClaimsCurrent ↔ PollsCurrent l s := by
  cases l with
  | call l hother => exact ⟨fun _ => trivial, fun _ => hs⟩
  | close n => exact ⟨fun _ => trivial, fun _ => hs⟩
  | next m clock =>
    refine ⟨fun _ => trivial, fun _ => ?_⟩
    obtain hsame | ⟨st, -, hmore⟩ := s.hold_cases m clock
    · show (s.hold m clock).ClaimsCurrent
      rw [hsame]
      exact hs
    · show (s.hold m clock).ClaimsCurrent
      rw [hmore]
      exact hs
  | poll n clock delivered =>
    show (s.poll n clock delivered).ClaimsCurrent ↔ _
    obtain ⟨hnothing, streams, -, hpoll⟩ | ⟨st, a, t, ts, hst, ha, hstatus, ht, hpoll⟩ :=
      s.poll_cases n clock delivered
    · rw [hpoll]
      exact ⟨fun _ st hst hoffers => absurd hoffers (hnothing st hst), fun _ => hs⟩
    · obtain ⟨b, hb, hcurrent⟩ := h.tracks st (List.mem_of_getElem? hst)
      obtain rfl : a = b := Option.some.inj (ha.symm.trans hb)
      have hoffers : s.hub.db.Offers st.agent := ⟨⟨a, ha, hstatus⟩, by rw [ht]; rfl⟩
      have hcond : PollsCurrent (.poll n clock delivered) s ↔ ∀ x ∈ st.since, x = st.openedBy := by
        constructor
        · intro hc
          exact hc st hst hoffers
        · intro hsince st' hst' _
          obtain rfl : st = st' := Option.some.inj (hst.symm.trans hst')
          exact hsince
      rw [hcond, ← current_eq_openedBy, ← hcurrent, hpoll]
      constructor
      · intro hclaims
        exact Option.some.inj (hclaims _ (List.mem_append_right _ List.mem_cons_self))
      · intro heq c hc
        rcases List.mem_append.mp hc with hold | hnew
        · exact hs c hold
        · rw [List.mem_singleton.mp hnew, heq]

/-- **When an assignment goes to the current process.**  In every state of a run all tasks were
    handed to the process their agent had at the moment, if and only if no poll finds a task for
    an agent that has checked in from another process since the stream was opened. -/
theorem claims_current (u : Uuids) (ls : List Step) :
    HoldsAlong exec ClaimsCurrent (start u) ls ↔ MeetsAlong exec PollsCurrent (start u) ls := by
  refine holdsAlong_iff sound_exec claimsCurrent_exec (sound_start u) ?_ ls
  intro c hc
  cases hc

/-- The `NEXT` of one of Ada's processes. -/
def adaNext (instanceId : String) : A2AMessage where
  messageId := "next-" ++ instanceId
  contextId := some "uu"
  taskId := none
  parts := [⟨some "NEXT", .obj [("kind", .str "text"), ("text", .str "NEXT")]⟩]
  metadata := [("hub.timeout_s", .num "300"), ("hub.worker_instance_id", .str instanceId)]

/-- Ada's first process waits for work and falls silent; the sweeper loses it, and a second one
    checks in. -/
def adaReplaced : List Step :=
  [.call ⟨.initializeWorkflow "goal" {}, stoppedAt 0⟩ (by simp),
    .call ⟨.checkIn "ada" {} (some "ada-1") {} none, stoppedAt 0⟩ (by simp),
    .next (adaNext "ada-1") (stoppedAt 0),
    .call ⟨.sweep 180, stoppedAt 190000000⟩ (by simp),
    .call ⟨.checkIn "ada" {} (some "ada-2") {} none, stoppedAt 200000000⟩ (by simp)]

/-- **A superseded process takes the assignment.**  The task Ada's second process is to work on is
    handed to the stream the first one left open. -/
theorem handed_to_superseded :
    let s := runFrom exec (start .unary) (adaReplaced ++
      [.call ⟨.assignTask "ada" "implementer" "Fix it" "See issue 7" 30 none none,
          stoppedAt 210000000⟩ (by simp),
        .poll 0 (stoppedAt 210000000) true])
    s.claims.map (fun c => (c.openedBy, c.current)) = [("ada-1", some "ada-2")] ∧
      ¬ ClaimsCurrent s := by
  intro s
  have hclaims : s.claims.map (fun c => (c.openedBy, c.current)) = [("ada-1", some "ada-2")] := by
    decide +kernel
  refine ⟨hclaims, fun hcurrent => ?_⟩
  obtain ⟨c, hc, hpair⟩ := List.mem_map.mp (hclaims ▸ List.mem_singleton_self _ :
    ("ada-1", some "ada-2") ∈ s.claims.map (fun c => (c.openedBy, c.current)))
  obtain ⟨hopened, hnow⟩ := Prod.mk.inj hpair
  rw [hcurrent c hc, hopened] at hnow
  exact absurd hnow (by decide)

end Switchboard

end AgentHub
