import AgentHub.Hub.Evolution

namespace AgentHub

open Relational

/-!
# Who an agent is

An agent is one process in one workspace for as long as it is live.  Uniqueness is checked at
check-in only; every other move leaves the identity of every agent alone and makes no agent live
that was not.

* `AgentRecord.Stays` — same identity, and live only if it was; `agents_move`, that every move but
  a check-in keeps all agents so;
* `Db.Distinct` — no two live agents work in one workspace;
* `live_identity` — both, along every run.
-/

/-- The agent is who it was, and live only if it was. -/
structure AgentRecord.Stays (a b : AgentRecord) : Prop where
  name : b.name = a.name
  instanceId : b.workerInstanceId = a.workerInstanceId
  context : b.contextId = a.contextId
  profile : b.profile = a.profile
  live : b.status.live → a.status.live

/-- An agent that is as it was. -/
theorem AgentRecord.Stays.refl (a : AgentRecord) : a.Stays a := ⟨rfl, rfl, rfl, rfl, fun h => h⟩

/-- The agents are the same ones, and stay so. -/
def Db.AgentsStay (d d' : Db) : Prop :=
  ∀ name, (∀ a, d.agents.find? name = some a → ∃ b, d'.agents.find? name = some b ∧ a.Stays b) ∧
    (d.agents.find? name = none → d'.agents.find? name = none)

/-- A database with the same agents. -/
theorem agentsStay_of_eq {d d' : Db} (h : d'.agents = d.agents) : d.AgentsStay d' := by
  intro name
  rw [h]
  exact ⟨fun a ha => ⟨a, ha, .refl a⟩, fun hnone => hnone⟩

/-- An update under which every agent stays. -/
theorem agentsStay_updateWhere {d d' : Db} {p : AgentRecord → Prop} [DecidablePred p]
    {f : AgentRecord → AgentRecord} {hf : ∀ a, (f a).name = a.name}
    (h : d'.agents = d.agents.updateWhere p f hf)
    (hstep : ∀ a, d.agents.find? a.name = some a → p a → a.Stays (f a)) : d.AgentsStay d' := by
  intro name
  rw [h, Table.find?_updateWhere]
  constructor
  · intro a ha
    have hkey : a.name = name := Table.find?_key ha
    rw [ha]
    refine ⟨if p a then f a else a, rfl, ?_⟩
    split
    · rename_i hp
      exact hstep a (hkey ▸ ha) hp
    · exact .refl a
  · intro hnone
    rw [hnone]
    rfl

/-- An agent that stays in two steps stays. -/
theorem Db.AgentsStay.trans {d d' d'' : Db} (h : d.AgentsStay d') (h' : d'.AgentsStay d'') :
    d.AgentsStay d'' := by
  intro name
  refine ⟨fun a ha => ?_, fun hnone => (h' name).2 ((h name).2 hnone)⟩
  obtain ⟨b, hb, hab⟩ := (h name).1 a ha
  obtain ⟨c, hc, hbc⟩ := (h' name).1 b hb
  exact ⟨c, hc, hbc.name.trans hab.name, hbc.instanceId.trans hab.instanceId,
    hbc.context.trans hab.context, hbc.profile.trans hab.profile, fun hl => hab.live (hbc.live hl)⟩

/-- The end of a task does not touch who its agent is. -/
theorem agentsStay_finish {d : Db} {taskId : String} {state : TaskState} {result : Option Json}
    {ts : Stamp} : d.AgentsStay (d.finish taskId state result ts) := by
  refine agentsStay_updateWhere (Db.finish_agents ..) fun a _ _ => ⟨rfl, rfl, rfl, rfl, fun h => ?_⟩
  by_cases hbusy : a.status = .busy
  · exact .inr hbusy
  · simpa [hbusy] using h

/-- The agents stay when one of them is taken out of service. -/
theorem agentsStay_setStatus {d : Db} {name : String} {status : AgentStatus}
    (hstatus : ¬ status.live) : d.AgentsStay (d.setStatus name status) :=
  agentsStay_updateWhere (Db.setStatus_agents ..) fun _ _ _ =>
    ⟨rfl, rfl, rfl, rfl, fun h => absurd h hstatus⟩

/-- **A move that is no check-in** leaves every agent who it was. -/
theorem agents_move {k : Kind} {s s' : Hub} (h : Move k s s') (hk : k ≠ .checkIn) :
    s.db.AgentsStay s'.db := by
  cases h with
  | draw | create | setWorkflowStatus | decide | renew | ask | answer | claim | expire | append |
    lease | ack => exact agentsStay_of_eq rfl
  | checkIn => exact absurd rfl hk
  | beat =>
    exact agentsStay_updateWhere (Db.beat_agents ..) fun a _ _ => ⟨rfl, rfl, rfl, rfl, fun h => h⟩
  | release => exact agentsStay_setStatus (by simp [AgentStatus.live])
  | @assign d _ agent request id sourceEventId parts expires ts ts' _ _ hagent hidle =>
    refine agentsStay_updateWhere (Db.assign_agents ..) fun a ha hname =>
      ⟨rfl, rfl, rfl, rfl, fun _ => .inl ?_⟩
    obtain rfl : agent = a := Option.some.inj (hagent.symm.trans (hname ▸ ha))
    exact hidle
  | progress =>
    exact agentsStay_updateWhere (Db.progressAt_agents ..) fun a _ _ =>
      ⟨rfl, rfl, rfl, rfl, fun h => h⟩
  | @settle d _ task worker result row ts ts₁ =>
    have hended : d.AgentsStay (d.finish task.id result.state (some (.obj result.payload)) ts₁) :=
      agentsStay_finish
    exact hended
  | cancel => exact agentsStay_finish
  | @override d _ task contextId note state ts ts' =>
    have hended : d.AgentsStay (d.finish task.id state
        (some (.obj [("status", .str state.value), ("summary", .str note)])) ts') :=
      agentsStay_finish
    exact hended
  | lose => exact agentsStay_setStatus (by simp [AgentStatus.live])
  | @loseTask d _ agent taskId ts ts' =>
    have hlost : d.AgentsStay (d.setStatus agent.name .lost) :=
      agentsStay_setStatus (by simp [AgentStatus.live])
    have hended : (d.setStatus agent.name .lost).AgentsStay
        ((d.setStatus agent.name .lost).finish taskId .failed (some (lostResult agent.name)) ts) :=
      agentsStay_finish
    exact hlost.trans hended

/-! ### Check-ins -/

/-- Every agent has an instance id. -/
def Db.Instanced (d : Db) : Prop :=
  ∀ name a, d.agents.find? name = some a → a.workerInstanceId ≠ ""

/-- **What a check-in does to the agents.**  It writes the row under its name, which was not that
    of a live agent, and no other. -/
theorem admits_agents {d d' : Db} {name instanceId contextId : String} {profile : AgentProfile}
    {remoteAddr : Option String} {ts : Stamp}
    (h : Admits d name instanceId profile remoteAddr ts contextId d') (hd : d.Instanced) :
    (∀ n, n ≠ name → d'.agents.find? n = d.agents.find? n) ∧
      (∀ a, d.agents.find? name = some a → ¬ a.status.live) ∧
      ∃ b, d'.agents.find? name = some b ∧ b.workerInstanceId = instanceId ∧
        b.profile = profile := by
  cases h with
  | new _ hnew =>
    refine ⟨fun n hn => ?_, fun a ha => ?_, ?_⟩
    · show (d.agents.insertOrIgnore _).find? n = _
      rw [Table.find?_insertOrIgnore hnew]
      exact if_neg (Ne.symm hn)
    · rw [hnew] at ha
      cases ha
    · exact ⟨newAgent name contextId instanceId profile remoteAddr ts,
        Table.find?_insertOrIgnore_self hnew, rfl, rfl⟩
  | returned previous hprev hnot =>
    refine ⟨fun n hn => ?_, fun a ha hlive => ?_, ?_⟩
    · rw [Db.readmit_agents]
      exact Table.find?_modify_ne _ hn
    · obtain rfl : previous = a := Option.some.inj (hprev.symm.trans ha)
      exact hnot ⟨hlive, hd name previous hprev⟩
    · exact ⟨previous.returned (d.openTaskId previous.currentTaskId) instanceId profile
        remoteAddr ts,
        by rw [Db.readmit_agents, Table.find?_modify_self, hprev]; rfl, rfl, rfl⟩

/-- Every move keeps an instance with every live agent. -/
theorem instanced_move {k : Kind} {s s' : Hub} (h : Move k s s') (hs : s.db.Instanced) :
    s'.db.Instanced := by
  intro name b hb
  by_cases hk : k = .checkIn
  · subst hk
    cases h with
    | @checkIn d _ who _ instanceId _ _ _ d' _ _ _ hinstance _ hadmits =>
      obtain ⟨hothers, -, a, ha, hid, -⟩ := admits_agents hadmits hs
      have hb' : d'.agents.find? name = some b := hb
      by_cases hn : name = who
      · subst hn
        obtain rfl : a = b := Option.some.inj (ha.symm.trans hb')
        rw [hid]
        exact hinstance
      · rw [hothers name hn] at hb'
        exact hs name b hb'
  · cases ha : s.db.agents.find? name with
    | none =>
      rw [((agents_move h hk) name).2 ha] at hb
      cases hb
    | some a =>
      obtain ⟨b', hb', hstays⟩ := ((agents_move h hk) name).1 a ha
      obtain rfl : b' = b := Option.some.inj (hb'.symm.trans hb)
      rw [hstays.instanceId]
      exact hs name a ha

/-- Every live agent has an instance, in every state. -/
theorem instanced_run (u : Uuids) (ls : List Call) : ((Hub.start u).run ls).db.Instanced :=
  (moves_run (Hub.start u) ls).invariant (I := fun s => s.db.Instanced)
    (fun _ _ _ _ hmove h => instanced_move hmove h) fun name a ha => by cases ha

/-! ### Workspaces -/

/-- No two live agents work in one workspace. -/
def Db.Distinct (d : Db) : Prop :=
  ∀ n n' a b w, d.agents.find? n = some a → d.agents.find? n' = some b → a.status.live →
    b.status.live → a.profile.workspaceId = some w → b.profile.workspaceId = some w → n = n'

/-- Agents that stay do not come into one workspace. -/
theorem distinct_of_stay {d d' : Db} (h : d.AgentsStay d') (hd : d.Distinct) : d'.Distinct := by
  intro n n' a b w ha hb hla hlb hwa hwb
  -- both rows are those of agents that were live before
  have hbefore {n : String} {b : AgentRecord} (hb : d'.agents.find? n = some b) :
      ∃ a, d.agents.find? n = some a ∧ a.Stays b := by
    cases ha : d.agents.find? n with
    | none =>
      rw [(h n).2 ha] at hb
      cases hb
    | some a =>
      obtain ⟨b', hb', hstays⟩ := (h n).1 a ha
      obtain rfl : b' = b := Option.some.inj (hb'.symm.trans hb)
      exact ⟨a, rfl, hstays⟩
  obtain ⟨a₀, ha₀, hstays⟩ := hbefore ha
  obtain ⟨b₀, hb₀, hstays'⟩ := hbefore hb
  exact hd n n' a₀ b₀ w ha₀ hb₀ (hstays.live hla) (hstays'.live hlb) (hstays.profile ▸ hwa)
    (hstays'.profile ▸ hwb)

/-- Every move keeps live agents in different workspaces. -/
theorem distinct_move {k : Kind} {s s' : Hub} (h : Move k s s') (hinstanced : s.db.Instanced)
    (hs : s.db.Distinct) : s'.db.Distinct := by
  by_cases hk : k = .checkIn
  · subst hk
    cases h with
    | @checkIn d _ who _ instanceId profile _ _ d' _ _ _ _ hspace hadmits =>
      obtain ⟨hothers, -, self, hself, -, hprofile⟩ := admits_agents hadmits hinstanced
      -- nobody else lives in the workspace of the newcomer
      have hfree {n : String} {b : AgentRecord} {w : String} (hn : n ≠ who)
          (hb : d'.agents.find? n = some b) (hlive : b.status.live)
          (hw : b.profile.workspaceId = some w) : profile.workspaceId ≠ some w := by
        intro hwho
        rw [hothers n hn] at hb
        refine hspace w hwho b (Table.mem_of_find? hb) ⟨hw, hlive, ?_⟩
        rw [Table.find?_key hb]
        exact hn
      intro n n' a b w ha hb hla hlb hwa hwb
      have ha' : d'.agents.find? n = some a := ha
      have hb' : d'.agents.find? n' = some b := hb
      by_cases hn : n = who
      · by_cases hn' : n' = who
        · exact hn.trans hn'.symm
        · rw [hn] at ha'
          obtain rfl : self = a := Option.some.inj (hself.symm.trans ha')
          exact absurd (hprofile ▸ hwa) (hfree hn' hb' hlb hwb)
      · by_cases hn' : n' = who
        · rw [hn'] at hb'
          obtain rfl : self = b := Option.some.inj (hself.symm.trans hb')
          exact absurd (hprofile ▸ hwb) (hfree hn ha' hla hwa)
        · rw [hothers n hn] at ha'
          rw [hothers n' hn'] at hb'
          exact hs n n' a b w ha' hb' hla hlb hwa hwb
  · exact distinct_of_stay (agents_move h hk) hs

/-- Live agents are in different workspaces, in every state. -/
theorem distinct_run (u : Uuids) (ls : List Call) : ((Hub.start u).run ls).db.Distinct := by
  have h0 : (Hub.start u).db.Instanced := by
    intro name a ha
    cases ha
  have h1 : (Hub.start u).db.Distinct := by
    intro n n' a b w ha
    cases ha
  have hboth := (moves_run (Hub.start u) ls).invariant
    (I := fun s => s.db.Instanced ∧ s.db.Distinct)
    (fun _ _ _ _ hmove h => ⟨instanced_move hmove h.1, distinct_move hmove h.1 h.2⟩) ⟨h0, h1⟩
  exact hboth.2

/-! ### Identities -/

/-- The row under `name` is that of the agent `a`. -/
def Db.Same (d : Db) (name : String) (a : AgentRecord) : Prop :=
  ∃ b, d.agents.find? name = some b ∧ b.workerInstanceId = a.workerInstanceId ∧
    b.contextId = a.contextId ∧ b.profile = a.profile

/-- One call leaves the identity of a live agent. -/
theorem same_exec (l : Call) {s : Hub} (hs : s.db.Instanced) {name : String} {a : AgentRecord}
    (ha : s.db.agents.find? name = some a) (hlive : a.status.live) :
    (l.exec s).db.Same name a := by
  by_cases hkind : .checkIn ∈ l.op.kinds
  · have hops : l.op.kinds = [.draw, .checkIn] := by
      obtain ⟨op, clock⟩ := l
      cases op <;> first | rfl | simp [Op.kinds] at hkind
    -- a check-in is made of draws and of moves that spare the live agents
    have hrow : (l.exec s).db.Instanced ∧ (l.exec s).db.agents.find? name = some a := by
      refine (moves_exec l s).invariant
        (I := fun t => t.db.Instanced ∧ t.db.agents.find? name = some a)
        (fun k t t' hk hmove hI => ⟨instanced_move hmove hI.1, ?_⟩) ⟨hs, ha⟩
      have hk' : k ∈ [Kind.draw, Kind.checkIn] := hops ▸ hk
      cases hmove with
      | draw => exact hI.2
      | @checkIn d _ who _ _ _ _ _ d' _ _ _ _ _ hadmits =>
        obtain ⟨hothers, hdead, -⟩ := admits_agents hadmits hI.1
        show d'.agents.find? name = some a
        rw [hothers name ?_]
        · exact hI.2
        · rintro rfl
          exact hdead a hI.2 hlive
      | _ => simp at hk'
    exact ⟨a, hrow.2, rfl, rfl, rfl⟩
  · refine (moves_exec l s).invariant (I := fun t => t.db.Same name a)
      (fun k t t' hk hmove hI => ?_) ⟨a, ha, rfl, rfl, rfl⟩
    obtain ⟨b, hb, hid, hcontext, hprofile⟩ := hI
    have hne : k ≠ .checkIn := fun heq => hkind (heq ▸ hk)
    obtain ⟨c, hc, hstays⟩ := ((agents_move hmove hne) name).1 b hb
    exact ⟨c, hc, hstays.instanceId.trans hid, hstays.context.trans hcontext,
      hstays.profile.trans hprofile⟩

/-- The agent is live. -/
def Hub.Live (name : String) (s : Hub) : Prop :=
  ∃ a, s.db.agents.find? name = some a ∧ a.status.live

/-- A live agent is the same in every later state, as long as it lives. -/
theorem same_run {s : Hub} (hs : s.db.Instanced) {name : String} {a : AgentRecord}
    (ha : s.db.agents.find? name = some a) {later : List Call}
    (hlive : HoldsAlong Call.exec (Hub.Live name) s later) : (s.run later).db.Same name a := by
  induction later generalizing s a with
  | nil => exact ⟨a, ha, rfl, rfl, rfl⟩
  | cons l later ih =>
    obtain ⟨⟨a', ha', hlive'⟩, hrest⟩ := holdsAlong_cons.mp hlive
    obtain rfl : a' = a := Option.some.inj (ha'.symm.trans ha)
    obtain ⟨b, hb, hid, hcontext, hprofile⟩ := same_exec l hs ha hlive'
    have hs' : (l.exec s).db.Instanced :=
      (moves_exec l s).invariant (I := fun t => t.db.Instanced)
        (fun _ _ _ _ hmove h => instanced_move hmove h) hs
    obtain ⟨c, hc, hid', hcontext', hprofile'⟩ := ih hs' hb hrest
    exact ⟨c, hc, hid'.trans hid, hcontext'.trans hcontext, hprofile'.trans hprofile⟩

/-- **Live identities are unique.**  In every state of every run no two live agents share a
    workspace; from there on an agent keeps its instance, its context and its workspace for as
    long as it stays live, and its context in any case. -/
theorem live_identity (u : Uuids) (ls later : List Call) :
    let s := (Hub.start u).run ls
    let s' := s.run later
    (∀ a ∈ s.db.agents, ∀ b ∈ s.db.agents, a.status.live → b.status.live →
      ∀ w, a.profile.workspaceId = some w → b.profile.workspaceId = some w → a = b) ∧
    ∀ name a, s.db.agents.find? name = some a →
      (HoldsAlong Call.exec (Hub.Live name) s later →
        ∃ b, s'.db.agents.find? name = some b ∧ b.workerInstanceId = a.workerInstanceId ∧
          b.contextId = a.contextId ∧ b.profile.workspaceId = a.profile.workspaceId) ∧
      ∃ b, s'.db.agents.find? name = some b ∧ b.contextId = a.contextId := by
  intro s s'
  refine ⟨fun a ha b hb hla hlb w hwa hwb => ?_, fun name a ha => ⟨fun hlive => ?_, ?_⟩⟩
  · have hname := distinct_run u ls a.name b.name a b w (Table.find?_of_mem ha)
      (Table.find?_of_mem hb) hla hlb hwa hwb
    exact Table.eq_of_key_eq ha hb hname
  · obtain ⟨b, hb, hid, hcontext, hprofile⟩ := same_run (instanced_run u ls) ha hlive
    exact ⟨b, hb, hid, hcontext, by rw [hprofile]⟩
  · obtain ⟨b, hb, hbecomes⟩ := (evolves_run s later).agents.find? ha
    exact ⟨b, hb, hbecomes.context⟩

end AgentHub
