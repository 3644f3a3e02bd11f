import AgentHub.Worker.Network

namespace AgentHub

open Relational

/-!
# The ids of a worker's mutations

An id is of one logical call, and what is pending under a key is the id of the current one.

* `Network.Identified` — what the ids of the client's requests are;
* `identified_exec` — every step keeps that.
-/

namespace Network

/-- The ids of the client's requests: a mutation carries its id, an id is of one logical call, and
    a pending id is one that the current logical call has used. -/
structure Identified (u : HexUuids) (settings : WorkerSettings) (w : Network) : Prop where
  configured : w.client.settings = settings
  within : w.client.uuids.Within u.toUuids
  missed : ∀ i ∈ w.invocations, i.subject.key.Mutates → w.client.uuids.Misses i.id
  drawn : ∀ i ∈ w.invocations, i.subject.key.Mutates → ¬ u.Misses i.id
  token : ∀ i ∈ w.invocations, i.subject.key.Mutates → IsToken i.id
  carries : ∀ i ∈ w.invocations, i.subject.key.Mutates → i.Carries settings
  logical : ∀ i ∈ w.invocations, ∃ c, w.logicals[i.logical]? = some c ∧ c.subject = i.subject
  sameId : ∀ i ∈ w.invocations, ∀ j ∈ w.invocations, i.subject.key.Mutates →
    j.subject.key.Mutates → i.id = j.id → i.logical = j.logical
  pending : ∀ k s id, k.Mutates → w.client.pending k = some (s, id) → s.key = k ∧
    ∃ i ∈ w.invocations, w.current k = some i.logical ∧ i.subject = s ∧ i.id = id ∧
      (k.isResult = true ∨ ¬ w.HasReturned i.logical)
  current : ∀ k n, k.Mutates → w.current k = some n →
    ∃ c, w.logicals[n]? = some c ∧ c.subject.key = k
  returned : ∀ x ∈ w.returns, x.logical < w.logicals.length

section

variable {w w' : Network} {u : HexUuids} {settings : WorkerSettings} {i j : Invocation}

/-! ### What follows -/

/-- Requests of one logical call say the same. -/
theorem Identified.subject_eq (h : w.Identified u settings) (hi : i ∈ w.invocations)
    (hj : j ∈ w.invocations) (hlogical : i.logical = j.logical) : i.subject = j.subject := by
  obtain ⟨c, hc, hci⟩ := h.logical i hi
  obtain ⟨d, hd, hdj⟩ := h.logical j hj
  rw [hlogical] at hc
  obtain rfl : c = d := Option.some.inj (hc.symm.trans hd)
  exact hci.symm.trans hdj

/-- The uuid that is drawn next is in no request. -/
theorem Identified.head_ne (h : w.Identified u settings) (hi : i ∈ w.invocations)
    (hmutates : i.subject.key.Mutates) : i.id ≠ w.client.uuids.head :=
  fun heq => h.missed i hi hmutates 0 heq.symm

/-- The next id has been drawn by nobody. -/
theorem Identified.head_drawn (h : w.Identified u settings) : ¬ u.Misses w.client.uuids.head :=
  fun hmisses => h.within _ hmisses 0 rfl

/-- The client, the requests and the logical calls are what `Identified` is about. -/
theorem Identified.of_eq (h : w.Identified u settings)
    (hsettings : w'.client.settings = w.client.settings)
    (huuids : w'.client.uuids = w.client.uuids)
    (hpending : ∀ k, k.Mutates → w'.client.pending k = w.client.pending k)
    (hinvocations : w'.invocations = w.invocations) (hlogicals : w'.logicals = w.logicals)
    (hcurrent : ∀ k, k.Mutates → w'.current k = w.current k) (hreturns : w'.returns = w.returns) :
    w'.Identified u settings := by
  have hreturned (n : ℕ) : w'.HasReturned n ↔ w.HasReturned n := by
    simp only [HasReturned, hreturns]
  constructor
  · rw [hsettings]; exact h.configured
  · rw [huuids]; exact h.within
  · rw [huuids, hinvocations]; exact h.missed
  · rw [hinvocations]; exact h.drawn
  · rw [hinvocations]; exact h.token
  · rw [hinvocations]; exact h.carries
  · rw [hinvocations, hlogicals]; exact h.logical
  · rw [hinvocations]; exact h.sameId
  · intro k s id hk hp
    simp only [hinvocations, hcurrent k hk, hreturned]
    exact h.pending k s id hk (hpending k hk ▸ hp)
  · intro k n hk hn
    rw [hlogicals]
    exact h.current k n hk (hcurrent k hk ▸ hn)
  · rw [hreturns, hlogicals]; exact h.returned

/-! ### An invocation -/

variable {out : Outgoing} {n : ℕ}

/-- **A mutation goes out** under the id of an earlier request of its logical call, or under the
    next uuid. -/
theorem Identified.reuses (h : w.Identified u settings) (hinvoked : w.Invoked w' out n)
    (hmutates : out.subject.key.Mutates) :
    (∃ i ∈ w.invocations, i.subject = out.subject ∧ i.id = out.id ∧ i.logical = n ∧
      w.current out.subject.key = some n) ∨
    (∀ id, w.client.pending out.subject.key ≠ some (out.subject, id)) ∧
      out.id = w.client.uuids.head ∧ w'.client.uuids.Misses out.id := by
  rcases hinvoked.client.id with hpending | hfresh
  · left
    obtain ⟨-, i, hi, hcurrent, hsubject, hid, hopen⟩ := h.pending _ _ _ hmutates hpending
    have hcontinues : w.Continues i.logical out.subject := by
      obtain ⟨c, hc, hcs⟩ := h.logical i hi
      exact ⟨⟨c, hc, hcs.trans hsubject⟩, hopen⟩
    have hn : w.current out.subject.key = some n := by
      rcases hinvoked.logical with ⟨hn, -⟩ | ⟨hnew, -⟩
      · exact hn
      · exact absurd hcontinues (hnew _ hcurrent)
    exact ⟨i, hi, hsubject, hid, Option.some.inj (hcurrent.symm.trans hn), hn⟩
  · exact .inr hfresh

/-- A new logical call comes last. -/
theorem Invoked.logicals_get (hinvoked : w.Invoked w' out n) {m : ℕ} {c : LogicalCall}
    (hc : w.logicals[m]? = some c) : w'.logicals[m]? = some c := by
  rcases hinvoked.logical with ⟨-, -, heq⟩ | ⟨-, -, heq⟩ <;> rw [heq]
  · exact hc
  · exact (List.getElem?_append_left (List.getElem?_eq_some_iff.mp hc).1).trans hc

/-- The logical call of an invocation says what the invocation says. -/
theorem Invoked.logicals_self (hinvoked : w.Invoked w' out n) :
    ∃ c, w'.logicals[n]? = some c ∧ c.subject = out.subject := by
  rcases hinvoked.logical with ⟨-, ⟨⟨c, hc, hsubject⟩, -⟩, heq⟩ | ⟨-, rfl, heq⟩ <;> rw [heq]
  · exact ⟨c, hc, hsubject⟩
  · exact ⟨_, List.getElem?_concat_length, rfl⟩

/-- The messages sent are those before and the new one. -/
theorem Invoked.mem_invocations (hinvoked : w.Invoked w' out n) :
    i ∈ w'.invocations ↔ i ∈ w.invocations ∨ i = ⟨out, n⟩ := by
  rw [hinvoked.invocations, List.mem_append, List.mem_singleton]

/-- Sending a message returns no call. -/
theorem Invoked.hasReturned (hinvoked : w.Invoked w' out n) (m : ℕ) :
    w'.HasReturned m ↔ w.HasReturned m := by
  obtain ⟨-, -, -, -, hreturns, -⟩ := hinvoked.rest
  simp only [HasReturned, hreturns]

/-- What goes out in a logical call has not returned; a result may have. -/
theorem Identified.invoked_open (h : w.Identified u settings) (hinvoked : w.Invoked w' out n) :
    out.subject.key.isResult = true ∨ ¬ w.HasReturned n := by
  rcases hinvoked.logical with ⟨-, hcontinues, -⟩ | ⟨-, rfl, -⟩
  · exact hcontinues.2
  · right
    rintro ⟨x, hx, hlogical, -⟩
    exact absurd hlogical (Nat.ne_of_lt (h.returned x hx))

/-- A call sent keeps its ids its own. -/
theorem Identified.invoked (h : w.Identified u settings) (hinvoked : w.Invoked w' out n)
    (hcarries : out.subject.key.Mutates → IsToken out.id → out.Carries settings) :
    w'.Identified u settings := by
  have htoken (hmutates : out.subject.key.Mutates) : IsToken out.id := by
    rcases h.reuses hinvoked hmutates with ⟨i, hi, hsubject, hid, -⟩ | ⟨-, hid, -⟩
    · rw [← hid]
      exact h.token i hi (hsubject ▸ hmutates)
    · rw [hid]
      exact HexUuids.isToken_head _
  have hlength : w.logicals.length ≤ w'.logicals.length := by
    rcases hinvoked.logical with ⟨-, -, heq⟩ | ⟨-, -, heq⟩ <;> simp [heq]
  -- an id that goes out again goes out in the same logical call
  have hsame (i : Invocation) (hi : i ∈ w.invocations) (hm : i.subject.key.Mutates)
      (hmutates : out.subject.key.Mutates) (hid : i.id = out.id) : i.logical = n := by
    rcases h.reuses hinvoked hmutates with ⟨j, hj, hsubject, hj', hlogical, -⟩ | ⟨-, hhead, -⟩
    · exact (h.sameId i hi j hj hm (hsubject ▸ hmutates) (hid.trans hj'.symm)).trans hlogical
    · exact absurd (hid.trans hhead) (h.head_ne hi hm)
  constructor
  · exact hinvoked.client.settings.trans h.configured
  · exact hinvoked.client.within.trans h.within
  · intro i hi hm
    rcases hinvoked.mem_invocations.mp hi with hi | rfl
    · exact hinvoked.client.within _ (h.missed i hi hm)
    · rcases h.reuses hinvoked hm with ⟨j, hj, hsubject, hid, -⟩ | ⟨-, -, hmisses⟩
      · show w'.client.uuids.Misses out.id
        rw [← hid]
        exact hinvoked.client.within _ (h.missed j hj (hsubject ▸ hm))
      · exact hmisses
  · intro i hi hm
    rcases hinvoked.mem_invocations.mp hi with hi | rfl
    · exact h.drawn i hi hm
    · show ¬ u.Misses out.id
      rcases h.reuses hinvoked hm with ⟨j, hj, hsubject, hid, -⟩ | ⟨-, hid, -⟩
      · exact hid ▸ h.drawn j hj (hsubject ▸ hm)
      · exact hid ▸ h.head_drawn
  · intro i hi hm
    rcases hinvoked.mem_invocations.mp hi with hi | rfl
    · exact h.token i hi hm
    · exact htoken hm
  · intro i hi hm
    rcases hinvoked.mem_invocations.mp hi with hi | rfl
    · exact h.carries i hi hm
    · exact hcarries hm (htoken hm)
  · intro i hi
    rcases hinvoked.mem_invocations.mp hi with hi | rfl
    · obtain ⟨c, hc, hsubject⟩ := h.logical i hi
      exact ⟨c, hinvoked.logicals_get hc, hsubject⟩
    · exact hinvoked.logicals_self
  · intro i hi j hj hmi hmj hid
    rcases hinvoked.mem_invocations.mp hi with hi | rfl <;>
      rcases hinvoked.mem_invocations.mp hj with hj | rfl
    · exact h.sameId i hi j hj hmi hmj hid
    · exact hsame i hi hmi hmj hid
    · exact (hsame j hj hmj hmi hid.symm).symm
    · rfl
  · intro k s id hk hpending
    by_cases hkey : k = out.subject.key
    · subst hkey
      obtain ⟨rfl, rfl⟩ : out.subject = s ∧ out.id = id := by
        simpa using hinvoked.client.pending_self.symm.trans hpending
      refine ⟨rfl, ⟨out, n⟩, hinvoked.mem_invocations.mpr (.inr rfl), hinvoked.current_self, rfl,
        rfl, ?_⟩
      rw [hinvoked.hasReturned]
      exact h.invoked_open hinvoked
    · rw [hinvoked.client.pending_ne k hkey hk] at hpending
      obtain ⟨hs, i, hi, hcurrent, hsubject, hid, hopen⟩ := h.pending k s id hk hpending
      refine ⟨hs, i, hinvoked.mem_invocations.mpr (.inl hi), ?_, hsubject, hid, ?_⟩
      · rw [hinvoked.current_ne k hkey hk, hcurrent]
      · rw [hinvoked.hasReturned]
        exact hopen
  · intro k m hk hm
    by_cases hkey : k = out.subject.key
    · subst hkey
      obtain rfl := Option.some.inj (hinvoked.current_self.symm.trans hm)
      obtain ⟨c, hc, hsubject⟩ := hinvoked.logicals_self
      exact ⟨c, hc, by rw [hsubject]⟩
    · rw [hinvoked.current_ne k hkey hk] at hm
      obtain ⟨c, hc, hsubject⟩ := h.current k m hk hm
      exact ⟨c, hinvoked.logicals_get hc, hsubject⟩
  · obtain ⟨-, -, -, -, hreturns, -⟩ := hinvoked.rest
    intro x hx
    exact Nat.lt_of_lt_of_le (h.returned x (hreturns ▸ hx)) hlength

/-! ### An answer -/

/-- **What is read.**  Nothing, or one answer by an invocation that waits for it. -/
theorem receive_cases (contextOf : String → Option String) (w : Network) (n k : ℕ) :
    w.receive contextOf n k = w ∨ ∃ attempts i a, (n, attempts) ∈ w.underWay ∧
      w.invocations[n]? = some i ∧ (n, a) ∈ w.answers ∧
      w.receive contextOf n k = { w with
        client := (w.client.finish contextOf i.subject a).1
        underWay := w.underWay.filter (·.1 ≠ n)
        returns := w.returns ++
          ((w.client.finish contextOf i.subject a).2.map (Return.mk i.logical)).toList } := by
  unfold receive
  cases hlookup : w.underWay.lookup n with
  | none => exact .inl rfl
  | some attempts =>
    cases hi : w.invocations[n]? with
    | none => exact .inl rfl
    | some i =>
      cases ha : w.answers[k]? with
      | none => exact .inl rfl
      | some p =>
        obtain ⟨n', a⟩ := p
        by_cases hn : n' = n
        · subst hn
          obtain ⟨before, after, heq, -⟩ := List.lookup_eq_some_iff.mp hlookup
          refine .inr ⟨attempts, i, a, ?_, rfl, List.mem_of_getElem? ha, if_pos rfl⟩
          rw [heq]
          exact List.mem_append_right _ List.mem_cons_self
        · exact .inl (if_neg hn)

/-- A mutation that has returned now had returned before, or says what is read. -/
theorem Identified.hasReturned_receive (h : w.Identified u settings) {v : Option Returned}
    (hi : i ∈ w.invocations) (hj : j ∈ w.invocations)
    (hreturns : w'.returns = w.returns ++ (v.map (Return.mk i.logical)).toList)
    (hreturned : w'.HasReturned j.logical) :
    w.HasReturned j.logical ∨ (j.logical = i.logical ∧ j.subject = i.subject) := by
  obtain ⟨x, hx, hlogical, hfinal⟩ := hreturned
  rw [hreturns, List.mem_append] at hx
  rcases hx with hx | hx
  · exact .inl ⟨x, hx, hlogical, hfinal⟩
  · right
    cases v with
    | none => cases hx
    | some v =>
      obtain rfl := List.mem_singleton.mp hx
      exact ⟨hlogical.symm, h.subject_eq hj hi hlogical.symm⟩

/-- An answer received keeps the ids. -/
theorem Identified.receive (h : w.Identified u settings) (contextOf : String → Option String)
    (n k : ℕ) : (w.receive contextOf n k).Identified u settings := by
  rcases w.receive_cases contextOf n k with hsame | ⟨attempts, i, a, -, hget, -, hw⟩
  · rw [hsame]
    exact h
  have hi : i ∈ w.invocations := List.mem_of_getElem? hget
  rw [hw]
  obtain ⟨hsettings, huuids, hfinish⟩ := w.client.finish_cases contextOf i.subject a
  -- what is still pending was pending, and its call has not returned
  have hpending (k : CallKey) (s : Subject) (id : String) (hk : k.Mutates)
      (hp : (w.client.finish contextOf i.subject a).1.pending k = some (s, id)) :
      w.client.pending k = some (s, id) ∧ (k.isResult = true ∨ k ≠ i.subject.key ∨
        (w.client.finish contextOf i.subject a).2 = none) := by
    rcases hfinish with hnone | ⟨responseJson, v, -, hm, -, -, hforget⟩ | ⟨e, v, -, hm, -, hkept⟩
    · rw [hnone] at hp ⊢
      exact ⟨hp, .inr (.inr rfl)⟩
    · rw [hforget] at hp
      have hcleared : k ≠ i.subject.key.cleared := by
        rintro rfl
        simp [WorkerClient.forget] at hp
      refine ⟨(Function.update_of_ne hcleared ..).symm.trans hp, ?_⟩
      cases hkey : i.subject.key with
      | result taskId =>
        cases k with
        | result taskId' => exact .inl rfl
        | _ => exact .inr (.inl (by simp))
      | _ =>
        rw [hkey] at hcleared
        exact .inr (.inl hcleared)
    · rw [hkept k hk] at hp
      refine ⟨hp, .inr (.inl ?_)⟩
      rintro rfl
      exact hm hk
  constructor
  · exact hsettings.trans h.configured
  · show (w.client.finish contextOf i.subject a).1.uuids.Within _
    rw [huuids]
    exact h.within
  · intro j hj hm
    show (w.client.finish contextOf i.subject a).1.uuids.Misses _
    rw [huuids]
    exact h.missed j hj hm
  · exact h.drawn
  · exact h.token
  · exact h.carries
  · exact h.logical
  · exact h.sameId
  · intro k s id hk hp
    obtain ⟨hold, hother⟩ := hpending k s id hk hp
    obtain ⟨hs, j, hj, hcurrent, hsubject, hid, hopen⟩ := h.pending k s id hk hold
    refine ⟨hs, j, hj, hcurrent, hsubject, hid, ?_⟩
    rcases hopen with hresult | hopen
    · exact .inl hresult
    rcases hother with hresult | hother
    · exact .inl hresult
    right
    rintro ⟨x, hx, hlogical, hfinal⟩
    rcases hother with hother | hnone
    · rcases h.hasReturned_receive hi hj rfl ⟨x, hx, hlogical, hfinal⟩ with hold | ⟨-, heq⟩
      · exact hopen hold
      · rw [← heq, hsubject, hs] at hother
        exact hother rfl
    · rw [hnone] at hx
      exact hopen ⟨x, by simpa using hx, hlogical, hfinal⟩
  · exact h.current
  · intro x hx
    rcases List.mem_append.mp hx with hx | hx
    · exact h.returned x hx
    · obtain ⟨c, hc, -⟩ := h.logical i hi
      cases hv : (w.client.finish contextOf i.subject a).2 with
      | none =>
        rw [hv] at hx
        cases hx
      | some v =>
        rw [hv] at hx
        obtain rfl := List.mem_singleton.mp hx
        exact (List.getElem?_eq_some_iff.mp hc).1

/-! ### Every step -/

/-- No ids are used at the start. -/
theorem identified_start (v : Uuids) (instanceId : String) :
    (start v u settings instanceId).Identified u settings where
  configured := rfl
  within := Uuids.Within.refl _
  missed := by simp [start]
  drawn := by simp [start]
  token := by simp [start]
  carries := by simp [start]
  logical := by simp [start]
  sameId := by simp [start]
  pending := by simp [start]
  current := by simp [start]
  returned := by simp [start]

/-- Every step keeps the ids. -/
theorem identified_exec (r : Rendering) (contextOf : String → Option String) (l : NetStep u.toUuids)
    (w : Network) (h : w.Identified u settings) :
    (exec r contextOf l w).Identified u settings := by
  cases l with
  | call l hforeign => exact h.of_eq rfl rfl (fun _ _ => rfl) rfl rfl (fun _ _ => rfl) rfl
  | invoke call =>
    rcases w.invoke_cases call with ⟨hnone, hw⟩ | ⟨out, n, hout, hinvoked⟩
    · obtain ⟨current, hgive, hcurrent⟩ := w.giveUp_eq call
      rcases w.client.invoke_cases call with ⟨-, hsettings, huuids, hpending⟩ | ⟨out, hout, -⟩
      · show (w.invoke call).Identified u settings
        rw [hw, hgive]
        exact h.of_eq hsettings huuids hpending rfl rfl hcurrent rfl
      · rw [hnone] at hout
        cases hout
    · refine h.invoked hinvoked fun hmutates hid => ?_
      rw [← h.configured]
      exact WorkerClient.invoke_carries hout hmutates hid
  | deliver n remoteAddr clock =>
    simp only [exec, deliver]
    split
    · exact h
    · exact h.of_eq rfl rfl (fun _ _ => rfl) rfl rfl (fun _ _ => rfl) rfl
  | release k found =>
    simp only [exec, release]
    split
    · exact h
    · exact h.of_eq rfl rfl (fun _ _ => rfl) rfl rfl (fun _ _ => rfl) rfl
  | receive n k => exact h.receive contextOf n k
  | fail n f =>
    simp only [exec, fail]
    split
    · exact h
    · split <;> exact h.of_eq rfl rfl (fun _ _ => rfl) rfl rfl (fun _ _ => rfl) rfl

end

end Network

end AgentHub
