import AgentHub.Driver.Recovery

namespace AgentHub.Driver

open Effects Git History

/-!
# The base disturbance survives its crashes

The blocks of the base disturbance under the invariant, once the head disturbance is recorded.

* `Settled` — the head is recorded as pushed, so nothing more is known of its branch;
* `Unmerged` — the base disturbance is recorded and the driver has merged nothing;
* `always_prepareBase` … `always_mergeBase` — the blocks, in the order in which they run;
* `always_moveBase` — the whole of it.
-/

variable {C : Type} [History C] {A : Type} {o : Own C} {w : World C}

/-- The head disturbance is recorded as pushed. -/
def Settled (m : Manifest C) : Prop := ∃ d, m.head = some d ∧ d.state = .pushed

/-- The base disturbance is recorded, and nothing has been merged for it. -/
structure Unmerged (o : Own C) (b : BaseDisturbance C) : Prop where
  settled : Settled o.manifest
  recorded : o.manifest.base = some b
  nothing : o.merged = []

/-- Once the head is recorded, its branch may go anywhere. -/
theorem PushedOnce.settled {r r' : Remote C} (h : PushedOnce o r) (hs : Settled o.manifest) :
    PushedOnce o r' := by
  obtain ⟨d, hd, hpushed⟩ := hs
  refine h.move fun c d' hd' hprepared _ => ?_
  obtain rfl : d = d' := Option.some.inj (hd.symm.trans hd')
  rw [hpushed] at hprepared
  cases hprepared

/-- A save of the base disturbance that keeps the pull request and the head, or that comes before
    any merge. -/
theorem Knows.saveBase {F : Remote C → Prop} (hw : Knows o F w) {b : BaseDisturbance C}
    (hclean : Clean (w.save { o.manifest with base := some b }))
    (hmerged : MergedOnce o w.remote →
      MergedOnce { o with manifest := { o.manifest with base := some b } } w.remote) :
    Knows { o with manifest := { o.manifest with base := some b } } F
      (w.save { o.manifest with base := some b }) :=
  hw.save hclean id id hmerged

/-- Once the head is recorded, the repository may change in any way that undoes no merge. -/
theorem Knows.moveRemote {F : Remote C → Prop} (hw : Knows o F w) (hs : Settled o.manifest)
    {r : Remote C} (hclean : Clean ⟨o, r⟩) (hmerged : ∀ n, IsMerged n w.remote → IsMerged n r) :
    Knows o Anything ⟨o, r⟩ := by
  obtain ⟨rfl, -, hinv⟩ := hw
  exact ⟨rfl, trivial, hclean, hinv.pushed.settled hs, hinv.certified, hinv.merged.move hmerged⟩

/-- The record of a base pull request that is merged. -/
theorem always_recordBase {b : BaseDisturbance C} {view : PullRequest C} {f : Unit → Script C A}
    (hw : Knows o Anything w) (hb : o.manifest.base = some b)
    (hnext : ∀ o' w', Knows o' Anything w' → Always orderly Sound (f ()) w') :
    Always orderly Sound (recordBase o.manifest b view >>= f) w := by
  cases hcommit : view.mergeCommit with
  | none =>
    rw [recordBase, hcommit]
    exact always_raise (lasts_true o) hw
  | some oid =>
    rw [recordBase, hcommit]
    refine always_call (lasts_true o) hw (by simp [Watched]) fun w₁ _ w₂ hw₁ hsave hclean => ?_
    obtain rfl := hsave
    refine hnext _ _ (hw₁.saveBase hclean ?_)
    rintro (hnone | ⟨n, h, b', pr, hmerged, hb', hpr, hhead, hrow, hstate⟩)
    · exact .inl hnone
    · obtain rfl : b = b' := Option.some.inj (hb.symm.trans hb')
      exact .inr ⟨n, h, _, pr, hmerged, rfl, hpr, hhead, hrow, hstate⟩

/-- The base disturbance is there, prepared if it was not. -/
theorem always_prepareBase {approvalTask : String}
    {f : Manifest C × BaseDisturbance C → Script C A} (hw : Knows o Anything w)
    (hs : Settled o.manifest)
    (hnext : ∀ o' w' b, Knows o' Anything w' → Settled o'.manifest → o'.manifest.base = some b →
      Always orderly Sound (f (o'.manifest, b)) w') :
    Always orderly Sound (prepareBase o.manifest approvalTask >>= f) w := by
  cases hb : o.manifest.base with
  | some b =>
    rw [prepareBase, hb]
    exact hnext o w b hw hs hb
  | none =>
    rw [prepareBase, hb]
    refine always_call (lasts_true o) hw (by simp [Watched]) fun w₁ _ w₂ hw₁ hfetch _ => ?_
    obtain ⟨c, -, rfl⟩ := hfetch
    refine always_read (lasts_true _) (hw₁.setClone _) (by simp [Watched]) (fun _ _ _ h => h.2)
      fun w₃ oldMain hw₃ _ => ?_
    refine always_call (lasts_true _) hw₃ (by simp [Watched]) fun w₄ _ w₅ hw₄ hsave hclean => ?_
    obtain rfl := hsave
    refine hnext _ _ _ (hw₄.saveBase hclean ?_) hs rfl
    rintro (hnone | ⟨n, h, b', pr, -, hb', -⟩)
    · exact .inl hnone
    · cases hb.symm.trans hb'

/-- The base pull request is recorded. -/
theorem always_openBasePr {b : BaseDisturbance C} {head : C}
    {f : Manifest C × BaseDisturbance C × ℕ → Script C A} (hw : Knows o Anything w)
    (hb : Unmerged o b) (hhead : b.head = some head)
    (hnext : ∀ o' w' b' n, Knows o' Anything w' → Unmerged o' b' → b'.head = some head →
      b'.pr = some n → Always orderly Sound (f (o'.manifest, b', n)) w') :
    Always orderly Sound (openBasePr o.manifest b >>= f) w := by
  have hrecord : ∀ n w', Knows o Anything w' → Always orderly Sound
      (.call (.save { o.manifest with base := some { b with pr := some n } }) fun _ =>
        f ({ o.manifest with base := some { b with pr := some n } }, { b with pr := some n }, n))
        w' := by
    intro n w' hw'
    refine always_call (lasts_true o) hw' (by simp [Watched]) fun w₁ _ w₂ hw₁ hsave hclean => ?_
    obtain rfl := hsave
    exact hnext _ _ _ n (hw₁.saveBase hclean fun _ => .inl hb.nothing)
      ⟨hb.settled, rfl, hb.nothing⟩ hhead rfl
  simp only [openBasePr, Program.bind_assoc]
  refine always_read (lasts_true o) hw (by simp [Watched]) (fun _ _ _ h => h.2.2)
    fun w₁ prs hw₁ _ => ?_
  refine always_raiseIf (lasts_true o) hw₁ fun _ => ?_
  cases prs with
  | cons n prs => exact hrecord n w₁ hw₁
  | nil =>
    refine always_read (lasts_true o) hw₁ (by simp [Watched]) (fun _ _ _ h => h)
      fun w₂ _ hw₂ _ => ?_
    refine always_call (lasts_true o) hw₂ (by simp [Watched]) fun w₃ n w₄ hw₃ hcreate hclean => ?_
    obtain ⟨hnew, c, -, rfl⟩ := hcreate
    rw [hw₃.own] at hclean ⊢
    refine hrecord n _ (hw₃.moveRemote hb.settled hclean fun k hk => hk.setPr fun hkn => ?_)
    obtain ⟨old, hold, -⟩ := hk
    rw [hkn, hold] at hnew
    cases hnew

omit [History C] in
/-- A push of the base branch is no push of the implementation branch. -/
theorem push_base (w : World C) :
    w.push .base = ⟨w.own, w.remote.advance .base w.own.clone.head⟩ := by
  simp [World.push]

/-- A base branch that is not there is created at a head that is recorded before. -/
theorem always_createBase {b : BaseDisturbance C}
    {f : Manifest C × BaseDisturbance C × C → Script C A} (hw : Knows o Anything w)
    (hb : Unmerged o b)
    (hnext : ∀ o' w' b' head, Knows o' Anything w' → Unmerged o' b' → b'.head = some head →
      Always orderly Sound (f (o'.manifest, b', head)) w') :
    Always orderly Sound (createBase o.manifest b >>= f) w := by
  simp only [createBase, Program.bind_assoc]
  refine always_clone (lasts_true _) hw (by simp [Watched])
    (fun k => { k with head := b.oldMain }) (fun _ _ _ h => h) fun _ w₁ hw₁ => ?_
  refine always_clone (lasts_true _) hw₁ (by simp [Watched])
    (fun k => k.write o.manifest.baseFile (o.manifest.baseText ++ "\n")) (fun _ _ _ h => h)
    fun _ w₂ hw₂ => ?_
  refine always_clone (lasts_true _) hw₂ (by simp [Watched])
    (fun k => k.stage o.manifest.baseFile) (fun _ _ _ h => h) fun _ w₃ hw₃ => ?_
  refine always_call (lasts_true _) hw₃ (by simp [Watched]) fun w₄ _ _ hw₄ hcommit _ => ?_
  obtain ⟨c, hparents, -, -, rfl⟩ := hcommit
  rw [hw₄.own] at hparents
  refine always_read (lasts_true _) (hw₄.setClone _) (by simp [Watched]) (fun _ _ _ h => h.2)
    fun w₅ head hw₅ hhead => ?_
  obtain rfl : head = c := by
    rw [hhead.1, hw₅.own]
  refine always_call (lasts_true _) hw₅ (by simp [Watched]) fun w₆ _ w₇ hw₆ hsave hclean => ?_
  obtain rfl := hsave
  have hsaved := hw₆.saveBase hclean fun _ => .inl hb.nothing
  refine Always.call (knows_stable (lasts_true _)) hsaved
    (fun w₇ hw₇ => ⟨hw₇.inv, fun _ _ _ hp => (by cases hp), fun _ _ _ hp => (by cases hp),
      fun _ _ hp => (by cases hp), ?_⟩) fun w₇ _ w₈ hw₇ hpush => ?_
  · -- git takes the push only from the history of the driver's commit, which is on the old main
    intro hclear next x hp hx hother r w' hpush
    have hforward := hpush.1 x hx
    rw [hw₇.own] at hforward
    have hbase : w₇.own.manifest.base = some { b with head := some head } := by rw [hw₇.own]
    rcases hforward.of_single hparents with rfl | hback
    · exact hother _ hbase rfl
    · exact hclear next _ x hp hbase hx hback
  · obtain ⟨⟨-, rfl⟩, hclean⟩ := hpush
    rw [push_base, hw₇.own] at hclean ⊢
    exact (hnext _ _ _ head (hw₇.moveRemote hb.settled hclean fun n hn => hn.advance _ _)
      ⟨hb.settled, rfl, hb.nothing⟩ rfl :)

variable [DecidableEq C]

/-- A recorded pull request is found merged, or the driver has merged nothing. -/
theorem always_recordedBase {b : BaseDisturbance C} {f : Bool → Script C A}
    (hw : Knows o Anything w) (hs : Settled o.manifest) (hb : o.manifest.base = some b)
    (htrue : ∀ o' w', Knows o' Anything w' → Always orderly Sound (f true) w')
    (hfalse : ∀ w', Knows o Anything w' → Unmerged o b → Always orderly Sound (f false) w') :
    Always orderly Sound (recordedBase o.manifest b >>= f) w := by
  cases hpr : b.pr with
  | none =>
    rw [recordedBase, hpr]
    refine hfalse w hw ⟨hs, hb, ?_⟩
    rcases hw.own ▸ hw.inv.merged with hnone | ⟨n, h, b', pr, -, hb', hn, -⟩
    · exact hnone
    · obtain rfl : b = b' := Option.some.inj (hb.symm.trans hb')
      cases hpr.symm.trans hn
  | some n =>
    simp only [recordedBase, hpr, validateBasePr, Program.bind_assoc]
    refine always_read (lasts_true o) hw (by simp [Watched]) (fun _ _ _ h => h.2)
      fun w₁ recorded hw₁ hview => ?_
    refine always_raiseIf (lasts_true o) hw₁ fun _ => ?_
    by_cases hstate : recorded.state = .merged
    · rw [if_pos hstate]
      simp only [Program.bind_assoc]
      refine always_isGreen (lasts_true o) hw₁ fun green w₂ hw₂ => ?_
      refine always_raiseIf (lasts_true o) hw₂ fun _ => ?_
      exact always_recordBase hw₂ hb htrue
    · rw [if_neg hstate]
      -- had the driver merged it, it would be merged still
      refine hfalse w₁ hw₁ ⟨hs, hb, ?_⟩
      rcases hw₁.own ▸ hw₁.inv.merged with hnone | ⟨n', h, b', pr, -, hb', hn, -, hrow, hmerged⟩
      · exact hnone
      · obtain rfl : b = b' := Option.some.inj (hb.symm.trans hb')
        obtain rfl : n = n' := Option.some.inj (hpr.symm.trans hn)
        obtain rfl : recorded = pr := Option.some.inj (hview.1.symm.trans hrow)
        exact absurd hmerged hstate

/-- A remote base branch is taken only at the recorded head. -/
theorem always_recoverBase {b : BaseDisturbance C} {head : C}
    {f : Manifest C × BaseDisturbance C × C → Script C A} (hw : Knows o Anything w)
    (hb : Unmerged o b)
    (hnext : ∀ o' w' b' head, Knows o' Anything w' → Unmerged o' b' → b'.head = some head →
      Always orderly Sound (f (o'.manifest, b', head)) w') :
    Always orderly Sound (recoverBase o.manifest b head >>= f) w := by
  simp only [recoverBase, validateBaseFixture, Program.bind_assoc]
  refine always_raiseIf (lasts_true o) hw fun hsame => ?_
  rw [not_not] at hsame
  refine always_call (lasts_true o) hw (by simp [Watched]) fun w₁ _ w₂ hw₁ hfetch _ => ?_
  obtain ⟨c, -, rfl⟩ := hfetch
  have hw₂ := hw₁.setClone { w₁.own.clone with fetchHead := some c }
  refine always_raiseIf (lasts_true _) hw₂ fun _ => ?_
  refine always_read (lasts_true _) hw₂ (by simp [Watched]) (fun _ _ _ h => h.2)
    fun w₃ _ hw₃ _ => ?_
  refine always_raiseIf (lasts_true _) hw₃ fun _ => ?_
  refine always_read (lasts_true _) hw₃ (by simp [Watched]) (fun _ _ _ h => h.2)
    fun w₄ _ hw₄ _ => ?_
  refine always_raiseIf (lasts_true _) hw₄ fun _ => ?_
  refine always_read (lasts_true _) hw₄ (by simp [Watched]) (fun _ _ _ h => h.2)
    fun w₅ _ hw₅ _ => ?_
  refine always_raiseIf (lasts_true _) hw₅ fun _ => ?_
  exact (hnext _ w₅ b head hw₅ ⟨hb.settled, hb.recorded, hb.nothing⟩ hsame :)

/-- The base branch is at the head that is recorded. -/
theorem always_pushBase {b : BaseDisturbance C}
    {f : Manifest C × BaseDisturbance C × C → Script C A} (hw : Knows o Anything w)
    (hb : Unmerged o b)
    (hnext : ∀ o' w' b' head, Knows o' Anything w' → Unmerged o' b' → b'.head = some head →
      Always orderly Sound (f (o'.manifest, b', head)) w') :
    Always orderly Sound (pushBase o.manifest b >>= f) w := by
  simp only [pushBase, Program.bind_assoc]
  refine Always.call (knows_stable (lasts_true o)) hw
    (fun w₁ hw₁ => ⟨hw₁.inv, fun _ _ _ hp => (by cases hp), fun _ _ _ hp => (by cases hp), ?_,
      fun _ _ _ hp => (by cases hp)⟩)
    fun w₁ remote w₂ hw₁ hremote => ?_
  · -- another head than the recorded one is refused at once
    intro next x hp hx hother r w₂ hremote
    cases hp
    obtain ⟨rfl, rfl⟩ := hremote
    rw [hx]
    show Refuses sandbox Idle (recoverBase o.manifest b x >>= f) w₂
    simp only [recoverBase, Program.bind_assoc]
    refine refuses_raiseIf fun hsame => ?_
    rw [not_not] at hsame
    exact absurd hsame (hother b (hw₁.own ▸ hb.recorded))
  · obtain ⟨⟨rfl, rfl⟩, -⟩ := hremote
    cases hhead : w₂.remote.heads .base with
    | some head =>
      show Always orderly Sound (recoverBase o.manifest b head >>= f) w₂
      exact always_recoverBase hw₁ hb hnext
    | none =>
      show Always orderly Sound (createBase o.manifest b >>= f) w₂
      exact always_createBase hw₁ hb hnext

/-- The driver merges the recorded pull request at the recorded head. -/
theorem always_mergeBase {b : BaseDisturbance C} {n : ℕ} {head : C} {f : Bool → Script C A}
    (hw : Knows o Anything w) (hb : Unmerged o b) (hhead : b.head = some head)
    (hpr : b.pr = some n)
    (hnext : ∀ r o' w', Knows o' Anything w' → Always orderly Sound (f r) w') :
    Always orderly Sound (mergeBase o.manifest b n head >>= f) w := by
  simp only [mergeBase, validateBasePr, Program.bind_assoc]
  refine always_read (lasts_true o) hw (by simp [Watched]) (fun _ _ _ h => h.2)
    fun w₁ view hw₁ _ => ?_
  refine always_raiseIf (lasts_true o) hw₁ fun _ => ?_
  -- merged already: only the record is missing
  by_cases hmerged : view.state = .merged
  · rw [if_neg (not_not.mpr hmerged)]
    simp only [Program.bind_assoc]
    exact always_recordBase hw₁ hb.recorded (hnext true)
  rw [if_pos hmerged]
  by_cases hopened : view.state = .opened
  swap
  · rw [if_pos hopened]
    exact hnext false o w₁ hw₁
  rw [if_neg (not_not.mpr hopened)]
  simp only [Program.bind_assoc]
  refine always_isGreen (lasts_true o) hw₁ fun green w₂ hw₂ => ?_
  cases green with
  | false => exact hnext false o w₂ hw₂
  | true =>
    simp only [Bool.not_true, Bool.false_eq_true, if_false, Program.bind_assoc]
    refine always_read (lasts_true o) hw₂ (by simp [Watched]) (fun _ _ _ h => h)
      fun w₃ rows hw₃ _ => ?_
    refine always_call (lasts_true o) hw₃ (by simp [Watched]) fun w₄ _ w₅ hw₄ hsave hclean => ?_
    obtain rfl := hsave
    have hsaved := hw₄.saveBase hclean fun _ => .inl hb.nothing
    -- from here on a crash may come after the merge and before its record
    refine always_call (lasts_true _) hsaved (by simp [Watched])
      fun w₆ _ w₇ hw₆ hmerge hclean => ?_
    obtain ⟨pr, hrow, -, hdone⟩ := hmerge
    have hview (o' : Own C) (w' : World C) (hw' : Knows o' Anything w')
        (hbase : o'.manifest.base = some { b with checks := some rows }) :
        Always orderly Sound (.call (.prView n) fun view =>
          recordBase o'.manifest { b with checks := some rows } view >>= fun _ => f true) w' :=
      always_read (lasts_true o') hw' (by simp [Watched]) (fun _ _ _ h => h.2)
        fun w₈ view hw₈ _ => always_recordBase hw₈ hbase (hnext true)
    -- the merge went through at the recorded head, or GitHub refused it
    rcases hdone with ⟨m, moment, deletes, -, rfl⟩ | ⟨-, rfl⟩
    · obtain ⟨pr', hrow', hstate'⟩ := isMerged_merge w₆.remote n pr m moment deletes
      have hmerged' : MergedOnce
          { w₆.own with merged := (n, head) :: w₆.own.merged }
          (w₆.remote.merge n pr m moment deletes) := by
        rw [hw₆.own, hb.nothing]
        exact .inr ⟨n, head, _, pr', rfl, rfl, hpr, hhead, hrow', hstate'⟩
      have hpushed : PushedOnce w₆.own (w₆.remote.merge n pr m moment deletes) :=
        hw₆.inv.pushed.settled (by rw [hw₆.own]; exact hb.settled)
      have hinv : Inv ⟨{ w₆.own with merged := (n, head) :: w₆.own.merged },
          w₆.remote.merge n pr m moment deletes⟩ :=
        ⟨hclean, hpushed, hw₆.inv.certified, hmerged'⟩
      have hknown := hview _ _ ⟨rfl, trivial, hinv⟩ (by rw [hw₆.own])
      rw [hw₆.own] at hknown ⊢
      exact hknown
    · exact (hview _ _ hw₆ rfl :)

/-- The block of the base disturbance. -/
theorem always_moveBase {snapshot : List (TaskRow C)} {d : HeadDisturbance C}
    {f : Bool → Script C A} (hw : Knows o Anything w) (hs : Settled o.manifest)
    (hnext : ∀ r o' w', Knows o' Anything w' → Always orderly Sound (f r) w') :
    Always orderly Sound (moveBase o.manifest snapshot d >>= f) w := by
  cases hmoved : d.newHead with
  | none =>
    rw [moveBase, hmoved]
    exact always_raise (lasts_true o) hw
  | some moved =>
    cases happroved : approval snapshot moved with
    | none =>
      simp only [moveBase, hmoved, happroved]
      exact hnext false o w hw
    | some approved =>
      simp only [moveBase, hmoved, happroved, Program.bind_assoc]
      refine always_isGreen (lasts_true o) hw fun green w₁ hw₁ => ?_
      cases green with
      | false => exact hnext false o w₁ hw₁
      | true =>
        simp only [Bool.not_true, Bool.false_eq_true, if_false, Program.bind_assoc]
        refine always_prepareBase hw₁ hs fun o₂ w₂ b hw₂ hs₂ hb₂ => ?_
        by_cases hdone : b.state = .merged
        · simp only [if_pos hdone]
          exact hnext true o₂ w₂ hw₂
        simp only [if_neg hdone, Program.bind_assoc]
        refine always_recordedBase hw₂ hs₂ hb₂ (hnext true) fun w₃ hw₃ hb₃ => ?_
        simp only [Bool.false_eq_true, if_false, Program.bind_assoc]
        refine always_pushBase hw₃ hb₃ fun o₄ w₄ b₄ head hw₄ hb₄ hhead => ?_
        refine always_openBasePr hw₄ hb₄ hhead fun o₅ w₅ b₅ n hw₅ hb₅ hhead₅ hpr => ?_
        exact always_mergeBase hw₅ hb₅ hhead₅ hpr hnext

end AgentHub.Driver
