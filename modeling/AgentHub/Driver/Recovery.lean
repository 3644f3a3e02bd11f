import AgentHub.Driver.Checkpoints

namespace AgentHub.Driver

open Effects Git History

/-!
# The driver survives its crashes

The blocks of `driver_once` under the invariant, one by one, and from them the whole of it.
-/

variable {C : Type} [History C] {A : Type} {o : Own C} {w : World C}

/-- Nothing in particular is known of the repository. -/
abbrev Anything (_ : Remote C) : Prop := True

/-! ### The head disturbance -/

/-- A step of the others leaves the driver's side alone. -/
theorem own_stable (o : Own C) : Stable sandbox fun w : World C => w.own = o :=
  fun _ _ hw hstep => hstep.1.trans hw

/-- A refusal may read before it raises. -/
theorem refuses_read {e : Effect C} {next : e.Response → Script C A} (hw : w.own = o)
    (hread : ∀ w₁ r w₂, e.exec w₁ r w₂ → w₂ = w₁)
    (hnext : ∀ w₁ r, w₁.own = o → e.exec w₁ r w₁ → Refuses sandbox Idle (next r) w₁) :
    Refuses sandbox Idle (.call e next) w := by
  intro w₁ hlater r w₂ hexec
  have hw₁ := (own_stable o).later hlater hw
  obtain rfl := hread w₁ r w₂ hexec
  exact ⟨rfl, hnext w₂ r hw₁ hexec⟩

/-- A check refuses nothing unless what follows does. -/
theorem refuses_raiseIf {p : Prop} [Decidable p] {message : String} {f : Unit → Script C A}
    (hnext : ¬ p → Refuses sandbox Idle (f ()) w) :
    Refuses sandbox Idle (raiseIf p message >>= f) w := by
  by_cases hp : p
  · rw [raiseIf, if_pos hp]
    exact trivial
  · rw [raiseIf, if_neg hp]
    exact hnext hp

/-- The record of a head that the driver has pushed. -/
theorem always_recordHead {d : HeadDisturbance C} {c : C} {f : Unit → Script C A}
    (hw : Knows o Anything w) (hpushed : o.pushed = [c]) (hparents : parents c = [d.oldHead])
    (hchanges : ChangesOnly c d.oldHead o.manifest.headFile)
    (hnext : ∀ o' w', Knows o' Anything w' → Always orderly Sound (f ()) w') :
    Always orderly Sound (recordHead o.manifest d c >>= f) w := by
  refine always_read (lasts_true o) hw (by simp [Watched]) (fun _ _ _ h => h)
    fun w₁ moment hw₁ _ => ?_
  refine always_call (lasts_true o) hw₁ (by simp [Watched]) fun w₂ _ w₃ hw₂ hsave hclean => ?_
  obtain rfl := hsave
  refine hnext _ _ (hw₂.save hclean ?_ ?_ ?_)
  · exact fun _ => .inr ⟨c, _, hpushed, rfl, hparents, hchanges, fun hstate => by cases hstate⟩
  · rintro - d' hd' -
    obtain rfl := Option.some.inj hd'
    exact ⟨c, rfl, hpushed, hchanges⟩
  · exact id

/-- The push of the driver's commit, once its name is saved. -/
theorem always_pushCommit {d : HeadDisturbance C} {c : C} {f : Unit → Script C A}
    (hw : Knows o (Ahead d.oldHead) w) (hd : o.manifest.head = some d)
    (hprepared : d.state = .prepared) (hnone : o.pushed = []) (hhead : o.clone.head = c)
    (hparents : parents c = [d.oldHead]) (hchanges : ChangesOnly c d.oldHead o.manifest.headFile)
    (hnext : ∀ o' w', Knows o' Anything w' → Always orderly Sound (f ()) w') :
    Always orderly Sound
      (.call (.push .implementation) fun _ => recordHead o.manifest d c >>= f) w := by
  refine Always.call (knows_stable (lasts_ahead hd hprepared d.oldHead)) hw
    (fun w₁ hw₁ => ⟨hw₁.inv, fun _ _ _ hp => (by cases hp), ?_, fun _ _ hp => (by cases hp),
      fun _ _ _ hp => (by cases hp)⟩)
    fun w₁ _ w₂ hw₁ hpush => ?_
  · -- git takes the push only from the recorded head
    intro _ d' x _ hd' hx hold hnew r w' hpush
    rw [hw₁.own] at hd' hnew
    obtain rfl : d = d' := Option.some.inj (hd.symm.trans hd')
    obtain ⟨y, hy, hancestor⟩ := hw₁.remote
    obtain rfl : y = x := Option.some.inj (hy.symm.trans hx)
    have hforward : Ancestor y c := by
      have hback := hpush.1 y hy
      rwa [hw₁.own, hhead] at hback
    rcases hforward.of_single hparents with heq | hback
    · exact hnew (heq.trans hhead.symm)
    · exact hold (hback.antisymm hancestor)
  · obtain ⟨⟨hforward, rfl⟩, hclean⟩ := hpush
    obtain ⟨rfl, -, hinv⟩ := hw₁
    have hahead : Ahead c (w₁.push .implementation).remote :=
      ⟨c, by rw [← hhead]; exact heads_advance_self _ _ _, Ancestor.refl c⟩
    have hpushed : (w₁.push .implementation).own.pushed = [c] := by
      simp [World.push, hnone, hhead]
    have hinv' : Inv (w₁.push .implementation) := by
      refine ⟨hclean, .inr ⟨c, d, hpushed, hd, hparents, hchanges, fun _ => hahead⟩, ?_, ?_⟩
      · intro d' hd' hrecorded
        obtain rfl : d = d' := Option.some.inj (hd.symm.trans hd')
        rw [hprepared] at hrecorded
        cases hrecorded
      · exact MergedOnce.move (o := w₁.own) hinv.merged fun n hn => hn.advance _ _
    exact always_recordHead (o := (w₁.push .implementation).own) ⟨rfl, trivial, hinv'⟩ hpushed
      hparents hchanges hnext

/-- Nothing has been pushed while the branch is at the recorded head. -/
theorem pushed_eq_nil {r : Remote C} {d : HeadDisturbance C} (h : PushedOnce o r)
    (hd : o.manifest.head = some d) (hprepared : d.state = .prepared)
    (hr : r.heads .implementation = some d.oldHead) : o.pushed = [] := by
  rcases h with hnone | ⟨c, d', -, hd', hparents, -, hahead⟩
  · exact hnone
  · obtain rfl : d = d' := Option.some.inj (hd.symm.trans hd')
    obtain ⟨x, hx, hancestor⟩ := hahead hprepared
    obtain rfl : d.oldHead = x := Option.some.inj (hr.symm.trans hx)
    exact absurd hancestor (not_ancestor_parent (by simp [hparents]))

variable [DecidableEq C]

/-- A movement by another party is not taken for the driver's. -/
theorem refuses_recoverHead {d : HeadDisturbance C} {x : C} (hw : w.own = o)
    (hnot : x ∉ o.pushed) (hclean : ¬ Forged o d x) :
    Refuses sandbox Idle (recoverHead o.manifest d x) w := by
  refine refuses_read hw (fun _ _ _ h => h.2) fun w₁ text hw₁ htext => ?_
  refine refuses_read hw₁ (fun _ _ _ h => h.2) fun w₂ parent hw₂ hparent => ?_
  refine refuses_raiseIf fun hsame => ?_
  rw [not_or, not_not, not_not] at hsame
  refine refuses_read hw₂ (fun _ _ _ h => h.2) fun w₃ names hw₃ hnames => ?_
  refine refuses_raiseIf fun honly => ?_
  rw [not_not] at honly
  obtain ⟨hcontent, rfl⟩ := hsame
  exact absurd ⟨hnot, hparent.1, hnames.1.symm.trans honly, text, htext.1, hcontent⟩ hclean

/-- A recovered head is the one the driver has pushed. -/
theorem always_recoverHead {d : HeadDisturbance C} {x : C} {f : Unit → Script C A}
    (hw : Knows o Anything w) (hd : o.manifest.head = some d) (hclean : ¬ Forged o d x)
    (hnext : ∀ o' w', Knows o' Anything w' → Always orderly Sound (f ()) w') :
    Always orderly Sound (recoverHead o.manifest d x >>= f) w := by
  simp only [recoverHead, Program.bind_assoc]
  refine always_read (lasts_true o) hw (by simp [Watched]) (fun _ _ _ h => h.2)
    fun w₁ text hw₁ htext => ?_
  refine always_read (lasts_true o) hw₁ (by simp [Watched]) (fun _ _ _ h => h.2)
    fun w₂ parent hw₂ hparent => ?_
  refine always_raiseIf (lasts_true o) hw₂ fun hsame => ?_
  rw [not_or, not_not, not_not] at hsame
  obtain ⟨hcontent, rfl⟩ := hsame
  refine always_read (lasts_true o) hw₂ (by simp [Watched]) (fun _ _ _ h => h.2)
    fun w₃ names hw₃ hnames => ?_
  refine always_raiseIf (lasts_true o) hw₃ fun honly => ?_
  rw [not_not] at honly
  have hdiff : diff d.oldHead x = [o.manifest.headFile] := hnames.1.symm.trans honly
  -- a commit that passes all checks is not forged, so the driver has pushed it
  have hmem : x ∈ o.pushed := by
    by_contra hnot
    exact hclean ⟨hnot, hparent.1, hdiff, text, htext.1, hcontent⟩
  have honce : PushedOnce o w₃.remote := hw₃.own ▸ hw₃.inv.pushed
  rcases honce with hnone | ⟨c, d', hc, hd', hparents, hchanges, -⟩
  · rw [hnone] at hmem
    exact absurd hmem List.not_mem_nil
  · obtain rfl : d = d' := Option.some.inj (hd.symm.trans hd')
    rw [hc, List.mem_singleton] at hmem
    subst hmem
    exact always_recordHead hw₃ hc hparents hchanges hnext

/-- The driver's commit goes on top of the approved head, and only there. -/
theorem always_pushHead {snapshot : List (TaskRow C)} {d : HeadDisturbance C}
    {f : Unit → Script C A} (hw : Knows o (Ahead d.oldHead) w) (hd : o.manifest.head = some d)
    (hprepared : d.state = .prepared) (hnone : o.pushed = []) (hworktree : o.clone.worktree = [])
    (hindex : o.clone.index = [])
    (hnext : ∀ o' w', Knows o' Anything w' → Always orderly Sound (f ()) w') :
    Always orderly Sound (pushHead o.manifest snapshot d d.oldHead >>= f) w := by
  simp only [pushHead, Program.bind_assoc]
  have hlasts (k : Clone C) : Lasts { o with clone := k } (Ahead d.oldHead) :=
    lasts_ahead hd hprepared d.oldHead
  refine always_raiseIf (hlasts _) hw fun _ => ?_
  refine always_clone (hlasts _) hw (by simp [Watched])
    (fun k => { k with head := d.oldHead }) (fun _ _ _ h => h) fun _ w₁ hw₁ => ?_
  refine always_clone (hlasts _) hw₁ (by simp [Watched])
    (fun k => k.write o.manifest.headFile (o.manifest.canary ++ "\n")) (fun _ _ _ h => h)
    fun _ w₂ hw₂ => ?_
  refine always_clone (hlasts _) hw₂ (by simp [Watched])
    (fun k => k.stage o.manifest.headFile) (fun _ _ _ h => h) fun _ w₃ hw₃ => ?_
  refine always_call (hlasts _) hw₃ (by simp [Watched]) fun w₄ _ _ hw₄ hcommit _ => ?_
  obtain ⟨c, hparents, htree, -, rfl⟩ := hcommit
  rw [hw₄.own] at hparents htree
  -- the commit is on the approved head, and the one staged file is the driver's
  have hchanges : ChangesOnly c d.oldHead o.manifest.headFile := by
    refine ⟨by rw [hparents]; rfl, fun other hother => ?_⟩
    rw [htree]
    simp [overlay, Clone.stage, Clone.write, hworktree, hindex, hother]
  refine always_read (hlasts _) (hw₄.setClone _) (by simp [Watched]) (fun _ _ _ h => h.2)
    fun w₅ newHead hw₅ hhead => ?_
  have hnew : newHead = c := by
    rw [hhead.1, hw₅.own]
  subst hnew
  refine always_call (hlasts _) hw₅ (by simp [Watched]) fun w₆ _ w₇ hw₆ hsave hclean => ?_
  obtain rfl := hsave
  have hsaved := hw₆.save hclean (fun _ => .inl hnone) (by
    rintro - d' hd' hpushed
    obtain rfl := Option.some.inj hd'
    rw [hprepared] at hpushed
    cases hpushed) id
  exact (always_pushCommit (d := { d with newHead := some newHead }) hsaved rfl hprepared hnone rfl
    hparents hchanges hnext :)

/-- The block of the head disturbance: it is pushed, recovered, or refused. -/
theorem always_moveHead {snapshot : List (TaskRow C)} {d : HeadDisturbance C}
    {f : Unit → Script C A} (hw : Knows o Anything w) (hd : o.manifest.head = some d)
    (hprepared : d.state = .prepared) (hworktree : o.clone.worktree = [])
    (hindex : o.clone.index = [])
    (hnext : ∀ o' w', Knows o' Anything w' → Always orderly Sound (f ()) w') :
    Always orderly Sound (moveHead o.manifest snapshot d >>= f) w := by
  simp only [moveHead, Program.bind_assoc]
  refine Always.call (knows_stable (lasts_true o)) hw
    (fun w₁ hw₁ => ⟨hw₁.inv, ?_, fun _ _ _ hp => (by cases hp), fun _ _ hp => (by cases hp),
      fun _ _ _ hp => (by cases hp)⟩)
    fun w₁ _ w₂ hw₁ hfetch => ?_
  · -- the branch has moved, and not by the driver
    intro next d' x hp hd' hx hold hnot r w₂ hfetch
    cases hp
    obtain ⟨rfl, -, hinv⟩ := hw₁
    obtain rfl : d = d' := Option.some.inj (hd.symm.trans hd')
    obtain ⟨y, hy, rfl⟩ := hfetch
    obtain rfl : y = x := Option.some.inj (hy.symm.trans hx)
    have hclean := hinv.clean d y hd hprepared hx
    refine refuses_read rfl (fun _ _ _ h => h.2) fun w₃ remote hw₃ hremote => ?_
    obtain rfl : y = remote := by
      have hfetched := hremote.1
      rw [hw₃] at hfetched
      exact Option.some.inj hfetched
    rw [Program.bind, if_pos hold]
    exact (refuses_recoverHead hw₃ hnot hclean).bind f
  · obtain ⟨⟨c, hc, rfl⟩, -⟩ := hfetch
    obtain ⟨rfl, -, hinv⟩ := hw₁
    have hclean := hinv.clean d c hd hprepared hc
    -- what is looked at further on is the commit that has been fetched
    have hfetched : ∀ w₃ remote, w₃.own.clone.fetchHead = some c →
        (Effect.revParseFetchHead (C := C)).exec w₃ remote w₃ → remote = c := by
      intro w₃ remote hw₃ hremote
      exact Option.some.inj (hremote.1.symm.trans hw₃)
    by_cases hold : c = d.oldHead
    · subst hold
      have hnone := pushed_eq_nil hinv.pushed hd hprepared hc
      have hknown : Knows w₁.own (Ahead d.oldHead) w₁ := ⟨rfl, ⟨_, hc, Ancestor.refl _⟩, hinv⟩
      have hlasts (k : Clone C) : Lasts { w₁.own with clone := k } (Ahead d.oldHead) :=
        lasts_ahead hd hprepared d.oldHead
      refine always_read (hlasts _) (hknown.setClone _) (by simp [Watched]) (fun _ _ _ h => h.2)
        fun w₃ remote hw₃ hremote => ?_
      obtain rfl := hfetched w₃ remote (by rw [hw₃.own]) hremote
      rw [Program.bind, if_neg (not_not.mpr rfl)]
      exact (always_pushHead hw₃ hd hprepared hnone hworktree hindex hnext :)
    · have hknown : Knows w₁.own Anything w₁ := ⟨rfl, trivial, hinv⟩
      refine always_read (lasts_true _) (hknown.setClone _) (by simp [Watched])
        (fun _ _ _ h => h.2) fun w₃ remote hw₃ hremote => ?_
      obtain rfl := hfetched w₃ remote (by rw [hw₃.own]) hremote
      rw [Program.bind, if_pos hold]
      exact (always_recoverHead hw₃ hd hclean hnext :)

end AgentHub.Driver
