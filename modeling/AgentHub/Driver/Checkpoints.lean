import AgentHub.Driver.Once

namespace AgentHub.Driver

open Effects Git History

/-!
# What the checkpoints of the driver guarantee

The invariant of a run: at every moment, in particular wherever the driver may die, `run.json`, the
driver's past pushes and merges and the repository fit together.

* `Forged`, `Clean` — a commit that passes for the driver's, and that there is none;
* `orderly` — the steps that keep the run clean and the implementation branch in place while the
  head disturbance is prepared;
* `Inv` — the invariant;
* `BaseClear` — where the driver is about to push the base branch, nobody has put it in the history
  of `main`;
* `Sound` — the invariant, and that the driver refuses at the four commands that look at or move a
  branch;
* `always_…` — the rules by which the blocks of the driver are run through.
-/

variable {C : Type} [History C]

/-- A commit of another party with the parent and the content of the driver's, for which git prints
    just the driver's file. -/
def Forged (o : Own C) (d : HeadDisturbance C) (x : C) : Prop :=
  x ∉ o.pushed ∧ (parents x).head? = some d.oldHead ∧
    diff d.oldHead x = [o.manifest.headFile] ∧
    ∃ text, tree x o.manifest.headFile = some text ∧ strip text = o.manifest.canary

/-- While the head disturbance is prepared, the implementation branch is at no such commit. -/
def Clean (w : World C) : Prop :=
  ∀ d x, w.own.manifest.head = some d → d.state = .prepared →
    w.remote.heads .implementation = some x → ¬ Forged w.own d x

/-- While the head disturbance is prepared, the implementation branch is not deleted. -/
def Stays (o : Own C) (r r' : Remote C) : Prop :=
  ∀ d, o.manifest.head = some d → d.state = .prepared → r.heads .implementation ≠ none →
    r'.heads .implementation ≠ none

/-- The steps of the sandbox that keep the run clean and the implementation branch in place. -/
def orderly : Semantics (Effect C) Effect.Response (World C) where
  exec e w r w' := e.exec w r w' ∧ Clean w'
  rely w w' := sandbox.rely w w' ∧ Clean w' ∧ Stays w.own w.remote w'.remote

/-! ### The invariant -/

/-- The driver has pushed nothing, or one commit, on the recorded head, that changes only its file;
    until that is recorded the branch goes on from it. -/
def PushedOnce (o : Own C) (r : Remote C) : Prop :=
  o.pushed = [] ∨ ∃ c d, o.pushed = [c] ∧ o.manifest.head = some d ∧ parents c = [d.oldHead] ∧
    ChangesOnly c d.oldHead o.manifest.headFile ∧ (d.state = .prepared → Ahead c r)

/-- A head that is recorded as pushed is the driver's, on the recorded head, and changes only its
    file. -/
def Certified (o : Own C) : Prop :=
  ∀ d, o.manifest.head = some d → d.state = .pushed → ∃ c, d.newHead = some c ∧ o.pushed = [c] ∧
    ChangesOnly c d.oldHead o.manifest.headFile

/-- The driver has merged nothing, or the recorded pull request at the recorded head. -/
def MergedOnce (o : Own C) (r : Remote C) : Prop :=
  o.merged = [] ∨ ∃ n h b pr, o.merged = [(n, h)] ∧ o.manifest.base = some b ∧ b.pr = some n ∧
    b.head = some h ∧ r.prs n = some pr ∧ pr.state = .merged

/-- The invariant of a run. -/
structure Inv (w : World C) : Prop where
  clean : Clean w
  pushed : PushedOnce w.own w.remote
  certified : Certified w.own
  merged : MergedOnce w.own w.remote

/-! ### Keeping the invariant -/

/-- What the driver has pushed stays on the branch while the branch only moves forward. -/
theorem PushedOnce.move {o : Own C} {r r' : Remote C} (h : PushedOnce o r)
    (hahead : ∀ c d, o.manifest.head = some d → d.state = .prepared → Ahead c r → Ahead c r') :
    PushedOnce o r' := by
  rcases h with hnone | ⟨c, d, hc, hd, hparent, hchanges, hbefore⟩
  · exact .inl hnone
  · exact .inr ⟨c, d, hc, hd, hparent, hchanges,
      fun hstate => hahead c d hd hstate (hbefore hstate)⟩

omit [History C] in
/-- What the driver has merged stays merged. -/
theorem MergedOnce.move {o : Own C} {r r' : Remote C} (h : MergedOnce o r)
    (hmerged : ∀ n, IsMerged n r → IsMerged n r') : MergedOnce o r' := by
  rcases h with hnone | ⟨n, h, b, pr, hn, hb, hpr, hhead, hrow, hstate⟩
  · exact .inl hnone
  · obtain ⟨pr', hrow', hstate'⟩ := hmerged n ⟨pr, hrow, hstate⟩
    exact .inr ⟨n, h, b, pr', hn, hb, hpr, hhead, hrow', hstate'⟩

/-- The invariant is kept by the other parties. -/
theorem inv_stable : Stable orderly (Inv (C := C)) := by
  intro w w' hinv hstep
  obtain ⟨⟨hown, hforeign⟩, hclean, hstays⟩ := hstep
  refine ⟨hclean, ?_, ?_, ?_⟩
  · rw [hown]
    refine hinv.pushed.move fun c d hd hprepared hahead => ?_
    obtain ⟨x, hx, -⟩ := id hahead
    exact hahead.foreign hforeign (hstays d hd hprepared (by simp [hx]))
  · rw [hown]
    exact hinv.certified
  · rw [hown]
    exact hinv.merged.move fun n hmerged => hmerged.foreign hforeign

/-- What the driver knows at a point of its run: its own side, something about the repository, and
    the invariant. -/
structure Knows (o : Own C) (F : Remote C → Prop) (w : World C) : Prop where
  own : w.own = o
  remote : F w.remote
  inv : Inv w

/-- What is known of the repository stays true, whatever the others do. -/
def Lasts (o : Own C) (F : Remote C → Prop) : Prop :=
  ∀ r r', F r → Foreign r r' → Stays o r r' → F r'

/-- Nothing at all lasts. -/
theorem lasts_true (o : Own C) : Lasts o fun _ => True := fun _ _ _ _ _ => trivial

/-- The branch stays ahead while the head disturbance is prepared. -/
theorem lasts_ahead {o : Own C} {d : HeadDisturbance C} (hd : o.manifest.head = some d)
    (hprepared : d.state = .prepared) (c : C) : Lasts o (Ahead c) := by
  intro r r' hahead hstep hstays
  obtain ⟨x, hx, -⟩ := id hahead
  exact hahead.foreign hstep (hstays d hd hprepared (by simp [hx]))

/-- What the driver knows is stable under the other users. -/
theorem knows_stable {o : Own C} {F : Remote C → Prop} (hF : Lasts o F) :
    Stable orderly (Knows o F) := by
  intro w w' hw hstep
  have hinv := inv_stable w w' hw.inv hstep
  obtain ⟨⟨hown, hforeign⟩, -, hstays⟩ := hstep
  exact ⟨hown.trans hw.own, hF _ _ hw.remote hforeign (hw.own ▸ hstays), hinv⟩

/-- The clone is no part of the invariant. -/
theorem Knows.setClone {o : Own C} {F : Remote C → Prop} {w : World C} (hw : Knows o F w)
    (k : Clone C) : Knows { o with clone := k } F (w.setClone k) := by
  obtain ⟨rfl, hremote, hinv⟩ := hw
  exact ⟨rfl, hremote, hinv.clean, hinv.pushed, hinv.certified, hinv.merged⟩

/-- A save keeps the invariant if the new manifest fits. -/
theorem Knows.save {o : Own C} {F : Remote C → Prop} {w : World C} (hw : Knows o F w)
    {m : Manifest C} (hclean : Clean (w.save m))
    (hpushed : PushedOnce o w.remote → PushedOnce { o with manifest := m } w.remote)
    (hcertified : Certified o → Certified { o with manifest := m })
    (hmerged : MergedOnce o w.remote → MergedOnce { o with manifest := m } w.remote) :
    Knows { o with manifest := m } F (w.save m) := by
  obtain ⟨rfl, hremote, hinv⟩ := hw
  exact ⟨rfl, hremote, hclean, hpushed hinv.pushed, hcertified hinv.certified,
    hmerged hinv.merged⟩

/-! ### Refusals -/

/-- The driver changes nothing any more. -/
def Idle (w w' : World C) : Prop := w' = w

/-- If the implementation branch has moved, and not by the driver, the look at it ends in a
    refusal. -/
def HeadRefusal {A : Type} (p : Script C A) (w : World C) : Prop :=
  ∀ next d x, p = .call (.fetch .implementation) next → w.own.manifest.head = some d →
    w.remote.heads .implementation = some x → x ≠ d.oldHead → x ∉ w.own.pushed →
    ∀ r w', (Effect.fetch .implementation).exec w r w' → Refuses sandbox Idle (next r) w'

/-- If it has moved since that look, git refuses the push. -/
def PushRefusal {A : Type} (p : Script C A) (w : World C) : Prop :=
  ∀ next d x, p = .call (.push .implementation) next → w.own.manifest.head = some d →
    w.remote.heads .implementation = some x → x ≠ d.oldHead → x ≠ w.own.clone.head →
    ∀ r w', ¬ (Effect.push .implementation).exec w r w'

/-- If the base branch is not at the head that is recorded, the look at it ends in a refusal. -/
def BaseRefusal {A : Type} (p : Script C A) (w : World C) : Prop :=
  ∀ next x, p = .call (.lsRemote .base) next → w.remote.heads .base = some x →
    (∀ b, w.own.manifest.base = some b → b.head ≠ some x) →
    ∀ r w', (Effect.lsRemote .base).exec w r w' → Refuses sandbox Idle (next r) w'

/-- If it has come to another head since that look, git refuses the push. -/
def BasePushRefusal {A : Type} (p : Script C A) (w : World C) : Prop :=
  ∀ next x, p = .call (.push .base) next → w.remote.heads .base = some x →
    (∀ b, w.own.manifest.base = some b → b.head ≠ some x) →
    ∀ r w', ¬ (Effect.push .base).exec w r w'

/-- Where the driver is about to push the base branch, it is at no commit in the history of the
    recorded `main`: from there git would take the push. -/
def BaseClear {A : Type} (p : Script C A) (w : World C) : Prop :=
  ∀ next b x, p = .call (.push .base) next → w.own.manifest.base = some b →
    w.remote.heads .base = some x → ¬ Ancestor x b.oldMain

/-- The invariant, and the refusals at the point the program is at. -/
structure Sound {A : Type} (p : Script C A) (w : World C) : Prop where
  inv : Inv w
  head : HeadRefusal p w
  push : PushRefusal p w
  base : BaseRefusal p w
  basePush : BaseClear p w → BasePushRefusal p w

/-- The four commands that look at or move a branch of the driver. -/
def Watched (e : Effect C) : Prop :=
  e = .fetch .implementation ∨ e = .push .implementation ∨ e = .lsRemote .base ∨ e = .push .base

section Rules

variable {A B : Type} {o : Own C} {F : Remote C → Prop} {w : World C}

/-- A step outside the four watched commands is sound. -/
theorem sound_call {e : Effect C} {next : e.Response → Script C A} (he : ¬ Watched e)
    (hinv : Inv w) : Sound (.call e next) w := by
  refine ⟨hinv, ?_, ?_, ?_, ?_⟩
  · intro _ _ _ hp
    cases hp
    exact absurd (.inl rfl) he
  · intro _ _ _ hp
    cases hp
    exact absurd (.inr (.inl rfl)) he
  · intro _ _ hp
    cases hp
    exact absurd (.inr (.inr (.inl rfl))) he
  · intro _ _ _ hp
    cases hp
    exact absurd (.inr (.inr (.inr rfl))) he

/-- Being done is sound. -/
theorem sound_done {a : A} (hinv : Inv w) : Sound (.done a) w :=
  ⟨hinv, fun _ _ _ hp => (by cases hp), fun _ _ _ hp => (by cases hp),
    fun _ _ hp => (by cases hp), fun _ _ _ hp => (by cases hp)⟩

/-- Giving up is sound. -/
theorem sound_raise {message : String} (hinv : Inv w) : Sound (.raise message : Script C A) w :=
  ⟨hinv, fun _ _ _ hp => (by cases hp), fun _ _ _ hp => (by cases hp),
    fun _ _ hp => (by cases hp), fun _ _ _ hp => (by cases hp)⟩

/-- A command outside the four. -/
theorem always_call {e : Effect C} {next : e.Response → Script C A} (hF : Lasts o F)
    (hw : Knows o F w) (he : ¬ Watched e)
    (hnext : ∀ w₁ r w₂, Knows o F w₁ → e.exec w₁ r w₂ → Clean w₂ →
      Always orderly Sound (next r) w₂) : Always orderly Sound (.call e next) w :=
  Always.call (knows_stable hF) hw (fun _ hw₁ => sound_call he hw₁.inv)
    fun w₁ r w₂ hw₁ hexec => hnext w₁ r w₂ hw₁ hexec.1 hexec.2

/-- A command that only reads. -/
theorem always_read {e : Effect C} {next : e.Response → Script C A} (hF : Lasts o F)
    (hw : Knows o F w) (he : ¬ Watched e) (hread : ∀ w₁ r w₂, e.exec w₁ r w₂ → w₂ = w₁)
    (hnext : ∀ w₁ r, Knows o F w₁ → e.exec w₁ r w₁ → Always orderly Sound (next r) w₁) :
    Always orderly Sound (.call e next) w := by
  refine always_call hF hw he fun w₁ r w₂ hw₁ hexec _ => ?_
  obtain rfl := hread w₁ r w₂ hexec
  exact hnext w₂ r hw₁ hexec

/-- A command that changes the clone as `g` does. -/
theorem always_clone {e : Effect C} {next : e.Response → Script C A} (hF : Lasts o F)
    (hw : Knows o F w) (he : ¬ Watched e) (g : Clone C → Clone C)
    (hexec : ∀ w₁ r w₂, e.exec w₁ r w₂ → w₂ = w₁.setClone (g w₁.own.clone))
    (hnext : ∀ r w₂, Knows { o with clone := g o.clone } F w₂ →
      Always orderly Sound (next r) w₂) :
    Always orderly Sound (.call e next) w := by
  refine always_call hF hw he fun w₁ r w₂ hw₁ h _ => ?_
  obtain rfl := hexec w₁ r w₂ h
  rw [hw₁.own]
  exact hnext r _ (hw₁.setClone _)

/-- Being done is good. -/
theorem always_done {a : A} (hF : Lasts o F) (hw : Knows o F w) :
    Always orderly Sound (.done a : Script C A) w :=
  Always.done (knows_stable hF) hw fun _ hw₁ => sound_done hw₁.inv

/-- Giving up is good. -/
theorem always_raise {message : String} (hF : Lasts o F) (hw : Knows o F w) :
    Always orderly Sound (raise message : Script C A) w :=
  Always.raise (knows_stable hF) hw fun _ hw₁ => sound_raise hw₁.inv

/-- A check is good when what follows is, once it has passed. -/
theorem always_raiseIf {p : Prop} [Decidable p] {message : String} {f : Unit → Script C A}
    (hF : Lasts o F) (hw : Knows o F w) (hnext : ¬ p → Always orderly Sound (f ()) w) :
    Always orderly Sound (raiseIf p message >>= f) w := by
  by_cases hp : p
  · rw [raiseIf, if_pos hp]
    exact always_raise hF hw
  · rw [raiseIf, if_neg hp]
    exact hnext hp

/-- Asking for the checks is good when what follows is, whatever they say. -/
theorem always_isGreen {head : C} {f : Bool → Script C A} (hF : Lasts o F) (hw : Knows o F w)
    (hnext : ∀ green w₁, Knows o F w₁ → Always orderly Sound (f green) w₁) :
    Always orderly Sound (isGreen head >>= f) w :=
  always_read hF hw (by simp [Watched]) (fun _ _ _ h => h) fun w₁ _ hw₁ _ => hnext _ w₁ hw₁

end Rules

end AgentHub.Driver
