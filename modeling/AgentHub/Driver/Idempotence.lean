import AgentHub.Driver.Merging

namespace AgentHub.Driver

open Effects Git History

/-!
# The driver is idempotent

`driver_once` as a whole, and all runs of it.

* `always_driverOnce` — the invariant wherever the driver is, from any state that has it;
* `Fresh`, `Orderly`, `Runs` — runs from a prepared sandbox, and the condition on their steps;
* `Idempotent` — what the run guarantees at a moment;
* `driver_idempotent` — it does at every moment of every orderly run.
-/

variable {C : Type} [History C] {A : Type} {o : Own C} {w : World C}

/-! ### The beginning of a pass -/

/-- The work pull request is looked up. -/
theorem always_discoverWorkPr {snapshot : List (TaskRow C)}
    {f : Option (ℕ × PullRequest C) → Script C A} (hw : Knows o Anything w)
    (hnext : ∀ r w', Knows o Anything w' → Always orderly Sound (f r) w') :
    Always orderly Sound (discoverWorkPr snapshot >>= f) w := by
  simp only [discoverWorkPr]
  split
  · simp only [Program.bind_assoc]
    refine always_read (lasts_true o) hw (by simp [Watched]) (fun _ _ _ h => h.2)
      fun w₁ view hw₁ _ => ?_
    refine always_raiseIf (lasts_true o) hw₁ fun _ => ?_
    exact hnext _ w₁ hw₁
  · exact always_raise (lasts_true o) hw
  · exact hnext none w hw

/-- A pass goes on only with nothing written or staged. -/
theorem always_checkClone {f : Unit → Script C A} (hw : Knows o Anything w)
    (hnext : ∀ w', Knows o Anything w' → o.clone.worktree = [] → o.clone.index = [] →
      Always orderly Sound (f ()) w') :
    Always orderly Sound (checkClone >>= f) w := by
  simp only [checkClone, Program.bind_assoc]
  refine always_read (lasts_true o) hw (by simp [Watched]) (fun _ _ _ h => h)
    fun w₁ origin hw₁ _ => ?_
  refine always_raiseIf (lasts_true o) hw₁ fun _ => ?_
  refine always_read (lasts_true o) hw₁ (by simp [Watched]) (fun _ _ _ h => h.2)
    fun w₂ dirty hw₂ hstatus => ?_
  refine always_raiseIf (lasts_true o) hw₂ fun hclean => ?_
  have hempty := hstatus.1
  rw [hw₂.own] at hempty
  rw [hempty, Bool.not_eq_true, Bool.not_eq_false', Bool.and_eq_true, List.isEmpty_iff,
    List.isEmpty_iff] at hclean
  exact hnext w₂ hw₂ hclean.1 hclean.2

variable [DecidableEq C]

/-- The head disturbance is there, prepared if the work has been approved. -/
theorem always_prepareHead {snapshot : List (TaskRow C)} {pr : PullRequest C}
    {f : Option (Manifest C × HeadDisturbance C) → Script C A} (hw : Knows o Anything w)
    (hnone : ∀ w', Knows o Anything w' → Always orderly Sound (f none) w')
    (hsome : ∀ o' w' d, Knows o' Anything w' → o'.clone = o.clone → o'.manifest.head = some d →
      Always orderly Sound (f (some (o'.manifest, d))) w') :
    Always orderly Sound (prepareHead o.manifest snapshot pr >>= f) w := by
  cases hd : o.manifest.head with
  | some d =>
    simp only [prepareHead, hd]
    exact hsome o w d hw rfl hd
  | none =>
    simp only [prepareHead, hd]
    split
    · next approved _ happroved =>
      simp only [Program.bind_assoc]
      refine always_isGreen (lasts_true o) hw fun green w₁ hw₁ => ?_
      cases green with
      | false => exact hnone w₁ hw₁
      | true =>
        simp only [Bool.not_true, Bool.false_eq_true, if_false, Program.bind_assoc]
        refine always_call (lasts_true o) hw₁ (by simp [Watched])
          fun w₂ _ w₃ hw₂ hsave hclean => ?_
        obtain rfl := hsave
        refine (hsome _ _ _ (hw₂.save hclean ?_ ?_ id) rfl rfl :)
        · rintro (hnothing | ⟨c, d, -, hd', -⟩)
          · exact .inl hnothing
          · cases hd.symm.trans hd'
        · rintro - d hd' hpushed
          obtain rfl := Option.some.inj hd'
          cases hpushed
    · exact hnone w hw

/-- **One pass.** From a state with the invariant, it holds wherever the driver is. -/
theorem always_driverOnce {directory : String} (hw : Inv w) :
    Always orderly Sound (driverOnce directory) w := by
  have hknown : Knows w.own Anything w := ⟨rfl, trivial, hw⟩
  simp only [driverOnce, loadManifest, Program.bind_assoc]
  refine always_read (lasts_true _) hknown (by simp [Watched]) (fun _ _ _ h => h.2)
    fun w₁ m hw₁ hload => ?_
  obtain rfl : m = w.own.manifest := hload.1.trans (congrArg Own.manifest hw₁.own)
  refine always_raiseIf (lasts_true _) hw₁ fun _ => ?_
  refine always_raiseIf (lasts_true _) hw₁ fun _ => ?_
  refine always_read (lasts_true _) hw₁ (by simp [Watched]) (fun _ _ _ h => h)
    fun w₂ snapshot hw₂ _ => ?_
  refine always_discoverWorkPr hw₂ fun work w₃ hw₃ => ?_
  cases work with
  | none => exact always_done (lasts_true _) hw₃
  | some work =>
    obtain ⟨n, pr⟩ := work
    refine always_call (lasts_true _) hw₃ (by simp [Watched]) fun w₄ _ w₅ hw₄ hsave hclean => ?_
    obtain rfl := hsave
    have hsaved := hw₄.save hclean id id id
    refine always_raiseIf (lasts_true _) hsaved fun _ => ?_
    refine always_checkClone hsaved fun w₆ hw₆ hworktree hindex => ?_
    show Always orderly Sound (prepareHead (Own.manifest { w.own with
      manifest := { w.own.manifest with workPr := some n } }) snapshot pr >>= _) w₆
    refine always_prepareHead hw₆ (fun w₇ hw₇ => always_done (lasts_true _) hw₇)
      fun o₇ w₇ d hw₇ hclone hd => ?_
    have hdone (r : Bool) (o' : Own C) (w' : World C) (hw' : Knows o' Anything w') :
        Always orderly Sound (.done r : Script C Bool) w' := always_done (lasts_true o') hw'
    by_cases hpushed : d.state = .pushed
    · simp only [ne_eq, not_true_eq_false, if_false, hpushed]
      rw [← Program.bind_done (moveBase o₇.manifest snapshot d)]
      exact always_moveBase hw₇ ⟨d, hd, hpushed⟩ hdone
    · simp only [ne_eq, hpushed, not_false_eq_true, if_true]
      have hprepared : d.state = .prepared := by
        cases hstate : d.state with
        | prepared => rfl
        | pushed => exact absurd hstate hpushed
      exact always_moveHead hw₇ hd hprepared (by rw [hclone]; exact hworktree)
        (by rw [hclone]; exact hindex) (hdone false)

/-! ### Runs -/

/-- The process of the driver and the sandbox. -/
abbrev State (C : Type) := System (Effect C) Effect.Response Bool (World C)

/-- Nothing has been disturbed yet. -/
structure Fresh (w : World C) : Prop where
  head : w.own.manifest.head = none
  base : w.own.manifest.base = none
  pushed : w.own.pushed = []
  merged : w.own.merged = []

/-- While the head disturbance is prepared, the step brings the implementation branch to no commit
    that passes for the driver's, and does not delete it; and it leaves no base branch in the
    history of the recorded `main` where the driver is about to push that. -/
def Orderly (s s' : State C) : Prop :=
  Clean s'.world ∧ Stays s.world.own s.world.remote s'.world.remote ∧
    ∀ p, s'.running = some p → BaseClear p s'.world

/-- A step of the driver that runs `driver_once`, of a crash, or of another party. -/
def Moves (directory : String) : State C → State C → Prop := Step sandbox (driverOnce directory)

/-- A step of which the same can be said. -/
def OrderlyMoves (directory : String) (s s' : State C) : Prop :=
  Moves directory s s' ∧ Orderly s s'

/-- What the driver promises at a moment. -/
structure Idempotent (s : State C) : Prop where
  /-- At most one commit of the driver has been accepted on the implementation branch. -/
  once : s.world.own.pushed.length ≤ 1
  /-- A head recorded as pushed is on the recorded approved head and changes only its file. -/
  certified : ∀ d, s.world.own.manifest.head = some d → d.state = .pushed → ∃ c,
    d.newHead = some c ∧ ChangesOnly c d.oldHead s.world.own.manifest.headFile
  /-- Any other movement of the branch leads to a refusal and no push. -/
  refused : ∀ p, s.running = some p → HeadRefusal p s.world ∧ PushRefusal p s.world
  /-- At most one pull request has been merged by the driver, at the recorded head. -/
  merged : s.world.own.merged.length ≤ 1 ∧ ∀ n h, (n, h) ∈ s.world.own.merged →
    ∃ b, s.world.own.manifest.base = some b ∧ b.pr = some n ∧ b.head = some h
  /-- A remote base branch at another head than the recorded one leads to a refusal, by the driver
      that sees it or by git when it has come there since. -/
  baseRefused : ∀ p, s.running = some p → BaseRefusal p s.world ∧ BasePushRefusal p s.world

omit [DecidableEq C] in
/-- A fresh clone is clean. -/
theorem Fresh.inv {w : World C} (h : Fresh w) : Inv w where
  clean d x hd := by rw [h.head] at hd; cases hd
  pushed := .inl h.pushed
  certified d hd := by rw [h.head] at hd; cases hd
  merged := .inl h.merged

/-- An orderly run is a run in which every step keeps the run clean. -/
theorem reachable_of_orderly {directory : String} {w : World C} {s : State C}
    (h : Relation.ReflTransGen (OrderlyMoves directory) ⟨w, none⟩ s) :
    Reachable orderly (driverOnce directory) w s := by
  refine Relation.ReflTransGen.mono (fun a b hstep => ?_) _ _ h
  obtain ⟨hmove, hclean, hstays, -⟩ := hstep
  cases hmove with
  | invoke => exact .invoke
  | act hexec => exact .act ⟨hexec, hclean⟩
  | stop => exact .stop
  | interfere hrely => exact .interfere ⟨hrely, hclean, hstays⟩

/-- At every moment of an orderly run. -/
theorem baseClear_of_orderly {directory : String} {w : World C} {s : State C}
    (h : Relation.ReflTransGen (OrderlyMoves directory) ⟨w, none⟩ s) :
    ∀ p, s.running = some p → BaseClear p s.world := by
  rcases Relation.ReflTransGen.cases_tail h with rfl | ⟨s', -, hstep⟩
  · intro p hp
    cases hp
  · exact hstep.2.2.2

/-- **The driver is idempotent.** At every moment of every run of passes, crashes and steps of the
    others, as long as no commit of another party passes for the driver's and the implementation
    branch is not deleted while the head disturbance is prepared, and nobody creates the base branch
    in the history of `main` between the driver's look and its push. -/
theorem driver_idempotent (directory : String) (w : World C) (hw : Fresh w) (s : State C)
    (hs : Relation.ReflTransGen (OrderlyMoves directory) ⟨w, none⟩ s) : Idempotent s := by
  obtain ⟨hinv, hsound⟩ := reachable_always inv_stable (fun _ _ h => Sound.inv h)
    (fun _ => always_driverOnce) hw.inv (reachable_of_orderly hs)
  refine ⟨?_, ?_, fun p hp => ⟨(hsound p hp).head, (hsound p hp).push⟩, ⟨?_, ?_⟩,
    fun p hp => ⟨(hsound p hp).base, (hsound p hp).basePush (baseClear_of_orderly hs p hp)⟩⟩
  · rcases hinv.pushed with hnone | ⟨c, -, hc, -⟩
    · simp [hnone]
    · simp [hc]
  · intro d hd hstate
    obtain ⟨c, hc, -, hchanges⟩ := hinv.certified d hd hstate
    exact ⟨c, hc, hchanges⟩
  · rcases hinv.merged with hnone | ⟨n, h, -, -, hone, -⟩
    · simp [hnone]
    · simp [hone]
  · intro n h hmem
    rcases hinv.merged with hnone | ⟨n', h', b, -, hone, hb, hpr, hhead, -⟩
    · rw [hnone] at hmem
      cases hmem
    · rw [hone, List.mem_singleton] at hmem
      obtain ⟨rfl, rfl⟩ := Prod.mk.inj hmem
      exact ⟨b, hb, hpr, hhead⟩

/-! ### A commit that passes for the driver's -/

omit [DecidableEq C] in
/-- A call by which a program does not refuse. -/
theorem not_refuses_call {e : Effect C} {next : e.Response → Script C A} {r : e.Response}
    {w' : World C} (hexec : e.exec w r w') (h : ¬ Refuses sandbox Idle (next r) w') :
    ¬ Refuses sandbox Idle (.call e next) w :=
  fun hrefuses => h (hrefuses w .refl r w' hexec).2

omit [DecidableEq C] in
/-- A check that passes refuses nothing itself. -/
theorem not_refuses_raiseIf {p : Prop} [Decidable p] {message : String} {f : Unit → Script C A}
    (hp : ¬ p) (h : ¬ Refuses sandbox Idle (f ()) w) :
    ¬ Refuses sandbox Idle (raiseIf p message >>= f) w := by
  rw [raiseIf, if_neg hp]
  exact h

/-- Any commit with the right parent, file and content is taken for the driver's and recorded. -/
theorem recoverHead_forged {d : HeadDisturbance C} {x : C} {f : Unit → Script C A}
    (hd : w.own.manifest.head = some d) (hprepared : d.state = .prepared)
    (hforged : Forged w.own d x) :
    ¬ Refuses sandbox Idle (recoverHead w.own.manifest d x >>= f) w := by
  obtain ⟨-, hparent, hdiff, text, htext, hcontent⟩ := hforged
  simp only [recoverHead, Program.bind_assoc]
  refine not_refuses_call (r := text) ⟨htext, rfl⟩ ?_
  refine not_refuses_call (r := d.oldHead) ⟨hparent, rfl⟩ ?_
  refine not_refuses_raiseIf (by simp [hcontent]) ?_
  refine not_refuses_call (r := diff d.oldHead x) ⟨rfl, rfl⟩ ?_
  refine not_refuses_raiseIf (by simp [hdiff]) ?_
  refine not_refuses_call (e := .now) (r := "") rfl ?_
  -- the save changes the manifest
  intro hrefuses
  have hsame := (hrefuses w .refl () _ rfl).1
  have hhead := congrArg (fun v : World C => v.own.manifest.head) hsame
  rw [hd] at hhead
  have hstate := congrArg HeadDisturbance.state (Option.some.inj hhead)
  rw [hprepared] at hstate
  cases hstate

/-! ### A repository of two commits -/

/-- The approved head, and the commit of the disturbance on it. -/
inductive Demo where
  | approved
  | disturbed
deriving DecidableEq

namespace Demo

/-- The file of the canary in run r1. -/
def file : String := "step6_head_r1.txt"

instance : History Demo where
  parents
    | approved => []
    | disturbed => [approved]
  tree
    | approved, _ => none
    | disturbed, name => if name = file then some "STEP6-INJECT-r1\n" else none
  diff a b := if a = b then [] else [file]
  depth
    | approved => 0
    | disturbed => 1
  depth_lt c p hp := by
    cases c with
    | approved => cases hp
    | disturbed =>
      rw [List.mem_singleton.mp hp]
      exact Nat.zero_lt_one

/-- The task that opened the pull request. -/
def implemented : TaskRow Demo × TaskResult Demo :=
  (⟨"t1", "IMPLEMENT greeting", "bob", "implementer", "completed", "1", none,
    some ⟨some (.sandbox 7), [], none, none⟩⟩, ⟨some (.sandbox 7), [], none, none⟩)

/-- The task that addressed the review. -/
def addressed : TaskRow Demo × TaskResult Demo :=
  (⟨"t2", "ADDRESS greeting", "bob", "implementer", "completed", "2", none,
    some ⟨none, ["r1-1"], none, none⟩⟩, ⟨none, ["r1-1"], none, none⟩)

/-- The task whose review approved the head. -/
def reviewed : TaskRow Demo × TaskResult Demo :=
  (⟨"t3", "RE-REVIEW greeting", "charlie", "reviewer", "completed", "3", some approved,
    some ⟨none, [], some approved, some "approved"⟩⟩, ⟨none, [], some approved, some "approved"⟩)

/-- Bob has opened pull request 7 and resolved the finding, and Charlie has approved the head. -/
def snapshot : List (TaskRow Demo) := [implemented.1, addressed.1, reviewed.1]

/-- The tasks with results, in order. -/
theorem results_snapshot : results snapshot = [implemented, addressed, reviewed] := by
  have hordered : snapshot.Pairwise fun a b => a.created ≤ b.created := by
    simp only [snapshot, List.pairwise_cons, List.mem_cons, List.not_mem_nil, or_false,
      forall_eq_or_imp, forall_eq, false_imp_iff, implies_true, List.Pairwise.nil, and_true]
    decide
  rw [results, hordered.insertionSort_eq]
  rfl

/-- The approval of the head found in the snapshot. -/
theorem approval_snapshot : approval snapshot approved = some reviewed := by
  rw [approval, results_snapshot]
  rfl

/-- The pull request is looked up on the sandbox. -/
theorem discoverWorkPr_snapshot : discoverWorkPr snapshot =
    perform (.prView 7) >>= fun view =>
      raiseIf (view.headRefName ≠ .implementation ∨ view.baseRefName ≠ .main)
        "unexpected work PR branch/base" >>= fun _ => pure (some (7, view)) := by
  have hurls : ((results snapshot).filterMap fun (task, result) =>
      if task.assignee = "bob" ∧ titled "IMPLEMENT " task.title then result.prUrl else none) =
        [.sandbox 7] := by
    rw [results_snapshot]
    decide +kernel
  rw [discoverWorkPr, hurls]
  rfl

/-- The review's finding is addressed. -/
theorem addressed_snapshot : Driver.addressed "r1-1" snapshot = true := by
  rw [Driver.addressed, results_snapshot]
  decide +kernel

/-- The manifest at the start of the run. -/
def manifest : Manifest Demo where
  repository := sandboxName
  runDir := "run"
  runId := "r1"
  canary := "STEP6-INJECT-r1"
  findingId := "r1-1"
  workPr := none
  head := none
  base := none

/-- The pull request, open. -/
def pullRequest : PullRequest Demo := ⟨.implementation, .main, approved, .opened, none, none⟩

/-- The work pull request is open at the approved head. -/
def world : World Demo where
  own := ⟨manifest, ⟨approved, none, [], []⟩, [], []⟩
  remote := ⟨fun b => if b = .implementation then some approved else none,
    fun n => if n = 7 then some pullRequest else none⟩

/-- The head disturbance, prepared. -/
def disturbance : HeadDisturbance Demo := ⟨approved, "t3", .prepared, none, none⟩

/-- The head disturbance is prepared. -/
def prepared : World Demo :=
  world.save { manifest with workPr := some 7, head := some disturbance }

/-- No commit passes for the driver's at the approved head, or once the driver has pushed its
    own. -/
theorem clean_of {w : World Demo} (h : w.own.manifest.head = none ∨
    w.remote.heads .implementation = some approved ∨ disturbed ∈ w.own.pushed) : Clean w := by
  intro d x hd _ hx hforged
  obtain ⟨hnot, hparent, -⟩ := hforged
  cases x with
  | approved => cases hparent
  | disturbed =>
    rcases h with hnone | hhead | hpushed
    · rw [hnone] at hd
      cases hd
    · cases hhead.symm.trans hx
    · exact hnot hpushed

/-- Without a base disturbance the driver does not push its branch over another. -/
theorem baseClear_of {p : Script Demo Bool} {w : World Demo} (h : w.own.manifest.base = none) :
    BaseClear p w := by
  intro _ b _ _ hb
  rw [h] at hb
  cases hb

/-- A call that leaves the implementation branch there. -/
theorem orderly_call {directory : String} {s : State Demo} {e : Effect Demo}
    {next : e.Response → Script Demo Bool} {r : e.Response} {w w' : World Demo}
    (hexec : e.exec w r w') (hclean : Clean w') (hstays : w'.remote.heads .implementation ≠ none)
    (hbase : w'.own.manifest.base = none)
    (hrest : Relation.ReflTransGen (OrderlyMoves directory) ⟨w', some (next r)⟩ s) :
    Relation.ReflTransGen (OrderlyMoves directory) ⟨w, some (.call e next)⟩ s :=
  .head ⟨.act hexec, hclean, fun _ _ _ _ => hstays, fun _ _ => baseClear_of hbase⟩ hrest

/-- A run through a check that passes. -/
theorem orderly_raiseIf {directory : String} {s : State Demo} {p : Prop} [Decidable p]
    {message : String} {f : Unit → Script Demo Bool} {w : World Demo} (hp : ¬ p)
    (hrest : Relation.ReflTransGen (OrderlyMoves directory) ⟨w, some (f ())⟩ s) :
    Relation.ReflTransGen (OrderlyMoves directory) ⟨w, some (raiseIf p message >>= f)⟩ s := by
  rw [raiseIf, if_neg hp]
  exact hrest

/-- The pass that prepares the head disturbance. -/
theorem prepares : Relation.ReflTransGen (OrderlyMoves "run") ⟨world, none⟩
    ⟨prepared, some (moveHead prepared.own.manifest snapshot disturbance >>= fun _ =>
      pure false)⟩ := by
  have hclean : Clean world := clean_of (.inl rfl)
  have hworld : world.remote.heads .implementation ≠ none := by simp [world]
  refine .head ⟨.invoke, hclean, fun _ _ _ h => h, fun _ _ => baseClear_of rfl⟩ ?_
  simp only [driverOnce, loadManifest, Program.bind_assoc]
  refine orderly_call (r := manifest) ⟨rfl, rfl⟩ hclean hworld rfl ?_
  refine orderly_raiseIf (by decide) ?_
  refine orderly_raiseIf (by decide) ?_
  refine orderly_call (e := .audit) (r := snapshot) rfl hclean hworld rfl ?_
  rw [Program.bind, discoverWorkPr_snapshot]
  simp only [Program.bind_assoc]
  refine orderly_call (r := pullRequest) ⟨rfl, rfl⟩ hclean hworld rfl ?_
  refine orderly_raiseIf (by decide) ?_
  refine orderly_call (r := ()) rfl (clean_of (.inl rfl)) hworld rfl ?_
  refine orderly_raiseIf (by decide) ?_
  simp only [checkClone, Program.bind_assoc]
  refine orderly_call (e := .remoteGetUrl) (r := s!"git@github.com:{sandboxName}.git") rfl
    (clean_of (.inl rfl)) hworld rfl ?_
  refine orderly_raiseIf (by simp) ?_
  refine orderly_call (e := .status) (r := false) ⟨rfl, rfl⟩ (clean_of (.inl rfl)) hworld rfl ?_
  refine orderly_raiseIf (by simp) ?_
  simp only [prepareHead, pullRequest, show manifest.head = none from rfl,
    show manifest.findingId = "r1-1" from rfl, addressed_snapshot, approval_snapshot,
    Program.bind_assoc]
  refine orderly_call (e := .checkRuns approved) (r := [⟨"test", "completed", some "success"⟩]) rfl
    (clean_of (.inl rfl)) hworld rfl ?_
  refine orderly_call (r := ()) rfl (clean_of (.inr (.inl rfl))) hworld rfl ?_
  exact .refl

/-- The commit goes onto the head it was made from. -/
theorem canPush_disturbed (r : Remote Demo) (h : r.heads .implementation = some approved) :
    r.CanPush .implementation disturbed := by
  intro a ha
  obtain rfl : approved = a := Option.some.inj (h.symm.trans ha)
  exact Ancestor.parent List.mem_cons_self

/-- Another party has pushed the commit, and the driver has fetched it. -/
def fetched : World Demo where
  own := { prepared.own with clone := { prepared.own.clone with fetchHead := some disturbed } }
  remote := prepared.remote.advance .implementation disturbed

/-- The disturbance commit passes the driver's recovery check. -/
theorem forged_disturbed : Forged fetched.own disturbance disturbed := by
  refine ⟨by simp [fetched, prepared, world, World.save], rfl, rfl, "STEP6-INJECT-r1\n", ?_, ?_⟩
  · decide +kernel
  · decide +kernel

/-- Another party pushes a commit with the file and the content of the driver's before the driver
    does: it is taken for the driver's. -/
theorem driver_not_idempotent :
    ¬ ∀ (directory : String) (w : World Demo) (s : State Demo), Fresh w →
      Relation.ReflTransGen (Moves directory) ⟨w, none⟩ s → Idempotent s := by
  intro h
  have hpush : Foreign prepared.remote (prepared.remote.advance .implementation disturbed) :=
    .push (canPush_disturbed prepared.remote rfl)
  have hrun : Relation.ReflTransGen (Moves "run") ⟨world, none⟩
      ⟨⟨prepared.own, fetched.remote⟩, some (moveHead prepared.own.manifest snapshot disturbance
        >>= fun _ => pure false)⟩ :=
    (Relation.ReflTransGen.mono (fun _ _ hstep => hstep.1) _ _ prepares).tail
      (.interfere ⟨rfl, hpush⟩)
  have hidempotent := h "run" world _ ⟨rfl, rfl, rfl, rfl⟩ hrun
  have hrefuses : Refuses sandbox Idle
      (perform .revParseFetchHead >>= fun remote =>
        (if remote ≠ disturbance.oldHead then recoverHead fetched.own.manifest disturbance remote
        else pushHead fetched.own.manifest snapshot disturbance remote) >>= fun _ =>
          (pure false : Script Demo Bool)) fetched :=
    (hidempotent.refused _ rfl).1 _ disturbance disturbed rfl rfl rfl (by decide)
      (by simp [prepared, world, World.save]) () fetched ⟨disturbed, rfl, rfl⟩
  have hafter : Refuses sandbox Idle
      ((if disturbed ≠ disturbance.oldHead then
          recoverHead fetched.own.manifest disturbance disturbed
        else pushHead fetched.own.manifest snapshot disturbance disturbed) >>= fun _ =>
          (pure false : Script Demo Bool)) fetched :=
    (hrefuses fetched .refl disturbed fetched ⟨rfl, rfl⟩).2
  rw [if_pos (by decide)] at hafter
  exact recoverHead_forged rfl rfl forged_disturbed hafter

/-- The driver has pushed its commit and recorded it. -/
def recorded : World Demo where
  own :=
    { manifest := { prepared.own.manifest with
        head := some ⟨approved, "t3", .pushed, some disturbed, some "noon"⟩ }
      clone := ⟨disturbed, some approved, [], []⟩
      pushed := [disturbed]
      merged := [] }
  remote := prepared.remote.advance .implementation disturbed

/-- The run that records the commit as pushed. -/
theorem records : Relation.ReflTransGen (OrderlyMoves "run")
    ⟨prepared, some (moveHead prepared.own.manifest snapshot disturbance >>= fun _ =>
      pure false)⟩ ⟨recorded, some (.done false)⟩ := by
  have hthere : prepared.remote.heads .implementation ≠ none := by
    simp [prepared, world, World.save]
  simp only [moveHead, Program.bind_assoc]
  refine orderly_call (r := ()) ⟨approved, rfl, rfl⟩ (clean_of (.inr (.inl rfl))) hthere rfl ?_
  refine orderly_call (r := approved) ⟨rfl, rfl⟩ (clean_of (.inr (.inl rfl))) hthere rfl ?_
  have hsame : ¬ approved ≠ disturbance.oldHead := not_not.mpr rfl
  rw [Program.bind, if_neg hsame]
  simp only [pushHead, Program.bind_assoc]
  refine orderly_raiseIf (by simp [disturbance, approval_snapshot]) ?_
  refine orderly_call (r := ()) rfl (clean_of (.inr (.inl rfl))) hthere rfl ?_
  refine orderly_call (r := ()) rfl (clean_of (.inr (.inl rfl))) hthere rfl ?_
  refine orderly_call (r := ()) rfl (clean_of (.inr (.inl rfl))) hthere rfl ?_
  have hnew : tree disturbed file ≠ tree approved file := by simp [tree]
  refine orderly_call (r := ()) ⟨disturbed, rfl, ?_, ⟨file, hnew⟩, rfl⟩
    (clean_of (.inr (.inl rfl))) hthere rfl ?_
  · have hfile : prepared.own.manifest.headFile = file := by decide +kernel
    have htext : prepared.own.manifest.canary ++ "\n" = "STEP6-INJECT-r1\n" := by decide +kernel
    intro name
    rw [hfile, htext]
    by_cases hname : name = file
    · simp [tree, overlay, World.setClone, Clone.stage, Clone.write, hname]
    · simp [tree, overlay, World.setClone, Clone.stage, Clone.write, hname, prepared, world,
        World.save]
  refine orderly_call (r := disturbed) ⟨rfl, rfl⟩ (clean_of (.inr (.inl rfl))) hthere rfl ?_
  refine orderly_call (r := ()) rfl (clean_of (.inr (.inl rfl))) hthere rfl ?_
  have hpushed : recorded.remote.heads .implementation ≠ none := by
    simp [recorded, Remote.advance]
  refine orderly_call (r := ()) ⟨canPush_disturbed _ rfl, rfl⟩
    (clean_of (.inr (.inr List.mem_cons_self))) hpushed rfl ?_
  refine orderly_call (e := .now) (r := "noon") rfl (clean_of (.inr (.inr List.mem_cons_self)))
    hpushed rfl ?_
  refine orderly_call (r := ()) rfl (clean_of (.inr (.inr List.mem_cons_self))) hpushed rfl ?_
  exact .refl

/-- A whole pass: the driver pushes its commit and records it. -/
theorem driver_pushes : ∃ s : State Demo, Idempotent s ∧ s.world.own.pushed = [disturbed] :=
  ⟨⟨recorded, some (.done false)⟩, driver_idempotent "run" world ⟨rfl, rfl, rfl, rfl⟩ _
    (prepares.trans records), rfl⟩

end Demo

end AgentHub.Driver
