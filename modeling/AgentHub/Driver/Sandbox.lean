import AgentHub.Effects.Program
import AgentHub.Git.History
import Mathlib.Logic.Function.Basic

namespace AgentHub.Driver

open Effects Git

/-!
# The sandbox of a scenario run

The repository the disturbance driver works on, its clone and its manifest, and what its `git` and
`gh` commands do to them.

* `Remote` — the branches and pull requests; `Foreign` — what other parties do to them: pushes,
  which git takes only as fast-forwards, and work on pull requests, merges with or without deletion
  of the branch among it;
* `Manifest` — `run.json`; `Clone` — the driver's clone;
* `Own` — what only the driver changes, with what it has pushed and merged so far;
* `Effect`, `Effect.exec` — the commands, one by one; a command that fails changes nothing.
-/

/-! ### The repository -/

/-- The branches: those the manifest names, and any other. -/
inductive Branch where
  | main
  | implementation
  | base
  | other (name : String)
deriving DecidableEq

/-- The states of a pull request. -/
inductive PrState where
  | opened
  | closed
  | merged
deriving DecidableEq

/-- What `gh pr view` prints of a pull request. -/
structure PullRequest (C : Type) where
  headRefName : Branch
  baseRefName : Branch
  headRefOid : C
  state : PrState
  mergeCommit : Option C
  mergedAt : Option String

/-- The branches of the repository and its pull requests by their numbers. -/
structure Remote (C : Type) where
  heads : Branch → Option C
  prs : ℕ → Option (PullRequest C)

variable {C : Type}

namespace Remote

/-- An open pull request follows its branch. -/
def retarget (b : Branch) (c : C) (pr : PullRequest C) : PullRequest C :=
  if pr.state = .opened ∧ pr.headRefName = b then { pr with headRefOid := c } else pr

/-- The branch `b` is at `c`. -/
def advance (r : Remote C) (b : Branch) (c : C) : Remote C where
  heads := Function.update r.heads b (some c)
  prs n := (r.prs n).map (retarget b c)

/-- An open pull request is closed with its branch. -/
def orphan (b : Branch) (pr : PullRequest C) : PullRequest C :=
  if pr.state = .opened ∧ pr.headRefName = b then { pr with state := .closed } else pr

/-- The branch `b` is deleted. -/
def delete (r : Remote C) (b : Branch) : Remote C where
  heads := Function.update r.heads b none
  prs n := (r.prs n).map (orphan b)

/-- The remote with one pull request changed. -/
def setPr (r : Remote C) (n : ℕ) (pr : PullRequest C) : Remote C :=
  { r with prs := Function.update r.prs n (some pr) }

/-- Git takes a push that creates a branch or moves it forward. -/
def CanPush [History C] (r : Remote C) (b : Branch) (c : C) : Prop :=
  ∀ a, r.heads b = some a → Ancestor a c

/-- Pull request `n` is merged as `m` on its base branch, and its own branch deleted or kept. -/
def merge (r : Remote C) (n : ℕ) (pr : PullRequest C) (m : C) (moment : String)
    (deletes : Bool) : Remote C :=
  let merged := (r.setPr n { pr with
    state := .merged, mergeCommit := some m, mergedAt := some moment }).advance pr.baseRefName m
  if deletes then merged.delete pr.headRefName else merged

/-- An open pull request can be merged as `m` if `m` is on top of its base branch. -/
def CanMerge [History C] (r : Remote C) (n : ℕ) (pr : PullRequest C) (m : C) : Prop :=
  r.prs n = some pr ∧ pr.state = .opened ∧ pr.headRefName ≠ pr.baseRefName ∧
    ∃ a, r.heads pr.baseRefName = some a ∧ Ancestor a m

end Remote

/-! ### What stays true of it -/

/-- A push moves its branch. -/
theorem heads_advance_self (r : Remote C) (b : Branch) (c : C) :
    (r.advance b c).heads b = some c := by
  simp [Remote.advance]

/-- A push moves no other branch. -/
theorem heads_advance_of_ne (r : Remote C) {b b' : Branch} (h : b' ≠ b) (c : C) :
    (r.advance b c).heads b' = r.heads b' := by
  simp [Remote.advance, h]

/-- Pull request `n` is merged. -/
def IsMerged (n : ℕ) (r : Remote C) : Prop := ∃ pr, r.prs n = some pr ∧ pr.state = .merged

/-- A push leaves a merged pull request merged. -/
theorem IsMerged.advance {n : ℕ} {r : Remote C} (h : IsMerged n r) (b : Branch) (c : C) :
    IsMerged n (r.advance b c) := by
  obtain ⟨pr, hpr, hstate⟩ := h
  exact ⟨pr, by simp [Remote.advance, hpr, Remote.retarget, hstate], hstate⟩

/-- A deleted branch leaves a merged pull request merged. -/
theorem IsMerged.delete {n : ℕ} {r : Remote C} (h : IsMerged n r) (b : Branch) :
    IsMerged n (r.delete b) := by
  obtain ⟨pr, hpr, hstate⟩ := h
  exact ⟨pr, by simp [Remote.delete, hpr, Remote.orphan, hstate], hstate⟩

/-- A merged pull request stays merged unless it is itself changed. -/
theorem IsMerged.setPr {n : ℕ} {r : Remote C} (h : IsMerged n r) {k : ℕ} {pr : PullRequest C}
    (hk : k = n → pr.state = .merged) : IsMerged n (r.setPr k pr) := by
  by_cases hkn : n = k
  · subst hkn
    exact ⟨pr, by simp [Remote.setPr], hk rfl⟩
  · obtain ⟨old, hold, hstate⟩ := h
    exact ⟨old, by simp [Remote.setPr, hkn, hold], hstate⟩

/-- A merge leaves a merged pull request merged. -/
theorem IsMerged.merge {n : ℕ} {r : Remote C} (h : IsMerged n r) (k : ℕ) (pr : PullRequest C)
    (m : C) (moment : String) (deletes : Bool) : IsMerged n (r.merge k pr m moment deletes) := by
  have hset : IsMerged n (r.setPr k { pr with
      state := .merged, mergeCommit := some m, mergedAt := some moment }) := h.setPr fun _ => rfl
  have hadvanced := hset.advance pr.baseRefName m
  rw [Remote.merge]
  split
  · exact hadvanced.delete _
  · exact hadvanced

/-- A merge leaves its pull request merged. -/
theorem isMerged_merge (r : Remote C) (n : ℕ) (pr : PullRequest C) (m : C) (moment : String)
    (deletes : Bool) : IsMerged n (r.merge n pr m moment deletes) := by
  have hset : IsMerged n (r.setPr n { pr with
      state := .merged, mergeCommit := some m, mergedAt := some moment }) :=
    ⟨_, Function.update_self _ _ _, rfl⟩
  rw [Remote.merge]
  split
  · exact (hset.advance _ _).delete _
  · exact hset.advance _ _

variable [History C]

/-- The implementation branch has come to `c` and went on from there. -/
def Ahead (c : C) (r : Remote C) : Prop :=
  ∃ x, r.heads .implementation = some x ∧ Ancestor c x

/-- A branch that moves forward stays ahead. -/
theorem Ahead.advance {c : C} {r : Remote C} (h : Ahead c r) {b : Branch} {x : C}
    (hpush : r.CanPush b x) : Ahead c (r.advance b x) := by
  obtain ⟨y, hy, hcy⟩ := h
  by_cases hb : Branch.implementation = b
  · subst hb
    exact ⟨x, heads_advance_self r _ x, hcy.trans (hpush y hy)⟩
  · exact ⟨y, by rw [heads_advance_of_ne r hb, hy], hcy⟩

/-- One step of another party. -/
inductive Foreign (r : Remote C) : Remote C → Prop
  | push {b : Branch} {c : C} (h : r.CanPush b c) : Foreign r (r.advance b c)
  | openPr {n : ℕ} {pr : PullRequest C} (hnew : r.prs n = none) (hopen : pr.state = .opened)
      (hhead : r.heads pr.headRefName = some pr.headRefOid) : Foreign r (r.setPr n pr)
  | closePr {n : ℕ} {pr : PullRequest C} (hpr : r.prs n = some pr) (hopen : pr.state = .opened) :
      Foreign r (r.setPr n { pr with state := .closed })
  | reopenPr {n : ℕ} {pr : PullRequest C} (hpr : r.prs n = some pr) (hclosed : pr.state = .closed)
      (hhead : r.heads pr.headRefName = some pr.headRefOid) :
      Foreign r (r.setPr n { pr with state := .opened })
  | mergePr {n : ℕ} {pr : PullRequest C} {m : C} {moment : String} {deletes : Bool}
      (h : r.CanMerge n pr m) : Foreign r (r.merge n pr m moment deletes)

/-- No step of another party undoes a merge. -/
theorem IsMerged.foreign {n : ℕ} {r r' : Remote C} (h : IsMerged n r) (hstep : Foreign r r') :
    IsMerged n r' := by
  cases hstep with
  | push hpush => exact h.advance _ _
  | @openPr k pr hnew hopen hhead =>
    refine h.setPr fun hk => ?_
    obtain ⟨old, hold, -⟩ := h
    rw [hk, hold] at hnew
    cases hnew
  | @closePr k pr hpr hopen =>
    refine h.setPr fun hk => ?_
    obtain ⟨old, hold, hstate⟩ := h
    rw [hk, hold] at hpr
    rw [← Option.some.inj hpr, hstate] at hopen
    cases hopen
  | @reopenPr k pr hpr hclosed hhead =>
    refine h.setPr fun hk => ?_
    obtain ⟨old, hold, hstate⟩ := h
    rw [hk, hold] at hpr
    rw [← Option.some.inj hpr, hstate] at hclosed
    cases hclosed
  | mergePr hmerge => exact h.merge _ _ _ _ _

/-- A step of another party that does not delete the branch leaves it ahead. -/
theorem Ahead.foreign {c : C} {r r' : Remote C} (h : Ahead c r) (hstep : Foreign r r')
    (hstays : r'.heads .implementation ≠ none) : Ahead c r' := by
  cases hstep with
  | push hpush => exact h.advance hpush
  | openPr | closePr | reopenPr => exact h
  | @mergePr n pr m moment deletes hmerge =>
    obtain ⟨-, -, -, a, ha, hm⟩ := hmerge
    have hadvanced : Ahead c (((r.setPr n { pr with
        state := .merged, mergeCommit := some m, mergedAt := some moment })).advance
          pr.baseRefName m) := by
      refine Ahead.advance h ?_
      intro b hb
      have hab : a = b := Option.some.inj (ha.symm.trans hb)
      exact hab ▸ hm
    rw [Remote.merge] at hstays ⊢
    split at hstays
    · next hdelete =>
      rw [if_pos hdelete]
      obtain ⟨x, hx, hcx⟩ := hadvanced
      refine ⟨x, ?_, hcx⟩
      by_cases hb : Branch.implementation = pr.headRefName
      · simp [Remote.delete, ← hb] at hstays
      · simp only [Remote.delete, Function.update_of_ne hb]
        exact hx
    · next hkeep =>
      rw [if_neg hkeep]
      exact hadvanced

/-! ### The run directory -/

/-- A row of `check_runs`. -/
structure CheckRun where
  name : String
  status : String
  conclusion : Option String

/-- The checkpoints of the head disturbance. -/
inductive HeadState where
  | prepared
  | pushed
deriving DecidableEq

/-- `disturbances["head"]`. -/
structure HeadDisturbance (C : Type) where
  oldHead : C
  approvalTask : String
  state : HeadState
  newHead : Option C
  moment : Option String

/-- The checkpoints of the base movement. -/
inductive BaseState where
  | prepared
  | merged
deriving DecidableEq

/-- `disturbances["base"]`; a pull request is recorded by its number, in which its URL ends. -/
structure BaseDisturbance (C : Type) where
  oldMain : C
  state : BaseState
  approvalTask : String
  head : Option C
  pr : Option ℕ
  checks : Option (List CheckRun)
  newMain : Option C
  mergedAt : Option String

/-- The fields of `run.json` that the driver reads and writes. -/
structure Manifest (C : Type) where
  repository : String
  runDir : String
  runId : String
  canary : String
  findingId : String
  workPr : Option ℕ
  head : Option (HeadDisturbance C)
  base : Option (BaseDisturbance C)

/-- The driver's clone: what is checked out, `FETCH_HEAD`, and files written and staged since. -/
structure Clone (C : Type) where
  head : C
  fetchHead : Option C
  worktree : List (String × String)
  index : List (String × String)

/-- What only the driver changes.  The last two fields are a record of its acts: the commits it has
    pushed to the implementation branch, and the pull requests it has merged, with their heads. -/
structure Own (C : Type) where
  manifest : Manifest C
  clone : Clone C
  pushed : List C
  merged : List (ℕ × C)

/-- What the driver has of its own, and the remote it shares. -/
structure World (C : Type) where
  own : Own C
  remote : Remote C

/-! ### The hub's records -/

/-- The URL of a pull request: of the sandbox, by its number, or of another repository. -/
inductive PrUrl where
  | sandbox (number : ℕ)
  | elsewhere (url : String)
deriving DecidableEq

/-- The fields of a typed result the driver reads. -/
structure TaskResult (C : Type) where
  prUrl : Option PrUrl
  resolvedFindingIds : List String
  reviewedHeadSha : Option C
  verdict : Option String

/-- A row of `task`. -/
structure TaskRow (C : Type) where
  id : String
  title : String
  assignee : String
  role : String
  state : String
  created : String
  prHeadSha : Option C
  result : Option (TaskResult C)

/-! ### Commands -/

/-- The effects of the driver: what it reads and saves, and its `git` and `gh` commands. -/
inductive Effect (C : Type) where
  | loadManifest
  | audit
  | save (m : Manifest C)
  | now
  | prView (n : ℕ)
  | checkRuns (head : C)
  | remoteGetUrl
  | status
  | fetch (b : Branch)
  | revParseFetchHead
  | showFile (c : C) (name : String)
  | revParseParent (c : C)
  | diffNames (a c : C)
  | checkout (c : C)
  | writeText (name text : String)
  | add (name : String)
  | commit (message : String)
  | revParseHead
  | push (b : Branch)
  | lsRemote (b : Branch)
  | prList (b : Branch)
  | writeBody (text : String)
  | prCreate (title : String)
  | prMerge (n : ℕ) (head : C)

/-- What a command prints; `run` strips it. -/
@[reducible] def Effect.Response : Effect C → Type
  | .loadManifest => Manifest C
  | .audit => List (TaskRow C)
  | .now | .remoteGetUrl | .showFile _ _ => String
  | .prView _ => PullRequest C
  | .checkRuns _ => List CheckRun
  | .status => Bool
  | .revParseFetchHead | .revParseParent _ | .revParseHead => C
  | .diffNames _ _ => List String
  | .lsRemote _ => Option C
  | .prList _ => List ℕ
  | .prCreate _ => ℕ
  | .save _ | .fetch _ | .checkout _ | .writeText _ _ | .add _ | .commit _ | .push _ |
    .writeBody _ | .prMerge _ _ => Unit

open History

/-- The tree of a commit with some files written over. -/
def overlay (tree : String → Option String) (files : List (String × String)) (name : String) :
    Option String :=
  (files.lookup name).or (tree name)

/-- A file written to the worktree. -/
def Clone.write (k : Clone C) (name text : String) : Clone C :=
  { k with worktree := (name, text) :: k.worktree }

/-- `git add` of one file. -/
def Clone.stage (k : Clone C) (name : String) : Clone C :=
  { k with index := k.worktree.filter (·.1 = name) ++ k.index }

/-- The world with another clone. -/
def World.setClone (w : World C) (clone : Clone C) : World C :=
  { w with own := { w.own with clone } }

/-- The world with another manifest written. -/
def World.save (w : World C) (manifest : Manifest C) : World C :=
  { w with own := { w.own with manifest } }

/-- The driver's commit `c` of what is staged. -/
def World.commit (w : World C) (c : C) : World C :=
  w.setClone { w.own.clone with head := c, worktree := [], index := [] }

/-- The driver's push of its checked-out commit. -/
def World.push (w : World C) (b : Branch) : World C where
  own := { w.own with
    pushed := if b = .implementation then w.own.clone.head :: w.own.pushed else w.own.pushed }
  remote := w.remote.advance b w.own.clone.head

/-- What a command does when it succeeds. -/
def Effect.exec : (e : Effect C) → World C → e.Response → World C → Prop
  | .loadManifest, w, r, w' => r = w.own.manifest ∧ w' = w
  | .audit, w, _, w' => w' = w
  | .save m, w, _, w' => w' = w.save m
  | .now, w, _, w' => w' = w
  | .prView n, w, r, w' => w.remote.prs n = some r ∧ w' = w
  | .checkRuns _, w, _, w' => w' = w
  | .remoteGetUrl, w, _, w' => w' = w
  | .status, w, r, w' =>
      r = !(w.own.clone.worktree.isEmpty && w.own.clone.index.isEmpty) ∧ w' = w
  | .fetch b, w, _, w' => ∃ c, w.remote.heads b = some c ∧
      w' = w.setClone { w.own.clone with fetchHead := some c }
  | .revParseFetchHead, w, r, w' => w.own.clone.fetchHead = some r ∧ w' = w
  | .showFile c name, w, r, w' => tree c name = some r ∧ w' = w
  | .revParseParent c, w, r, w' => (parents c).head? = some r ∧ w' = w
  | .diffNames a c, w, r, w' => r = diff a c ∧ w' = w
  | .checkout c, w, _, w' => w' = w.setClone { w.own.clone with head := c }
  | .writeText name text, w, _, w' => w' = w.setClone (w.own.clone.write name text)
  | .add name, w, _, w' => w' = w.setClone (w.own.clone.stage name)
  -- a commit has the time it was made in its name, so any commit of this shape can come out
  | .commit _, w, _, w' => ∃ c, parents c = [w.own.clone.head] ∧
      (∀ name, tree c name = overlay (tree w.own.clone.head) w.own.clone.index name) ∧
      (∃ name, tree c name ≠ tree w.own.clone.head name) ∧ w' = w.commit c
  | .revParseHead, w, r, w' => r = w.own.clone.head ∧ w' = w
  | .push b, w, _, w' => w.remote.CanPush b w.own.clone.head ∧ w' = w.push b
  | .lsRemote b, w, r, w' => r = w.remote.heads b ∧ w' = w
  | .prList b, w, (r : List ℕ), w' => r.Nodup ∧
      (∀ n, n ∈ r ↔ ∃ pr, w.remote.prs n = some pr ∧ pr.headRefName = b) ∧ w' = w
  | .writeBody _, w, _, w' => w' = w
  | .prCreate _, w, n, w' => w.remote.prs n = none ∧
      ∃ c, w.remote.heads .base = some c ∧
        w' = ⟨w.own, w.remote.setPr n ⟨.base, .main, c, .opened, none, none⟩⟩
  -- on a merged pull request `gh` has nothing to do
  | .prMerge n head, w, _, w' => ∃ pr, w.remote.prs n = some pr ∧ pr.headRefOid = head ∧
      ((∃ m moment deletes, w.remote.CanMerge n pr m ∧
          w' = ⟨{ w.own with merged := (n, head) :: w.own.merged },
            w.remote.merge n pr m moment deletes⟩) ∨
        pr.state = .merged ∧ w' = w)

/-- The commands, and the steps of the other parties between them. -/
def sandbox : Semantics (Effect C) Effect.Response (World C) where
  exec := Effect.exec
  rely w w' := w'.own = w.own ∧ Foreign w.remote w'.remote

end AgentHub.Driver
