import AgentHub.Driver.Sandbox
import AgentHub.Common.Json
import Mathlib.Data.List.Sort
import Mathlib.Data.List.Dedup

namespace AgentHub.Driver

open Effects Git

/-!
# The disturbance driver

`driver_once` of the scenario script, block by block, as the sequence of its commands and of its
saves of `run.json`.

* `approval`, `isGreen`, `discoverWorkPr` — what the driver waits for;
* `moveHead` — the commit on the implementation branch, made or recovered;
* `moveBase` — the pull request that moves `main`: `recordedBase`, `pushBase`, `openBasePr` and
  `mergeBase`;
* `driverOnce` — `driver_once`.
-/

variable {C : Type}

/-- The programs of the driver. -/
abbrev Script (C A : Type) := Program (Effect C) Effect.Response A

/-- A command, whose answer the script ends with. -/
def perform (e : Effect C) : Script C e.Response := Program.perform e

/-- The end of a script that gives up. -/
def raise {A : Type} (message : String) : Script C A := Program.raise message

/-- `if p: raise ValueError(message)`. -/
def raiseIf (p : Prop) [Decidable p] (message : String) : Script C Unit :=
  if p then raise message else pure ()

/-! ### What the driver waits for -/

/-- `SANDBOX`. -/
def sandboxName : String := "RoboNater/robo-agents-sandbox"

/-- `results`: the completed tasks with their results, in the order of their creation. -/
def results (snapshot : List (TaskRow C)) : List (TaskRow C × TaskResult C) :=
  (snapshot.insertionSort fun a b => a.created ≤ b.created).filterMap fun task =>
    if task.state = "completed" then task.result.map fun result => (task, result) else none

/-- `approval`: the first result by which Charlie approves just `head`. -/
def approval [DecidableEq C] (snapshot : List (TaskRow C)) (head : C) :
    Option (TaskRow C × TaskResult C) :=
  (results snapshot).find? fun (task, result) =>
    task.assignee = "charlie" && task.role = "reviewer" && task.prHeadSha = some head &&
      result.reviewedHeadSha = some head && result.verdict = some "approved"

/-- `text.startswith(start)`. -/
def titled (start text : String) : Bool := start.toList.isPrefixOf text.toList

/-- A task of Bob that resolved the finding. -/
def addressed (findingId : String) (snapshot : List (TaskRow C)) : Bool :=
  (results snapshot).any fun (task, result) =>
    titled "ADDRESS " task.title && task.assignee = "bob" &&
      result.resolvedFindingIds.contains findingId

/-- `green`. -/
def isGreen (head : C) : Script C Bool := do
  let rows ← perform (.checkRuns head)
  return !rows.isEmpty && rows.any (·.name = "test") &&
    rows.all fun row => row.status = "completed" && row.conclusion = some "success"

/-- `load_manifest`, given the run directory. -/
def loadManifest (directory : String) : Script C (Manifest C) := do
  let value ← perform .loadManifest
  raiseIf (value.repository ≠ sandboxName) ("Step 6 may target only " ++ sandboxName)
  raiseIf (value.runDir ≠ directory) "manifest belongs to a different run directory"
  return value

/-- `discover_work_pr`: the number and the view of the work pull request. -/
def discoverWorkPr (snapshot : List (TaskRow C)) : Script C (Option (ℕ × PullRequest C)) :=
  let candidates : List PrUrl := ((results snapshot).filterMap fun (task, result) =>
    if task.assignee = "bob" ∧ titled "IMPLEMENT " task.title then result.prUrl else none).dedup
  match candidates with
  | [.sandbox n] => do
    let view ← perform (.prView n)
    raiseIf (view.headRefName ≠ .implementation ∨ view.baseRefName ≠ .main)
      "unexpected work PR branch/base"
    return some (n, view)
  | [.elsewhere _] => raise "work result targets another repository"
  | _ => return none

/-- The checks of the driver's clone. -/
def checkClone : Script C Unit := do
  let origin ← perform .remoteGetUrl
  raiseIf (origin ≠ s!"git@github.com:{sandboxName}.git" ∧
    origin ≠ s!"https://github.com/{sandboxName}.git") "driver clone must target only the sandbox"
  let dirty ← perform .status
  raiseIf (dirty = true) "driver clone is dirty; preserve it and diagnose"

/-! ### The head disturbance -/

/-- `disturbances["head"]`, prepared when it is not there and the work has been approved. -/
def prepareHead [DecidableEq C] (m : Manifest C) (snapshot : List (TaskRow C))
    (pr : PullRequest C) : Script C (Option (Manifest C × HeadDisturbance C)) :=
  match m.head with
  | some disturbance => return some (m, disturbance)
  | none =>
    -- a resolved first finding and approval after it, never initial approval alone
    match addressed m.findingId snapshot, approval snapshot pr.headRefOid with
    | true, some approved => do
      if !(← isGreen pr.headRefOid) then return none
      let disturbance := ⟨pr.headRefOid, approved.1.id, .prepared, none, none⟩
      let m := { m with head := some disturbance }
      perform (.save m)
      return some (m, disturbance)
    | _, _ => return none

/-- The file of the head disturbance. -/
def Manifest.headFile (m : Manifest C) : String := s!"step6_head_{m.runId}.txt"

/-- The record that the head has moved. -/
def recordHead (m : Manifest C) (disturbance : HeadDisturbance C) (newHead : C) :
    Script C Unit := do
  let moment ← perform .now
  let disturbance :=
    { disturbance with newHead := some newHead, state := .pushed, moment := some moment }
  perform (.save { m with head := some disturbance })

/-- The head has moved: only a commit that has the content, the parent and the one file of the
    driver's is taken for it. -/
def recoverHead [DecidableEq C] (m : Manifest C) (disturbance : HeadDisturbance C) (remote : C) :
    Script C Unit := do
  let content ← perform (.showFile remote m.headFile)
  let parent ← perform (.revParseParent remote)
  raiseIf (strip content ≠ m.canary ∨ parent ≠ disturbance.oldHead)
    "ambiguous head movement; refusing to push"
  let names ← perform (.diffNames parent remote)
  raiseIf (names ≠ [m.headFile]) "ambiguous head movement; refusing to push"
  recordHead m disturbance remote

/-- The commit on top of the approved head.  Without `--force` git refuses a concurrent movement. -/
def pushHead [DecidableEq C] (m : Manifest C) (snapshot : List (TaskRow C))
    (disturbance : HeadDisturbance C) (remote : C) : Script C Unit := do
  raiseIf ((approval snapshot disturbance.oldHead).isNone = true)
    "exact old-head approval is absent"
  perform (.checkout remote)
  perform (.writeText m.headFile (m.canary ++ "\n"))
  perform (.add m.headFile)
  perform (.commit ("Step 6 declared head disturbance " ++ m.runId))
  let newHead ← perform .revParseHead
  let disturbance := { disturbance with newHead := some newHead }
  let m := { m with head := some disturbance }
  perform (.save m)
  perform (.push .implementation)
  recordHead m disturbance newHead

/-- The block of the head disturbance that is not yet pushed. -/
def moveHead [DecidableEq C] (m : Manifest C) (snapshot : List (TaskRow C))
    (disturbance : HeadDisturbance C) : Script C Unit := do
  perform (.fetch .implementation)
  let remote ← perform .revParseFetchHead
  if remote ≠ disturbance.oldHead then recoverHead m disturbance remote
  else pushHead m snapshot disturbance remote

/-! ### The base disturbance -/

/-- The file of the base disturbance, and its text. -/
def Manifest.baseFile (m : Manifest C) : String := s!"step6_base_{m.runId}.txt"

/-- The text the base is moved with. -/
def Manifest.baseText (m : Manifest C) : String := "Unrelated base movement for " ++ m.runId

/-- `validate_base_fixture`. -/
def validateBaseFixture [DecidableEq C] (m : Manifest C) (base : BaseDisturbance C) (head : C) :
    Script C Unit := do
  raiseIf (base.head ≠ some head) "remote base branch has no matching intended-head checkpoint"
  let parent ← perform (.revParseParent head)
  raiseIf (parent ≠ base.oldMain)
    "base branch is not the single declared additive fixture commit"
  let names ← perform (.diffNames base.oldMain head)
  raiseIf (names ≠ [m.baseFile]) "base branch is not the single declared additive fixture commit"
  let content ← perform (.showFile head m.baseFile)
  raiseIf (strip content ≠ m.baseText)
    "base branch is not the single declared additive fixture commit"

/-- `validate_base_pr`. -/
def validateBasePr [DecidableEq C] (view : PullRequest C) (base : BaseDisturbance C) :
    Script C Unit :=
  raiseIf (base.head ≠ some view.headRefOid ∨ view.headRefName ≠ .base ∨ view.baseRefName ≠ .main)
    "base PR head/branch/base does not match the declared disturbance"

/-- `disturbances["base"]`, prepared when it is not there. -/
def prepareBase (m : Manifest C) (approvalTask : String) :
    Script C (Manifest C × BaseDisturbance C) :=
  match m.base with
  | some base => return (m, base)
  | none => do
    perform (.fetch .main)
    let oldMain ← perform .revParseFetchHead
    let base := ⟨oldMain, .prepared, approvalTask, none, none, none, none, none⟩
    let m := { m with base := some base }
    perform (.save m)
    return (m, base)

/-- The record that the base pull request is merged. -/
def recordBase (m : Manifest C) (base : BaseDisturbance C) (view : PullRequest C) :
    Script C Unit :=
  match view.mergeCommit with
  | none => raise "'NoneType' object is not subscriptable"
  | some oid =>
    let base := { base with state := .merged, newMain := some oid, mergedAt := view.mergedAt }
    perform (.save { m with base := some base })

/-- The block of a base pull request that is recorded: whether it is merged, and now recorded so. -/
def recordedBase [DecidableEq C] (m : Manifest C) (base : BaseDisturbance C) : Script C Bool :=
  match base.pr with
  | none => return false
  | some n => do
    let recorded ← perform (.prView n)
    validateBasePr recorded base
    if recorded.state = .merged then
      -- `validate_base_pr` has compared the two heads
      raiseIf (!(← isGreen recorded.headRefOid))
        "merged base PR does not match the recorded green head"
      recordBase m base recorded
      return true
    else return false

/-- The base branch is there: only at the recorded head is it taken for the driver's. -/
def recoverBase [DecidableEq C] (m : Manifest C) (base : BaseDisturbance C) (head : C) :
    Script C (Manifest C × BaseDisturbance C × C) := do
  raiseIf (base.head ≠ some head) "remote base branch has no matching intended-head checkpoint"
  perform (.fetch .base)
  validateBaseFixture m base head
  return (m, base, head)

/-- The base branch is created; its head is saved before the push. -/
def createBase (m : Manifest C) (base : BaseDisturbance C) :
    Script C (Manifest C × BaseDisturbance C × C) := do
  perform (.checkout base.oldMain)
  perform (.writeText m.baseFile (m.baseText ++ "\n"))
  perform (.add m.baseFile)
  perform (.commit ("Step 6 declared base disturbance " ++ m.runId))
  let head ← perform .revParseHead
  let base := { base with head := some head }
  let m := { m with base := some base }
  perform (.save m)
  perform (.push .base)
  return (m, base, head)

/-- The base branch, recovered or created: the manifest with its head. -/
def pushBase [DecidableEq C] (m : Manifest C) (base : BaseDisturbance C) :
    Script C (Manifest C × BaseDisturbance C × C) := do
  match ← perform (.lsRemote .base) with
  | some head => recoverBase m base head
  | none => createBase m base

/-- The base pull request, found or created, and recorded. -/
def openBasePr (m : Manifest C) (base : BaseDisturbance C) :
    Script C (Manifest C × BaseDisturbance C × ℕ) := do
  let prs ← perform (.prList .base)
  raiseIf (prs.length > 1) "multiple base disturbance PRs"
  let n ← match prs with
    | n :: _ => pure n
    | [] => do
      perform (.writeBody ("Implementation agent scenario-driver on behalf of RoboNater\n\n" ++
        "Declared unrelated Step 6 base disturbance for " ++ m.runId))
      perform (.prCreate ("Step 6 unrelated base " ++ m.runId))
  let base := { base with pr := some n }
  let m := { m with base := some base }
  perform (.save m)
  return (m, base, n)

/-- The merge of the base pull request at the recorded head. -/
def mergeBase [DecidableEq C] (m : Manifest C) (base : BaseDisturbance C) (n : ℕ) (head : C) :
    Script C Bool := do
  let view ← perform (.prView n)
  validateBasePr view base
  if view.state ≠ .merged then
    if view.state ≠ .opened then return false
    if !(← isGreen head) then return false
    let rows ← perform (.checkRuns head)
    let base := { base with checks := some rows }
    let m := { m with base := some base }
    perform (.save m)
    perform (.prMerge n head)
    let view ← perform (.prView n)
    recordBase m base view
    return true
  else
    recordBase m base view
    return true

/-- The block of the base disturbance, once the moved head is approved. -/
def moveBase [DecidableEq C] (m : Manifest C) (snapshot : List (TaskRow C))
    (disturbance : HeadDisturbance C) : Script C Bool :=
  match disturbance.newHead with
  | none => raise "'new_head'"
  | some moved =>
    match approval snapshot moved with
    | none => return false
    | some approved => do
      if !(← isGreen moved) then return false
      let (m, base) ← prepareBase m approved.1.id
      if base.state = .merged then return true
      if ← recordedBase m base then return true
      let (m, base, head) ← pushBase m base
      let (m, base, n) ← openBasePr m base
      mergeBase m base n head

/-- `driver_once`. -/
def driverOnce [DecidableEq C] (directory : String) : Script C Bool := do
  let m ← loadManifest directory
  let snapshot ← perform .audit
  match ← discoverWorkPr snapshot with
  | none => return false
  | some (n, pr) =>
    let m := { m with workPr := some n }
    perform (.save m)
    raiseIf (pr.state ≠ .opened) "work PR is no longer open; refusing disturbances"
    checkClone
    match ← prepareHead m snapshot pr with
    | none => return false
    | some (m, disturbance) =>
      if disturbance.state ≠ .pushed then
        moveHead m snapshot disturbance
        return false
      else moveBase m snapshot disturbance

end AgentHub.Driver
