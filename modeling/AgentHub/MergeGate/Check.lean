import AgentHub.MergeGate.Report
import AgentHub.Polling.Loop

namespace AgentHub

open Relational Polling

/-!
# The merge gate

`check_merge_gate` reads a pull request in three or four calls of `gh`, over and over, until the
answer settles or the time is up.

* `Effect`, `History`, `World` — what the gate does to the world, and a world that may answer each
  call, and set the clock at each reading, as it likes in view of all that happened before;
* `MergeGate.check`, `MergeGate.snapshot` — the gate and one reading of it;
* `readObject`, `readChecks`, `readCount` — what it makes of the answers.
-/

/-- What a `gh` process leaves. -/
structure GhResult where
  returncode : ℤ
  stdout : String
  stderr : String
deriving DecidableEq

/-- One thing the gate does: a call of `gh` that was answered, a look at the clock, a sleep. -/
inductive Effect where
  | call (args : List String) (result : GhResult)
  | clock (time : ℚ)
  | sleep (duration : ℚ)
deriving DecidableEq

/-- What the gate has done so far, the latest first. -/
abbrev History := List Effect

/-- How long the gate has asked to sleep so far. -/
def History.slept : History → ℚ
  | [] => 0
  | .sleep duration :: h => duration + History.slept h
  | _ :: h => History.slept h

/-- What the gate runs in: `runner`, `clock`, and the text functions of Python. -/
structure World where
  py : Python
  gh : History → List String → Except GateError GhResult
  time : History → ℚ

/-- The gate's code: it may raise, and it sees the commands run so far. -/
abbrev GateM := Transaction GateError History

namespace World

variable (w : World)

/-- `self.runner(args)`. -/
def run (args : List String) : GateM GhResult := do
  let result ← ofResult (w.gh (← get) args)
  modify (.call args result :: ·)
  return result

/-- `self.clock` and `self.sleep`. -/
def timer : Timer History where
  now h := (w.time h, .clock (w.time h) :: h)
  sleep duration h := .sleep duration :: h

/-- A command run is answered by `gh` and noted. -/
@[simp] theorem commits_run {args : List String} {h h' : History} {result : GhResult} :
    Commits (w.run args) h result h' ↔ w.gh h args = .ok result ∧ h' = .call args result :: h := by
  simp only [run, commits_bind, commits_get, commits_ofResult, commits_modify, commits_pure]
  constructor
  · rintro ⟨_, _, ⟨rfl, rfl⟩, _, _, ⟨hgh, rfl⟩, _, _, rfl, rfl, rfl⟩
    exact ⟨hgh, rfl⟩
  · rintro ⟨hgh, rfl⟩
    exact ⟨h, h, ⟨rfl, rfl⟩, result, h, ⟨hgh, rfl⟩, ⟨⟩, _, rfl, rfl, rfl⟩

/-- A reading of the clock is noted. -/
@[simp] theorem commits_now {h h' : History} {t : ℚ} :
    Commits (modifyGet w.timer.now : GateM ℚ) h t h' ↔
      t = w.time h ∧ h' = .clock (w.time h) :: h := by
  rw [commits_modifyGet]
  show (w.time h, Effect.clock (w.time h) :: h) = (t, h') ↔ _
  rw [Prod.mk.injEq, eq_comm, eq_comm (a := h')]

end World

/-! ### The arguments of the calls -/

/-- The arguments of `gh pr view`. -/
def viewArgs (ref : PullRequestRef) : List String :=
  ["pr", "view", ref.url, "--json", "state,headRefOid,baseRefName,mergeable,mergeStateStatus"]

/-- The arguments of `gh pr checks`. -/
def checksArgs (ref : PullRequestRef) : List String :=
  ["pr", "checks", ref.url, "--json", "name,bucket,link"]

/-- The arguments that count the repository's workflows. -/
def workflowsArgs (ref : PullRequestRef) : List String :=
  ref.api "actions/workflows" ++ ["--jq", ".total_count"]

/-- One byte of `urllib.parse.quote(…, safe='/')`. -/
def quoteByte (b : UInt8) : List Char :=
  let c := Char.ofNat b.toNat
  let hex (n : ℕ) : Char := Char.ofNat (if n < 10 then 48 + n else 55 + n)
  if b < 128 ∧ (c.isAlphanum ∨ c ∈ ['_', '.', '-', '~', '/']) then [c]
  else ['%', hex (b.toNat / 16), hex (b.toNat % 16)]

/-- `urllib.parse.quote`, which keeps the slash. -/
def quote (s : String) : String := String.ofList (s.toUTF8.toList.flatMap quoteByte)

/-- The arguments that compare the head with its base. -/
def compareArgs (ref : PullRequestRef) (baseRef head : String) : List String :=
  ref.api s!"compare/{quote baseRef}...{head}" ++
    ["--jq", "\x7bbehind_by: .behind_by, base_commit: .base_commit.sha, " ++
      "merge_base_commit: .merge_base_commit.sha\x7d"]

/-- `_describe`. -/
def describe (args : List String) : String :=
  match args with
  | "api" :: _ :: path :: _ => s!"gh api {path}"
  | _ => "gh " ++ " ".intercalate (args.take 2)

/-- `_failure`. -/
def failure (args : List String) (result : GhResult) : GateError :=
  let detail := String.ofList ((strip result.stderr).toList.take 500)
  if detail = "" then .mergeGateError s!"{describe args} failed: exit {result.returncode}"
  else .mergeGateError s!"{describe args} failed: {detail}"

/-! ### Reading the answers -/

/-- `_string`. -/
def stringField (data : List (String × Json)) (key : String) : Except GateError String :=
  match data.lookup key with
  | some (.str s) => .ok s
  | _ => .error (.mergeGateError s!"gh output is missing {key}")

/-- The object a call printed, of `_json`. -/
def readObject (py : Python) (args : List String) (result : GhResult) :
    Except GateError (List (String × Json)) :=
  if result.returncode ≠ 0 then .error (failure args result)
  else
    match py.loads result.stdout with
    | .value (.obj fields) => .ok fields
    | .value _ => .error (.mergeGateError s!"{describe args} did not print a JSON object")
    | .decodeError => .error (.mergeGateError s!"{describe args} printed invalid JSON")
    | .raised message => .error (.other message)

/-- `str(item.get(key, ""))`. -/
def textField (py : Python) (item : List (String × Json)) (key : String) : String :=
  (item.lookup key).elim "" (Json.pyStr py.repr)

/-- `_check`. -/
def readCheck (py : Python) : Json → Except GateError Check
  | .obj item =>
    .ok {
      name := textField py item "name"
      bucket := textField py item "bucket"
      link := textField py item "link" }
  | _ => .error (.mergeGateError "gh pr checks printed a check that is not an object")

/-- `"no checks reported" in result.stderr`. -/
def GhResult.noChecksReported (result : GhResult) : Prop :=
  "no checks reported".toList <:+: result.stderr.toList

instance (result : GhResult) : Decidable result.noChecksReported :=
  inferInstanceAs (Decidable (_ <:+: _))

/-- What `_checks` makes of an answer without a list. -/
def unlisted (args : List String) (result : GhResult) : Except GateError (List Check) :=
  if result.noChecksReported then .ok [] else .error (failure args result)

/-- What `_checks` makes of the answer.  A list is read before the exit code is looked at, since gh
    exits non-zero for states that still print one. -/
def readChecks (py : Python) (args : List String) (result : GhResult) :
    Except GateError (List Check) :=
  if strip result.stdout = "" then
    if result.returncode = 0 then .ok [] else unlisted args result
  else
    match py.loads (strip result.stdout) with
    | .value (.arr items) => items.mapM (readCheck py)
    | .raised message => .error (.other message)
    | _ => unlisted args result

/-- What `_workflow_count` makes of the answer. -/
def readCount (py : Python) (args : List String) (result : GhResult) : Except GateError ℤ :=
  if result.returncode ≠ 0 then .error (failure args result)
  else
    match py.loads result.stdout with
    | .value v => v.asInt?.elim (.error (failure args result)) .ok
    | .decodeError => .error (failure args result)
    | .raised message => .error (.other message)

/-- `behind_by` of the comparison. -/
def behindBy (compare : List (String × Json)) : Except GateError ℤ :=
  ((compare.lookup "behind_by").bind Json.asInt?).elim
    (.error (.mergeGateError "gh api compare did not report behind_by")) .ok

/-! ### The gate -/

/-- `_json`. -/
def World.json (w : World) (args : List String) : GateM (List (String × Json)) := do
  ofResult (readObject w.py args (← w.run args))

/-- `_checks`. -/
def World.checks (w : World) (ref : PullRequestRef) : GateM (List Check) := do
  ofResult (readChecks w.py (checksArgs ref) (← w.run (checksArgs ref)))

/-- `_workflow_count`. -/
def World.workflowCount (w : World) (ref : PullRequestRef) : GateM ℤ := do
  ofResult (readCount w.py (workflowsArgs ref) (← w.run (workflowsArgs ref)))

/-- The verdict over the checks.  No checks yet is a race right after a push; no workflows at all
    is a misconfigured repository, and waiting will not fix it. -/
def World.ciStatus (w : World) (ref : PullRequestRef) (checks : List Check) : GateM CiStatus :=
  match classifyChecks checks with
  | some ci => pure ci
  | none => do
    let workflows ← w.workflowCount ref
    return if workflows ≠ 0 then .noChecks else .noWorkflows

/-- How long the gate polls, and how often. -/
structure MergeGate where
  pollTimeoutS : ℚ := 60
  pollIntervalS : ℚ := 10

namespace MergeGate

/-- The report at the end of `_snapshot`, out of the pull request and the comparison. -/
def report (py : Python) (ref : PullRequestRef) (expected : String)
    (view : List (String × Json)) (head baseRef mergeStateStatus : String) (checks : List Check)
    (ci : CiStatus) (compare : List (String × Json)) : Except GateError GateReport := do
  let behind ← behindBy compare
  let state ← stringField view "state"
  let mergeBase ← stringField compare "merge_base_commit"
  let tip ← stringField compare "base_commit"
  let mergeable ← stringField view "mergeable"
  return {
    prUrl := ref.url
    prState := prState state
    expectedHeadSha := expected
    currentHeadSha := head
    headMatches := head = expected
    ci, checks, baseRef
    baseSha := py.lower mergeBase
    mainSha := py.lower tip
    baseBehindMain := 0 < behind
    mergeable := AgentHub.mergeable mergeable mergeStateStatus
    mergeStateStatus }

/-- `_snapshot`. -/
def snapshot (w : World) (ref : PullRequestRef) (expected : String) : GateM GateReport := do
  let view ← w.json (viewArgs ref)
  let head := w.py.lower (← ofResult (stringField view "headRefOid"))
  if ¬ isSha40 head then
    throw (.mergeGateError "gh pr view reported a head that is not a commit SHA")
  let baseRef ← ofResult (stringField view "baseRefName")
  let mergeStateStatus ← ofResult (stringField view "mergeStateStatus")
  let checks ← w.checks ref
  let ci ← w.ciStatus ref checks
  let compare ← w.json (compareArgs ref baseRef head)
  ofResult (report w.py ref expected view head baseRef mergeStateStatus checks ci compare)

/-- `check`, with a bound on the readings; `none` says that the bound was too low. -/
def check (gate : MergeGate) (w : World) (prUrl expectedHeadSha : String) (fuel : ℕ) :
    GateM (Option GateReport) := do
  if ¬ isSha40 expectedHeadSha then
    throw (.valueError "expected_head_sha must be a 40-character hex commit SHA")
  let ref ← ofResult (PullRequestRef.parse w.py prUrl)
  let expected := w.py.lower expectedHeadSha
  let start ← modifyGet w.timer.now
  let deadline := start + gate.pollTimeoutS
  let report? ←
    poll w.timer (snapshot w ref expected) GateReport.settled gate.pollIntervalS deadline fuel
  match report? with
  | none => return none
  | some report =>
    let now ← modifyGet w.timer.now
    return some { report with elapsedS := round3 (now - start) }

end MergeGate

end AgentHub
