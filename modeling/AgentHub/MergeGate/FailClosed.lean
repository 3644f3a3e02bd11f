import AgentHub.MergeGate.Check

namespace AgentHub

open Relational Polling

/-!
# Fail-closed

What a report says is what the answers of one reading say, and a reading that cannot be made sense
of is no report.

* `Answers`, `Answers.effects` — the answers of one reading, and the calls that got them;
* `Answers.Report` — what a report says of them; `Answers.Report.unique`, that they leave it no
  choice; `snapshot_cases`, that a reading reports so;
* `Answers.Passes`, `Answers.NoWorkflows` — the answers under which a pull request may merge, and
  those under which there is no CI to wait for;
* `merge_gate_fail_closed` — every report is one on the answers of its last reading, and good only
  if they are.
-/

/-- The answers of one reading. -/
structure Answers where
  view : GhResult
  checks : GhResult
  workflows : Option GhResult
  compare : GhResult

namespace Answers

/-- The calls that got the answers, the latest first. -/
def effects (a : Answers) (ref : PullRequestRef) (baseRef head : String) : History :=
  .call (compareArgs ref baseRef head) a.compare ::
    ((a.workflows.map (Effect.call (workflowsArgs ref))).toList ++
      [.call (checksArgs ref) a.checks, .call (viewArgs ref) a.view])

/-- What the report `r` says of the answers. -/
structure Report (a : Answers) (py : Python) (ref : PullRequestRef) (expected : String)
    (r : GateReport) : Prop where
  prUrl : r.prUrl = ref.url
  expectedHeadSha : r.expectedHeadSha = expected
  /-- The pull request, out of `gh pr view`. -/
  view : ∃ fields, readObject py (viewArgs ref) a.view = .ok fields ∧
    (∃ head, stringField fields "headRefOid" = .ok head ∧ isSha40 (py.lower head) = true ∧
      r.currentHeadSha = py.lower head) ∧
    r.headMatches = decide (r.currentHeadSha = expected) ∧
    stringField fields "baseRefName" = .ok r.baseRef ∧
    stringField fields "mergeStateStatus" = .ok r.mergeStateStatus ∧
    (∃ state, stringField fields "state" = .ok state ∧ r.prState = prState state) ∧
    ∃ m, stringField fields "mergeable" = .ok m ∧ r.mergeable = mergeable m r.mergeStateStatus
  /-- The checks, out of `gh pr checks`. -/
  checks : readChecks py (checksArgs ref) a.checks = .ok r.checks
  /-- The verdict over them; with none, the workflows are counted. -/
  ci : (a.workflows = none ∧ classifyChecks r.checks = some r.ci) ∨
    classifyChecks r.checks = none ∧ ∃ result count, a.workflows = some result ∧
      readCount py (workflowsArgs ref) result = .ok count ∧
        r.ci = if count ≠ 0 then .noChecks else .noWorkflows
  /-- The base, out of the comparison. -/
  compare : ∃ fields, readObject py (compareArgs ref r.baseRef r.currentHeadSha) a.compare =
      .ok fields ∧
    (∃ n, behindBy fields = .ok n ∧ r.baseBehindMain = decide (0 < n)) ∧
    (∃ s, stringField fields "merge_base_commit" = .ok s ∧ r.baseSha = py.lower s) ∧
    ∃ s, stringField fields "base_commit" = .ok s ∧ r.mainSha = py.lower s

end Answers

section

variable {w : World} {ref : PullRequestRef} {h h' : History}

/-- A JSON object read is one that `gh` printed. -/
theorem commits_json {args : List String} {fields : List (String × Json)} :
    Commits (w.json args) h fields h' ↔ ∃ result, w.gh h args = .ok result ∧
      readObject w.py args result = .ok fields ∧ h' = .call args result :: h := by
  simp only [World.json, commits_bind, World.commits_run, commits_ofResult]
  constructor
  · rintro ⟨result, _, ⟨hgh, rfl⟩, hread, rfl⟩
    exact ⟨result, hgh, hread, rfl⟩
  · rintro ⟨result, hgh, hread, rfl⟩
    exact ⟨result, _, ⟨hgh, rfl⟩, hread, rfl⟩

/-- The checks read are those `gh` printed. -/
theorem commits_checks {checks : List Check} :
    Commits (w.checks ref) h checks h' ↔ ∃ result, w.gh h (checksArgs ref) = .ok result ∧
      readChecks w.py (checksArgs ref) result = .ok checks ∧
        h' = .call (checksArgs ref) result :: h := by
  simp only [World.checks, commits_bind, World.commits_run, commits_ofResult]
  constructor
  · rintro ⟨result, _, ⟨hgh, rfl⟩, hread, rfl⟩
    exact ⟨result, hgh, hread, rfl⟩
  · rintro ⟨result, hgh, hread, rfl⟩
    exact ⟨result, _, ⟨hgh, rfl⟩, hread, rfl⟩

/-- The verdict is that over the checks, or without any, that over the workflows. -/
theorem ciStatus_cases {checks : List Check} {ci : CiStatus}
    (hc : Commits (w.ciStatus ref checks) h ci h') :
    (classifyChecks checks = some ci ∧ h' = h) ∨
      classifyChecks checks = none ∧ ∃ result count,
        readCount w.py (workflowsArgs ref) result = .ok count ∧
          ci = (if count ≠ 0 then .noChecks else .noWorkflows) ∧
            h' = .call (workflowsArgs ref) result :: h := by
  unfold World.ciStatus at hc
  cases hclass : classifyChecks checks with
  | some ci' =>
    rw [hclass] at hc
    obtain ⟨rfl, rfl⟩ := commits_pure.mp hc
    exact .inl ⟨rfl, rfl⟩
  | none =>
    rw [hclass] at hc
    simp only [World.workflowCount, commits_bind, World.commits_run, commits_ofResult,
      commits_pure] at hc
    obtain ⟨count, _, ⟨result, _, ⟨-, rfl⟩, hread, rfl⟩, rfl, rfl⟩ := hc
    exact .inr ⟨rfl, result, count, hread, rfl, rfl⟩

/-- The report at the end of a reading says what its object and its comparison say. -/
theorem report_eq_ok {py : Python} {expected head baseRef status : String}
    {view compare : List (String × Json)} {checks : List Check} {ci : CiStatus} {r : GateReport}
    (hr : MergeGate.report py ref expected view head baseRef status checks ci compare = .ok r) :
    ∃ n state base tip m, behindBy compare = .ok n ∧ stringField view "state" = .ok state ∧
      stringField compare "merge_base_commit" = .ok base ∧
      stringField compare "base_commit" = .ok tip ∧ stringField view "mergeable" = .ok m ∧
      r = {
        prUrl := ref.url
        prState := prState state
        expectedHeadSha := expected
        currentHeadSha := head
        headMatches := head = expected
        ci, checks, baseRef
        baseSha := py.lower base
        mainSha := py.lower tip
        baseBehindMain := 0 < n
        mergeable := mergeable m status
        mergeStateStatus := status } := by
  unfold MergeGate.report at hr
  cases hn : behindBy compare with
  | error e => rw [hn] at hr; cases hr
  | ok n =>
  cases hstate : stringField view "state" with
  | error e => rw [hn, hstate] at hr; cases hr
  | ok state =>
  cases hbase : stringField compare "merge_base_commit" with
  | error e => rw [hn, hstate, hbase] at hr; cases hr
  | ok base =>
  cases htip : stringField compare "base_commit" with
  | error e => rw [hn, hstate, hbase, htip] at hr; cases hr
  | ok tip =>
  cases hm : stringField view "mergeable" with
  | error e => rw [hn, hstate, hbase, htip, hm] at hr; cases hr
  | ok m =>
    rw [hn, hstate, hbase, htip, hm] at hr
    exact ⟨n, state, base, tip, m, rfl, rfl, rfl, rfl, rfl, (Except.ok.inj hr).symm⟩

/-- **What a reading does.**  It asks for the pull request, its checks, the workflows if there are
    no checks, and the comparison of the head with its base, and reports on the answers. -/
theorem snapshot_cases {expected : String} {r : GateReport}
    (hc : Commits (MergeGate.snapshot w ref expected) h r h') :
    ∃ a : Answers, a.Report w.py ref expected r ∧
      h' = a.effects ref r.baseRef r.currentHeadSha ++ h ∧
      w.gh h (viewArgs ref) = .ok a.view ∧
      w.gh (.call (viewArgs ref) a.view :: h) (checksArgs ref) = .ok a.checks := by
  unfold MergeGate.snapshot at hc
  obtain ⟨view, _, hstep, hc⟩ := commits_bind.mp hc
  obtain ⟨viewed, hgh, hfields, rfl⟩ := commits_json.mp hstep
  obtain ⟨head, _, hstep, hc⟩ := commits_bind.mp hc
  obtain ⟨hhead, rfl⟩ := commits_ofResult.mp hstep
  obtain ⟨hsha, hc⟩ := commits_guard.mp hc
  obtain ⟨baseRef, _, hstep, hc⟩ := commits_bind.mp hc
  obtain ⟨hbaseRef, rfl⟩ := commits_ofResult.mp hstep
  obtain ⟨status, _, hstep, hc⟩ := commits_bind.mp hc
  obtain ⟨hstatus, rfl⟩ := commits_ofResult.mp hstep
  obtain ⟨checks, _, hstep, hc⟩ := commits_bind.mp hc
  obtain ⟨checked, hgh', hchecks, rfl⟩ := commits_checks.mp hstep
  obtain ⟨ci, h₁, hci, hc⟩ := commits_bind.mp hc
  obtain ⟨compare, _, hstep, hc⟩ := commits_bind.mp hc
  obtain ⟨compared, -, hcompare, rfl⟩ := commits_json.mp hstep
  obtain ⟨hreport, rfl⟩ := commits_ofResult.mp hc
  obtain ⟨n, state, base, tip, m, hn, hstate, hbase, htip, hm, rfl⟩ := report_eq_ok hreport
  obtain ⟨hclass, rfl⟩ | ⟨hclass, result, count, hcount, hverdict, rfl⟩ := ciStatus_cases hci
  · refine ⟨⟨viewed, checked, none, compared⟩, ⟨rfl, rfl, ?_, hchecks, .inl ⟨rfl, hclass⟩, ?_⟩,
      rfl, hgh, hgh'⟩
    · exact ⟨view, hfields, ⟨head, hhead, not_not.mp hsha, rfl⟩, rfl, hbaseRef, hstatus,
        ⟨state, hstate, rfl⟩, m, hm, rfl⟩
    · exact ⟨compare, hcompare, ⟨n, hn, rfl⟩, ⟨base, hbase, rfl⟩, tip, htip, rfl⟩
  · refine ⟨⟨viewed, checked, some result, compared⟩, ⟨rfl, rfl, ?_, hchecks,
      .inr ⟨hclass, result, count, rfl, hcount, hverdict⟩, ?_⟩, rfl, hgh, hgh'⟩
    · exact ⟨view, hfields, ⟨head, hhead, not_not.mp hsha, rfl⟩, rfl, hbaseRef, hstatus,
        ⟨state, hstate, rfl⟩, m, hm, rfl⟩
    · exact ⟨compare, hcompare, ⟨n, hn, rfl⟩, ⟨base, hbase, rfl⟩, tip, htip, rfl⟩

/-- A reading adds to the history, and forgets nothing. -/
theorem keeps_snapshot {expected : String} (h₀ : History) :
    Keeps (fun h => h₀ <:+ h) (MergeGate.snapshot w ref expected) := by
  intro h r h' hc hsuffix
  obtain ⟨a, -, rfl, -⟩ := snapshot_cases hc
  exact hsuffix.trans (List.suffix_append _ h)

/-- **What the gate does.**  It takes the arguments, looks at the clock, polls, and looks once
    more. -/
theorem commits_check {gate : MergeGate} {prUrl expectedHeadSha : String} {fuel : ℕ}
    {r : GateReport} :
    Commits (gate.check w prUrl expectedHeadSha fuel) h (some r) h' ↔
      isSha40 expectedHeadSha = true ∧ ∃ ref report h₁,
        PullRequestRef.parse w.py prUrl = .ok ref ∧
        Commits (poll w.timer (MergeGate.snapshot w ref (w.py.lower expectedHeadSha))
          GateReport.settled gate.pollIntervalS (w.time h + gate.pollTimeoutS) fuel)
          (.clock (w.time h) :: h) (some report) h₁ ∧
        h' = .clock (w.time h₁) :: h₁ ∧
        r = { report with elapsedS := round3 (w.time h₁ - w.time h) } := by
  unfold MergeGate.check
  constructor
  · intro hc
    replace hc := commits_guard.mp hc
    obtain ⟨hsha, hc⟩ := hc
    replace hc := commits_bind.mp hc
    obtain ⟨ref, _, hstep, hc⟩ := hc
    obtain ⟨href, rfl⟩ := commits_ofResult.mp hstep
    replace hc := commits_bind.mp hc
    obtain ⟨start, h₂, hstart, hc⟩ := hc
    obtain ⟨rfl, rfl⟩ := w.commits_now.mp hstart
    replace hc := commits_bind.mp hc
    obtain ⟨o, h₁, hpoll, hc⟩ := hc
    cases o with
    | none =>
      obtain ⟨hnone, -⟩ := commits_pure.mp hc
      cases hnone
    | some report =>
      replace hc := commits_bind.mp hc
      obtain ⟨now, h₃, hnow, hc⟩ := hc
      obtain ⟨rfl, rfl⟩ := w.commits_now.mp hnow
      obtain ⟨hr, rfl⟩ := commits_pure.mp hc
      exact ⟨not_not.mp hsha, ref, report, h₁, href, hpoll, rfl, Option.some.inj hr⟩
  · rintro ⟨hsha, ref, report, h₁, href, hpoll, rfl, rfl⟩
    refine commits_guard.mpr ⟨not_not.mpr hsha, ?_⟩
    refine commits_bind.mpr ⟨ref, h, commits_ofResult.mpr ⟨href, rfl⟩, ?_⟩
    refine commits_bind.mpr ⟨w.time h, _, w.commits_now.mpr ⟨rfl, rfl⟩, ?_⟩
    refine commits_bind.mpr ⟨some report, h₁, hpoll, ?_⟩
    refine commits_bind.mpr ⟨w.time h₁, _, w.commits_now.mpr ⟨rfl, rfl⟩, ?_⟩
    exact commits_pure.mpr ⟨rfl, rfl⟩

/-- The gate runs out of readings where the loop does. -/
theorem check_none {gate : MergeGate} {prUrl expectedHeadSha : String} {fuel : ℕ}
    (hc : Commits (gate.check w prUrl expectedHeadSha fuel) h none h') :
    ∃ ref h₁, Commits (poll w.timer (MergeGate.snapshot w ref (w.py.lower expectedHeadSha))
      GateReport.settled gate.pollIntervalS (w.time h + gate.pollTimeoutS) fuel)
        (.clock (w.time h) :: h) none h₁ := by
  unfold MergeGate.check at hc
  replace hc := commits_bind.mp (commits_guard.mp hc).2
  obtain ⟨ref, _, hstep, hc⟩ := hc
  obtain ⟨-, rfl⟩ := commits_ofResult.mp hstep
  replace hc := commits_bind.mp hc
  obtain ⟨start, h₂, hstart, hc⟩ := hc
  obtain ⟨rfl, rfl⟩ := w.commits_now.mp hstart
  replace hc := commits_bind.mp hc
  obtain ⟨o, h₁, hpoll, hc⟩ := hc
  cases o with
  | none => exact ⟨ref, h₁, hpoll⟩
  | some report =>
    replace hc := commits_bind.mp hc
    obtain ⟨now, h₃, -, hc⟩ := hc
    obtain ⟨hsome, -⟩ := commits_pure.mp hc
    cases hsome

/-- **The last reading.**  A report is one on the answers of a reading that ended with the run. -/
theorem check_last {gate : MergeGate} {prUrl expectedHeadSha : String} {fuel : ℕ} {r : GateReport}
    (hc : Commits (gate.check w prUrl expectedHeadSha fuel) h (some r) h') :
    isSha40 expectedHeadSha = true ∧
      ∃ ref, ∃ a : Answers, ∃ before t t', PullRequestRef.parse w.py prUrl = .ok ref ∧
      a.Report w.py ref (w.py.lower expectedHeadSha) r ∧ h <:+ before ∧
      h' = .clock t' :: .clock t :: a.effects ref r.baseRef r.currentHeadSha ++ before ∧
      w.gh before (viewArgs ref) = .ok a.view ∧
      w.gh (.call (viewArgs ref) a.view :: before) (checksArgs ref) = .ok a.checks := by
  obtain ⟨hsha, ref, report, h₁, href, hpoll, rfl, rfl⟩ := commits_check.mp hc
  obtain ⟨vs, t, -, hpolls⟩ := commits_poll.mp hpoll
  have hstart : h <:+ Effect.clock (w.time h) :: h := List.suffix_cons _ h
  obtain ⟨before, h₂, hsuffix, hread, hnow⟩ := hpolls.last_read (keeps_snapshot h)
    (fun s hs => hs.trans (List.suffix_cons _ s))
    (fun d s hs => hs.trans (List.suffix_cons _ s)) hstart
  obtain ⟨a, hreport, rfl, hview, hchecks⟩ := snapshot_cases hread
  obtain ⟨rfl, rfl⟩ := Prod.mk.inj hnow
  refine ⟨hsha, ref, a, before, _, _, href, ?_, hsuffix, rfl, hview, hchecks⟩
  exact { hreport with }

end

/-! ### When the answers are good -/

namespace Answers

/-- The answers under which the pull request may merge at the head `expectedHeadSha`. -/
structure Passes (a : Answers) (py : Python) (expectedHeadSha : String) : Prop where
  view : a.view.returncode = 0 ∧ ∃ fields head status,
    py.loads a.view.stdout = .value (.obj fields) ∧
    fields.lookup "state" = some (.str "OPEN") ∧
    fields.lookup "headRefOid" = some (.str head) ∧ head.toLower = expectedHeadSha.toLower ∧
    fields.lookup "mergeable" = some (.str "MERGEABLE") ∧
    fields.lookup "mergeStateStatus" = some (.str status) ∧ status ≠ "DIRTY"
  checks : ∃ items, py.loads (strip a.checks.stdout) = .value (.arr items) ∧ items ≠ [] ∧
    ∀ item ∈ items, ∃ fields bucket, item = .obj fields ∧
      fields.lookup "bucket" = some (.str bucket) ∧ (bucket = "pass" ∨ bucket = "skipping")
  compare : a.compare.returncode = 0 ∧ ∃ fields v n,
    py.loads a.compare.stdout = .value (.obj fields) ∧
    fields.lookup "behind_by" = some v ∧ v.asInt? = some n ∧ n ≤ 0

/-- The answers under which the repository has no CI: no checks, and a count of no workflows. -/
structure NoWorkflows (a : Answers) (py : Python) : Prop where
  checks : (strip a.checks.stdout = "" ∧ a.checks.returncode = 0) ∨
    py.loads (strip a.checks.stdout) = .value (.arr []) ∨ a.checks.noChecksReported
  count : ∃ result v, a.workflows = some result ∧ result.returncode = 0 ∧
    py.loads result.stdout = .value v ∧ v.asInt? = some 0

end Answers

section

variable {py : Python} {args : List String} {result : GhResult} {fields : List (String × Json)}

/-- An object is read from a command that succeeded. -/
theorem readObject_eq_ok : readObject py args result = .ok fields ↔
    result.returncode = 0 ∧ py.loads result.stdout = .value (.obj fields) := by
  unfold readObject
  split_ifs with hcode
  · exact iff_of_false (by simp) fun h => hcode h.1
  · have hzero : result.returncode = 0 := not_not.mp hcode
    split
    all_goals simp_all

/-- A field read as a string is one. -/
theorem stringField_eq_ok {key s : String} :
    stringField fields key = .ok s ↔ fields.lookup key = some (.str s) := by
  unfold stringField
  split
  · rename_i heq
    simp [heq]
  · rename_i hnot
    exact iff_of_false (by simp) fun h => hnot s h

/-- The distance behind the base is an integer of the object. -/
theorem behindBy_eq_ok {n : ℤ} : behindBy fields = .ok n ↔
    ∃ v, fields.lookup "behind_by" = some v ∧ v.asInt? = some n := by
  rw [← Option.bind_eq_some_iff]
  unfold behindBy
  cases (fields.lookup "behind_by").bind Json.asInt? with
  | none => simp
  | some m => simp

/-- A count is read from a command that succeeded. -/
theorem readCount_eq_ok {n : ℤ} : readCount py args result = .ok n ↔
    result.returncode = 0 ∧ ∃ v, py.loads result.stdout = .value v ∧ v.asInt? = some n := by
  unfold readCount
  split_ifs with hcode
  · exact iff_of_false (by simp) fun h => hcode h.1
  · have hzero : result.returncode = 0 := not_not.mp hcode
    split
    · rename_i v hv
      cases hn : v.asInt? with
      | none => simp [hv, hn]
      | some m => simp [hv, hn, hzero]
    · simp_all
    · simp_all

/-- A list is read item by item. -/
theorem mapM_eq_ok {ε α β : Type} {f : α → Except ε β} {as : List α} {bs : List β}
    (h : as.mapM f = .ok bs) : List.Forall₂ (fun a b => f a = .ok b) as bs := by
  induction as generalizing bs with
  | nil =>
    rw [List.mapM_nil] at h
    obtain rfl := Except.ok.inj h
    exact .nil
  | cons a as ih =>
    rw [List.mapM_cons] at h
    cases hb : f a with
    | error e =>
      rw [hb] at h
      cases h
    | ok b =>
      have hrest : (as.mapM f >>= fun bs => pure (b :: bs)) = Except.ok bs := by
        rw [hb] at h
        exact h
      cases hbs : as.mapM f with
      | error e =>
        rw [hbs] at hrest
        cases hrest
      | ok bs' =>
        rw [hbs] at hrest
        obtain rfl := Except.ok.inj hrest
        exact .cons hb (ih hbs)

/-- What is in the first list has its partner in the second. -/
theorem forall₂_mem {α β : Type} {R : α → β → Prop} {as : List α} {bs : List β}
    (h : List.Forall₂ R as bs) {a : α} (ha : a ∈ as) : ∃ b ∈ bs, R a b := by
  induction h with
  | nil => exact absurd ha List.not_mem_nil
  | cons hab _ ih =>
    rcases List.mem_cons.mp ha with rfl | ha
    · exact ⟨_, List.mem_cons_self, hab⟩
    · obtain ⟨b, hb, hR⟩ := ih ha
      exact ⟨b, List.mem_cons_of_mem _ hb, hR⟩

/-- **What the checks were read from**: a list, or an answer that there are none. -/
theorem readChecks_cases {checks : List Check} (h : readChecks py args result = .ok checks) :
    (checks = [] ∧ ((strip result.stdout = "" ∧ result.returncode = 0) ∨ result.noChecksReported)) ∨
      ∃ items, py.loads (strip result.stdout) = .value (.arr items) ∧
        List.Forall₂ (fun item check => readCheck py item = .ok check) items checks := by
  have hunlisted (h : unlisted args result = .ok checks) :
    checks = [] ∧ result.noChecksReported := by
    unfold unlisted at h
    split_ifs at h with hnone
    obtain rfl := Except.ok.inj h
    exact ⟨rfl, hnone⟩
  unfold readChecks at h
  split_ifs at h with hempty hcode
  · obtain rfl := Except.ok.inj h
    exact .inl ⟨rfl, .inl ⟨hempty, hcode⟩⟩
  · obtain ⟨hnil, hnone⟩ := hunlisted h
    exact .inl ⟨hnil, .inr hnone⟩
  · split at h
    · rename_i items hitems
      exact .inr ⟨items, hitems, mapM_eq_ok h⟩
    · cases h
    · obtain ⟨hnil, hnone⟩ := hunlisted h
      exact .inl ⟨hnil, .inr hnone⟩

/-- A check in a good bucket was printed as an object that names it. -/
theorem readCheck_bucket {item : Json} {check : Check} (h : readCheck py item = .ok check)
    (hnumeric : item.numeric = true) (hgood : check.bucket = "pass" ∨ check.bucket = "skipping") :
    ∃ fields bucket, item = .obj fields ∧ fields.lookup "bucket" = some (.str bucket) ∧
      (bucket = "pass" ∨ bucket = "skipping") := by
  cases item with
  | obj fields =>
    obtain rfl := Except.ok.inj h
    refine ⟨fields, textField py fields "bucket", rfl, ?_, hgood⟩
    have hbucket : textField py fields "bucket" = "pass" ∨
      textField py fields "bucket" = "skipping" :=
      hgood
    cases hv : fields.lookup "bucket" with
    | none =>
      have hempty : textField py fields "bucket" = "" := by
        rw [textField, hv]
        rfl
      rw [hempty] at hbucket
      exact absurd hbucket (by decide)
    | some v =>
      have hread : v.pyStr py.repr = textField py fields "bucket" := by
        rw [textField, hv]
        rfl
      rw [Json.pyStr_eq_bucket (Json.numeric_of_lookup hnumeric hv) hbucket hread]
  | _ => cases h

variable {a : Answers} {ref : PullRequestRef} {r : GateReport}

/-- The answers leave a report no choice, except for the time it took. -/
theorem Answers.Report.unique {expected : String} {r' : GateReport} (h : a.Report py ref expected r)
    (h' : a.Report py ref expected r') : r' = { r with elapsedS := r'.elapsedS } := by
  obtain ⟨view, hview, ⟨head, hhead, -, hcurrent⟩, hmatches, hbaseRef, hstatus,
    ⟨state, hstate, hprState⟩, m, hm, hmergeable⟩ := h.view
  obtain ⟨view', hview', ⟨head', hhead', -, hcurrent'⟩, hmatches', hbaseRef', hstatus',
    ⟨state', hstate', hprState'⟩, m', hm', hmergeable'⟩ := h'.view
  obtain rfl := Except.ok.inj (hview.symm.trans hview')
  obtain rfl := Except.ok.inj (hhead.symm.trans hhead')
  obtain rfl := Except.ok.inj (hstate.symm.trans hstate')
  obtain rfl := Except.ok.inj (hm.symm.trans hm')
  have hsameRef : r'.baseRef = r.baseRef := Except.ok.inj (hbaseRef'.symm.trans hbaseRef)
  have hsameStatus : r'.mergeStateStatus = r.mergeStateStatus :=
    Except.ok.inj (hstatus'.symm.trans hstatus)
  have hsameHead : r'.currentHeadSha = r.currentHeadSha := hcurrent'.trans hcurrent.symm
  have hsameChecks : r'.checks = r.checks := Except.ok.inj (h'.checks.symm.trans h.checks)
  have hsameCi : r'.ci = r.ci := by
    have hci := h.ci
    have hci' := h'.ci
    rw [hsameChecks] at hci'
    obtain ⟨-, hclass⟩ | ⟨hclass, result, count, hworkflows, hcount, heq⟩ := hci
    · obtain ⟨-, hclass'⟩ | ⟨hclass', -⟩ := hci'
      · exact Option.some.inj (hclass'.symm.trans hclass)
      · rw [hclass] at hclass'
        cases hclass'
    · obtain ⟨-, hclass'⟩ | ⟨-, result', count', hworkflows', hcount', heq'⟩ := hci'
      · rw [hclass] at hclass'
        cases hclass'
      · obtain rfl := Option.some.inj (hworkflows.symm.trans hworkflows')
        obtain rfl := Except.ok.inj (hcount.symm.trans hcount')
        rw [heq, heq']
  obtain ⟨compare, hcompare, ⟨n, hn, hbehind⟩, ⟨base, hbase, hbaseSha⟩, tip, htip, hmainSha⟩ :=
    h.compare
  obtain ⟨compare', hcompare', ⟨n', hn', hbehind'⟩, ⟨base', hbase', hbaseSha'⟩, tip', htip',
    hmainSha'⟩ := h'.compare
  rw [hsameRef, hsameHead] at hcompare'
  obtain rfl := Except.ok.inj (hcompare.symm.trans hcompare')
  obtain rfl := Except.ok.inj (hn.symm.trans hn')
  obtain rfl := Except.ok.inj (hbase.symm.trans hbase')
  obtain rfl := Except.ok.inj (htip.symm.trans htip')
  have hurl := h'.prUrl.trans h.prUrl.symm
  have hexpected := h'.expectedHeadSha.trans h.expectedHeadSha.symm
  rw [hsameHead] at hmatches'
  rw [hsameStatus] at hmergeable'
  cases r
  cases r'
  simp_all

/-- **A good report is one on good answers.** -/
theorem passes_of_report {expectedHeadSha : String}
    (h : a.Report py ref (py.lower expectedHeadSha) r) (hsha : isSha40 expectedHeadSha = true)
    (hopen : r.prState = .opened) (hhead : r.headMatches = true) (hci : r.ci = .pass)
    (hbase : r.baseBehindMain = false) (hclean : r.mergeable = .clean) :
    a.Passes py expectedHeadSha := by
  constructor
  · obtain ⟨fields, hread, ⟨head, hfield, hsha', hcurrent⟩, hmatches, -, hstatus,
      ⟨state, hstate, hprState⟩, m, hm, hmergeable⟩ := h.view
    obtain ⟨hcode, hloads⟩ := readObject_eq_ok.mp hread
    rw [hprState, prState_eq_opened] at hopen
    rw [hmergeable, mergeable_eq_clean] at hclean
    have hsame : head.toLower = expectedHeadSha.toLower := by
      rw [← py.lower_sha head (.inr hsha'), ← py.lower_sha expectedHeadSha (.inl hsha), ← hcurrent]
      exact of_decide_eq_true (hmatches.symm.trans hhead)
    rw [stringField_eq_ok] at hfield hstatus hstate hm
    exact ⟨hcode, fields, head, r.mergeStateStatus, hloads, hopen ▸ hstate, hfield, hsame,
      hclean.1 ▸ hm, hstatus, hclean.2⟩
  · have hclass : classifyChecks r.checks = some .pass := by
      obtain ⟨-, hclass⟩ | ⟨-, -, count, -, -, hverdict⟩ := h.ci
      · exact hci ▸ hclass
      · rw [hci] at hverdict
        split_ifs at hverdict
    obtain ⟨hne, hgood⟩ := classifyChecks_eq_pass.mp hclass
    obtain ⟨hnil, -⟩ | ⟨items, hloads, hitems⟩ := readChecks_cases h.checks
    · exact absurd hnil hne
    · refine ⟨items, hloads, ?_, fun item hitem => ?_⟩
      · rintro rfl
        exact hne (List.forall₂_nil_left_iff.mp hitems)
      · obtain ⟨check, hcheck, hread⟩ := forall₂_mem hitems hitem
        have hnumeric : item.numeric = true :=
          Json.numeric_of_mem (py.loads_numeric _ _ hloads) hitem
        exact readCheck_bucket hread hnumeric (hgood check hcheck)
  · obtain ⟨fields, hread, ⟨n, hn, hbehind⟩, -⟩ := h.compare
    obtain ⟨hcode, hloads⟩ := readObject_eq_ok.mp hread
    obtain ⟨v, hv, hint⟩ := behindBy_eq_ok.mp hn
    have hle : n ≤ 0 := not_lt.mp (of_decide_eq_false (hbehind.symm.trans hbase))
    exact ⟨hcode, fields, v, n, hloads, hv, hint, hle⟩

/-- A report of no workflows is one on a count of none. -/
theorem noWorkflows_of_report {expected : String} (h : a.Report py ref expected r)
    (hci : r.ci = .noWorkflows) : r.checks = [] ∧ a.NoWorkflows py := by
  obtain ⟨-, hclass⟩ | ⟨hclass, result, count, hworkflows, hcount, hverdict⟩ := h.ci
  · rw [hci] at hclass
    exact absurd hclass classifyChecks_ne_noWorkflows
  have hnil := classifyChecks_eq_none.mp hclass
  refine ⟨hnil, ?_, ?_⟩
  · obtain ⟨-, hempty | hnone⟩ | ⟨items, hloads, hitems⟩ := readChecks_cases h.checks
    · exact .inl hempty
    · exact .inr (.inr hnone)
    · rw [hnil] at hitems
      obtain rfl := List.forall₂_nil_right_iff.mp hitems
      exact .inr (.inl hloads)
  · obtain ⟨hcode, v, hloads, hint⟩ := readCount_eq_ok.mp hcount
    have hzero : count = 0 := by
      by_contra hne
      rw [hci, if_pos hne] at hverdict
      cases hverdict
    exact ⟨result, v, hworkflows, hcode, hloads, hzero ▸ hint⟩

end

/-- **The merge gate is fail-closed.**  A report is one on the answers of a single reading, the one
    the run ended with, and these leave it no choice.  It satisfies the merge condition only if the
    answers do, and says that there are no workflows only if they were counted and are none.  Any
    other answers make no report, or one that falls short. -/
theorem merge_gate_fail_closed (w : World) (gate : MergeGate) (prUrl expectedHeadSha : String)
    (fuel : ℕ) {h₀ h : History} {r : GateReport}
    (hc : Commits (gate.check w prUrl expectedHeadSha fuel) h₀ (some r) h) :
    ∃ ref, ∃ a : Answers, ∃ before t t', PullRequestRef.parse w.py prUrl = .ok ref ∧
      h₀ <:+ before ∧
      h = .clock t' :: .clock t :: a.effects ref r.baseRef r.currentHeadSha ++ before ∧
      a.Report w.py ref (w.py.lower expectedHeadSha) r ∧
      (∀ r', a.Report w.py ref (w.py.lower expectedHeadSha) r' →
        r' = { r with elapsedS := r'.elapsedS }) ∧
      (r.prState = .opened → r.headMatches = true → r.ci = .pass → r.baseBehindMain = false →
        r.mergeable = .clean → a.Passes w.py expectedHeadSha) ∧
      (r.ci = .noWorkflows → r.checks = [] ∧ a.NoWorkflows w.py) := by
  obtain ⟨hsha, ref, a, before, t, t', href, hreport, hsuffix, hh, -⟩ := check_last hc
  refine ⟨ref, a, before, t, t', href, hsuffix, hh, hreport, fun r' => hreport.unique, ?_, ?_⟩
  · intro hopen hhead hci hbase hclean
    exact passes_of_report hreport hsha hopen hhead hci hbase hclean
  · exact noWorkflows_of_report hreport

/-! ### A pull request to try the gate on -/

namespace Octo

/-- The pull request of the examples. -/
def prUrl : String := "https://github.com/octo/sandbox/pull/7"

/-- The head of the examples. -/
def head : String := "0123456789abcdef0123456789abcdef01234567"

/-- The head pushed in between. -/
def pushedHead : String := "1111111111111111111111111111111111111111"

/-- The reference of the examples. -/
def ref : PullRequestRef :=
  { url := prUrl, host := "github.com", owner := "octo", repo := "sandbox", number := 7 }

/-- What `gh pr view` prints of an open pull request. -/
def viewText : String :=
  "\x7b\"state\": \"OPEN\", \"headRefOid\": \"0123456789abcdef0123456789abcdef01234567\", " ++
    "\"baseRefName\": \"main\", \"mergeable\": \"MERGEABLE\", \"mergeStateStatus\": \"CLEAN\"\x7d"

/-- What `gh pr view` prints once the other head is pushed. -/
def pushedViewText : String :=
  "\x7b\"state\": \"OPEN\", \"headRefOid\": \"1111111111111111111111111111111111111111\", " ++
    "\"baseRefName\": \"main\", \"mergeable\": \"MERGEABLE\", \"mergeStateStatus\": \"CLEAN\"\x7d"

/-- What `gh pr checks` prints when the test passed. -/
def passedText : String := "[\x7b\"name\": \"test\", \"bucket\": \"pass\", \"link\": \"\"\x7d]"

/-- What `gh pr checks` prints when the test failed. -/
def failedText : String := "[\x7b\"name\": \"test\", \"bucket\": \"fail\", \"link\": \"\"\x7d]"

/-- What `gh pr checks` prints while the test runs. -/
def pendingText : String :=
  "[\x7b\"name\": \"test\", \"bucket\": \"pending\", \"link\": \"\"\x7d]"

/-- What `gh api` prints of a head that is up to date. -/
def compareText : String :=
  "\x7b\"behind_by\": 0, \"base_commit\": \"2222222222222222222222222222222222222222\", " ++
    "\"merge_base_commit\": \"2222222222222222222222222222222222222222\"\x7d"

/-- What `gh pr view` says of it at the head `sha`. -/
def viewed (sha : String) : List (String × Json) :=
  [("state", .str "OPEN"), ("headRefOid", .str sha), ("baseRefName", .str "main"),
    ("mergeable", .str "MERGEABLE"), ("mergeStateStatus", .str "CLEAN")]

/-- The texts `gh` prints about it, and the values in them. -/
def printed : List (String × Json) :=
  [(viewText, .obj (viewed head)), (pushedViewText, .obj (viewed pushedHead)),
    (passedText, .arr [.obj [("name", .str "test"), ("bucket", .str "pass"), ("link", .str "")]]),
    (failedText, .arr [.obj [("name", .str "test"), ("bucket", .str "fail"), ("link", .str "")]]),
    (pendingText,
      .arr [.obj [("name", .str "test"), ("bucket", .str "pending"), ("link", .str "")]]),
    (compareText, .obj [("behind_by", .num "0"),
      ("base_commit", .str "2222222222222222222222222222222222222222"),
      ("merge_base_commit", .str "2222222222222222222222222222222222222222")])]

/-- A Python that reads the texts of the examples. -/
def python : Python where
  loads text := ((printed.lookup text).map Loaded.value).getD .decodeError
  lower := String.toLower
  repr s := "'" ++ s ++ "'"
  loads_numeric text v h := by
    cases hv : printed.lookup text with
    | none =>
      rw [hv] at h
      cases h
    | some v' =>
      rw [hv] at h
      obtain rfl := Loaded.value.inj h
      have hprinted : Json.numericFields printed = true := by decide +kernel
      exact Json.numeric_of_lookup hprinted hv
  lower_sha _ _ := rfl

/-- A world in which the pull request is as above; `view` and `checks` say what the calls of these
    names print. -/
def world (view checks : History → String) : World where
  py := python
  gh h args := .ok
    { returncode := 0
      stdout :=
        if args = viewArgs ref then view h
        else if args = checksArgs ref then checks h
        else compareText
      stderr := "" }
  time h := h.slept

/-- Nothing changes, and the checks have passed. -/
def green : World := world (fun _ => viewText) fun _ => passedText

end Octo

/-- A green pull request: the gate says so after one reading, and its answers bear it out. -/
theorem green_passes :
    ∃ r h, Commits (({} : MergeGate).check Octo.green Octo.prUrl Octo.head 1) [] (some r) h ∧
      (r.prState = .opened ∧ r.headMatches = true ∧ r.ci = .pass ∧ r.baseBehindMain = false ∧
        r.mergeable = .clean) ∧ ∃ a : Answers, a.Passes Octo.python Octo.head := by
  have hgreen : (((({} : MergeGate).check Octo.green Octo.prUrl Octo.head 1).run []).toOption.bind
      Prod.fst).any (fun r => decide (r.prState = .opened ∧ r.headMatches = true ∧ r.ci = .pass ∧
        r.baseBehindMain = false ∧ r.mergeable = .clean)) = true := by
    decide +kernel
  cases hrun : (({} : MergeGate).check Octo.green Octo.prUrl Octo.head 1).run [] with
  | error e =>
    rw [hrun] at hgreen
    cases hgreen
  | ok result =>
    obtain ⟨o, h⟩ := result
    cases o with
    | none =>
      rw [hrun] at hgreen
      cases hgreen
    | some r =>
      rw [hrun] at hgreen
      have hgood := of_decide_eq_true hgreen
      obtain ⟨hopen, hhead, hci, hbase, hclean⟩ := hgood
      obtain ⟨ref, a, -, -, -, -, -, -, -, -, hpasses, -⟩ :=
        merge_gate_fail_closed _ _ Octo.prUrl Octo.head 1 hrun
      exact ⟨r, h, hrun, ⟨hopen, hhead, hci, hbase, hclean⟩, a,
        hpasses hopen hhead hci hbase hclean⟩

end AgentHub
