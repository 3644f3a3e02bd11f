import AgentHub.MergeGate.FailClosed

namespace AgentHub

open Relational Polling

/-!
# The head a verdict is about

A reading asks for the head and for the checks in two calls, and only the first answer names a
commit.  Between them the branch may be pushed to.

* `GitHub` — a world that answers for a pull request whose head may change between any two calls;
* `GitHub.Swapped` — a push between the two calls that changes the verdict's subject;
* `ci_about_head_iff` — the verdict is about the reported head exactly when there was none;
* `ci_of_another_head` — a report that joins one commit's name to another one's checks.
-/

/-- A world that answers for the pull request `ref`: when a call is made it has one head, and this
    is what the view names and the checks are of. -/
structure GitHub (w : World) (ref : PullRequestRef) where
  head : History → String
  checksOf : History → String → Except GateError GhResult
  view : ∀ h result fields sha, w.gh h (viewArgs ref) = .ok result →
    readObject w.py (viewArgs ref) result = .ok fields →
    stringField fields "headRefOid" = .ok sha → sha = head h
  checks : ∀ h, w.gh h (checksArgs ref) = checksOf h (head h)

/-- When the view was asked for the head was `expectedHeadSha`; when the checks were, it was
    another one, with checks that have all passed or been skipped. -/
def GitHub.Swapped {w : World} {ref : PullRequestRef} (g : GitHub w ref) (expectedHeadSha : String)
    (viewing checking : History) : Prop :=
  (g.head viewing).toLower = expectedHeadSha.toLower ∧
    (g.head checking).toLower ≠ expectedHeadSha.toLower ∧
    ∃ result checks, g.checksOf checking (g.head checking) = .ok result ∧
      readChecks w.py (checksArgs ref) result = .ok checks ∧ classifyChecks checks = some .pass

section

variable {w : World} {ref : PullRequestRef} {r : GateReport} {a : Answers}

/-- The head matches if the head was the expected one when the view was asked for. -/
theorem headMatches_iff (g : GitHub w ref) {expectedHeadSha : String} {h : History}
    (hsha : isSha40 expectedHeadSha = true)
    (hreport : a.Report w.py ref (w.py.lower expectedHeadSha) r)
    (hview : w.gh h (viewArgs ref) = .ok a.view) :
    r.headMatches = true ↔ (g.head h).toLower = expectedHeadSha.toLower := by
  obtain ⟨fields, hread, ⟨head, hfield, hhead, hcurrent⟩, hmatches, -⟩ := hreport.view
  obtain rfl := g.view h a.view fields head hview hread hfield
  rw [hmatches, decide_eq_true_iff, hcurrent, w.py.lower_sha _ (.inr hhead),
    w.py.lower_sha expectedHeadSha (.inl hsha)]

/-- The verdict is `pass` if the checks that were read all passed or were skipped. -/
theorem ci_eq_pass_iff {expected : String} (hreport : a.Report w.py ref expected r) :
    r.ci = .pass ↔ ∃ checks, readChecks w.py (checksArgs ref) a.checks = .ok checks ∧
      classifyChecks checks = some .pass := by
  constructor
  · intro hpass
    refine ⟨r.checks, hreport.checks, ?_⟩
    obtain ⟨-, hclass⟩ | ⟨-, result, count, -, -, hverdict⟩ := hreport.ci
    · exact hpass ▸ hclass
    · rw [hpass] at hverdict
      split_ifs at hverdict
  · rintro ⟨checks, hchecks, hpass⟩
    obtain rfl := Except.ok.inj (hreport.checks.symm.trans hchecks)
    obtain ⟨-, hclass⟩ | ⟨hnone, -⟩ := hreport.ci
    · exact Option.some.inj (hclass.symm.trans hpass)
    · rw [hpass] at hnone
      cases hnone

end

/-- **When the verdict is about the reported head.**  In every run of the gate against a pull
    request whose head may change at any time, what the last reading's view and checks say is said
    of the head at their calls; and that the checks are those of the expected head, in a report with
    a matching head and the verdict `pass`, holds if and only if no push between these two calls
    swapped the head. -/
theorem ci_about_head_iff (w : World) {ref : PullRequestRef} (g : GitHub w ref) (gate : MergeGate)
    {prUrl : String} (href : PullRequestRef.parse w.py prUrl = .ok ref) (expectedHeadSha : String)
    (fuel : ℕ) {h₀ h : History} {r : GateReport}
    (hc : Commits (gate.check w prUrl expectedHeadSha fuel) h₀ (some r) h) :
    ∃ a : Answers, ∃ viewing t t',
      h = .clock t' :: .clock t :: a.effects ref r.baseRef r.currentHeadSha ++ viewing ∧
      h₀ <:+ viewing ∧
      let checking : History := .call (viewArgs ref) a.view :: viewing
      g.checksOf checking (g.head checking) = .ok a.checks ∧
      readChecks w.py (checksArgs ref) a.checks = .ok r.checks ∧
      ((r.headMatches = true → r.ci = .pass →
        (g.head checking).toLower = expectedHeadSha.toLower) ↔
          ¬ g.Swapped expectedHeadSha viewing checking) := by
  obtain ⟨hsha, ref', a, viewing, t, t', href', hreport, hsuffix, hh, hview, hchecks⟩ :=
    check_last hc
  obtain rfl : ref' = ref := Except.ok.inj (href'.symm.trans href)
  rw [g.checks] at hchecks
  refine ⟨a, viewing, t, t', hh, hsuffix, hchecks, hreport.checks, ?_⟩
  rw [headMatches_iff g hsha hreport hview, ci_eq_pass_iff hreport]
  constructor
  · rintro hsound ⟨hexpected, hother, result, checks, hresult, hread, hpass⟩
    obtain rfl := Except.ok.inj (hchecks.symm.trans hresult)
    exact hother (hsound hexpected ⟨checks, hread, hpass⟩)
  · rintro hquiet hexpected ⟨checks, hread, hpass⟩
    by_contra hother
    exact hquiet ⟨hexpected, hother, a.checks, checks, hchecks, hread, hpass⟩

/-! ### A push between the two calls -/

namespace Octo

/-- The branch was pushed to right after a view, and back before the next one. -/
def moved (h : History) : Bool :=
  h.head?.any fun effect => decide (effect = .call (viewArgs ref) ⟨0, viewText, ""⟩)

/-- The checks of the expected head have failed, those of the other one have passed. -/
def pushed : World :=
  world (fun h => if moved h then pushedViewText else viewText)
    fun h => if moved h then passedText else failedText

/-- What `gh pr view` prints names the head it is asked at. -/
theorem view_names_head {text sha : String} (h : printed.lookup text = some (.obj (viewed sha)))
    {fields : List (String × Json)} {named : String}
    (hread : readObject python (viewArgs ref) ⟨0, text, ""⟩ = .ok fields)
    (hfield : stringField fields "headRefOid" = .ok named) : named = sha := by
  obtain ⟨-, hloads⟩ := readObject_eq_ok.mp hread
  have hprinted : python.loads text = .value (.obj (viewed sha)) := by
    simp only [python, h, Option.map_some, Option.getD_some]
  obtain rfl := Json.obj.inj (Loaded.value.inj (hprinted.symm.trans hloads))
  have hnamed : stringField (viewed sha) "headRefOid" = .ok sha := rfl
  exact Except.ok.inj (hfield.symm.trans hnamed)

/-- The GitHub behind the example, whose head moves. -/
def github : GitHub pushed ref where
  head h := if moved h then pushedHead else head
  checksOf h sha := .ok ⟨0, if sha = pushedHead then passedText else failedText, ""⟩
  view h result fields sha hgh hread hsha := by
    have hresult : result = ⟨0, if moved h then pushedViewText else viewText, ""⟩ :=
      (Except.ok.inj hgh).symm
    rw [hresult] at hread
    cases hmoved : moved h with
    | true =>
      rw [hmoved] at hread
      have hprinted : printed.lookup pushedViewText = some (.obj (viewed pushedHead)) := by
        decide +kernel
      exact view_names_head hprinted hread hsha
    | false =>
      rw [hmoved] at hread
      have hprinted : printed.lookup viewText = some (.obj (viewed head)) := by decide +kernel
      exact view_names_head hprinted hread hsha
  checks h := by
    have hargs : checksArgs ref ≠ viewArgs ref := by decide +kernel
    have hresult : pushed.gh h (checksArgs ref) =
        .ok ⟨0, if moved h then passedText else failedText, ""⟩ := by
      simp only [pushed, world, if_neg hargs, if_pos]
    rw [hresult]
    cases moved h with
    | true => simp only [if_true]
    | false =>
      have hother : head ≠ pushedHead := by decide +kernel
      simp only [Bool.false_eq_true, if_false, if_neg hother]

/-- The checks of the expected head have failed. -/
theorem checksOf_head (h : History) : github.checksOf h head = .ok ⟨0, failedText, ""⟩ := by
  have hother : head ≠ pushedHead := by decide +kernel
  simp only [github, if_neg hother]

/-- What the gate does while the branch is pushed to and back. -/
def pushedHistory : History :=
  [.clock 0, .clock 0, .call (compareArgs ref "main" head) ⟨0, compareText, ""⟩,
    .call (checksArgs ref) ⟨0, passedText, ""⟩, .call (viewArgs ref) ⟨0, viewText, ""⟩, .clock 0]

/-- It reports a matching head, and checks that have passed. -/
theorem pushed_run : ∃ r, Commits (({} : MergeGate).check pushed prUrl head 1) [] (some r)
    pushedHistory ∧ r.headMatches = true ∧ r.ci = .pass := by
  have hrun : ((({} : MergeGate).check pushed prUrl head 1).run []).toOption.map
      (fun p => (p.1.map fun r => (r.headMatches, r.ci), p.2)) =
        some (some (true, .pass), pushedHistory) := by
    decide +kernel
  cases hresult : (({} : MergeGate).check pushed prUrl head 1).run [] with
  | error e =>
    rw [hresult] at hrun
    cases hrun
  | ok result =>
    obtain ⟨o, h⟩ := result
    rw [hresult] at hrun
    obtain ⟨ho, rfl⟩ := Prod.mk.inj (Option.some.inj hrun)
    obtain ⟨r, rfl, hr⟩ := Option.map_eq_some_iff.mp ho
    obtain ⟨hhead, hci⟩ := Prod.mk.inj hr
    exact ⟨r, hresult, hhead, hci⟩

end Octo

/-- The head is the expected one when the gate asks for it.  When it asks for the checks another one
    has been pushed, with checks that pass; those of the expected head fail.  The report says that
    the head matches and the checks pass. -/
theorem ci_of_another_head :
    ∃ r h, Commits (({} : MergeGate).check Octo.pushed Octo.prUrl Octo.head 1) [] (some r) h ∧
      r.headMatches = true ∧ r.ci = .pass ∧
      ∃ checking result, Effect.call (checksArgs Octo.ref) result :: checking <:+ h ∧
        Octo.github.head checking = Octo.pushedHead ∧
        Octo.github.checksOf checking Octo.head = .ok ⟨0, Octo.failedText, ""⟩ := by
  obtain ⟨r, hc, hhead, hci⟩ := Octo.pushed_run
  refine ⟨r, _, hc, hhead, hci, _, _, ⟨[_, _, _], rfl⟩, ?_, Octo.checksOf_head _⟩
  decide +kernel

/-- The push swapped the head. -/
theorem swapped_verdict :
    ∃ viewing checking, Octo.github.Swapped Octo.head viewing checking := by
  obtain ⟨r, hc, hhead, hci⟩ := Octo.pushed_run
  have href : PullRequestRef.parse Octo.pushed.py Octo.prUrl = .ok Octo.ref := by
    have hparse : (PullRequestRef.parse Octo.python Octo.prUrl).toOption = some Octo.ref := by
      decide +kernel
    cases hresult : PullRequestRef.parse Octo.python Octo.prUrl with
    | error e =>
      rw [hresult] at hparse
      cases hparse
    | ok ref =>
      rw [hresult] at hparse
      exact hresult.trans (congrArg Except.ok (Option.some.inj hparse))
  obtain ⟨a, viewing, t, t', hh, -, -, -, hiff⟩ :=
    ci_about_head_iff Octo.pushed Octo.github {} href Octo.head 1 hc
  refine ⟨viewing, .call (viewArgs Octo.ref) a.view :: viewing, ?_⟩
  by_contra hquiet
  have hsame := hiff.mpr hquiet hhead hci
  -- the reading is the whole run, so its checks were asked for right after the view
  have hchecking : Effect.call (viewArgs Octo.ref) a.view :: viewing =
      [.call (viewArgs Octo.ref) ⟨0, Octo.viewText, ""⟩, .clock 0] := by
    cases hworkflows : a.workflows with
    | none =>
      simp [Answers.effects, hworkflows, Octo.pushedHistory] at hh
      obtain ⟨-, -, -, -, hview, hviewing⟩ := hh
      rw [← hview, ← hviewing]
    | some result =>
      have hargs : checksArgs Octo.ref ≠ workflowsArgs Octo.ref := by decide +kernel
      simp [Answers.effects, hworkflows, Octo.pushedHistory, hargs] at hh
  rw [hchecking] at hsame
  revert hsame
  decide +kernel

end AgentHub
