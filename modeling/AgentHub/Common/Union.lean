import AgentHub.Common.Results
import Mathlib.Data.List.MinMax

namespace AgentHub

/-!
# One body, several models

A body may be read by another model than the one it was written for.  What the reader does not
declare is dropped without a word, and what the body does not carry takes its default.

* `*.Reads` — the fields a model reads out of a body, before its own rules;
  `*.validate_eq_some_iff` — validation is reading plus the rules;
* `asRebase`, `asImplementer` — the result of reading one model's dump under the other;
* `ResultUnion` — `ImplementerResult | ReviewerResult | RebaseResult`: some valid member wins.
-/

/-! ### Reading and rules -/

namespace ImplementerResult

/-- The fields of `r` are what the model reads out of `b`. -/
structure Reads (b : Fields) (r : ImplementerResult) : Prop where
  outcome : (reqStr b "outcome").bind ImplementerOutcome.ofValue? = some r.outcome
  prUrl : optStr b "pr_url" = some r.prUrl
  headSha : optStr b "head_sha" = some r.headSha
  commits : listOf Json.asStr? b "commits" = some r.commits
  tests : listOf TestResult.validate b "tests" = some r.tests
  blocker : optStr b "blocker" = some r.blocker
  resolved : optListOf Json.asStr? b "resolved_finding_ids" = some r.resolvedFindingIds
  disputed : optListOf Json.asStr? b "disputed_finding_ids" = some r.disputedFindingIds
  summary : reqStr b "summary" = some r.summary

/-- A result carries its rules, so a body validates to it exactly when it reads as it. -/
theorem validate_eq_some_iff {b : Fields} {r : ImplementerResult} :
    validate b = some r ↔ Reads b r := by
  constructor
  · intro h
    simp only [validate, Option.bind_eq_bind, Option.bind_eq_some_iff] at h
    obtain ⟨outcome, ho, prUrl, hp, headSha, hh, commits, hc, tests, ht, blocker, hb, resolved, hr,
      disputed, hd, summary, hs, h⟩ := h
    split at h
    · obtain rfl := Option.some.inj h
      exact ⟨Option.bind_eq_some_iff.mpr ho, hp, hh, hc, ht, hb, hr, hd, hs⟩
    · cases h
  · intro h
    have hrules : HeadOk r.headSha ∧ ImplementerRule r.outcome r.prUrl r.headSha :=
      ⟨r.head_ok, r.completed_ok⟩
    simp [validate, h.outcome, h.prUrl, h.headSha, h.commits, h.tests, h.blocker, h.resolved,
      h.disputed, h.summary, hrules]

end ImplementerResult

namespace RebaseResult

/-- The fields of `r` are what the model reads out of `b`. -/
structure Reads (b : Fields) (r : RebaseResult) : Prop where
  outcome : (reqStr b "outcome").bind ImplementerOutcome.ofValue? = some r.outcome
  prUrl : optStr b "pr_url" = some r.prUrl
  headSha : optStr b "head_sha" = some r.headSha
  conflictFiles : listOf Json.asStr? b "conflict_files" = some r.conflictFiles
  resolution : optStr b "resolution_summary" = some r.resolutionSummary
  tests : listOf TestResult.validate b "tests" = some r.tests
  blocker : optStr b "blocker" = some r.blocker
  summary : reqStr b "summary" = some r.summary

/-- A result carries its rules, so a body validates to it exactly when it reads as it. -/
theorem validate_eq_some_iff {b : Fields} {r : RebaseResult} : validate b = some r ↔ Reads b r := by
  constructor
  · intro h
    simp only [validate, Option.bind_eq_bind, Option.bind_eq_some_iff] at h
    obtain ⟨outcome, ho, prUrl, hp, headSha, hh, conflictFiles, hc, resolution, hr, tests, ht,
      blocker, hb, summary, hs, h⟩ := h
    split at h
    · obtain rfl := Option.some.inj h
      exact ⟨Option.bind_eq_some_iff.mpr ho, hp, hh, hc, hr, ht, hb, hs⟩
    · cases h
  · intro h
    have hrules : HeadOk r.headSha ∧
        RebaseRule r.outcome r.headSha r.conflictFiles r.resolutionSummary :=
      ⟨r.head_ok, r.completed_ok⟩
    simp [validate, h.outcome, h.prUrl, h.headSha, h.conflictFiles, h.resolution, h.tests,
      h.blocker, h.summary, hrules]

end RebaseResult

/-! ### An implementer's body and a rebase body -/

/-- The body says nothing that only a rebase result has. -/
def SilentOnRebase (b : Fields) : Prop :=
  listOf Json.asStr? b "conflict_files" = some [] ∧ optStr b "resolution_summary" = some none

instance (b : Fields) : Decidable (SilentOnRebase b) := inferInstanceAs (Decidable (_ ∧ _))

/-- The body says nothing that only an implementer's result has. -/
def SilentOnImplementation (b : Fields) : Prop :=
  listOf Json.asStr? b "commits" = some [] ∧
    optListOf Json.asStr? b "resolved_finding_ids" = some none ∧
    optListOf Json.asStr? b "disputed_finding_ids" = some none

instance (b : Fields) : Decidable (SilentOnImplementation b) :=
  inferInstanceAs (Decidable (_ ∧ _ ∧ _))

/-- What the rebase model makes of an implementer's result: no conflicts, and none resolved. -/
def ImplementerResult.asRebase (r : ImplementerResult) : RebaseResult where
  outcome := r.outcome
  prUrl := r.prUrl
  headSha := r.headSha
  conflictFiles := []
  resolutionSummary := none
  tests := r.tests
  blocker := r.blocker
  summary := r.summary
  head_ok := r.head_ok
  completed_ok := fun hdone => ⟨(r.completed_ok hdone).2, fun hne => absurd rfl hne⟩

/-- What the implementer model makes of a rebase result, once its own rule is met. -/
def RebaseResult.asImplementer (r : RebaseResult)
    (h : ImplementerRule r.outcome r.prUrl r.headSha) :
    ImplementerResult where
  outcome := r.outcome
  prUrl := r.prUrl
  headSha := r.headSha
  commits := []
  tests := r.tests
  blocker := r.blocker
  resolvedFindingIds := none
  disputedFindingIds := none
  summary := r.summary
  head_ok := r.head_ok
  completed_ok := h

namespace ImplementerResult

variable {b : Fields} {r : ImplementerResult}

/-- A dump is read by its own model. -/
theorem reads_dump (r : ImplementerResult) : Reads r.dump r :=
  validate_eq_some_iff.mp (validate_dump r)

/-- A body that is silent on what a rebase result adds reads the same under both models. -/
theorem Reads.asRebase (h : Reads b r) (hsilent : SilentOnRebase b) :
    RebaseResult.Reads b r.asRebase :=
  ⟨h.outcome, h.prUrl, h.headSha, hsilent.1, hsilent.2, h.tests, h.blocker, h.summary⟩

/-- The dump of an implementer's result is silent, so the rebase model accepts it. -/
theorem asRebase_validate_dump (r : ImplementerResult) :
    RebaseResult.validate r.dump = some r.asRebase :=
  RebaseResult.validate_eq_some_iff.mpr (r.reads_dump.asRebase ⟨rfl, rfl⟩)

/-- The rebase model reads the body itself as it reads the dump only if the body was silent. -/
theorem Reads.rebase_validate_iff (h : Reads b r) :
    RebaseResult.validate b = some r.asRebase ↔ SilentOnRebase b := by
  constructor
  · intro hv
    have hreads := RebaseResult.validate_eq_some_iff.mp hv
    exact ⟨hreads.conflictFiles, hreads.resolution⟩
  · intro hsilent
    exact RebaseResult.validate_eq_some_iff.mpr (h.asRebase hsilent)

end ImplementerResult

namespace RebaseResult

variable {b : Fields} {r : RebaseResult}

/-- A dump is read by its own model. -/
theorem reads_dump (r : RebaseResult) : Reads r.dump r :=
  validate_eq_some_iff.mp (validate_dump r)

/-- A body read as a rebase result is read as the implementer's of the same values. -/
theorem Reads.asImplementer (h : Reads b r) (hrule : ImplementerRule r.outcome r.prUrl r.headSha)
    (hsilent : SilentOnImplementation b) : ImplementerResult.Reads b (r.asImplementer hrule) :=
  ⟨h.outcome, h.prUrl, h.headSha, hsilent.1, h.tests, h.blocker, hsilent.2.1, hsilent.2.2,
    h.summary⟩

/-- A rebase result's dump validates as an implementer's result too. -/
theorem asImplementer_validate_dump (r : RebaseResult)
    (hrule : ImplementerRule r.outcome r.prUrl r.headSha) :
    ImplementerResult.validate r.dump = some (r.asImplementer hrule) :=
  ImplementerResult.validate_eq_some_iff.mpr (r.reads_dump.asImplementer hrule ⟨rfl, rfl, rfl⟩)

/-- The implementer model accepts the dump only under its own rule. -/
theorem asImplementer_validate_dump_iff (r : RebaseResult) {v : ImplementerResult} :
    ImplementerResult.validate r.dump = some v ↔
      ∃ hrule : ImplementerRule r.outcome r.prUrl r.headSha, v = r.asImplementer hrule := by
  constructor
  · intro hv
    have hreads := ImplementerResult.validate_eq_some_iff.mp hv
    have houtcome : r.outcome = v.outcome :=
      Option.some.inj (r.reads_dump.outcome.symm.trans hreads.outcome)
    have hpr : r.prUrl = v.prUrl := Option.some.inj (r.reads_dump.prUrl.symm.trans hreads.prUrl)
    have hhead : r.headSha = v.headSha :=
      Option.some.inj (r.reads_dump.headSha.symm.trans hreads.headSha)
    have hrule : ImplementerRule r.outcome r.prUrl r.headSha := by
      rw [houtcome, hpr, hhead]
      exact v.completed_ok
    refine ⟨hrule, ?_⟩
    rw [r.asImplementer_validate_dump hrule] at hv
    exact (Option.some.inj hv).symm
  · rintro ⟨hrule, rfl⟩
    exact r.asImplementer_validate_dump hrule

/-- The implementer's model accepts the body exactly when it is silent on its own fields. -/
theorem Reads.implementer_validate_iff (h : Reads b r)
    (hrule : ImplementerRule r.outcome r.prUrl r.headSha) :
    ImplementerResult.validate b = some (r.asImplementer hrule) ↔ SilentOnImplementation b := by
  constructor
  · intro hv
    have hreads := ImplementerResult.validate_eq_some_iff.mp hv
    exact ⟨hreads.commits, hreads.resolved, hreads.disputed⟩
  · intro hsilent
    exact ImplementerResult.validate_eq_some_iff.mpr (h.asImplementer hrule hsilent)

end RebaseResult

/-! ### A reviewer's body -/

/-- No model of an outcome reads a reviewer's dump. -/
theorem ReviewerResult.validate_dump_outcome (r : ReviewerResult) :
    ImplementerResult.validate r.dump = none ∧ RebaseResult.validate r.dump = none := by
  have hmissing : reqStr r.dump "outcome" = none := rfl
  constructor
  · simp [ImplementerResult.validate, hmissing]
  · simp [RebaseResult.validate, hmissing]

/-- No implementer's dump is a reviewer's result. -/
theorem ImplementerResult.reviewer_validate_dump (r : ImplementerResult) :
    ReviewerResult.validate r.dump = none := by
  have hmissing : reqStr r.dump "verdict" = none := rfl
  simp [ReviewerResult.validate, hmissing]

/-- No rebase dump is a reviewer's result. -/
theorem RebaseResult.reviewer_validate_dump (r : RebaseResult) :
    ReviewerResult.validate r.dump = none := by
  have hmissing : reqStr r.dump "verdict" = none := rfl
  simp [ReviewerResult.validate, hmissing]

/-! ### The union -/

/-- `RESULT_MODELS[role].model_validate`. -/
def TaskRole.read? : TaskRole → Fields → Option TaskResult
  | .implementer, b => (ImplementerResult.validate b).map .implementer
  | .reviewer, b => (ReviewerResult.validate b).map .reviewer
  | .rebase, b => (RebaseResult.validate b).map .rebase

/-- The implementer's role reads with the implementer's model. -/
theorem read?_implementer {b : Fields} {v : ImplementerResult} :
    TaskRole.implementer.read? b = some (.implementer v) ↔
      ImplementerResult.validate b = some v := by
  simp [TaskRole.read?]

/-- The rebase role reads with the rebase model. -/
theorem read?_rebase {b : Fields} {v : RebaseResult} :
    TaskRole.rebase.read? b = some (.rebase v) ↔ RebaseResult.validate b = some v := by
  simp [TaskRole.read?]

/-- The model a result belongs to. -/
def TaskResult.role : TaskResult → TaskRole
  | .implementer _ => .implementer
  | .reviewer _ => .reviewer
  | .rebase _ => .rebase

/-- A result read for a role is of that role. -/
theorem TaskRole.role_of_read? {role : TaskRole} {b : Fields} {t : TaskResult}
    (h : role.read? b = some t) : t.role = role := by
  cases role <;> obtain ⟨r, -, rfl⟩ := Option.map_eq_some_iff.mp h <;> rfl

/-- A result is read back from its dump by its own role. -/
@[simp] theorem TaskResult.read?_dump (t : TaskResult) : t.role.read? t.dump = some t := by
  cases t with
  | implementer r => simp [TaskResult.role, TaskRole.read?, dump, ImplementerResult.validate_dump]
  | reviewer r => simp [TaskResult.role, TaskRole.read?, dump, ReviewerResult.validate_dump]
  | rebase r => simp [TaskResult.role, TaskRole.read?, dump, RebaseResult.validate_dump]

/-- What the model of a role makes of a dump: the result itself, an implementer's result as a
    rebase, or a rebase as an implementer's result. -/
theorem TaskRole.read?_dump_cases {role : TaskRole} {t v : TaskResult}
    (h : role.read? t.dump = some v) :
    (t.role = role ∧ v = t) ∨
      (∃ i, role = .rebase ∧ t = .implementer i ∧ v = .rebase i.asRebase) ∨
      ∃ i hrule, role = .implementer ∧ t = .rebase i ∧
        v = .implementer (i.asImplementer hrule) := by
  by_cases hrole : t.role = role
  · subst hrole
    rw [TaskResult.read?_dump] at h
    exact .inl ⟨rfl, (Option.some.inj h).symm⟩
  · right
    cases t with
    | implementer i =>
      cases role with
      | implementer => exact absurd rfl hrole
      | reviewer =>
        have hnone : TaskRole.reviewer.read? (TaskResult.implementer i).dump = none :=
          congrArg (Option.map TaskResult.reviewer) i.reviewer_validate_dump
        exact absurd (h.symm.trans hnone) (by simp)
      | rebase =>
        obtain ⟨r, hr, rfl⟩ := Option.map_eq_some_iff.mp h
        obtain rfl : i.asRebase = r :=
          Option.some.inj (i.asRebase_validate_dump.symm.trans hr)
        exact .inl ⟨i, rfl, rfl, rfl⟩
    | reviewer i =>
      cases role with
      | implementer =>
        have hnone : TaskRole.implementer.read? (TaskResult.reviewer i).dump = none :=
          congrArg (Option.map TaskResult.implementer) i.validate_dump_outcome.1
        exact absurd (h.symm.trans hnone) (by simp)
      | reviewer => exact absurd rfl hrole
      | rebase =>
        have hnone : TaskRole.rebase.read? (TaskResult.reviewer i).dump = none :=
          congrArg (Option.map TaskResult.rebase) i.validate_dump_outcome.2
        exact absurd (h.symm.trans hnone) (by simp)
    | rebase i =>
      cases role with
      | implementer =>
        obtain ⟨r, hr, rfl⟩ := Option.map_eq_some_iff.mp h
        obtain ⟨hrule, rfl⟩ := i.asImplementer_validate_dump_iff.mp hr
        exact .inr ⟨i, hrule, rfl, rfl, rfl⟩
      | reviewer =>
        have hnone : TaskRole.reviewer.read? (TaskResult.rebase i).dump = none :=
          congrArg (Option.map TaskResult.reviewer) i.reviewer_validate_dump
        exact absurd (h.symm.trans hnone) (by simp)
      | rebase => exact absurd rfl hrole

/-- `ImplementerResult | ReviewerResult | RebaseResult` as the type of a parameter: a body is
    accepted when some member validates it, and what comes out is what that member read. -/
structure ResultUnion where
  choose : Fields → Option TaskResult
  valid : ∀ b t, choose b = some t → t.role.read? b = some t
  total : ∀ b (role : TaskRole) t, role.read? b = some t → (choose b).isSome = true

namespace ResultUnion

/-- The fields each model declares. -/
def declared : TaskRole → List String
  | .implementer => ["outcome", "pr_url", "head_sha", "commits", "tests", "blocker",
      "resolved_finding_ids", "disputed_finding_ids", "summary"]
  | .reviewer => ["verdict", "pr_url", "review_url", "reviewed_head_sha", "blocking_findings",
      "nonblocking_findings", "tests", "summary"]
  | .rebase => ["outcome", "pr_url", "head_sha", "conflict_files", "resolution_summary", "tests",
      "blocker", "summary"]

/-- What the members make of a body, in the order they are declared. -/
def readings (b : Fields) : List TaskResult :=
  [TaskRole.implementer, .reviewer, .rebase].filterMap fun role => role.read? b

/-- The readings of a body are those its roles give. -/
theorem mem_readings {b : Fields} {t : TaskResult} : t ∈ readings b ↔ t.role.read? b = some t := by
  simp only [readings, List.mem_filterMap]
  constructor
  · rintro ⟨role, -, h⟩
    rw [TaskRole.role_of_read? h]
    exact h
  · intro h
    refine ⟨t.role, ?_, h⟩
    cases t <;> simp [TaskResult.role]

/-- The member that sets the most fields, the first of them on a tie.  Only the fields of the body
    itself are counted; the smart mode of pydantic counts those of nested models too. -/
def smart : ResultUnion where
  choose b := (readings b).argmax fun t => (declared t.role).countP fun name =>
    (b.lookup name).isSome
  valid b t h := mem_readings.mp (List.argmax_mem h)
  total b role t h := by
    have hmem : t ∈ readings b := mem_readings.mpr (by rw [TaskRole.role_of_read? h]; exact h)
    rw [Option.isSome_iff_ne_none]
    intro hnone
    rw [List.argmax_eq_none.mp hnone] at hmem
    exact List.not_mem_nil hmem

end ResultUnion

end AgentHub
