import AgentHub.Common.Json
import AgentHub.Common.Models

namespace AgentHub

/-!
# Typed result bodies

The three bodies a worker may report and their validation from JSON.  A body that breaks a
field pattern or the cross-field rule of its model cannot be built: the rules are fields.

* `ImplementerResult.validate`, `ReviewerResult.validate`, `RebaseResult.validate` —
  `model_validate` of each model: unknown fields are ignored, an absent field takes its
  default, anything else that does not fit is refused;
* `dump` — `model_dump(mode="json")`, and `validate_dump`: a dumped body validates to itself;
* `TaskResult` — the union of the three.
-/

/-- The fields of a JSON object. -/
abbrev Fields := List (String × Json)

/-- `outcome` of an implementer and of a rebase. -/
inductive ImplementerOutcome where
  | completed | blocked | failed
deriving DecidableEq

/-- The text of an outcome on the wire. -/
def ImplementerOutcome.value : ImplementerOutcome → String
  | .completed => "completed"
  | .blocked => "blocked"
  | .failed => "failed"

/-- The outcome a text stands for. -/
def ImplementerOutcome.ofValue? : String → Option ImplementerOutcome
  | "completed" => some .completed
  | "blocked" => some .blocked
  | "failed" => some .failed
  | _ => none

/-- `verdict` of a reviewer. -/
inductive ReviewerVerdict where
  | approved | changesRequested | blocked | failed
deriving DecidableEq

/-- The text of a verdict on the wire. -/
def ReviewerVerdict.value : ReviewerVerdict → String
  | .approved => "approved"
  | .changesRequested => "changes_requested"
  | .blocked => "blocked"
  | .failed => "failed"

/-- The verdict a text stands for. -/
def ReviewerVerdict.ofValue? : String → Option ReviewerVerdict
  | "approved" => some .approved
  | "changes_requested" => some .changesRequested
  | "blocked" => some .blocked
  | "failed" => some .failed
  | _ => none

/-- The text of an outcome is read back. -/
@[simp] theorem ImplementerOutcome.ofValue?_value (o : ImplementerOutcome) :
    ImplementerOutcome.ofValue? o.value = some o := by
  cases o <;> rfl

/-- The text of a verdict is read back. -/
@[simp] theorem ReviewerVerdict.ofValue?_value (v : ReviewerVerdict) :
    ReviewerVerdict.ofValue? v.value = some v := by
  cases v <;> rfl

/-! ### Field readers

Each reads one declared field out of an object; `none` is a validation error. -/

/-- `field: str`. -/
def reqStr (b : Fields) (name : String) : Option String :=
  (b.lookup name).bind Json.asStr?

/-- `field: str | None = None`. -/
def optStr (b : Fields) (name : String) : Option (Option String) :=
  match b.lookup name with
  | none | some .null => some none
  | some (.str s) => some (some s)
  | some _ => none

/-- `field: list[T] = []`, from a reader of the items. -/
def listOf {α : Type} (item : Json → Option α) (b : Fields) (name : String) : Option (List α) :=
  match b.lookup name with
  | none => some []
  | some (.arr items) => items.mapM item
  | some _ => none

/-- `field: list[T] | None = None`. -/
def optListOf {α : Type} (item : Json → Option α) (b : Fields) (name : String) :
    Option (Option (List α)) :=
  match b.lookup name with
  | none | some .null => some none
  | some (.arr items) => (items.mapM item).map some
  | some _ => none

/-- `str | None` on the wire. -/
def optStrJson : Option String → Json
  | none => .null
  | some s => .str s

/-- `list[T]` on the wire. -/
def listJson {α : Type} (item : α → Json) (xs : List α) : Json := .arr (xs.map item)

/-- `list[T] | None` on the wire. -/
def optListJson {α : Type} (item : α → Json) : Option (List α) → Json
  | none => .null
  | some xs => listJson item xs

section Readers

variable {α : Type} {b : Fields} {name : String}

/-- A required string that is there is read. -/
theorem reqStr_of_lookup {s : String} (h : b.lookup name = some (.str s)) :
    reqStr b name = some s := by
  simp [reqStr, h, Json.asStr?]

/-- An optional string is read, with `null` for none. -/
theorem optStr_of_lookup {o : Option String} (h : b.lookup name = some (optStrJson o)) :
    optStr b name = some o := by
  cases o <;> simp [optStr, h, optStrJson]

variable {item : Json → Option α} {put : α → Json}

/-- What is written item by item is read item by item. -/
theorem mapM_put (hput : ∀ a, item (put a) = some a) (xs : List α) :
    (xs.map put).mapM item = some xs := by
  induction xs with
  | nil => rfl
  | cons a as ih => simp [hput, ih]

/-- A list that is there is read. -/
theorem listOf_of_lookup (hput : ∀ a, item (put a) = some a) {xs : List α}
    (h : b.lookup name = some (listJson put xs)) : listOf item b name = some xs := by
  simp [listOf, h, listJson, mapM_put hput]

/-- An optional list is read, with `null` for none. -/
theorem optListOf_of_lookup (hput : ∀ a, item (put a) = some a) {o : Option (List α)}
    (h : b.lookup name = some (optListJson put o)) : optListOf item b name = some o := by
  cases o <;> simp [optListOf, h, optListJson, listJson, mapM_put hput]

end Readers

/-! ### Nested bodies -/

/-- The zeros of the decimal digit blocks: the class `\d` of the pattern engine.  These are the
    blocks of Unicode 15; a later version adds more. -/
def digitZeros : List ℕ :=
  [0x30, 0x660, 0x6f0, 0x7c0, 0x966, 0x9e6, 0xa66, 0xae6, 0xb66, 0xbe6, 0xc66, 0xce6, 0xd66,
   0xde6, 0xe50, 0xed0, 0xf20, 0x1040, 0x1090, 0x17e0, 0x1810, 0x1946, 0x19d0, 0x1a80, 0x1a90,
   0x1b50, 0x1bb0, 0x1c40, 0x1c50, 0xa620, 0xa8d0, 0xa900, 0xa9d0, 0xa9f0, 0xaa50, 0xabf0,
   0xff10, 0x104a0, 0x10d30, 0x11066, 0x110f0, 0x11136, 0x111d0, 0x112f0, 0x11450, 0x114d0,
   0x11650, 0x116c0, 0x11730, 0x118e0, 0x11950, 0x11c50, 0x11d50, 0x11da0, 0x11f50, 0x16a60,
   0x16ac0, 0x16b50, 0x1d7ce, 0x1d7d8, 0x1d7e2, 0x1d7ec, 0x1d7f6, 0x1e140, 0x1e2f0, 0x1e4f0,
   0x1e950, 0x1fbf0]

/-- `\d`. -/
def isDigit (c : Char) : Bool := digitZeros.any fun z => z ≤ c.toNat && c.toNat < z + 10

/-- The pattern `^r\d+-\d+$` of a finding id. -/
def isFindingId (s : String) : Bool :=
  match s.toList with
  | 'r' :: rest =>
    let round := rest.takeWhile isDigit
    match rest.dropWhile isDigit with
    | '-' :: index => !round.isEmpty && !index.isEmpty && index.all isDigit
    | _ => false
  | _ => false

/-- `TestResult`. -/
structure TestResult where
  command : String
  status : String
deriving DecidableEq

/-- `Finding`, with an id of the form that is asked for. -/
structure Finding where
  id : String
  text : String
  id_ok : isFindingId id = true
deriving DecidableEq

namespace TestResult

/-- The validation of a test result. -/
def validate : Json → Option TestResult
  | .obj b => do
    let command ← reqStr b "command"
    let status ← reqStr b "status"
    return { command, status }
  | _ => none

/-- `model_dump` of a test result. -/
def dump (t : TestResult) : Json :=
  .obj [("command", .str t.command), ("status", .str t.status)]

/-- A dumped test result validates as itself. -/
theorem validate_dump (t : TestResult) : validate t.dump = some t := by
  simp [validate, dump, reqStr, Json.asStr?, List.lookup_cons]

end TestResult

namespace Finding

/-- The validation of a finding, its id included. -/
def validate : Json → Option Finding
  | .obj b => do
    let id ← reqStr b "id"
    let text ← reqStr b "text"
    if h : isFindingId id then return { id, text, id_ok := h } else none
  | _ => none

/-- `model_dump` of a finding. -/
def dump (f : Finding) : Json := .obj [("id", .str f.id), ("text", .str f.text)]

/-- A dumped finding validates as itself. -/
theorem validate_dump (f : Finding) : validate f.dump = some f := by
  simp [validate, dump, reqStr, Json.asStr?, List.lookup_cons, f.id_ok]

end Finding

/-- `commits` and the other lists of strings. -/
theorem asStr?_str (s : String) : Json.asStr? (.str s) = some s := rfl

/-! ### The three models -/

/-- The reported head, when there is one, is a forty-digit SHA. -/
def HeadOk (sha : Option String) : Prop := ∀ s ∈ sha, isSha40 s = true

instance (sha : Option String) : Decidable (HeadOk sha) := by unfold HeadOk; infer_instance

/-- `ImplementerResult.validate_completed`. -/
def ImplementerRule (outcome : ImplementerOutcome) (prUrl headSha : Option String) : Prop :=
  outcome = .completed → (∃ u ∈ prUrl, isBlank u = false) ∧ headSha.isSome = true

instance (o : ImplementerOutcome) (u s : Option String) : Decidable (ImplementerRule o u s) := by
  unfold ImplementerRule; infer_instance

/-- `ImplementerResult`: a completed one has a pull request and its head. -/
structure ImplementerResult where
  outcome : ImplementerOutcome
  prUrl : Option String
  headSha : Option String
  commits : List String
  tests : List TestResult
  blocker : Option String
  resolvedFindingIds : Option (List String)
  disputedFindingIds : Option (List String)
  summary : String
  head_ok : HeadOk headSha
  completed_ok : ImplementerRule outcome prUrl headSha
deriving DecidableEq

/-- `ReviewerResult.validate_approved`. -/
def ReviewerRule (verdict : ReviewerVerdict) (sha : Option String) (blocking : List Finding) :
    Prop :=
  verdict = .approved → sha.isSome = true ∧ blocking = []

instance (v : ReviewerVerdict) (s : Option String) (f : List Finding) :
    Decidable (ReviewerRule v s f) := by
  unfold ReviewerRule; infer_instance

/-- `ReviewerResult`: an approval has the head it is of, and no blocking finding. -/
structure ReviewerResult where
  verdict : ReviewerVerdict
  prUrl : Option String
  reviewUrl : Option String
  reviewedHeadSha : Option String
  blockingFindings : List Finding
  nonblockingFindings : List Finding
  tests : Option (List TestResult)
  summary : String
  head_ok : HeadOk reviewedHeadSha
  approved_ok : ReviewerRule verdict reviewedHeadSha blockingFindings
deriving DecidableEq

/-- `RebaseResult.validate_completed`. -/
def RebaseRule (outcome : ImplementerOutcome) (headSha : Option String)
    (conflictFiles : List String) (resolutionSummary : Option String) : Prop :=
  outcome = .completed →
    headSha.isSome = true ∧
      (conflictFiles ≠ [] → isBlank (resolutionSummary.getD "") = false)

instance (o : ImplementerOutcome) (s : Option String) (c : List String) (r : Option String) :
    Decidable (RebaseRule o s c r) := by
  unfold RebaseRule; infer_instance

/-- `RebaseResult`: a completed one has the head, and says how its conflicts were resolved. -/
structure RebaseResult where
  outcome : ImplementerOutcome
  prUrl : Option String
  headSha : Option String
  conflictFiles : List String
  resolutionSummary : Option String
  tests : List TestResult
  blocker : Option String
  summary : String
  head_ok : HeadOk headSha
  completed_ok : RebaseRule outcome headSha conflictFiles resolutionSummary
deriving DecidableEq

namespace ImplementerResult

/-- The validation of a body as an implementer's result. -/
def validate (b : Fields) : Option ImplementerResult := do
  let outcome ← (reqStr b "outcome").bind ImplementerOutcome.ofValue?
  let prUrl ← optStr b "pr_url"
  let headSha ← optStr b "head_sha"
  let commits ← listOf Json.asStr? b "commits"
  let tests ← listOf TestResult.validate b "tests"
  let blocker ← optStr b "blocker"
  let resolvedFindingIds ← optListOf Json.asStr? b "resolved_finding_ids"
  let disputedFindingIds ← optListOf Json.asStr? b "disputed_finding_ids"
  let summary ← reqStr b "summary"
  if h : HeadOk headSha ∧ ImplementerRule outcome prUrl headSha then
    return { outcome, prUrl, headSha, commits, tests, blocker, resolvedFindingIds,
             disputedFindingIds, summary, head_ok := h.1, completed_ok := h.2 }
  else none

/-- `model_dump` of an implementer's result. -/
def dump (r : ImplementerResult) : Fields :=
  [("outcome", .str r.outcome.value), ("pr_url", optStrJson r.prUrl),
   ("head_sha", optStrJson r.headSha), ("commits", listJson .str r.commits),
   ("tests", listJson TestResult.dump r.tests), ("blocker", optStrJson r.blocker),
   ("resolved_finding_ids", optListJson .str r.resolvedFindingIds),
   ("disputed_finding_ids", optListJson .str r.disputedFindingIds),
   ("summary", .str r.summary)]

/-- A dumped implementer's result validates as itself. -/
theorem validate_dump (r : ImplementerResult) : validate r.dump = some r := by
  have houtcome : reqStr r.dump "outcome" = some r.outcome.value := reqStr_of_lookup rfl
  have hpr : optStr r.dump "pr_url" = some r.prUrl := optStr_of_lookup rfl
  have hhead : optStr r.dump "head_sha" = some r.headSha := optStr_of_lookup rfl
  have hcommits : listOf Json.asStr? r.dump "commits" = some r.commits :=
    listOf_of_lookup asStr?_str rfl
  have htests : listOf TestResult.validate r.dump "tests" = some r.tests :=
    listOf_of_lookup TestResult.validate_dump rfl
  have hblocker : optStr r.dump "blocker" = some r.blocker := optStr_of_lookup rfl
  have hres : optListOf Json.asStr? r.dump "resolved_finding_ids" = some r.resolvedFindingIds :=
    optListOf_of_lookup asStr?_str rfl
  have hdis : optListOf Json.asStr? r.dump "disputed_finding_ids" = some r.disputedFindingIds :=
    optListOf_of_lookup asStr?_str rfl
  have hsummary : reqStr r.dump "summary" = some r.summary := reqStr_of_lookup rfl
  have hrules : HeadOk r.headSha ∧ ImplementerRule r.outcome r.prUrl r.headSha :=
    ⟨r.head_ok, r.completed_ok⟩
  simp [validate, houtcome, hpr, hhead, hcommits, htests, hblocker, hres, hdis, hsummary, hrules]

end ImplementerResult

namespace ReviewerResult

/-- The validation of a body as a reviewer's result. -/
def validate (b : Fields) : Option ReviewerResult := do
  let verdict ← (reqStr b "verdict").bind ReviewerVerdict.ofValue?
  let prUrl ← optStr b "pr_url"
  let reviewUrl ← optStr b "review_url"
  let reviewedHeadSha ← optStr b "reviewed_head_sha"
  let blockingFindings ← listOf Finding.validate b "blocking_findings"
  let nonblockingFindings ← listOf Finding.validate b "nonblocking_findings"
  let tests ← optListOf TestResult.validate b "tests"
  let summary ← reqStr b "summary"
  if h : HeadOk reviewedHeadSha ∧ ReviewerRule verdict reviewedHeadSha blockingFindings then
    return { verdict, prUrl, reviewUrl, reviewedHeadSha, blockingFindings, nonblockingFindings,
             tests, summary, head_ok := h.1, approved_ok := h.2 }
  else none

/-- `model_dump` of a reviewer's result. -/
def dump (r : ReviewerResult) : Fields :=
  [("verdict", .str r.verdict.value), ("pr_url", optStrJson r.prUrl),
   ("review_url", optStrJson r.reviewUrl),
   ("reviewed_head_sha", optStrJson r.reviewedHeadSha),
   ("blocking_findings", listJson Finding.dump r.blockingFindings),
   ("nonblocking_findings", listJson Finding.dump r.nonblockingFindings),
   ("tests", optListJson TestResult.dump r.tests), ("summary", .str r.summary)]

/-- A dumped reviewer's result validates as itself. -/
theorem validate_dump (r : ReviewerResult) : validate r.dump = some r := by
  have hverdict : reqStr r.dump "verdict" = some r.verdict.value := reqStr_of_lookup rfl
  have hpr : optStr r.dump "pr_url" = some r.prUrl := optStr_of_lookup rfl
  have hreview : optStr r.dump "review_url" = some r.reviewUrl := optStr_of_lookup rfl
  have hhead : optStr r.dump "reviewed_head_sha" = some r.reviewedHeadSha := optStr_of_lookup rfl
  have hblocking : listOf Finding.validate r.dump "blocking_findings" = some r.blockingFindings :=
    listOf_of_lookup Finding.validate_dump rfl
  have hnon : listOf Finding.validate r.dump "nonblocking_findings" = some r.nonblockingFindings :=
    listOf_of_lookup Finding.validate_dump rfl
  have htests : optListOf TestResult.validate r.dump "tests" = some r.tests :=
    optListOf_of_lookup TestResult.validate_dump rfl
  have hsummary : reqStr r.dump "summary" = some r.summary := reqStr_of_lookup rfl
  have hrules : HeadOk r.reviewedHeadSha ∧
      ReviewerRule r.verdict r.reviewedHeadSha r.blockingFindings := ⟨r.head_ok, r.approved_ok⟩
  simp [validate, hverdict, hpr, hreview, hhead, hblocking, hnon, htests, hsummary, hrules]

end ReviewerResult

namespace RebaseResult

/-- The validation of a body as the result of a rebase. -/
def validate (b : Fields) : Option RebaseResult := do
  let outcome ← (reqStr b "outcome").bind ImplementerOutcome.ofValue?
  let prUrl ← optStr b "pr_url"
  let headSha ← optStr b "head_sha"
  let conflictFiles ← listOf Json.asStr? b "conflict_files"
  let resolutionSummary ← optStr b "resolution_summary"
  let tests ← listOf TestResult.validate b "tests"
  let blocker ← optStr b "blocker"
  let summary ← reqStr b "summary"
  if h : HeadOk headSha ∧ RebaseRule outcome headSha conflictFiles resolutionSummary then
    return { outcome, prUrl, headSha, conflictFiles, resolutionSummary, tests, blocker, summary,
             head_ok := h.1, completed_ok := h.2 }
  else none

/-- `model_dump` of the result of a rebase. -/
def dump (r : RebaseResult) : Fields :=
  [("outcome", .str r.outcome.value), ("pr_url", optStrJson r.prUrl),
   ("head_sha", optStrJson r.headSha), ("conflict_files", listJson .str r.conflictFiles),
   ("resolution_summary", optStrJson r.resolutionSummary),
   ("tests", listJson TestResult.dump r.tests), ("blocker", optStrJson r.blocker),
   ("summary", .str r.summary)]

/-- A dumped result of a rebase validates as itself. -/
theorem validate_dump (r : RebaseResult) : validate r.dump = some r := by
  have houtcome : reqStr r.dump "outcome" = some r.outcome.value := reqStr_of_lookup rfl
  have hpr : optStr r.dump "pr_url" = some r.prUrl := optStr_of_lookup rfl
  have hhead : optStr r.dump "head_sha" = some r.headSha := optStr_of_lookup rfl
  have hfiles : listOf Json.asStr? r.dump "conflict_files" = some r.conflictFiles :=
    listOf_of_lookup asStr?_str rfl
  have hresolution : optStr r.dump "resolution_summary" = some r.resolutionSummary :=
    optStr_of_lookup rfl
  have htests : listOf TestResult.validate r.dump "tests" = some r.tests :=
    listOf_of_lookup TestResult.validate_dump rfl
  have hblocker : optStr r.dump "blocker" = some r.blocker := optStr_of_lookup rfl
  have hsummary : reqStr r.dump "summary" = some r.summary := reqStr_of_lookup rfl
  have hrules : HeadOk r.headSha ∧
      RebaseRule r.outcome r.headSha r.conflictFiles r.resolutionSummary :=
    ⟨r.head_ok, r.completed_ok⟩
  simp [validate, houtcome, hpr, hhead, hfiles, hresolution, htests, hblocker, hsummary, hrules]

end RebaseResult

/-! ### The union -/

/-- `TaskResult = ImplementerResult | ReviewerResult | RebaseResult`. -/
inductive TaskResult where
  | implementer (r : ImplementerResult)
  | reviewer (r : ReviewerResult)
  | rebase (r : RebaseResult)
deriving DecidableEq

namespace TaskResult

/-- `model_dump` of a result, by its member of the union. -/
def dump : TaskResult → Fields
  | .implementer r => r.dump
  | .reviewer r => r.dump
  | .rebase r => r.dump

/-- `summary` of a result. -/
def summary : TaskResult → String
  | .implementer r => r.summary
  | .reviewer r => r.summary
  | .rebase r => r.summary

end TaskResult

end AgentHub
