import AgentHub.Common.Clock
import AgentHub.Common.Json

namespace AgentHub

/-!
# What the merge gate reports

The pull request, the answers of `gh`, and the reductions from one to the other that need no
further call.

* `Python` — the text functions of the library that the gate leans on;
* `PullRequestRef.parse` — `PR_URL_RE`, segment by segment;
* `GateReport` — what the gate saw; `classifyChecks`, `prState`, `mergeable` — its fields;
* `GateReport.settled` — `_settled`, when waiting cannot change whether the gate passes.
-/

/-- What `json.loads` makes of a text: a value, a `JSONDecodeError`, or another exception (a number
    too long, a nesting too deep). -/
inductive Loaded where
  | value (v : Json)
  | decodeError
  | raised (message : String)

/-! ### Reading JSON -/

/-- The value of decimal digits. -/
def decimal (digits : List Char) : ℕ := digits.foldl (fun n c => 10 * n + (c.toNat - '0'.toNat)) 0

namespace Json

/-- The value as a Python `int` that is no `bool`: a literal without fraction or exponent. -/
def asInt? : Json → Option ℤ
  | .num literal =>
    match literal.toList with
    | '-' :: digits =>
      if digits ≠ [] ∧ digits.all Char.isDigit then some (-decimal digits) else none
    | digits => if digits ≠ [] ∧ digits.all Char.isDigit then some (decimal digits) else none
  | _ => none

/-- The literal of a number, as `json.dumps` writes it. -/
def isNumber (literal : String) : Bool :=
  literal == "NaN" || literal == "Infinity" ||
    (literal.toList.head?.any fun c => c == '-' || c.isDigit)

mutual

/-- Every number in the value has the literal of one. -/
def numeric : Json → Bool
  | .num literal => isNumber literal
  | .arr items => numericItems items
  | .obj fields => numericFields fields
  | _ => true

/-- Whether every item is numeric. -/
def numericItems : List Json → Bool
  | [] => true
  | a :: as => a.numeric && numericItems as

/-- Whether every field is numeric. -/
def numericFields : List (String × Json) → Bool
  | [] => true
  | (_, a) :: as => a.numeric && numericFields as

end

mutual

/-- `repr()` of a value that `json.loads` returned, given that of a string. -/
def repr (str : String → String) : Json → String
  | .null => "None"
  | .bool b => if b then "True" else "False"
  | .num literal =>
    if literal = "NaN" then "nan" else if literal = "Infinity" then "inf"
    else if literal = "-Infinity" then "-inf" else literal
  | .str s => str s
  | .arr items => "[" ++ ", ".intercalate (reprItems str items) ++ "]"
  | .obj fields => "\x7b" ++ ", ".intercalate (reprFields str fields) ++ "\x7d"

/-- The items of a list as `repr` writes them. -/
def reprItems (str : String → String) : List Json → List String
  | [] => []
  | a :: as => a.repr str :: reprItems str as

/-- The fields of a dict as `repr` writes them. -/
def reprFields (str : String → String) : List (String × Json) → List String
  | [] => []
  | (k, a) :: as => (str k ++ ": " ++ a.repr str) :: reprFields str as

end

/-- `str()` of a value that `json.loads` returned. -/
def pyStr (str : String → String) : Json → String
  | .str s => s
  | v => v.repr str

/-- A value of a numeric list is numeric. -/
theorem numeric_of_mem {items : List Json} (h : numericItems items = true) {v : Json}
    (hv : v ∈ items) : v.numeric = true := by
  induction items with
  | nil => exact absurd hv List.not_mem_nil
  | cons a as ih =>
    rw [numericItems, Bool.and_eq_true] at h
    rcases List.mem_cons.mp hv with rfl | hv
    · exact h.1
    · exact ih h.2 hv

/-- A value of a numeric object is numeric. -/
theorem numeric_of_lookup {fields : List (String × Json)} (h : numericFields fields = true)
    {key : String} {v : Json} (hv : fields.lookup key = some v) : v.numeric = true := by
  induction fields with
  | nil => cases hv
  | cons field fields ih =>
    obtain ⟨k, a⟩ := field
    rw [numericFields, Bool.and_eq_true] at h
    rw [List.lookup_cons] at hv
    split at hv
    · obtain rfl := Option.some.inj hv
      exact h.1
    · exact ih h.2 hv

/-- What a value that is no string looks like does not start like a bucket. -/
theorem head_repr {str : String → String} {v : Json} (hv : v.numeric = true)
    (hstr : ∀ s, v ≠ .str s) : ∃ c cs, (v.repr str).toList = c :: cs ∧ c ≠ 'p' ∧ c ≠ 's' := by
  cases v with
  | str s => exact absurd rfl (hstr s)
  | null => exact ⟨'N', "one".toList, by rw [Json.repr]; decide, by decide, by decide⟩
  | bool b =>
    cases b with
    | false => exact ⟨'F', "alse".toList, by rw [Json.repr]; decide, by decide, by decide⟩
    | true => exact ⟨'T', "rue".toList, by rw [Json.repr]; decide, by decide, by decide⟩
  | num literal =>
    unfold Json.repr
    split_ifs with hnan hinf hneg
    · exact ⟨'n', "an".toList, by decide⟩
    · exact ⟨'i', "nf".toList, by decide⟩
    · exact ⟨'-', "inf".toList, by decide⟩
    · have hnumber : isNumber literal = true := hv
      cases hl : literal.toList with
      | nil => simp [isNumber, hnan, hinf, hl] at hnumber
      | cons c cs =>
        refine ⟨c, cs, rfl, ?_, ?_⟩
        · rintro rfl
          simp [isNumber, hnan, hinf, hl, Char.isDigit] at hnumber
        · rintro rfl
          simp [isNumber, hnan, hinf, hl, Char.isDigit] at hnumber
  | arr items =>
    have hrepr : ((Json.arr items).repr str).toList =
        '[' :: (", ".intercalate (reprItems str items) ++ "]").toList := by
      rw [Json.repr, String.append_assoc, String.toList_append]
      rfl
    exact ⟨'[', _, hrepr, by decide, by decide⟩
  | obj fields =>
    have hrepr : ((Json.obj fields).repr str).toList =
        '\x7b' :: (", ".intercalate (reprFields str fields) ++ "\x7d").toList := by
      rw [Json.repr, String.append_assoc, String.toList_append]
      rfl
    exact ⟨'\x7b', _, hrepr, by decide, by decide⟩

/-- Only a string reads as a bucket, and as itself. -/
theorem pyStr_eq_bucket {str : String → String} {v : Json} (hv : v.numeric = true) {bucket : String}
    (hbucket : bucket = "pass" ∨ bucket = "skipping") (h : v.pyStr str = bucket) :
    v = .str bucket := by
  by_cases hstr : ∃ s, v = .str s
  · obtain ⟨s, rfl⟩ := hstr
    exact congrArg Json.str h
  · have hother : ∀ s, v ≠ .str s := fun s hs => hstr ⟨s, hs⟩
    obtain ⟨c, cs, hhead, hp, hs⟩ := head_repr hv hother
    have hrepr : v.pyStr str = v.repr str := by
      cases v with
      | str s => exact absurd rfl (hother s)
      | _ => rfl
    rw [hrepr] at h
    rw [h] at hhead
    rcases hbucket with rfl | rfl
    · exact absurd (List.cons.inj hhead).1.symm hp
    · exact absurd (List.cons.inj hhead).1.symm hs

end Json

/-- The text functions of Python's library that are not spelled out here. -/
structure Python where
  loads : String → Loaded
  lower : String → String
  repr : String → String
  /-- Numbers are numbers. -/
  loads_numeric : ∀ s v, loads s = .value v → v.numeric = true
  /-- A string of ASCII letters and digits is lowered letter by letter, and no other string becomes
      forty hex digits. -/
  lower_sha : ∀ s, isSha40 s ∨ isSha40 (lower s) → lower s = s.toLower

/-! ### The pull request -/

/-- What the gate raises. -/
inductive GateError where
  | mergeGateError (message : String)
  | valueError (message : String)
  | other (message : String)

/-- A pull request's URL, in its parts. -/
structure PullRequestRef where
  url : String
  host : String
  owner : String
  repo : String
  number : ℕ
deriving DecidableEq

namespace PullRequestRef

/-- `[A-Za-z0-9]`. -/
def isAlnum (c : Char) : Bool := c.val < 128 && c.isAlphanum

/-- A segment that opens with one class of characters and goes on with another. -/
def isSegment (first rest : Char → Bool) (s : List Char) : Bool :=
  match s with
  | [] => false
  | c :: cs => first c && cs.all rest

/-- `PR_URL_RE`.  No class holds a slash, so the groups are the segments between the slashes. -/
def groups? (text : String) : Option (String × String × String × String) :=
  let segments := text.toList.splitOn '/'
  match segments with
  | [scheme, empty, host, owner, repo, pull, number] =>
    check scheme empty host owner repo pull number
  | [scheme, empty, host, owner, repo, pull, number, []] =>
    check scheme empty host owner repo pull number
  | _ => none
where
  check (scheme empty host owner repo pull number : List Char) :=
    if scheme = "https:".toList ∧ empty = [] ∧ pull = "pull".toList ∧
        isSegment isAlnum (fun c => isAlnum c || c == '.' || c == '-') host ∧
        isSegment isAlnum (fun c => isAlnum c || c == '-') owner ∧
        repo ≠ ['.'] ∧ repo ≠ ['.', '.'] ∧
        isSegment (fun c => isAlnum c || c == '_' || c == '.')
          (fun c => isAlnum c || c == '_' || c == '.' || c == '-') repo ∧
        isSegment (fun c => '1' ≤ c && c ≤ '9') (fun c => '0' ≤ c && c ≤ '9') number then
      some (String.ofList host, String.ofList owner, String.ofList repo, String.ofList number)
    else none

/-- `PullRequestRef.parse`. -/
def parse (py : Python) (url : String) : Except GateError PullRequestRef :=
  let text := strip url
  match groups? text with
  | none => .error (.valueError s!"not a pull request URL: {py.repr url}")
  | some (host, owner, repo, number) =>
    .ok {
      url := String.ofList (text.toList.rdropWhile (· == '/'))
      host, owner, repo
      number := decimal number.toList }

/-- `PullRequestRef.api`. -/
def api (ref : PullRequestRef) (path : String) : List String :=
  ["api", s!"--hostname={ref.host}", s!"repos/{ref.owner}/{ref.repo}/{path}"]

end PullRequestRef

/-! ### The report -/

/-- The verdict over the checks of the head. -/
inductive CiStatus where
  | pass | fail | pending | cancelled | noChecks | noWorkflows
deriving DecidableEq

/-- The states of a pull request. -/
inductive PrState where
  | opened | merged | closed
deriving DecidableEq

/-- Whether a pull request could be merged. -/
inductive Mergeable where
  | clean | conflicting | unknown
deriving DecidableEq

/-- A check as `gh` lists it. -/
structure Check where
  name : String
  bucket : String
  link : String
deriving DecidableEq

/-- The report of one look at the pull request. -/
structure GateReport where
  prUrl : String
  prState : PrState
  expectedHeadSha : String
  currentHeadSha : String
  headMatches : Bool
  ci : CiStatus
  checks : List Check
  baseRef : String
  baseSha : String
  mainSha : String
  baseBehindMain : Bool
  mergeable : Mergeable
  mergeStateStatus : String
  elapsedS : ℚ := 0
deriving DecidableEq

/-- `classify_checks`: one verdict over the buckets, none when no checks are reported. -/
def classifyChecks (checks : List Check) : Option CiStatus :=
  if checks = [] then none
  else if "fail" ∈ checks.map Check.bucket then some .fail
  else if "cancel" ∈ checks.map Check.bucket then some .cancelled
  else if ∀ b ∈ checks.map Check.bucket, b = "pass" ∨ b = "skipping" then some .pass
  else some .pending

/-- `_pr_state`: anything unrecognised counts as closed. -/
def prState (state : String) : PrState :=
  if state = "OPEN" then .opened
  else if state = "MERGED" then .merged
  else .closed

/-- `_mergeable`. -/
def mergeable (mergeable mergeStateStatus : String) : Mergeable :=
  if mergeable = "CONFLICTING" ∨ mergeStateStatus = "DIRTY" then .conflicting
  else if mergeable = "MERGEABLE" then .clean
  else .unknown

/-- `_POLLED_CI`. -/
def polledCi : List CiStatus := [.pending, .cancelled, .noChecks]

/-- `_settled`: waiting cannot change whether the gate passes. -/
def GateReport.settled (report : GateReport) : Bool :=
  if report.prState ≠ .opened ∨ report.headMatches = false ∨ report.baseBehindMain = true ∨
      report.mergeable = .conflicting then
    true
  else decide (report.ci ∉ polledCi) && decide (report.mergeable ≠ .unknown)

/-- `round(x, 3)`. -/
def round3 (x : ℚ) : ℚ := roundHalfEven (x * 1000) / 1000

section

variable {checks : List Check}

/-- Checks leave no verdict only where there are none. -/
theorem classifyChecks_eq_none : classifyChecks checks = none ↔ checks = [] := by
  unfold classifyChecks
  split_ifs with hnil
  · exact iff_of_true rfl hnil
  all_goals exact iff_of_false (by simp) hnil

/-- The verdict `pass` is over at least one check, all of them passed or skipped. -/
theorem classifyChecks_eq_pass : classifyChecks checks = some .pass ↔
    checks ≠ [] ∧ ∀ check ∈ checks, check.bucket = "pass" ∨ check.bucket = "skipping" := by
  have hbuckets : (∀ b ∈ checks.map Check.bucket, b = "pass" ∨ b = "skipping") ↔
      ∀ check ∈ checks, check.bucket = "pass" ∨ check.bucket = "skipping" := by
    simp
  have hbad {b : String} (h : ∀ b ∈ checks.map Check.bucket, b = "pass" ∨ b = "skipping")
      (hb : b ∈ checks.map Check.bucket) (hpass : b ≠ "pass") (hskip : b ≠ "skipping") : False :=
    (h b hb).elim hpass hskip
  rw [← hbuckets]
  unfold classifyChecks
  split_ifs with hnil hfail hcancel hall
  · exact iff_of_false (by simp) fun h => h.1 hnil
  · exact iff_of_false (by simp) fun h => hbad h.2 hfail (by decide) (by decide)
  · exact iff_of_false (by simp) fun h => hbad h.2 hcancel (by decide) (by decide)
  · exact iff_of_true rfl ⟨hnil, hall⟩
  · exact iff_of_false (by simp) fun h => hall h.2

/-- Checks never say that there are no workflows. -/
theorem classifyChecks_ne_noWorkflows : classifyChecks checks ≠ some .noWorkflows := by
  unfold classifyChecks
  split_ifs
  all_goals simp

end

/-- A pull request is open when GitHub says so. -/
theorem prState_eq_opened {state : String} : prState state = .opened ↔ state = "OPEN" := by
  unfold prState
  split_ifs with hopen hmerged
  · exact iff_of_true rfl hopen
  · exact iff_of_false (by simp) hopen
  · exact iff_of_false (by simp) hopen

/-- A pull request is clean when GitHub says so and its state is not dirty. -/
theorem mergeable_eq_clean {m status : String} :
    mergeable m status = .clean ↔ m = "MERGEABLE" ∧ status ≠ "DIRTY" := by
  unfold mergeable
  split_ifs with hconflict hclean
  · refine iff_of_false (by simp) ?_
    rintro ⟨rfl, hstatus⟩
    rcases hconflict with h | h
    · exact absurd h (by decide)
    · exact hstatus h
  · exact iff_of_true rfl ⟨hclean, fun h => hconflict (.inr h)⟩
  · exact iff_of_false (by simp) fun h => hclean h.1

end AgentHub
