import AgentHub.Migration.Initialize

namespace AgentHub.Migration

open Relational Relational.Sql

/-!
# The migration without the data

What `initialize_database` does to a database depends on its schema alone, so the runs on all
databases of one version are one symbolic run, which can be computed.

* `rehearse` — the outcome of the symbolic run, for databases whose foreign keys hold or do
  not; `rehearseInterrupted` — what an interruption leaves;
* `run_eq_rehearse`, `interrupt_eq_rehearse` — the runs on a valid database are what the
  symbolic ones stand for;
* `Exposed` — the interruptions between `ADD COLUMN last_heartbeat`, which commits at once, and
  the end of the transaction that the `UPDATE` behind it opens: the second run finds the column
  and leaves it empty;
* `Verdict`, `rehearsed` — what a second run makes of each interruption.
-/

/-- A store of rows as expressions of the shipped ones. -/
abbrev SymbolicStore :=
  Store ColumnName TableName IndexName (Symbolic ColumnName TableName) (Mark TableName)

/-- The symbolic engine over a database of version `v`; the check of the foreign keys answers
    `holds`. -/
def rehearsal (v : ℕ) (holds : Bool) : Engine HubStmt SymbolicStore :=
  (symbolically (shipped v)).withCheck fun S => stable (shipped v) S && holds

/-- A run of `initialize_database`, symbolically. -/
def rehearse (v : ℕ) (holds : Bool) (S : SymbolicStore) : SymbolicStore × Bool :=
  (rehearsal v holds).outcome Store.schema (initializeDatabase S.schema) S

/-- A database of version `v`, symbolically. -/
def shippedStore (v : ℕ) : SymbolicStore := (shipped v).toSymbolic

/-- The durable states of a run on a database of version `v`, after each of its statements. -/
def durableStates (v : ℕ) (holds : Bool) : List SymbolicStore :=
  (rehearsal v holds).traceProgram Store.schema (initializeDatabase (shippedStore v).schema)
    (.opened (shippedStore v))

/-- What an interruption after `n` statements leaves, symbolically. -/
def rehearseInterrupted (v : ℕ) (holds : Bool) (n : ℕ) : SymbolicStore :=
  (shippedStore v :: durableStates v holds).getD n (rehearse v holds (shippedStore v)).1

section Run

variable {julianday : Value → Option ℚ} {v : ℕ} {d : HubDatabase}

/-- The database that a symbolic store stands for, over `d`. -/
abbrev dataOf (julianday : Value → Option ℚ) (d : HubDatabase) (S : SymbolicStore) : HubDatabase :=
  S.map (Symbolic.rows julianday d) (Mark.value d)

/-- The shipped store stands for the database itself. -/
theorem dataOf_shippedStore (hd : d.Valid) (hs : d.schema = shipped v) :
    dataOf julianday d (shippedStore v) = d := by
  rw [shippedStore, ← hs]
  exact toSymbolic_map julianday hd

/-- The check of the engine that `rehearsal` runs on when the foreign keys hold. -/
theorem rehearsal_true (v : ℕ) :
    rehearsal v true = (symbolically (shipped v)).withCheck (stable (shipped v)) := by
  simp only [rehearsal, Bool.and_true]

variable (julianday) in
/-- **A run on the data is what the symbolic run stands for**, when that one meets no SQL
    error. -/
theorem run_eq_rehearse (hd : d.Valid) (hs : d.schema = shipped v) {S : SymbolicStore}
    (hS : (rehearse v true S).2 = true) :
    runInitialize julianday (dataOf julianday d S) =
      (rehearse v d.consistent S).map (dataOf julianday d) id := by
  have hcarries := carries julianday hd
  rw [hs] at hcarries
  rw [rehearse, rehearsal_true] at hS
  rw [runInitialize, Store.schema_map]
  exact Engine.outcome_map hcarries (fun S => Store.schema_map S) hS

variable (julianday) in
/-- **So is what an interruption leaves.** -/
theorem interrupt_eq_rehearse (hd : d.Valid) (hs : d.schema = shipped v)
    (hcompletes : (rehearse v true (shippedStore v)).2 = true) (n : ℕ) :
    interruptInitialize julianday n d =
      dataOf julianday d (rehearseInterrupted v d.consistent n) := by
  have hcarries := carries julianday hd
  rw [hs] at hcarries
  rw [rehearse, rehearsal_true] at hcompletes
  have hmap : (sqlite julianday).interrupted Store.schema _ n
      (dataOf julianday d (shippedStore v)) = dataOf julianday d _ :=
    Engine.interrupted_map hcarries (fun S => Store.schema_map S) hcompletes n
  rw [dataOf_shippedStore hd hs] at hmap
  have hschema : d.schema = (shippedStore v).schema := by
    rw [← Store.schema_map (f := Symbolic.rows julianday d) (g := Mark.value d)]
    exact congrArg Store.schema (dataOf_shippedStore hd hs).symm
  rw [interruptInitialize, hschema]
  exact hmap

end Run

/-! ### The second run -/

/-- Interrupted after `n` statements, a migration from version `v` has added
    `agent.last_heartbeat` and has not filled it. -/
def Exposed (v n : ℕ) : Prop :=
  v = 1 ∧ 9 ≤ n ∧ n ≤ 33 ∨ (v = 3 ∨ v = 4) ∧ 3 ≤ n ∧ n ≤ 27

instance (v n : ℕ) : Decidable (Exposed v n) := by
  unfold Exposed
  infer_instance

/-- The contents of `agent` without its heartbeats. -/
def forgotten (x : Symbolic ColumnName TableName) : Symbolic ColumnName TableName :=
  { x with row := x.row.map fun q =>
      (q.1, if q.1 = .lastHeartbeat then .lit (.text "") else q.2) }

/-- A store without the heartbeats of its agents. -/
def forgetHeartbeat (S : SymbolicStore) : SymbolicStore :=
  { S with
    tables := S.tables.map fun p =>
      (p.1, { p.2 with
        contents := if p.1 = .agent then forgotten p.2.contents else p.2.contents }) }

/-- What a second run ends in: what an uninterrupted run ends in, or that without the
    heartbeats. -/
inductive Verdict where
  | restarts
  | forgets
  | other
deriving DecidableEq

/-- The verdict on a run over what an interruption left, against the uninterrupted run. -/
def verdict (v : ℕ) (holds : Bool) (S : SymbolicStore) : Verdict :=
  if (rehearse v true S).2 = false then .other
  else if rehearse v holds S = rehearse v holds (shippedStore v) then .restarts
  else if rehearse v holds S =
    (rehearse v holds (shippedStore v)).map forgetHeartbeat id then .forgets
  else .other

/-- The verdicts on a list of states, where one that repeats is not judged again. -/
def judge (v : ℕ) (holds : Bool) (S : SymbolicStore) (x : Verdict) :
    List SymbolicStore → List Verdict
  | [] => [x]
  | S' :: l =>
    x :: if S' = S then judge v holds S x l
      else match verdict v holds S' with
        | .restarts => judge v holds S' .restarts l
        | .forgets => judge v holds S' .forgets l
        | .other => judge v holds S' .other l

/-- Judging a list of stores gives each its verdict. -/
theorem judge_eq (v : ℕ) (holds : Bool) (S : SymbolicStore) (l : List SymbolicStore) :
    judge v holds S (verdict v holds S) l = (S :: l).map (verdict v holds) := by
  induction l generalizing S with
  | nil => rfl
  | cons S' l ih =>
    rw [judge, List.map_cons]
    refine congrArg _ ?_
    split
    · rename_i heq
      rw [ih, heq]
    · rw [← ih S']
      cases verdict v holds S' <;> rfl

/-- The verdicts on all interruptions of a migration from version `v`. -/
def verdicts (v : ℕ) (holds : Bool) : List Verdict :=
  judge v holds (shippedStore v) .restarts (durableStates v holds)

/-- The verdicts as they should be: the second run forgets where the first was exposed. -/
def expected (v len : ℕ) : List Verdict :=
  (List.range len).map fun n => if Exposed v n then .forgets else .restarts

/-- What `UPDATE agent SET last_heartbeat = last_seen` leaves in the column it fills. -/
def backfill : HubExpr := .case everyRow (.col .lastSeen) (.lit (.text ""))

/-- The agents of a symbolic store are those of the initial one, their heartbeats filled. -/
def Backfilled (S : SymbolicStore) : Prop :=
  (∀ p ∈ S.tables, p.1 = .agent →
    p.2.contents.source = some .agent ∧ p.2.contents.expr .lastHeartbeat = backfill) ∧
    (S.table? .agent).isSome = true

instance (S : SymbolicStore) : Decidable (Backfilled S) := by
  unfold Backfilled
  infer_instance

/-- What the rehearsal of version `v` finds. -/
structure Rehearsed (v : ℕ) (holds : Bool) : Prop where
  completes : (rehearse v true (shippedStore v)).2 = true
  verdicts : verdicts v holds = expected v (verdicts v holds).length
  /-- A run over a finished one, or over one that a check has stopped. -/
  final : verdict v holds (rehearse v holds (shippedStore v)).1 = .restarts
  backfilled : v = 1 ∨ v = 3 ∨ v = 4 → 34 ≤ (Migration.verdicts v holds).length ∧
    Backfilled (rehearse v holds (shippedStore v)).1

instance (v : ℕ) (holds : Bool) : Decidable (Rehearsed v holds) :=
  decidable_of_iff (_ ∧ _ ∧ _ ∧ (v = 1 ∨ v = 3 ∨ v = 4 → _))
    ⟨fun ⟨h₁, h₂, h₃, h₄⟩ => ⟨h₁, h₂, h₃, h₄⟩, fun ⟨h₁, h₂, h₃, h₄⟩ => ⟨h₁, h₂, h₃, h₄⟩⟩

/-- Every shipped version is rehearsed, with rows and without. -/
theorem rehearsals : ∀ v ∈ List.range' 1 11, ∀ holds, Rehearsed v holds := by decide +kernel

/-- **The rehearsal of every shipped version.** -/
theorem rehearsed {v : ℕ} (hv : 1 ≤ v ∧ v ≤ 11) (holds : Bool) : Rehearsed v holds :=
  rehearsals v (List.mem_range'_1.mpr ⟨hv.1, by omega⟩) holds

/-- An interrupted rehearsal restarts, but in the exposed window. -/
theorem verdict_interrupted {v : ℕ} {holds : Bool} (h : Rehearsed v holds) (n : ℕ) :
    verdict v holds (rehearseInterrupted v holds n) =
      if Exposed v n then .forgets else .restarts := by
  have hstart : verdict v holds (shippedStore v) = .restarts := by
    rw [verdict, h.completes, if_neg (by decide), if_pos rfl]
  have hjudged : verdicts v holds =
      (shippedStore v :: durableStates v holds).map (verdict v holds) := by
    rw [← judge_eq, hstart]
    rfl
  by_cases hn : n < (verdicts v holds).length
  · have hget : (verdicts v holds)[n]? = some (if Exposed v n then .forgets else .restarts) := by
      rw [h.verdicts, expected, List.getElem?_map, List.getElem?_range hn]
      rfl
    rw [hjudged, List.getElem?_map, Option.map_eq_some_iff] at hget
    obtain ⟨S, hS, hverdict⟩ := hget
    rw [rehearseInterrupted, List.getD_eq_getElem?_getD, hS]
    exact hverdict
  · -- the run was over
    have hexposed : ¬ Exposed v n := by
      intro he
      have hv : v = 1 ∨ v = 3 ∨ v = 4 := he.imp (·.1) (·.1)
      have hlen := (h.backfilled hv).1
      rcases he with ⟨-, -, hle⟩ | ⟨-, -, hle⟩ <;> omega
    have hlen : (shippedStore v :: durableStates v holds).length ≤ n := by
      rw [hjudged, List.length_map] at hn
      exact not_lt.mp hn
    rw [if_neg hexposed, rehearseInterrupted, List.getD_eq_getElem?_getD,
      List.getElem?_eq_none hlen]
    exact h.final

end AgentHub.Migration
