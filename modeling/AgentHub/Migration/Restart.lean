import AgentHub.Migration.Samples

namespace AgentHub.Migration

open Relational Relational.Sql

/-!
# Restarting an interrupted migration

A run that was interrupted is run again.  What the second run ends in, the rehearsal says for
each version and each statement the first can be interrupted after.

* `forgotten` — what is lost with the heartbeats;
* `migration_restarts` — the second run ends in what an uninterrupted one ends in, except
  after such an interruption, when an agent was ever seen.
-/

/-! ### A heartbeat that is forgotten -/

section Forget

variable {julianday : Value → Option ℚ} {d : HubDatabase} {S : SymbolicStore}

/-- A look-up in a list mapped by key. -/
theorem lookup_map_key {A B : Type} [DecidableEq A] (h : A → B → B) (l : List (A × B)) (a : A) :
    (l.map fun q => (q.1, h q.1 q.2)).lookup a = (l.lookup a).map (h a) := by
  induction l with
  | nil => rfl
  | cons q l ih =>
    obtain ⟨b, x⟩ := q
    rw [List.map_cons, lookup_cons_ite, lookup_cons_ite, ih]
    by_cases hb : a = b
    · rw [if_pos hb, if_pos hb, hb]
      rfl
    · rw [if_neg hb, if_neg hb]

/-- A forgotten heartbeat is empty, and nothing else is changed. -/
theorem expr_forgotten {x : Symbolic ColumnName TableName}
    (hx : x.expr .lastHeartbeat = backfill) (k : ColumnName) :
    (forgotten x).expr k = if k = .lastHeartbeat then .lit (.text "") else x.expr k := by
  have hlookup : (forgotten x).row.lookup k = (x.row.lookup k).map fun e =>
      if k = .lastHeartbeat then .lit (.text "") else e :=
    lookup_map_key (fun (k : ColumnName) (e : HubExpr) =>
      if k = .lastHeartbeat then .lit (.text "") else e) x.row k
  rw [Symbolic.expr, hlookup]
  by_cases hk : k = .lastHeartbeat
  · subst hk
    cases hrow : x.row.lookup .lastHeartbeat with
    | none =>
      rw [Symbolic.expr, hrow] at hx
      cases hx
    | some e => rfl
  · simp only [if_neg hk]
    cases hrow : x.row.lookup k with
    | none => rw [Symbolic.expr, hrow]; rfl
    | some e => rw [Symbolic.expr, hrow]; rfl

/-- Forgetting changes nothing where no agent was ever seen. -/
theorem eval_forgotten {x : Symbolic ColumnName TableName}
    (hx : x.expr .lastHeartbeat = backfill) (r : Row ColumnName) :
    (forgotten x).eval julianday r = x.eval julianday r ↔ r .lastSeen = .text "" := by
  have hvalue : x.eval julianday r .lastHeartbeat = r .lastSeen := by
    rw [Symbolic.eval, hx]
    rfl
  constructor
  · intro h
    have hbeat := congrFun h .lastHeartbeat
    rw [hvalue, Symbolic.eval, expr_forgotten hx, if_pos rfl] at hbeat
    exact hbeat.symm
  · intro h
    funext k
    rw [Symbolic.eval, expr_forgotten hx]
    by_cases hk : k = .lastHeartbeat
    · rw [if_pos hk, hk, hvalue, h]
      rfl
    · rw [if_neg hk]
      rfl

variable (julianday) in
/-- Where no agent was ever seen, there is nothing to forget. -/
theorem dataOf_forget (hS : Backfilled S) (h : ∀ r ∈ d.rowsOf .agent, r .lastSeen = .text "") :
    dataOf julianday d (forgetHeartbeat S) = dataOf julianday d S := by
  have htables : (forgetHeartbeat S).tables.map
      (Prod.map id (TableData.map (Symbolic.rows julianday d))) =
      S.tables.map (Prod.map id (TableData.map (Symbolic.rows julianday d))) := by
    rw [forgetHeartbeat, List.map_map]
    refine List.map_congr_left fun p hp => ?_
    by_cases hagent : p.1 = .agent
    · obtain ⟨hsource, hbeat⟩ := hS.1 p hp hagent
      have hrows : (forgotten p.2.contents).rows julianday d =
          p.2.contents.rows julianday d := by
        rw [Symbolic.rows, Symbolic.rows, hsource]
        show (p.2.contents.source).elim [] _ = _
        rw [hsource]
        exact List.map_congr_left fun r hr => (eval_forgotten hbeat r).mpr (h r hr)
      simp only [Function.comp_apply, Prod.map_apply, TableData.map, if_pos hagent, hrows]
      rfl
    · simp only [Function.comp_apply, Prod.map_apply, if_neg hagent]
      rfl
  exact congrArg (fun t => ({ dataOf julianday d S with tables := t } : HubDatabase)) htables

/-- Where an agent was seen, its heartbeat is lost. -/
theorem rowsOf_forget (hS : Backfilled S)
    (h : (dataOf julianday d (forgetHeartbeat S)).rowsOf .agent =
      (dataOf julianday d S).rowsOf .agent) :
    ∀ r ∈ d.rowsOf .agent, r .lastSeen = .text "" := by
  obtain ⟨T, hT⟩ := Option.isSome_iff_exists.mp hS.2
  obtain ⟨hsource, hbeat⟩ := hS.1 _ (mem_of_lookup hT) rfl
  have hforget : (forgetHeartbeat S).table? .agent =
      some ⟨T.shape, forgotten T.contents⟩ := by
    rw [Store.table?, forgetHeartbeat,
      lookup_map_key (fun t (T : TableData ColumnName TableName _) => { T with
        contents := if t = .agent then forgotten T.contents else T.contents }) S.tables .agent]
    exact congrArg (Option.map _) hT
  rw [Store.rowsOf, Store.rowsOf, dataOf, dataOf, Store.table?_map, Store.table?_map, hT,
    hforget] at h
  have hsource' : (forgotten T.contents).source = some .agent := hsource
  simp only [Option.map_some, Option.elim_some, TableData.map_contents, Symbolic.rows,
    hsource'] at h
  rw [show T.contents.source = some .agent from hsource] at h
  intro r hr
  have hrow := List.map_inj_left.mp h r hr
  exact (eval_forgotten hbeat r).mp hrow

end Forget

/-! ### The second run, on the data -/

/-- The same schema, the same rows in every table and the same marks. -/
def SameContents (a b : HubDatabase) : Prop :=
  a.schema = b.schema ∧ (∀ t, a.rowsOf t = b.rowsOf t) ∧ ∀ t, a.mark t = b.mark t

/-- A run over what an interruption after `n` statements left ends as an uninterrupted run
    does, in the same contents. -/
def Restarts (julianday : Value → Option ℚ) (n : ℕ) (d : HubDatabase) : Prop :=
  let again := runInitialize julianday (interruptInitialize julianday n d)
  let once := runInitialize julianday d
  again.2 = once.2 ∧ SameContents again.1 once.1

/-- Where the rerun restarts, it comes out as the first run. -/
theorem rehearse_of_restarts {v : ℕ} {holds : Bool} {S : SymbolicStore}
    (h : verdict v holds S = .restarts) :
    (rehearse v true S).2 = true ∧ rehearse v holds S = rehearse v holds (shippedStore v) := by
  unfold verdict at h
  split at h
  · cases h
  · rename_i hcompletes
    split at h
    · rename_i heq
      exact ⟨by simpa using hcompletes, heq⟩
    · split at h <;> cases h

/-- Where the rerun forgets, it comes out with the heartbeats empty. -/
theorem rehearse_of_forgets {v : ℕ} {holds : Bool} {S : SymbolicStore}
    (h : verdict v holds S = .forgets) :
    (rehearse v true S).2 = true ∧ rehearse v holds S =
      (rehearse v holds (shippedStore v)).map forgetHeartbeat id := by
  unfold verdict at h
  split at h
  · cases h
  · rename_i hcompletes
    split at h
    · cases h
    · split at h
      · rename_i heq
        exact ⟨by simpa using hcompletes, heq⟩
      · cases h

/-- **An interrupted migration restarts.**  Run again, `initialize_database` ends in the schema,
    the rows and the marks of an uninterrupted run, unless it was interrupted between the
    commit of `ADD COLUMN last_heartbeat` and that of its backfill, and some agent had been
    seen. -/
theorem migration_restarts (julianday : Value → Option ℚ) {v : ℕ} (hv : 1 ≤ v ∧ v ≤ 11)
    {d : HubDatabase} (hd : d.Valid) (hs : d.schema = shipped v) (n : ℕ) :
    Restarts julianday n d ↔
      ¬ (Exposed v n ∧ ∃ r ∈ d.rowsOf .agent, r .lastSeen ≠ .text "") := by
  have h := rehearsed hv d.consistent
  have hverdict := verdict_interrupted h n
  have honce := run_eq_rehearse julianday hd hs h.completes
  rw [dataOf_shippedStore hd hs] at honce
  have hinterrupt := interrupt_eq_rehearse julianday hd hs h.completes n
  unfold Restarts
  rw [hinterrupt, honce]
  by_cases hexposed : Exposed v n
  · rw [if_pos hexposed] at hverdict
    obtain ⟨hcompletes, hforgets⟩ := rehearse_of_forgets hverdict
    rw [run_eq_rehearse julianday hd hs hcompletes, hforgets]
    have hv' : v = 1 ∨ v = 3 ∨ v = 4 := hexposed.imp (·.1) (·.1)
    have hfilled := (h.backfilled hv').2
    constructor
    · rintro ⟨-, -, hrows, -⟩ ⟨-, r, hr, hseen⟩
      exact hseen (rowsOf_forget hfilled (hrows .agent) r hr)
    · intro hnot
      have hnone : ∀ r ∈ d.rowsOf .agent, r .lastSeen = .text "" := fun r hr =>
        not_not.mp fun hseen => hnot ⟨hexposed, r, hr, hseen⟩
      have hsame := dataOf_forget julianday hfilled hnone
      refine ⟨rfl, ?_⟩
      show SameContents
        (dataOf julianday d (forgetHeartbeat (rehearse v d.consistent (shippedStore v)).1))
        (dataOf julianday d (rehearse v d.consistent (shippedStore v)).1)
      rw [hsame]
      exact ⟨rfl, fun _ => rfl, fun _ => rfl⟩
  · rw [if_neg hexposed] at hverdict
    obtain ⟨hcompletes, hrestarts⟩ := rehearse_of_restarts hverdict
    rw [run_eq_rehearse julianday hd hs hcompletes, hrestarts]
    exact iff_of_true ⟨rfl, rfl, fun _ => rfl, fun _ => rfl⟩ fun hcond => hexposed hcond.1

/-! ### An agent whose heartbeat is lost -/

/-- One agent of version 3, idle since it was last seen. -/
def adaSeen : HubDatabase :=
  sample 3
    (fun t => if t = .agent then
      [[(.name, .text "ada"), (.capabilitiesJson, .text "[]"), (.status, .text "idle"),
        (.contextId, .text "ctx-ada"), (.lastSeen, .text "2026-07-30T10:00:00+00:00"),
        (.harness, .text "codex"), (.harnessVersion, .text "unknown"),
        (.provider, .text "unknown"), (.model, .text "unknown"),
        (.modelSource, .text "unknown")]] else [])
    fun _ => none

/-- The example is a valid database. -/
theorem adaSeen_valid : adaSeen.Valid :=
  sample_valid (by decide +kernel)

/-- The example is of version 3. -/
theorem adaSeen_schema : adaSeen.schema = shipped 3 := sample_schema

/-- Interrupted before the column is added, the migration restarts. -/
theorem adaSeen_restarts : Restarts noDates 2 adaSeen ↔
    ¬ (Exposed 3 2 ∧ ∃ r ∈ adaSeen.rowsOf .agent, r .lastSeen ≠ .text "") :=
  migration_restarts noDates ⟨by decide, by decide⟩ adaSeen_valid adaSeen_schema 2

/-- Interrupted right behind the column, it leaves the heartbeat of the agent empty. -/
theorem adaSeen_forgotten : ¬ Restarts noDates 3 adaSeen := by
  rintro ⟨-, -, hrows, -⟩
  have hbeats := congrArg (List.map fun r => r .lastHeartbeat) (hrows .agent)
  revert hbeats
  decide +kernel

end AgentHub.Migration
