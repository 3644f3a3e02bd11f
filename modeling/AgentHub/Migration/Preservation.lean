import Mathlib.Data.List.Forall2
import AgentHub.Migration.Samples

namespace AgentHub.Migration

open Relational Relational.Sql

/-!
# The migration preserves meaning

* `RowMigrated` — a row of an old version and the row of this one that carries it on;
* `Preserved` — the declared schema, every row carried on, and no id given out twice;
* `conveys` — what the rehearsal says of the columns of each version;
* `migration_preserves` — an uninterrupted migration of a database whose foreign keys hold
  returns, and preserves it.
-/

/-- A row of an old database and the row that carries it on. -/
structure RowMigrated (s s' : HubSchema) (t : TableName) (r r' : Row ColumnName) : Prop where
  /-- A column that both versions have keeps its value, keys among them. -/
  shared : ∀ k ∈ s.columns t, k ∈ s'.columns t → r' k = r k
  /-- A consumed event is acked; any other is queued and was never delivered. -/
  consumed : t = .event → .consumed ∈ s.columns .event →
    (r .consumed = .int 1 → r' .state = .text EventState.acked.value) ∧
    (r .consumed ≠ .int 1 → r' .state = .text EventState.queued.value ∧
      r' .deliveryAttempts = .int 0)
  /-- A runtime that is not blank is the harness. -/
  runtime : t = .agent → .runtime ∈ s.columns .agent → ∀ name, r .runtime = .text name →
    (Value.text name).trim ≠ .text "" → r' .harness = (Value.text name).trim

/-- The id the next row of a table gets: above the mark and above every row. -/
def nextId (d : HubDatabase) (t : TableName) : ℤ :=
  max ((d.mark t).getD 0) (highest .id (d.rowsOf t)) + 1

/-- The database of this version that carries on an old one. -/
structure Preserved (d d' : HubDatabase) : Prop where
  tables : d'.schema.tables.Perm schemaTables
  indexes : d'.schema.indexes.Perm schemaIndexes
  version : d'.schema.version = schemaVersion
  rows : ∀ t, List.Forall₂ (RowMigrated d.schema d'.schema t) (d.rowsOf t) (d'.rowsOf t)
  /-- The mark of a table does not go back; a table without one has the mark 0. -/
  marks : ∀ t ∈ [TableName.event, TableName.decision], (d'.mark t).getD 0 = (d.mark t).getD 0
  /-- An id that was ever allocated is at most the mark of its table. -/
  ids : ∀ t ∈ [TableName.event, TableName.decision], ∀ id : ℤ,
    id ≤ (d.mark t).getD 0 → id < nextId d' t

/-! ### What the rehearsal says -/

/-- `consumed = 1`. -/
def consumedSet : HubExpr := .eq (.col .consumed) (.lit (.int 1))

/-- The result of the rehearsal. -/
def migrated (v : ℕ) : SymbolicStore := (rehearse v true (shippedStore v)).1

/-- What became of the contents of a table. -/
def carried (v : ℕ) (t : TableName)
    (p : TableData ColumnName TableName (Symbolic ColumnName TableName) → Bool) : Bool :=
  ((migrated v).table? t).any p

/-- What the rehearsal of version `v` says of its tables. -/
structure Conveys (v : ℕ) : Prop where
  tables : (migrated v).schema.tables.Perm schemaTables
  indexes : (migrated v).schema.indexes.Perm schemaIndexes
  version : (migrated v).schema.version = schemaVersion
  nodup : ((migrated v).tables.map Prod.fst).Nodup
  shared : ∀ p ∈ (shipped v).tables, carried v p.1 fun T =>
    T.contents.source = some p.1 && p.2.names.all fun k =>
      k ∉ T.shape.names || T.contents.expr k = .col k
  created : ∀ p ∈ schemaTables, (shipped v).shape? p.1 = none →
    carried v p.1 fun T => T.contents.source = none
  consumed : .consumed ∈ (shipped v).columns .event → carried v .event fun T =>
    T.contents.expr .state = .case consumedSet (.lit (.text EventState.acked.value))
        (.lit (.text EventState.queued.value)) &&
      T.contents.expr .deliveryAttempts = .case consumedSet (.lit (.int 1)) (.lit (.int 0))
  runtime : .runtime ∈ (shipped v).columns .agent → carried v .agent fun T =>
    T.contents.expr .harness =
      .case runtimeRecorded (.trim (.col .runtime)) (.lit (.text unknown))
  marks : ∀ t ∈ [TableName.event, TableName.decision],
    (migrated v).marks.lookup t = some (.initial t) ∨ (migrated v).marks.lookup t = some (.kept t)

instance (v : ℕ) : Decidable (Conveys v) :=
  decidable_of_iff (_ ∧ _ ∧ _ ∧ _ ∧ _ ∧ _ ∧ (.consumed ∈ (shipped v).columns .event → _) ∧
      (.runtime ∈ (shipped v).columns .agent → _) ∧ _)
    ⟨fun ⟨h₁, h₂, h₃, h₄, h₅, h₆, h₇, h₈, h₉⟩ => ⟨h₁, h₂, h₃, h₄, h₅, h₆, h₇, h₈, h₉⟩,
      fun ⟨h₁, h₂, h₃, h₄, h₅, h₆, h₇, h₈, h₉⟩ => ⟨h₁, h₂, h₃, h₄, h₅, h₆, h₇, h₈, h₉⟩⟩

/-- Every shipped version conveys its rows, by its rehearsal. -/
theorem conveyances : ∀ v ∈ List.range' 1 11, Conveys v := by decide +kernel

/-- **What the rehearsal says of every shipped version.** -/
theorem conveys {v : ℕ} (hv : 1 ≤ v ∧ v ≤ 11) : Conveys v :=
  conveyances v (List.mem_range'_1.mpr ⟨hv.1, by omega⟩)

/-! ### What it means for the rows -/

section Rows

variable {julianday : Value → Option ℚ} {v : ℕ} {d : HubDatabase}

/-- A table is carried when the migrated store has it and the check passes. -/
theorem carried_iff {t : TableName}
    {p : TableData ColumnName TableName (Symbolic ColumnName TableName) → Bool} :
    carried v t p = true ↔ ∃ T, (migrated v).table? t = some T ∧ p T = true :=
  Option.any_eq_true _ _

/-- The rows of the database a symbolic store stands for. -/
theorem rowsOf_dataOf (S : SymbolicStore) (t : TableName) :
    (dataOf julianday d S).rowsOf t =
      (S.table? t).elim [] fun T => T.contents.rows julianday d := by
  rw [Store.rowsOf, dataOf, Store.table?_map]
  cases S.table? t <;> rfl

/-- The columns of the database a symbolic store stands for. -/
theorem columns_dataOf {S : SymbolicStore} {t : TableName}
    {T : TableData ColumnName TableName (Symbolic ColumnName TableName)}
    (hT : S.table? t = some T) : (dataOf julianday d S).schema.columns t = T.shape.names := by
  rw [dataOf, Store.schema_map, Schema.columns, Store.shape?_schema, hT]
  rfl

/-- The consumed rows are those with a 1. -/
theorem consumedSet_eval (r : Row ColumnName) :
    (consumedSet.eval julianday r).isTrue = true ↔ r .consumed = .int 1 := by
  simp only [consumedSet, Expr.eval, Value.isTrue_compare, decide_eq_true_eq]
  constructor
  · exact fun h => h.2.2
  · intro h
    rw [h]
    decide

/-- A runtime recorded is one that is not blank. -/
theorem runtimeRecorded_eval {r : Row ColumnName} {name : String}
    (hr : r .runtime = .text name) (hname : (Value.text name).trim ≠ .text "") :
    (runtimeRecorded.eval julianday r).isTrue = true := by
  have hcoalesce : ((Expr.col ColumnName.runtime).coalesce (.lit (.text ""))).eval julianday r =
      .text name := by
    simp [Expr.eval, hr]
  have htext : (Value.text name).trim ≠ .null := by
    rw [Value.trim]
    simp
  simp only [runtimeRecorded, Expr.eval] at hcoalesce ⊢
  rw [hcoalesce, Value.isTrue_compare]
  exact ⟨htext, by decide, decide_eq_true hname⟩

/-- A row of a table is carried on by the row that stands in its place. -/
theorem rowMigrated (h : Conveys v) (hs : d.schema = shipped v) {t : TableName}
    {T : TableData ColumnName TableName (Symbolic ColumnName TableName)} {s : HubShape}
    (hT : (migrated v).table? t = some T) (ht : (t, s) ∈ (shipped v).tables)
    (hcolumns : (shipped v).columns t = s.names) (r : Row ColumnName) :
    RowMigrated d.schema (dataOf julianday d (migrated v)).schema t r
      (T.contents.eval julianday r) where
  shared k hk hk' := by
    rw [hs, hcolumns] at hk
    rw [columns_dataOf hT] at hk'
    obtain ⟨T', hT', hshared⟩ := carried_iff.mp (h.shared _ ht)
    obtain rfl : T = T' := Option.some.inj (hT.symm.trans hT')
    simp only [Bool.and_eq_true, List.all_eq_true, Bool.or_eq_true, decide_eq_true_eq] at hshared
    rw [Symbolic.eval, (hshared.2 k hk).resolve_left (not_not.mpr hk')]
    rfl
  consumed := by
    rintro rfl hflag
    rw [hs] at hflag
    obtain ⟨T', hT', hexpr⟩ := carried_iff.mp (h.consumed hflag)
    obtain rfl : T = T' := Option.some.inj (hT.symm.trans hT')
    simp only [Bool.and_eq_true, decide_eq_true_eq] at hexpr
    simp only [Symbolic.eval, hexpr.1, hexpr.2]
    constructor
    · intro hset
      exact if_pos ((consumedSet_eval r).mpr hset)
    · intro hset
      have hnot : ¬ (consumedSet.eval julianday r).isTrue = true :=
        mt (consumedSet_eval r).mp hset
      exact ⟨if_neg hnot, if_neg hnot⟩
  runtime := by
    rintro rfl hcolumn name hr hname
    rw [hs] at hcolumn
    obtain ⟨T', hT', hexpr⟩ := carried_iff.mp (h.runtime hcolumn)
    obtain rfl : T = T' := Option.some.inj (hT.symm.trans hT')
    rw [Symbolic.eval, of_decide_eq_true hexpr]
    refine (if_pos (runtimeRecorded_eval hr hname)).trans ?_
    rw [Expr.eval, Expr.eval, hr]

/-- Every row comes through the migration. -/
theorem rows_migrated (h : Conveys v) (hs : d.schema = shipped v) (t : TableName) :
    List.Forall₂ (RowMigrated d.schema (dataOf julianday d (migrated v)).schema t) (d.rowsOf t)
      ((dataOf julianday d (migrated v)).rowsOf t) := by
  rw [rowsOf_dataOf]
  cases hold : (shipped v).shape? t with
  | some s =>
    have ht := mem_of_lookup hold
    obtain ⟨T, hT, hshared⟩ := carried_iff.mp (h.shared _ ht)
    simp only [Bool.and_eq_true, decide_eq_true_eq] at hshared
    have hcolumns : (shipped v).columns t = s.names := by
      rw [Schema.columns, hold]
      rfl
    rw [hT, Option.elim_some, Symbolic.rows, hshared.1, Option.elim_some,
      List.forall₂_map_right_iff, List.forall₂_same]
    exact fun r _ => rowMigrated h hs hT ht hcolumns r
  | none =>
    -- a table that the old version does not have
    have hnone : d.rowsOf t = [] := by
      rw [← hs, Store.shape?_schema, Option.map_eq_none_iff] at hold
      rw [Store.rowsOf, hold]
      rfl
    have hempty : ((migrated v).table? t).elim [] (fun T => T.contents.rows julianday d) = [] := by
      cases hT : (migrated v).table? t with
      | none => rfl
      | some T =>
        have hmem : (t, T.shape) ∈ (migrated v).schema.tables :=
          List.mem_map.mpr ⟨_, mem_of_lookup hT, rfl⟩
        obtain ⟨T', hT', hsource⟩ :=
          carried_iff.mp (h.created _ (h.tables.mem_iff.mp hmem) hold)
        obtain rfl : T = T' := Option.some.inj (hT.symm.trans hT')
        rw [Option.elim_some, Symbolic.rows, of_decide_eq_true hsource]
        rfl
    rw [hnone, hempty]
    exact List.Forall₂.nil

/-- The marks of the events and of the decisions are what they were. -/
theorem marks_preserved (h : Conveys v) : ∀ t ∈ [TableName.event, TableName.decision],
    ((dataOf julianday d (migrated v)).mark t).getD 0 = (d.mark t).getD 0 := by
  intro t ht
  have hlookup : (dataOf julianday d (migrated v)).mark t =
      (((migrated v).marks.lookup t).map (Mark.value d)).getD none :=
    congrArg (Option.getD · none) (lookup_map (Mark.value d) (migrated v).marks t)
  rw [hlookup]
  rcases h.marks t ht with hm | hm <;> rw [hm] <;> rfl

/-- An id up to the mark is not given out again. -/
theorem ids_preserved (h : Conveys v) : ∀ t ∈ [TableName.event, TableName.decision], ∀ id : ℤ,
    id ≤ (d.mark t).getD 0 → id < nextId (dataOf julianday d (migrated v)) t := by
  intro t ht id hid
  have hmark : ((dataOf julianday d (migrated v)).mark t).getD 0 = (d.mark t).getD 0 :=
    marks_preserved h t ht
  have hle : id ≤ max ((d.mark t).getD 0)
      (highest .id ((dataOf julianday d (migrated v)).rowsOf t)) := le_max_of_le_left hid
  rw [nextId, hmark]
  omega

end Rows

/-- **The migration preserves meaning.**  A database of a shipped version whose foreign keys
    hold is migrated: the run returns, and the database it leaves has the declared schema,
    carries on every row under its key, and gives no id of an event or a decision out twice. -/
theorem migration_preserves (julianday : Value → Option ℚ) {v : ℕ} (hv : 1 ≤ v ∧ v ≤ 11)
    {d : HubDatabase} (hd : d.Valid) (hs : d.schema = shipped v) (hkeys : d.consistent = true) :
    ∃ d', runInitialize julianday d = (d', true) ∧ Preserved d d' := by
  have h := conveys hv
  have hcompletes := (rehearsed hv true).completes
  have hrun := run_eq_rehearse julianday hd hs hcompletes
  rw [dataOf_shippedStore hd hs, hkeys] at hrun
  refine ⟨dataOf julianday d (migrated v), ?_, ?_⟩
  · rw [hrun]
    exact Prod.ext rfl hcompletes
  · refine ⟨?_, ?_, ?_, rows_migrated h hs, marks_preserved h, ids_preserved h⟩
    · rw [dataOf, Store.schema_map]
      exact h.tables
    · rw [dataOf, Store.schema_map]
      exact h.indexes
    · rw [dataOf, Store.schema_map]
      exact h.version

/-- Two events of version 2, one of them consumed, of which three were written; and an agent
    whose runtime was recorded. -/
def twoEvents : HubDatabase :=
  sample 2
    (fun t =>
      if t = .agent then
        [[(.name, .text "ada"), (.capabilitiesJson, .text "[]"), (.status, .text "idle"),
          (.contextId, .text "ctx-ada"), (.lastSeen, .text "2026-07-30T10:00:00+00:00"),
          (.runtime, .text " codex ")]]
      else if t = .event then
        [[(.id, .int 1), (.kind, .text "agent_checked_in"), (.payloadJson, .text "\x7b\x7d"),
            (.consumed, .int 1), (.ts, .text "2026-07-30T10:00:00+00:00")],
          [(.id, .int 2), (.kind, .text "agent_lost"), (.payloadJson, .text "\x7b\x7d"),
            (.consumed, .int 0), (.ts, .text "2026-07-30T11:00:00+00:00")]]
      else [])
    fun t => if t = .event then some 3 else none

/-- The example is a valid database. -/
theorem twoEvents_valid : twoEvents.Valid := sample_valid (by decide +kernel)

/-- The example is of version 2. -/
theorem twoEvents_schema : twoEvents.schema = shipped 2 := sample_schema

/-- The example's rows are preserved. -/
theorem twoEvents_preserved :
    ∃ d', runInitialize noDates twoEvents = (d', true) ∧ Preserved twoEvents d' :=
  migration_preserves noDates ⟨by decide, by decide⟩ twoEvents_valid twoEvents_schema
    (by decide +kernel)

end AgentHub.Migration
