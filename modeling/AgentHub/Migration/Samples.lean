import AgentHub.Migration.Rehearsal

namespace AgentHub.Migration

open Relational.Sql

/-!
# Old databases

A database of a shipped version written down by its rows, each a list of columns and values.

* `sample` — the database; `SampleFits` — its rows are rows of the version;
* `sample_valid` — such a database is one that SQLite can hold.
-/

/-- A row that holds the listed values. -/
def row (values : List (ColumnName × Value)) : Row ColumnName := fun k =>
  (values.lookup k).getD .null

/-- A database of version `v` with the given rows and marks. -/
def sample (v : ℕ) (rows : TableName → List (List (ColumnName × Value)))
    (marks : TableName → Option ℤ) : HubDatabase where
  tables := (shipped v).tables.map fun p => (p.1, ⟨p.2, (rows p.1).map row⟩)
  indexes := (shipped v).indexes
  marks := ((shipped v).tables.filter fun p => p.2.autoincrement?.isSome).map fun p =>
    (p.1, marks p.1)
  highWater := none
  version := (shipped v).version

section Sample

variable (v : ℕ) (rows : TableName → List (List (ColumnName × Value)))
  (marks : TableName → Option ℤ)

/-- The value is an id that the mark covers. -/
def idWithin (mark : Option ℤ) : Value → Bool
  | .int i => mark.any (i ≤ ·)
  | _ => false

/-- The rows of a sample are rows of its version. -/
def SampleFits : Prop :=
  ((shipped v).tables.map Prod.fst).Nodup ∧ ∀ p ∈ (shipped v).tables,
    (∀ values ∈ rows p.1, (∀ q ∈ values, q.1 ∈ p.2.names) ∧
      (∀ c ∈ p.2.all, c.admits (row values c.name) = true) ∧
      ∀ k ∈ p.2.autoincrement?, idWithin (marks p.1) (row values k) = true) ∧
    (∀ key ∈ (shipped v).keys p.1, ((rows p.1).map row).Pairwise fun r r' => ¬ r.agree key r') ∧
    ∀ m ∈ marks p.1, 0 ≤ m

instance : Decidable (SampleFits v rows marks) := by
  unfold SampleFits
  infer_instance

variable {v rows marks}

/-- A sample is of its version. -/
theorem sample_schema : (sample v rows marks).schema = shipped v := by
  simp [sample, Store.schema, Function.comp_def]

/-- A sample that fits is a valid database. -/
theorem sample_valid (h : SampleFits v rows marks) : (sample v rows marks).Valid := by
  obtain ⟨hnodup, hrows⟩ := h
  -- the table under a name
  have htable {t : TableName} {T : TableData ColumnName TableName (List (Row ColumnName))}
      (hT : (sample v rows marks).table? t = some T) :
      (t, T.shape) ∈ (shipped v).tables ∧ T.contents = (rows t).map row := by
    obtain ⟨p, hp, heq⟩ := List.mem_map.mp (mem_of_lookup hT)
    obtain ⟨rfl, rfl⟩ := Prod.mk.inj heq
    exact ⟨hp, rfl⟩
  have hserial : ((sample v rows marks).marks.map Prod.fst).Nodup := by
    have hsub := (List.filter_sublist (p := fun p : TableName × HubShape =>
      p.2.autoincrement?.isSome) (l := (shipped v).tables)).map Prod.fst
    simpa [sample, Function.comp_def] using hnodup.sublist hsub
  refine ⟨?_, ?_, ?_, ?_, ?_, ?_, ?_, rfl⟩
  · simpa [sample, Function.comp_def] using hnodup
  · intro t T hT r hr k hk
    obtain ⟨hmem, hcontents⟩ := htable hT
    rw [hcontents] at hr
    obtain ⟨values, hvalues, rfl⟩ := List.mem_map.mp hr
    have hnames := ((hrows _ hmem).1 values hvalues).1
    have hnone : values.lookup k = none := by
      cases hv : values.lookup k with
      | none => rfl
      | some x => exact absurd (hnames _ (mem_of_lookup hv)) hk
    rw [row, hnone]
    rfl
  · intro t T hT r hr
    obtain ⟨hmem, hcontents⟩ := htable hT
    rw [hcontents] at hr
    obtain ⟨values, hvalues, rfl⟩ := List.mem_map.mp hr
    exact ((hrows _ hmem).1 values hvalues).2.1
  · intro t T hT key hkey
    obtain ⟨hmem, hcontents⟩ := htable hT
    rw [← Schema.keys_of_table? hT, sample_schema] at hkey
    rw [hcontents]
    exact (hrows _ hmem).2.1 key hkey
  · rw [sample_schema]
    simp [sample, Function.comp_def]
  · intro t T k hT hk r hr
    obtain ⟨hmem, hcontents⟩ := htable hT
    rw [hcontents] at hr
    obtain ⟨values, hvalues, rfl⟩ := List.mem_map.mp hr
    have hid := ((hrows _ hmem).1 values hvalues).2.2 k hk
    have hmark : (sample v rows marks).mark t = marks t := by
      refine congrArg (Option.getD · none) (lookup_of_mem hserial ?_)
      exact List.mem_map.mpr ⟨_, List.mem_filter.mpr ⟨hmem, by simp [hk]⟩, rfl⟩
    unfold idWithin at hid
    split at hid
    · rename_i i hi
      obtain ⟨m, hm, hle⟩ := Option.any_eq_true _ _ |>.mp hid
      exact ⟨i, m, hi, hmark.trans hm, of_decide_eq_true hle⟩
    · cases hid
  · intro t m hm
    obtain ⟨x, hx, rfl⟩ : ∃ x, (sample v rows marks).marks.lookup t = some x ∧ x = some m := by
      cases hx : (sample v rows marks).marks.lookup t with
      | none =>
        rw [Store.mark, hx] at hm
        cases hm
      | some x =>
        rw [Store.mark, hx] at hm
        exact ⟨x, rfl, hm⟩
    obtain ⟨p, hp, heq⟩ := List.mem_map.mp (mem_of_lookup hx)
    obtain ⟨rfl, hmarks⟩ := Prod.mk.inj heq
    exact (hrows p (List.mem_filter.mp hp).1).2.2 m hmarks

end Sample

/-- A reading of dates for tables that hold none. -/
def noDates : Value → Option ℚ := fun _ => none

end AgentHub.Migration
