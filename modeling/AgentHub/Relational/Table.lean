import Mathlib.Data.List.Nodup
import Mathlib.Data.List.Lookmap
import Mathlib.Logic.Function.Basic

namespace Relational

/-!
# Keyed tables

A relational table whose rows carry their own primary key.  The rows are kept in insertion
order and the key constraint is a field, so a table with two rows under one key cannot be
built.

* `Table.insert?` refuses a key that is taken, as `INSERT` under a `PRIMARY KEY` does;
  `Table.insertOrIgnore` keeps the old row;
* `Table.updateWhere` maps the rows a predicate selects, as `UPDATE … WHERE` does;
* `Table.find?` is the partial function the table stands for, and the `find?_*` lemmas say
  what each statement does to it.
-/

universe u v

variable {α : Type u} {κ : Type v}

/-- Rows in insertion order, no two of them under one key. -/
@[ext] structure Table (key : α → κ) where
  rows : List α
  nodup : (rows.map key).Nodup

namespace Table

variable {key : α → κ}

instance [DecidableEq α] : DecidableEq (Table key) := fun s t =>
  decidable_of_iff (s.rows = t.rows) Table.ext_iff.symm

/-- The table with no rows. -/
def empty : Table key := ⟨[], List.nodup_nil⟩

instance : Inhabited (Table key) := ⟨empty⟩

instance : Membership α (Table key) := ⟨fun t a => a ∈ t.rows⟩

/-- A member of a table is one of its rows. -/
theorem mem_iff {t : Table key} {a : α} : a ∈ t ↔ a ∈ t.rows := Iff.rfl

/-- Nothing is in the empty table. -/
@[simp] theorem not_mem_empty (a : α) : a ∉ (empty : Table key) := by simp [mem_iff, empty]

/-- Two rows of a table under one key are the same row. -/
theorem eq_of_key_eq {t : Table key} {a b : α} (ha : a ∈ t) (hb : b ∈ t)
    (h : key a = key b) : a = b :=
  List.inj_on_of_nodup_map t.nodup ha hb h

variable [DecidableEq κ]

/-- The row under `k`, if there is one. -/
def find? (t : Table key) (k : κ) : Option α := t.rows.find? (fun a => key a = k)

/-- A lookup finds exactly the row that carries the key. -/
theorem find?_eq_some_iff {t : Table key} {k : κ} {a : α} :
    t.find? k = some a ↔ a ∈ t ∧ key a = k := by
  constructor
  · intro h
    exact ⟨List.mem_of_find?_eq_some h, by simpa using List.find?_some h⟩
  · rintro ⟨ha, rfl⟩
    cases hf : t.find? (key a) with
    | none => exact absurd (List.find?_eq_none.mp hf a ha) (by simp)
    | some b =>
      have hb : b ∈ t := List.mem_of_find?_eq_some hf
      have hk : key b = key a := by simpa using List.find?_some hf
      rw [eq_of_key_eq hb ha hk]

/-- A key is free if no row has it. -/
theorem find?_eq_none_iff {t : Table key} {k : κ} :
    t.find? k = none ↔ ∀ a ∈ t, key a ≠ k := by
  simp [find?, mem_iff]

/-- What is found under a key has the key. -/
theorem find?_key {t : Table key} {k : κ} {a : α} (h : t.find? k = some a) : key a = k :=
  (find?_eq_some_iff.mp h).2

/-- What is found under a key is in the table. -/
theorem mem_of_find? {t : Table key} {k : κ} {a : α} (h : t.find? k = some a) : a ∈ t :=
  (find?_eq_some_iff.mp h).1

/-- A row is found under its key. -/
theorem find?_of_mem {t : Table key} {a : α} (h : a ∈ t) : t.find? (key a) = some a :=
  find?_eq_some_iff.mpr ⟨h, rfl⟩

/-- Nothing is found in the empty table. -/
@[simp] theorem find?_empty (k : κ) : (empty : Table key).find? k = none := rfl

/-! ### `INSERT` -/

/-- `INSERT OR IGNORE`: add a row at the end unless its key is taken. -/
def insertOrIgnore (t : Table key) (a : α) : Table key :=
  if h : key a ∈ t.rows.map key then t
  else ⟨t.rows ++ [a], by
    rw [List.map_append, List.nodup_append]
    refine ⟨t.nodup, by simp, ?_⟩
    intro x hx y hy
    rw [List.map_singleton, List.mem_singleton] at hy
    rintro rfl
    exact h (hy ▸ hx)⟩

/-- `INSERT`: add a row at the end; `none` when its key is taken. -/
def insert? (t : Table key) (a : α) : Option (Table key) :=
  match t.find? (key a) with
  | none => some (t.insertOrIgnore a)
  | some _ => none

/-- `INSERT` succeeds under a free key, and then adds the row. -/
theorem insert?_eq_some_iff {t t' : Table key} {a : α} :
    t.insert? a = some t' ↔ t.find? (key a) = none ∧ t' = t.insertOrIgnore a := by
  unfold insert?
  cases t.find? (key a) with
  | none => simp [eq_comm]
  | some b => simp

/-- Under a free key the row comes last. -/
theorem rows_insertOrIgnore {t : Table key} {a : α} (h : t.find? (key a) = none) :
    (t.insertOrIgnore a).rows = t.rows ++ [a] := by
  unfold insertOrIgnore
  split
  · rename_i hmem
    obtain ⟨b, hb, hk⟩ := List.mem_map.mp hmem
    exact absurd hk (find?_eq_none_iff.mp h b hb)
  · rfl

/-- Under a free key the row is added and no other. -/
theorem mem_insertOrIgnore {t : Table key} {a b : α} (h : t.find? (key a) = none) :
    b ∈ t.insertOrIgnore a ↔ b ∈ t ∨ b = a := by
  rw [mem_iff, rows_insertOrIgnore h, List.mem_append, List.mem_singleton, mem_iff]

/-- Inserting a row changes the lookup of its own key only. -/
theorem find?_insertOrIgnore {t : Table key} {a : α} (h : t.find? (key a) = none) (k : κ) :
    (t.insertOrIgnore a).find? k = if key a = k then some a else t.find? k := by
  rw [find?, rows_insertOrIgnore h, List.find?_append]
  by_cases hk : key a = k
  · subst hk
    have : t.rows.find? (fun b => key b = key a) = none := h
    simp [this]
  · simp [hk, find?]

/-- What is inserted under a free key is found there. -/
theorem find?_insertOrIgnore_self {t : Table key} {a : α} (h : t.find? (key a) = none) :
    (t.insertOrIgnore a).find? (key a) = some a := by
  rw [find?_insertOrIgnore h, if_pos rfl]

/-! ### `UPDATE … WHERE` -/

/-- Rewrite the selected rows in place.  The rewrite must not touch the key. -/
def updateWhere (t : Table key) (p : α → Prop) [DecidablePred p] (f : α → α)
    (hf : ∀ a, key (f a) = key a := by intros; rfl) : Table key :=
  ⟨t.rows.map (fun a => if p a then f a else a), by
    have : key ∘ (fun a => if p a then f a else a) = key := by
      funext a
      by_cases h : p a <;> simp [h, hf]
    rw [List.map_map, this]
    exact t.nodup⟩

variable {p : α → Prop} [DecidablePred p] {f : α → α} {hf : ∀ a, key (f a) = key a}

omit [DecidableEq κ] in
/-- The rows after an update: those it selects as `f` makes them, the others as they were. -/
theorem mem_updateWhere {t : Table key} {b : α} :
    b ∈ t.updateWhere p f hf ↔ ∃ a ∈ t, (if p a then f a else a) = b := by
  simp [mem_iff, updateWhere]

/-- An update acts on each lookup separately. -/
theorem find?_updateWhere (t : Table key) (k : κ) :
    (t.updateWhere p f hf).find? k = (t.find? k).map (fun a => if p a then f a else a) := by
  have : (fun b => decide (key b = k)) ∘ (fun a => if p a then f a else a)
      = fun a => decide (key a = k) := by
    funext a
    by_cases h : p a <;> simp [h, hf]
  rw [find?, updateWhere, List.find?_map, this, find?]

/-- `UPDATE … WHERE key = k`. -/
def modify (t : Table key) (k : κ) (f : α → α) (hf : ∀ a, key (f a) = key a := by intros; rfl) :
    Table key :=
  t.updateWhere (fun a => key a = k) f hf

/-- An update by key is seen under that key only. -/
theorem find?_modify (t : Table key) (k k' : κ) :
    (t.modify k f hf).find? k' = if k' = k then (t.find? k').map f else t.find? k' := by
  rw [modify, find?_updateWhere]
  cases h : t.find? k' with
  | none => simp
  | some a =>
    have hk : key a = k' := find?_key h
    by_cases hkk : k' = k <;> simp [hk, hkk]

/-- An update keeps the keys. -/
theorem keys_modify (t : Table key) (k : κ) (h : ∀ a, key (f a) = key a) :
    (t.modify k f h).rows.map key = t.rows.map key := by
  rw [modify, updateWhere, List.map_map]
  refine List.map_congr_left fun a _ => ?_
  show key (if key a = k then f a else a) = key a
  split
  · exact h a
  · rfl

/-- What is found under the key that is updated. -/
@[simp] theorem find?_modify_self (t : Table key) (k : κ) :
    (t.modify k f hf).find? k = (t.find? k).map f := by
  rw [find?_modify, if_pos rfl]

/-- Under another key everything is as it was. -/
theorem find?_modify_ne (t : Table key) {k k' : κ} (h : k' ≠ k) :
    (t.modify k f hf).find? k' = t.find? k' := by
  rw [find?_modify, if_neg h]

end Table

end Relational
