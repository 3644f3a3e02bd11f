import Mathlib.Data.List.Nodup
import Mathlib.Data.List.Pairwise

namespace Relational

/-!
# Append-only tables with a rising row id

A table under `INTEGER PRIMARY KEY AUTOINCREMENT`: every new row gets an id above the
high-water mark `seq`, so the rows stand in id order and no id is ever given twice.  Rows are
never deleted here, only appended and updated.

* `Serial.append` allocates the next id;
* `Serial.first?` and `Serial.last?` are `ORDER BY id LIMIT 1` in the two directions, and
  `first?_append` says how a new row can change the first.
-/

universe u

variable {α : Type u}

/-- Rows in the order of their ids, all of them at most the high-water mark. -/
@[ext] structure Serial (key : α → ℕ) where
  rows : List α
  seq : ℕ
  sorted : (rows.map key).Pairwise (· < ·)
  le_seq : ∀ a ∈ rows, key a ≤ seq

namespace Serial

variable {key : α → ℕ}

instance [DecidableEq α] : DecidableEq (Serial key) := fun s t =>
  decidable_of_iff (s.rows = t.rows ∧ s.seq = t.seq) Serial.ext_iff.symm

/-- The table with no rows and no id given yet. -/
def empty : Serial key := ⟨[], 0, List.Pairwise.nil, by simp⟩

instance : Inhabited (Serial key) := ⟨empty⟩

instance : Membership α (Serial key) := ⟨fun t a => a ∈ t.rows⟩

/-- A member of a table is one of its rows. -/
theorem mem_iff {t : Serial key} {a : α} : a ∈ t ↔ a ∈ t.rows := Iff.rfl

/-- Nothing is in the empty table. -/
@[simp] theorem not_mem_empty (a : α) : a ∉ (empty : Serial key) := by simp [mem_iff, empty]

/-- No id is above the mark. -/
theorem key_le_seq {t : Serial key} {a : α} (h : a ∈ t) : key a ≤ t.seq := t.le_seq a h

/-- Two rows under one id are the same row. -/
theorem eq_of_key_eq {t : Serial key} {a b : α} (ha : a ∈ t) (hb : b ∈ t)
    (h : key a = key b) : a = b :=
  List.inj_on_of_nodup_map (t.sorted.imp Nat.ne_of_lt) ha hb h

/-- The row with id `k`, if there is one. -/
def find? (t : Serial key) (k : ℕ) : Option α := t.rows.find? (fun a => key a = k)

/-- What is found under an id is the row with this id. -/
theorem find?_eq_some_iff {t : Serial key} {k : ℕ} {a : α} :
    t.find? k = some a ↔ a ∈ t ∧ key a = k := by
  constructor
  · intro h
    exact ⟨List.mem_of_find?_eq_some h, by simpa using List.find?_some h⟩
  · rintro ⟨ha, rfl⟩
    cases hf : t.find? (key a) with
    | none => exact absurd (List.find?_eq_none.mp hf a ha) (by simp)
    | some b =>
      have hb : b ∈ t := List.mem_of_find?_eq_some hf
      have hk : key b = key a := by simpa using List.find?_some hf
      rw [eq_of_key_eq hb ha hk]

/-- A row is found under its id. -/
theorem find?_of_mem {t : Serial key} {a : α} (h : a ∈ t) : t.find? (key a) = some a :=
  find?_eq_some_iff.mpr ⟨h, rfl⟩

/-! ### `INSERT` -/

/-- Append a row built around the next id. -/
def append (t : Serial key) (mk : ℕ → α) (h : ∀ n, key (mk n) = n := by intros; rfl) :
    Serial key where
  rows := t.rows ++ [mk (t.seq + 1)]
  seq := t.seq + 1
  sorted := by
    rw [List.map_append, List.pairwise_append]
    refine ⟨t.sorted, by simp, ?_⟩
    intro x hx y hy
    obtain ⟨a, ha, rfl⟩ := List.mem_map.mp hx
    have := t.le_seq a ha
    rw [List.map_singleton, List.mem_singleton, h] at hy
    omega
  le_seq := by
    intro a ha
    rw [List.mem_append, List.mem_singleton] at ha
    rcases ha with ha | rfl
    · exact Nat.le_succ_of_le (t.le_seq a ha)
    · exact Nat.le_of_eq (h _)

variable {mk : ℕ → α} {h : ∀ n, key (mk n) = n}

/-- A new row takes the mark up by one. -/
@[simp] theorem seq_append (t : Serial key) : (t.append mk h).seq = t.seq + 1 := rfl

/-- A new row comes last, under the next id. -/
@[simp] theorem rows_append (t : Serial key) :
    (t.append mk h).rows = t.rows ++ [mk (t.seq + 1)] := rfl

/-- The rows after an `INSERT` are those before and the new one. -/
@[simp] theorem mem_append {t : Serial key} {a : α} :
    a ∈ t.append mk h ↔ a ∈ t ∨ a = mk (t.seq + 1) := by
  simp [mem_iff]

/-! ### `UPDATE … WHERE` -/

/-- Rewrite the selected rows in place.  The rewrite must not touch the id. -/
def updateWhere (t : Serial key) (p : α → Prop) [DecidablePred p] (f : α → α)
    (hf : ∀ a, key (f a) = key a := by intros; rfl) : Serial key :=
  have hkey : ∀ a, key (if p a then f a else a) = key a := by
    intro a
    by_cases h : p a <;> simp [h, hf]
  { rows := t.rows.map (fun a => if p a then f a else a)
    seq := t.seq
    sorted := by
      rw [List.map_map, show key ∘ (fun a => if p a then f a else a) = key from funext hkey]
      exact t.sorted
    le_seq := by
      intro b hb
      obtain ⟨a, ha, rfl⟩ := List.mem_map.mp hb
      rw [hkey]
      exact t.le_seq a ha }

variable {p : α → Prop} [DecidablePred p] {f : α → α} {hf : ∀ a, key (f a) = key a}

/-- An update does not touch the mark. -/
@[simp] theorem seq_updateWhere (t : Serial key) : (t.updateWhere p f hf).seq = t.seq := rfl

/-- The rows after an update: those it selects as `f` makes them, the others as they were. -/
theorem mem_updateWhere {t : Serial key} {b : α} :
    b ∈ t.updateWhere p f hf ↔ ∃ a ∈ t, (if p a then f a else a) = b := by
  simp [mem_iff, updateWhere]

/-- An update that leaves what `g` reads leaves the list of it. -/
theorem map_updateWhere {β : Type*} {g : α → β} (hg : ∀ a, g (f a) = g a) (t : Serial key) :
    (t.updateWhere p f hf).rows.map g = t.rows.map g := by
  rw [updateWhere, List.map_map]
  refine List.map_congr_left fun a _ => ?_
  by_cases ha : p a <;> simp [ha, hg]

/-- An update keeps every id. -/
theorem exists_key_updateWhere {t t' : Serial key} {k : ℕ} (ht' : t' = t.updateWhere p f hf)
    (h : ∃ a ∈ t, key a = k) : ∃ b ∈ t', key b = k := by
  subst ht'
  obtain ⟨a, ha, rfl⟩ := h
  refine ⟨_, mem_updateWhere.mpr ⟨a, ha, rfl⟩, ?_⟩
  split
  · exact hf a
  · rfl

/-- An update acts on each lookup separately. -/
theorem find?_updateWhere (t : Serial key) (k : ℕ) :
    (t.updateWhere p f hf).find? k = (t.find? k).map (fun a => if p a then f a else a) := by
  have : (fun b => decide (key b = k)) ∘ (fun a => if p a then f a else a)
      = fun a => decide (key a = k) := by
    funext a
    by_cases h : p a <;> simp [h, hf]
  rw [find?, updateWhere, List.find?_map, this, find?]

/-! ### `ORDER BY id LIMIT 1` -/

/-- The row of the least id that satisfies `p`. -/
def first? (t : Serial key) (p : α → Prop) [DecidablePred p] : Option α :=
  t.rows.find? p

/-- The row of the greatest id that satisfies `p`. -/
def last? (t : Serial key) (p : α → Prop) [DecidablePred p] : Option α :=
  t.rows.reverse.find? p

/-- The first selected row is in the table. -/
theorem mem_of_first? {t : Serial key} {a : α} (ha : t.first? p = some a) : a ∈ t :=
  List.mem_of_find?_eq_some ha

/-- The first selected row is selected. -/
theorem of_first? {t : Serial key} {a : α} (ha : t.first? p = some a) : p a := by
  simpa using List.find?_some ha

/-- There is no first row if none is selected. -/
theorem first?_eq_none_iff {t : Serial key} : t.first? p = none ↔ ∀ a ∈ t, ¬ p a := by
  simp [first?, mem_iff]

/-- No selected row comes before the first one. -/
theorem first?_le {t : Serial key} {a b : α} (ha : t.first? p = some a) (hb : b ∈ t) (hp : p b) :
    key a ≤ key b := by
  obtain ⟨_, as, bs, hrows, hbefore⟩ := List.find?_eq_some_iff_append.mp ha
  have hsorted := t.sorted
  rw [hrows, List.map_append, List.pairwise_append, List.map_cons, List.pairwise_cons]
    at hsorted
  rw [mem_iff, hrows, List.mem_append, List.mem_cons] at hb
  rcases hb with hb | rfl | hb
  · exact absurd hp (by simpa using hbefore b hb)
  · exact Nat.le_refl _
  · exact Nat.le_of_lt (hsorted.2.1.1 _ (List.mem_map_of_mem hb))

/-- A new row is the first one only when there was none. -/
theorem first?_append (t : Serial key) :
    (t.append mk h).first? p
      = (t.first? p).or (if p (mk (t.seq + 1)) then some (mk (t.seq + 1)) else none) := by
  simp [first?, List.find?_append, List.find?_singleton]

/-- The last selected row is in the table. -/
theorem mem_of_last? {t : Serial key} {a : α} (ha : t.last? p = some a) : a ∈ t :=
  List.mem_reverse.mp (List.mem_of_find?_eq_some ha)

/-- The last selected row is selected. -/
theorem of_last? {t : Serial key} {a : α} (ha : t.last? p = some a) : p a := by
  simpa using List.find?_some ha

/-- There is no last row if none is selected. -/
theorem last?_eq_none_iff {t : Serial key} : t.last? p = none ↔ ∀ a ∈ t, ¬ p a := by
  simp [last?, mem_iff]

/-- No selected row comes after the last one. -/
theorem le_last? {t : Serial key} {a b : α} (ha : t.last? p = some a) (hb : b ∈ t) (hp : p b) :
    key b ≤ key a := by
  obtain ⟨_, as, bs, hrows, hbefore⟩ := List.find?_eq_some_iff_append.mp ha
  have hsorted := t.sorted
  rw [List.reverse_eq_iff.mp hrows, List.reverse_append, List.reverse_cons, List.map_append,
    List.map_append, List.pairwise_append, List.pairwise_append] at hsorted
  rw [mem_iff, ← List.mem_reverse, hrows, List.mem_append, List.mem_cons] at hb
  rcases hb with hb | rfl | hb
  · exact absurd hp (by simpa using hbefore b hb)
  · exact Nat.le_refl _
  · refine Nat.le_of_lt (hsorted.1.2.2 _ (List.mem_map_of_mem (List.mem_reverse.mpr hb)) _ ?_)
    simp

end Serial

end Relational
