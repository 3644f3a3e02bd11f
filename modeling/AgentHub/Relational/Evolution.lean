import AgentHub.Relational.Serial
import AgentHub.Relational.Table

namespace Relational

/-!
# How a table evolves

Rows are rewritten in place and new rows go to the end; nothing is ever removed.  `Evolves R`
says that, with `R` between a row and what became of it.

* `Evolves.refl`, `Evolves.trans` — for a reflexive and transitive `R`;
* `Table.evolves_*`, `Serial.evolves_*` — each statement is such a step;
* `Evolves.find?` — a lookup by a property that `R` preserves keeps its answer.
-/

universe u v

variable {α : Type u}

/-- The rows of the first list, each rewritten under `R`, begin the second list. -/
inductive Evolves (R : α → α → Prop) : List α → List α → Prop
  | nil (new : List α) : Evolves R [] new
  | cons {a b : α} {as bs : List α} (hab : R a b) (h : Evolves R as bs) :
      Evolves R (a :: as) (b :: bs)

namespace Evolves

variable {R : α → α → Prop} {l l' l'' : List α}

/-- New rows at the end. -/
theorem append (hR : ∀ a, R a a) (l new : List α) : Evolves R l (l ++ new) := by
  induction l with
  | nil => exact .nil new
  | cons a l ih => exact .cons (hR a) ih

/-- A list that stays as it is. -/
theorem refl (hR : ∀ a, R a a) (l : List α) : Evolves R l l := by
  simpa using append hR l []

/-- Two steps of rows that evolve are one. -/
theorem trans (hR : ∀ a b c, R a b → R b c → R a c) (h : Evolves R l l')
    (h' : Evolves R l' l'') : Evolves R l l'' := by
  induction h generalizing l'' with
  | nil => exact .nil _
  | cons hab _ ih =>
    cases h' with
    | cons hbc hrest => exact .cons (hR _ _ _ hab hbc) (ih hrest)

/-- Every row in its place evolves as `f` takes it. -/
theorem map {f : α → α} (hf : ∀ a ∈ l, R a (f a)) : Evolves R l (l.map f) := by
  induction l with
  | nil => exact .nil []
  | cons a l ih =>
    exact .cons (hf a List.mem_cons_self) (ih fun b hb => hf b (List.mem_cons_of_mem _ hb))

/-- Every row is still there, as what became of it. -/
theorem mem (h : Evolves R l l') {a : α} (ha : a ∈ l) : ∃ b ∈ l', R a b := by
  induction h with
  | nil => cases ha
  | cons hab _ ih =>
    rcases List.mem_cons.mp ha with rfl | ha
    · exact ⟨_, List.mem_cons_self, hab⟩
    · obtain ⟨b, hb, hR⟩ := ih ha
      exact ⟨b, List.mem_cons_of_mem _ hb, hR⟩

/-- The first row with a property that `R` preserves stays the first one. -/
theorem find? {p : α → Bool} (hp : ∀ a b, R a b → p b = p a) (h : Evolves R l l') {a : α}
    (ha : l.find? p = some a) : ∃ b, l'.find? p = some b ∧ R a b := by
  induction h with
  | nil => cases ha
  | @cons b c _ _ hab _ ih =>
    rw [List.find?_cons] at ha ⊢
    rw [hp b c hab]
    cases hb : p b with
    | true =>
      rw [hb] at ha
      obtain rfl := Option.some.inj ha
      exact ⟨c, rfl, hab⟩
    | false =>
      rw [hb] at ha
      exact ih ha

end Evolves

/-! ### Tables -/

namespace Table

variable {κ : Type v} {key : α → κ} {R : α → α → Prop}

/-- The rows of the table evolve under `R`, and a row keeps its key. -/
def Evolves (R : α → α → Prop) (t t' : Table key) : Prop :=
  Relational.Evolves (fun a b => key b = key a ∧ R a b) t.rows t'.rows

/-- A table that stays as it is. -/
theorem Evolves.refl (hR : ∀ a, R a a) (t : Table key) : t.Evolves R t :=
  Relational.Evolves.refl (fun a => ⟨rfl, hR a⟩) t.rows

/-- Two steps of a table are one. -/
theorem Evolves.trans (hR : ∀ a b c, R a b → R b c → R a c) {t t' t'' : Table key}
    (h : t.Evolves R t') (h' : t'.Evolves R t'') : t.Evolves R t'' :=
  Relational.Evolves.trans
    (fun _ _ _ hab hbc => ⟨hbc.1.trans hab.1, hR _ _ _ hab.2 hbc.2⟩) h h'

/-- `UPDATE … WHERE p` that evolves every row it selects. -/
theorem evolves_updateWhere (hR : ∀ a, R a a) {t t' : Table key} {p : α → Prop}
    [DecidablePred p] {f : α → α} {hf : ∀ a, key (f a) = key a} (ht' : t' = t.updateWhere p f hf)
    (hstep : ∀ a ∈ t, p a → R a (f a)) : t.Evolves R t' := by
  subst ht'
  refine Relational.Evolves.map fun a ha => ?_
  by_cases h : p a
  · rw [if_pos h]
    exact ⟨hf a, hstep a ha h⟩
  · rw [if_neg h]
    exact ⟨rfl, hR a⟩

variable [DecidableEq κ]

/-- `UPDATE … WHERE key = k` that evolves the row it selects. -/
theorem evolves_modify (hR : ∀ a, R a a) {t t' : Table key} {k : κ} {f : α → α}
    {hf : ∀ a, key (f a) = key a} (ht' : t' = t.modify k f hf)
    (hstep : ∀ a, t.find? k = some a → R a (f a)) : t.Evolves R t' :=
  evolves_updateWhere hR ht' fun a ha hk => hstep a (find?_eq_some_iff.mpr ⟨ha, hk⟩)

/-- `INSERT` under a free key. -/
theorem evolves_insertOrIgnore (hR : ∀ a, R a a) {t : Table key} {a : α}
    (h : t.find? (key a) = none) : t.Evolves R (t.insertOrIgnore a) := by
  rw [Evolves, rows_insertOrIgnore h]
  exact Relational.Evolves.append (fun a => ⟨rfl, hR a⟩) t.rows [a]

/-- A row that was there is there under its key, as what became of it. -/
theorem Evolves.find? {t t' : Table key} (h : t.Evolves R t') {k : κ} {a : α}
    (ha : t.find? k = some a) : ∃ b, t'.find? k = some b ∧ R a b := by
  obtain ⟨b, hb, -, hR⟩ := Relational.Evolves.find?
    (fun a b (hab : key b = key a ∧ R a b) => by rw [hab.1]) h ha
  exact ⟨b, hb, hR⟩

end Table

/-! ### Serial tables -/

namespace Serial

variable {key : α → ℕ} {R : α → α → Prop}

/-- The rows of the table evolve under `R`, and a row keeps its id. -/
def Evolves (R : α → α → Prop) (t t' : Serial key) : Prop :=
  Relational.Evolves (fun a b => key b = key a ∧ R a b) t.rows t'.rows

/-- A table that stays as it is. -/
theorem Evolves.refl (hR : ∀ a, R a a) (t : Serial key) : t.Evolves R t :=
  Relational.Evolves.refl (fun a => ⟨rfl, hR a⟩) t.rows

/-- Two steps of a table are one. -/
theorem Evolves.trans (hR : ∀ a b c, R a b → R b c → R a c) {t t' t'' : Serial key}
    (h : t.Evolves R t') (h' : t'.Evolves R t'') : t.Evolves R t'' :=
  Relational.Evolves.trans
    (fun _ _ _ hab hbc => ⟨hbc.1.trans hab.1, hR _ _ _ hab.2 hbc.2⟩) h h'

/-- A row with the next id. -/
theorem evolves_append (hR : ∀ a, R a a) (t : Serial key) {mk : ℕ → α}
    {hmk : ∀ n, key (mk n) = n} : t.Evolves R (t.append mk hmk) :=
  Relational.Evolves.append (fun a => ⟨rfl, hR a⟩) t.rows _

/-- `UPDATE … WHERE p` that evolves every row it selects. -/
theorem evolves_updateWhere (hR : ∀ a, R a a) {t t' : Serial key} {p : α → Prop}
    [DecidablePred p] {f : α → α} {hf : ∀ a, key (f a) = key a} (ht' : t' = t.updateWhere p f hf)
    (hstep : ∀ a ∈ t, p a → R a (f a)) : t.Evolves R t' := by
  subst ht'
  refine Relational.Evolves.map fun a ha => ?_
  by_cases h : p a
  · rw [if_pos h]
    exact ⟨hf a, hstep a ha h⟩
  · rw [if_neg h]
    exact ⟨rfl, hR a⟩

/-- What is found under an id is found again, as it has evolved. -/
theorem Evolves.find? {t t' : Serial key} (h : t.Evolves R t') {k : ℕ} {a : α}
    (ha : t.find? k = some a) : ∃ b, t'.find? k = some b ∧ R a b := by
  obtain ⟨b, hb, -, hR⟩ := Relational.Evolves.find?
    (fun a b (hab : key b = key a ∧ R a b) => by rw [hab.1]) h ha
  exact ⟨b, hb, hR⟩

/-- The first row with a property that `R` preserves stays the first one. -/
theorem Evolves.first? {t t' : Serial key} (h : t.Evolves R t') {p : α → Prop} [DecidablePred p]
    (hp : ∀ a b, key b = key a → R a b → (p b ↔ p a)) {a : α} (ha : t.first? p = some a) :
    ∃ b, t'.first? p = some b ∧ key b = key a ∧ R a b :=
  Relational.Evolves.find?
    (fun a b (hab : key b = key a ∧ R a b) => by simp [hp a b hab.1 hab.2]) h ha

end Serial

end Relational
