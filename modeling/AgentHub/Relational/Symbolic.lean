import AgentHub.Relational.Session
import AgentHub.Relational.Sql

namespace Relational.Sql

/-!
# Symbolic runs of SQL statements

The statements of `Stmt` treat all rows of a table alike, so what a program makes of a table
can be followed on one row of expressions over the columns the table began with.  Such a
symbolic run needs no data: it is computed from the schema.

* `Symbolic` — a table as the rows of a table of the initial store, each column an expression
  over them; `Mark` — what became of an `AUTOINCREMENT` mark;
* `symbolic` — the statements on symbolic contents.  Where it cannot tell that a constraint
  holds it fails;
* `Store.Valid` — what SQLite maintains of any database; `represents` — over a valid store,
  symbolic contents stand for rows;
* `stable`, `carries` — symbolic runs of whole programs speak for the runs on the data.
-/

variable {κ τ ι : Type}

/-! ### Symbolic contents -/

/-- The rows of the table `source` of the initial store, each column an expression over them;
    no rows when there is no source. -/
structure Symbolic (κ τ : Type) where
  source : Option τ
  row : List (κ × Expr κ)
deriving DecidableEq

/-- The mark of a table, in terms of the initial store. -/
inductive Mark (τ : Type) where
  | absent
  | initial (t : τ)
  /-- The mark after the rows of `t` have been copied. -/
  | copied (t : τ)
  /-- The initial mark, 0 when there was none. -/
  | kept (t : τ)
deriving DecidableEq

namespace Expr

variable [DecidableEq κ]

/-- Where the condition holds, `e` is not `NULL`. -/
def ensures (e : Expr κ) : Expr κ → Bool
  | isNotNull e' => e' = e
  | ne (trim (coalesce e' (lit (.text "")))) (lit (.text "")) => e' = e
  | and p q => ensures e p || ensures e q
  | _ => false

/-- The value is a number, or `NULL`. -/
def isNumber : Expr κ → Bool
  | lit v => v.num?.isSome
  | .julianday _ | sub .. | mul .. => true
  | max e e' => isNumber e && isNumber e'
  | toReal e => isNumber e
  | _ => false

/-- The value is not `NULL`, in a row of the shape where the conditions `path` hold. -/
def nonNull (s : Shape κ τ) (path : List (Expr κ)) : Expr κ → Bool
  | col k => (s.column? k).any Column.notNull || path.any (ensures (col k))
  | lit v => v ≠ .null
  | trim e | toReal e => nonNull s path e
  | coalesce e e' => nonNull s path e || nonNull s path e'
  | .julianday e => path.any (ensures (.julianday e))
  | sub e e' | mul e e' | max e e' =>
    isNumber e && isNumber e' && nonNull s path e && nonNull s path e'
  | case p e e' => nonNull s (p :: path) e && nonNull s path e'
  | _ => false

/-- The value is `NULL` or one of the listed ones, in a row of the shape. -/
def allowed (s : Shape κ τ) (values : List Value) : Expr κ → Bool
  | col k => (s.column? k).any fun c => c.oneOf ≠ [] && c.oneOf.all (· ∈ values)
  | lit v => v = .null || v ∈ values
  | case _ e e' => allowed s values e && allowed s values e'
  | _ => false

/-- The value meets the constraints of the column, in a row of the shape. -/
def fits (s : Shape κ τ) (c : Column κ) (e : Expr κ) : Bool :=
  (!c.notNull || e.nonNull s []) && (c.oneOf = [] || e.allowed s c.oneOf)

end Expr

section Symbolic

variable [DecidableEq κ]

/-- The value of a column; a table has no value in a column it does not have. -/
def Symbolic.expr (x : Symbolic κ τ) (k : κ) : Expr κ := (x.row.lookup k).getD (.lit .null)

variable [DecidableEq τ]

/-- The keys of a table. -/
def Schema.keys (s : Schema κ τ ι) (t : τ) : List (List κ) :=
  (s.shape? t).elim [] fun shape => shape.keys ++
    (s.indexes.filter fun p => p.2.table = t && p.2.unique).map fun p => p.2.columns

/-- The statements on symbolic contents over a store of schema `s`. -/
def symbolic (s : Schema κ τ ι) : Contents κ (Symbolic κ τ) (Mark τ) where
  empty := ⟨none, []⟩
  addColumn c x := { x with row := put c.name (.lit c.initial) x.row }
  dropColumn k x := { x with row := x.row.filter fun p => p.1 ≠ k }
  update set p x :=
    { x with
      row := set.foldr (fun q row =>
        put q.1 (.case (p.subst x.expr) (q.2.subst x.expr) (x.expr q.1)) row) x.row }
  insertFrom columns names target source :=
    if target.source = none then
      some ⟨source.source, columns.map fun c =>
        (c.name, if c.name ∈ names then source.expr c.name else .lit c.initial)⟩
    else none
  conforms c x :=
    x.source.all fun t => (s.shape? t).any fun shape => (x.expr c.name).fits shape c
  distinct key x :=
    x.source.all fun t => (key.any fun k => x.expr k = .lit .null) ||
      (key ∈ s.keys t && key.all fun k => x.expr k = .col k)
  noMark := .absent
  raiseMark mark k x :=
    match mark, x.source with
    | .absent, some t =>
      if (s.shape? t).any (fun shape => shape.autoincrement? = some k) ∧ x.expr k = .col k then
        some (.copied t)
      else none
    | _, _ => none
  restoreMark high mark :=
    match high, mark with
    | .absent, mark => some mark
    | .initial t, .copied t' => if t = t' then some (.kept t) else none
    | _, _ => none

/-- What a foreign key of a table says is what that key of its source said. -/
def Symbolic.Keeps (s : Schema κ τ ι) (S : Store κ τ ι (Symbolic κ τ) (Mark τ))
    (x : Symbolic κ τ) (fk : ForeignKey κ τ) : Bool :=
  x.source.any fun t => (s.shape? t).any fun shape =>
    fk ∈ shape.foreignKeys && x.expr fk.column = .col fk.column &&
      (S.table? fk.table).any fun P =>
        P.contents.source = some fk.table && P.contents.expr fk.parent = .col fk.parent

/-- The foreign keys of the store say what those of the initial one said: each holds of itself
    or is one of them, and each of them is there. -/
def stable (s : Schema κ τ ι) (S : Store κ τ ι (Symbolic κ τ) (Mark τ)) : Bool :=
  (S.tables.all fun p => p.2.shape.foreignKeys.all fun fk =>
      p.2.contents.source = none || p.2.contents.expr fk.column = .lit .null ||
        p.2.contents.Keeps s S fk) &&
    s.tables.all fun p => p.2.foreignKeys.all fun fk => S.tables.any fun q =>
      q.2.contents.source = some p.1 && fk ∈ q.2.shape.foreignKeys && q.2.contents.Keeps s S fk

/-- The store as it is, symbolically. -/
def Schema.toSymbolic (s : Schema κ τ ι) : Store κ τ ι (Symbolic κ τ) (Mark τ) where
  tables := s.tables.map fun p =>
    (p.1, ⟨p.2, ⟨some p.1, p.2.names.map fun k => (k, .col k)⟩⟩)
  indexes := s.indexes
  marks := (s.tables.filter fun p => p.2.autoincrement?.isSome).map fun p =>
    (p.1, .initial p.1)
  highWater := .absent
  version := s.version

end Symbolic

/-! ### What a valid store maintains -/

section Valid

variable [DecidableEq κ] [DecidableEq τ]

namespace Store

variable (d : Database κ τ ι)

/-- The rows of a table. -/
def rowsOf (t : τ) : List (Row κ) := (d.table? t).elim [] TableData.contents

/-- The mark of a table: the highest id ever allocated, if one was. -/
def mark (t : τ) : Option ℤ := (d.marks.lookup t).getD none

/-- `PRAGMA foreign_key_check` finds nothing. -/
def consistent : Bool :=
  d.tables.all fun p => p.2.shape.foreignKeys.all fun fk => p.2.contents.all fun r =>
    r fk.column = .null || (d.rowsOf fk.table).any fun r' => r' fk.parent = r fk.column

/-- What SQLite maintains of any database, and the way it is written down here: one entry for
    each name, a row `NULL` outside its columns, and an entry in `marks` for each table with
    an `AUTOINCREMENT` column, `none` when `sqlite_sequence` has no row for it. -/
structure Valid : Prop where
  nodup : (d.tables.map Prod.fst).Nodup
  outside : ∀ {t T}, d.table? t = some T → ∀ r ∈ T.contents, ∀ k ∉ T.shape.names, r k = .null
  conforms : ∀ {t T}, d.table? t = some T → ∀ r ∈ T.contents, ∀ c ∈ T.shape.all,
    c.admits (r c.name) = true
  distinct : ∀ {t T}, d.table? t = some T → ∀ key ∈ d.keys t T.shape,
    T.contents.Pairwise fun r r' => ¬ r.agree key r'
  marks : d.marks.map Prod.fst =
    (d.schema.tables.filter fun p => p.2.autoincrement?.isSome).map Prod.fst
  marked : ∀ {t T k}, d.table? t = some T → T.shape.autoincrement? = some k →
    ∀ r ∈ T.contents, ∃ i m, r k = .int i ∧ d.mark t = some m ∧ i ≤ m
  mark_nonneg : ∀ {t m}, d.mark t = some m → 0 ≤ m
  highWater : d.highWater = none

end Store

variable (julianday : Value → Option ℚ) (d : Database κ τ ι)

/-- The row that symbolic contents make of one of their source. -/
def Symbolic.eval (x : Symbolic κ τ) (r : Row κ) : Row κ := fun k => (x.expr k).eval julianday r

/-- The rows that symbolic contents stand for. -/
def Symbolic.rows (x : Symbolic κ τ) : List (Row κ) :=
  x.source.elim [] fun t => (d.rowsOf t).map (x.eval julianday)

/-- The mark that a symbolic one stands for. -/
def Mark.value : Mark τ → Option ℤ
  | .absent => none
  | .initial t => d.mark t
  | .copied t =>
    some (((d.schema.shape? t).bind Shape.autoincrement?).elim 0 fun k => highest k (d.rowsOf t))
  | .kept t => some ((d.mark t).getD 0)

/-! ### Symbolic contents stand for rows -/

section Lookup

variable {A B : Type} [DecidableEq A]

/-- A look-up in a list with one more entry. -/
theorem lookup_cons_ite (a b : A) (x : B) (l : List (A × B)) :
    ((a, x) :: l).lookup b = if b = a then some x else l.lookup b := by
  rw [List.lookup_cons]
  by_cases hb : b = a
  · rw [if_pos hb, beq_iff_eq.mpr hb]
  · rw [if_neg hb, beq_eq_false_iff_ne.mpr hb]

/-- A look-up after a put. -/
theorem lookup_put (a b : A) (x : B) (l : List (A × B)) :
    (put a x l).lookup b = if b = a then some x else l.lookup b := by
  induction l with
  | nil => exact lookup_cons_ite a b x []
  | cons p l ih =>
    obtain ⟨c, y⟩ := p
    by_cases hc : c = a
    · rw [put, if_pos hc, lookup_cons_ite, lookup_cons_ite, hc]
      by_cases hb : b = a
      · rw [if_pos hb, if_pos hb]
      · rw [if_neg hb, if_neg hb, if_neg hb]
    · rw [put, if_neg hc, lookup_cons_ite, lookup_cons_ite, ih]
      by_cases hb : b = c
      · rw [if_pos hb, if_pos hb, if_neg (hb ▸ hc)]
      · rw [if_neg hb, if_neg hb]

/-- A look-up after a removal. -/
theorem lookup_filter_ne (a b : A) (l : List (A × B)) :
    (l.filter fun p => p.1 ≠ a).lookup b = if b = a then none else l.lookup b := by
  induction l with
  | nil => simp
  | cons p l ih =>
    obtain ⟨c, y⟩ := p
    by_cases hc : c = a
    · rw [List.filter_cons_of_neg (by simpa using hc), ih, lookup_cons_ite, hc]
      by_cases hb : b = a
      · rw [if_pos hb, if_pos hb]
      · rw [if_neg hb, if_neg hb, if_neg hb]
    · rw [List.filter_cons_of_pos (by simpa using hc), lookup_cons_ite, lookup_cons_ite, ih]
      by_cases hb : b = c
      · rw [if_pos hb, if_pos hb, if_neg (hb ▸ hc)]
      · rw [if_neg hb, if_neg hb]

/-- A list written by name, looked up by name. -/
theorem lookup_map_name {C : Type} (name : C → A) (h : C → B) (l : List C) (a : A) :
    (l.map fun c => (name c, h c)).lookup a = (l.find? fun c => name c = a).map h := by
  induction l with
  | nil => rfl
  | cons c l ih =>
    rw [List.map_cons, lookup_cons_ite, List.find?_cons, ih]
    by_cases hc : name c = a
    · rw [if_pos hc.symm, decide_eq_true hc]
      rfl
    · rw [if_neg (Ne.symm hc), decide_eq_false hc]

end Lookup

/-! ### Constraints -/

namespace Value

/-- A truth value is true when it says so. -/
theorem isTrue_ofBool (b : Bool) : (ofBool b).isTrue = b := by
  cases b <;> rfl

/-- A comparison holds between values that are there. -/
theorem isTrue_compare {p : Value → Value → Bool} {v w : Value} :
    (compare p v w).isTrue = true ↔ v ≠ .null ∧ w ≠ .null ∧ p v w = true := by
  rw [compare]
  by_cases hnull : v = .null ∨ w = .null
  · rw [if_pos hnull]
    refine iff_of_false (by decide) fun h => ?_
    exact hnull.elim h.1 h.2.1
  · rw [if_neg hnull, isTrue_ofBool, ← and_assoc, ← not_or]
    exact (and_iff_right hnull).symm

end Value

namespace Expr

variable {julianday} {r : Row κ}

/-- A condition that ensures a value is a condition under which there is one. -/
theorem ne_null_of_ensures {e p : Expr κ} (hp : ensures e p = true)
    (h : (p.eval julianday r).isTrue = true) : e.eval julianday r ≠ .null := by
  fun_induction ensures e p with
  | case1 e' =>
    obtain rfl := of_decide_eq_true hp
    simpa [eval, Value.isTrue_ofBool] using h
  | case2 e' =>
    obtain rfl := of_decide_eq_true hp
    intro hnull
    have hcoalesce : (coalesce e' (lit (.text ""))).eval julianday r = .text "" :=
      if_pos hnull
    simp only [eval] at h hcoalesce
    rw [hcoalesce] at h
    revert h
    decide
  | case3 p q ihp ihq =>
    simp only [eval, Value.isTrue_ofBool, Bool.and_eq_true] at h
    simp only [Bool.or_eq_true] at hp
    exact hp.elim (fun hp => ihp hp h.1) fun hp => ihq hp h.2
  | case4 => cases hp

omit [DecidableEq κ] in
/-- An expression known to be a number is one, or NULL. -/
theorem isNumber_eval {e : Expr κ} (he : e.isNumber = true) :
    e.eval julianday r = .null ∨ (e.eval julianday r).num?.isSome = true := by
  induction e with
  | lit v => exact .inr he
  | julianday e =>
    simp only [eval]
    cases julianday (e.eval julianday r) with
    | none => exact .inl rfl
    | some x => exact .inr rfl
  | sub e e' =>
    simp only [eval, Value.arith]
    split
    · exact .inr rfl
    · exact .inl rfl
  | mul e e' =>
    simp only [eval, Value.arith]
    split
    · exact .inr rfl
    · exact .inl rfl
  | max e e' ih ih' =>
    simp only [isNumber, Bool.and_eq_true] at he
    simp only [eval, Value.max]
    split
    · rename_i hx hy
      split
      · exact .inr (by rw [hy]; rfl)
      · exact .inr (by rw [hx]; rfl)
    · exact .inl rfl
  | toReal e ih =>
    rw [eval]
    rcases ih he with h | h
    · rw [h]
      exact .inl rfl
    · right
      cases hv : e.eval julianday r with
      | int i => rfl
      | real x => rfl
      | _ => rw [hv] at h; cases h
  | _ => cases he

/-- The operators on numbers are `NULL` on nothing else. -/
theorem arith_ne_null {f : ℚ → ℚ → ℚ} {v w : Value} (hv : v = .null ∨ v.num?.isSome = true)
    (hw : w = .null ∨ w.num?.isSome = true) (hv' : v ≠ .null) (hw' : w ≠ .null) :
    Value.arith f v w ≠ .null ∧ v.max w ≠ .null := by
  obtain ⟨x, hx⟩ := Option.isSome_iff_exists.mp (hv.resolve_left hv')
  obtain ⟨y, hy⟩ := Option.isSome_iff_exists.mp (hw.resolve_left hw')
  constructor
  · rw [Value.arith, hx, hy]
    simp
  · rw [Value.max, hx, hy]
    show (if x < y then w else v) ≠ .null
    split
    · exact hw'
    · exact hv'

variable {s : Shape κ τ} (hr : ∀ c ∈ s.all, c.admits (r c.name) = true)

include hr in
omit [DecidableEq τ] in
/-- An expression known not to be NULL is not. -/
theorem nonNull_eval {path : List (Expr κ)}
    (hpath : ∀ p ∈ path, (p.eval julianday r).isTrue = true) {e : Expr κ}
    (he : e.nonNull s path = true) : e.eval julianday r ≠ .null := by
  induction e generalizing path with
  | col k =>
    simp only [nonNull, Bool.or_eq_true, Option.any_eq_true, List.any_eq_true] at he
    -- the column is `NOT NULL`, or the path to here excludes `NULL`
    rcases he with ⟨c, hc, hnot⟩ | ⟨p, hp, hensures⟩
    · have hadmits := hr c (List.mem_of_find?_eq_some hc)
      obtain rfl : c.name = k := by simpa using List.find?_some hc
      simp only [Column.admits, hnot, Bool.and_eq_true] at hadmits
      simpa [eval] using hadmits.1
    · exact ne_null_of_ensures hensures (hpath p hp)
  | lit v => simpa [nonNull, eval] using he
  | trim e ih =>
    have hv := ih hpath he
    rw [eval]
    cases h : e.eval julianday r with
    | null => exact absurd h hv
    | _ =>
      intro hnull
      cases hnull
  | toReal e ih =>
    have hv := ih hpath he
    rw [eval]
    cases h : e.eval julianday r with
    | null => exact absurd h hv
    | _ =>
      intro hnull
      cases hnull
  | coalesce e e' ih ih' =>
    simp only [nonNull, Bool.or_eq_true] at he
    rw [eval]
    split
    · rename_i hnull
      exact he.elim (fun he => absurd hnull (ih hpath he)) (ih' hpath)
    · assumption
  | julianday e ih =>
    simp only [nonNull, List.any_eq_true] at he
    obtain ⟨p, hp, hensures⟩ := he
    exact ne_null_of_ensures hensures (hpath p hp)
  | sub e e' ih ih' =>
    simp only [nonNull, Bool.and_eq_true] at he
    obtain ⟨⟨⟨hn, hn'⟩, he⟩, he'⟩ := he
    exact (arith_ne_null (isNumber_eval hn) (isNumber_eval hn') (ih hpath he) (ih' hpath he')).1
  | mul e e' ih ih' =>
    simp only [nonNull, Bool.and_eq_true] at he
    obtain ⟨⟨⟨hn, hn'⟩, he⟩, he'⟩ := he
    exact (arith_ne_null (isNumber_eval hn) (isNumber_eval hn') (ih hpath he) (ih' hpath he')).1
  | max e e' ih ih' =>
    simp only [nonNull, Bool.and_eq_true] at he
    obtain ⟨⟨⟨hn, hn'⟩, he⟩, he'⟩ := he
    exact (arith_ne_null (f := (· + ·)) (isNumber_eval hn) (isNumber_eval hn') (ih hpath he)
      (ih' hpath he')).2
  | case p e e' ihp ih ih' =>
    simp only [nonNull, Bool.and_eq_true] at he
    rw [eval]
    -- in the first branch the condition is one more fact on the path
    split
    · rename_i hp
      refine ih (fun q hq => ?_) he.1
      rcases List.mem_cons.mp hq with rfl | hq
      · exact hp
      · exact hpath q hq
    · exact ih' hpath he.2
  | _ => cases he

include hr in
omit [DecidableEq τ] in
/-- An expression known to be of some values is one of them, or NULL. -/
theorem allowed_eval {values : List Value} {e : Expr κ} (he : e.allowed s values = true) :
    e.eval julianday r = .null ∨ e.eval julianday r ∈ values := by
  induction e with
  | col k =>
    simp only [allowed, Option.any_eq_true, Bool.and_eq_true, List.all_eq_true,
      decide_eq_true_eq] at he
    obtain ⟨c, hc, hne, hall⟩ := he
    have hadmits := hr c (List.mem_of_find?_eq_some hc)
    obtain rfl : c.name = k := by simpa using List.find?_some hc
    simp only [Column.admits, Bool.and_eq_true, Bool.or_eq_true, decide_eq_true_eq,
      or_assoc] at hadmits
    exact (hadmits.2.resolve_left hne).imp id (hall _)
  | lit v => simpa [allowed, eval] using he
  | case p e e' ihp ih ih' =>
    simp only [allowed, Bool.and_eq_true] at he
    rw [eval]
    split
    · exact ih he.1
    · exact ih' he.2
  | _ => cases he

include hr in
omit [DecidableEq τ] in
/-- An expression known to fit its column is admitted by it. -/
theorem fits_eval {c : Column κ} {e : Expr κ} (he : e.fits s c = true) :
    c.admits (e.eval julianday r) = true := by
  simp only [fits, Bool.and_eq_true, Bool.or_eq_true, Bool.not_eq_true', decide_eq_true_eq] at he
  simp only [Column.admits, Bool.and_eq_true, Bool.or_eq_true, Bool.not_eq_true',
    decide_eq_true_eq]
  refine ⟨he.1.imp_right (nonNull_eval hr (by simp)), ?_⟩
  rcases he.2 with hnone | hallowed
  · exact .inl (.inl hnone)
  · rw [or_assoc]
    exact .inr (allowed_eval hr hallowed)

end Expr

/-! ### Symbolic contents stand for rows -/

namespace Symbolic

variable (x : Symbolic κ τ)

omit [DecidableEq τ] in
/-- The expressions of a row after a put. -/
theorem expr_put (k k' : κ) (e : Expr κ) :
    expr (⟨x.source, put k e x.row⟩ : Symbolic κ τ) k' = if k' = k then e else x.expr k' := by
  rw [expr, lookup_put]
  split <;> rfl

omit [DecidableEq τ] in
/-- The expressions of a row after a column is dropped. -/
theorem expr_filter (k k' : κ) :
    expr (⟨x.source, x.row.filter fun p => p.1 ≠ k⟩ : Symbolic κ τ) k' =
      if k' = k then .lit .null else x.expr k' := by
  rw [expr, lookup_filter_ne]
  split <;> rfl

omit [DecidableEq τ] in
/-- An update of a row, column by column. -/
theorem expr_update (set : List (κ × Expr κ)) (p : Expr κ) (k : κ) :
    expr (⟨x.source, set.foldr (fun q row =>
        put q.1 (.case (p.subst x.expr) (q.2.subst x.expr) (x.expr q.1)) row) x.row⟩ :
      Symbolic κ τ) k =
      (set.lookup k).elim (x.expr k) fun e =>
        .case (p.subst x.expr) (e.subst x.expr) (x.expr k) := by
  induction set with
  | nil => rfl
  | cons q set ih =>
    obtain ⟨k', e⟩ := q
    rw [List.foldr_cons, expr, lookup_put, lookup_cons_ite]
    by_cases hk : k = k'
    · rw [if_pos hk, if_pos hk, hk]
      rfl
    · rw [if_neg hk, if_neg hk]
      exact ih

omit [DecidableEq τ] in
/-- A row written by columns. -/
theorem expr_columns (source : Option τ) (h : Column κ → Expr κ) (cs : List (Column κ)) (k : κ) :
    expr (⟨source, cs.map fun c => (c.name, h c)⟩ : Symbolic κ τ) k =
      (cs.find? fun c => c.name = k).elim (.lit .null) h := by
  rw [expr, lookup_map_name]
  cases cs.find? fun c => c.name = k <;> rfl

end Symbolic

variable {d}

omit [DecidableEq κ] in
/-- The keys of a table's schema are the table's. -/
theorem Schema.keys_of_table? {t : τ} {T : TableData κ τ (List (Row κ))}
    (hT : d.table? t = some T) : d.schema.keys t = d.keys t T.shape := by
  rw [Schema.keys, Store.shape?_schema, hT]
  rfl

omit [DecidableEq κ] in
/-- The rows of a table meet the constraints of its columns. -/
theorem Store.Valid.admits (hd : d.Valid) {t : τ} {s : Shape κ τ}
    (hs : d.schema.shape? t = some s) :
    ∀ r ∈ d.rowsOf t, ∀ c ∈ s.all, c.admits (r c.name) = true := by
  rw [Store.shape?_schema] at hs
  obtain ⟨T, hT, rfl⟩ := Option.map_eq_some_iff.mp hs
  intro r hr
  rw [Store.rowsOf, hT] at hr
  exact hd.conforms hT r hr

omit [DecidableEq κ] in
/-- The highest key is below any bound on the keys. -/
theorem highest_le {k : κ} {rows : List (Row κ)} {m : ℤ} (hm : 0 ≤ m)
    (h : ∀ r ∈ rows, ∀ i, r k = .int i → i ≤ m) : highest k rows ≤ m := by
  induction rows with
  | nil => exact hm
  | cons r rows ih =>
    have hrest := ih fun r' hr' => h r' (List.mem_cons_of_mem _ hr')
    show (r k).maxId (highest k rows) ≤ m
    cases hv : r k with
    | int i => exact max_le (h r List.mem_cons_self i hv) hrest
    | _ => exact hrest

omit [DecidableEq κ] in
/-- The highest key is not negative. -/
theorem highest_nonneg (k : κ) (rows : List (Row κ)) : 0 ≤ highest k rows := by
  induction rows with
  | nil => exact le_refl _
  | cons r rows ih =>
    show 0 ≤ (r k).maxId (highest k rows)
    cases r k with
    | int i => exact le_trans ih (le_max_right _ _)
    | _ => exact ih

variable {julianday}

/-- An update of the symbols is one of the rows. -/
theorem rows_update (x : Symbolic κ τ) (set : List (κ × Expr κ)) (p : Expr κ) :
    ((symbolic d.schema).update set p x).rows julianday d =
      (Sql.rows julianday).update set p (x.rows julianday d) := by
  obtain ⟨source, row⟩ := x
  cases source with
  | none => rfl
  | some t =>
    simp only [Symbolic.rows, Sql.rows, Option.elim_some, List.map_map]
    refine List.map_congr_left fun r _ => funext fun k => ?_
    show Expr.eval julianday r (Symbolic.expr ⟨some t, _⟩ k) = _
    rw [Symbolic.expr_update ⟨some t, row⟩ set p k]
    simp only [Function.comp_apply]
    cases hk : set.lookup k with
    | none =>
      simp only [Option.elim_none]
      split
      · rw [Row.assign, hk]
        rfl
      · rfl
    | some e =>
      simp only [Option.elim_some]
      rw [Expr.eval, Expr.eval_subst, Expr.eval_subst]
      split
      · rename_i hp
        refine (if_pos hp).symm ▸ ?_
        rw [Row.assign, hk]
        rfl
      · rename_i hp
        exact (if_neg hp).symm ▸ rfl

/-- An insert of the symbols is one of the rows. -/
theorem rows_insertFrom {cs : List (Column κ)} {names : List κ} {x y z : Symbolic κ τ}
    (h : (symbolic d.schema).insertFrom cs names x y = some z) :
    (Sql.rows julianday).insertFrom cs names (x.rows julianday d) (y.rows julianday d) =
      some (z.rows julianday d) := by
  simp only [symbolic] at h
  split at h
  · rename_i hsource
    obtain rfl := Option.some.inj h
    simp only [Symbolic.rows, Sql.rows, hsource, Option.elim_none, List.nil_append]
    refine congrArg some ?_
    cases y.source with
    | none => rfl
    | some t =>
      simp only [Option.elim_some, List.map_map]
      refine List.map_congr_left fun r _ => funext fun k => ?_
      simp only [Function.comp_apply, Row.project, Symbolic.eval]
      rw [Symbolic.expr_columns (some t)]
      cases hc : cs.find? fun c => c.name = k with
      | none => rfl
      | some c =>
        obtain rfl : c.name = k := by simpa using List.find?_some hc
        simp only [Option.elim_some]
        split <;> rfl
  · cases h

/-- Symbols with distinct keys stand for rows with distinct keys. -/
theorem rows_distinct (hd : d.Valid) {key : List κ} {x : Symbolic κ τ}
    (h : (symbolic d.schema).distinct key x = true) :
    (Sql.rows julianday).distinct key (x.rows julianday d) = true := by
  obtain ⟨source, row⟩ := x
  cases source with
  | none => rfl
  | some t =>
    simp only [symbolic, Option.all_some, Bool.or_eq_true, Bool.and_eq_true, List.any_eq_true,
      List.all_eq_true, decide_eq_true_eq] at h
    refine decide_eq_true ?_
    rw [Symbolic.rows, Option.elim_some, List.pairwise_map]
    rcases h with ⟨k, hk, hnull⟩ | ⟨hkey, hcols⟩
    · -- a column that is `NULL` in all rows
      refine List.pairwise_of_forall fun r r' hagree => ?_
      have hvalue := List.all_eq_true.mp hagree k hk
      simp [Symbolic.eval, hnull, Expr.eval] at hvalue
    · -- a key of the initial table, still in its columns
      cases hT : d.table? t with
      | none =>
        rw [Store.rowsOf, hT]
        exact List.Pairwise.nil
      | some T =>
        rw [Schema.keys_of_table? hT] at hkey
        have hpair := hd.distinct hT key hkey
        rw [Store.rowsOf, hT]
        refine hpair.imp fun hne hagree => hne ?_
        refine List.all_eq_true.mpr fun k hk => ?_
        have hvalue := List.all_eq_true.mp hagree k hk
        simpa only [Symbolic.eval, hcols k hk, Expr.eval] using hvalue

/-- A mark raised on the symbols is raised on the rows. -/
theorem value_raiseMark {m m' : Mark τ} {k : κ} {x : Symbolic κ τ}
    (h : (symbolic d.schema).raiseMark m k x = some m') :
    (Sql.rows julianday).raiseMark (m.value d) k (x.rows julianday d) = some (m'.value d) := by
  obtain ⟨source, row⟩ := x
  simp only [symbolic] at h
  split at h
  · rename_i t
    split at h
    · rename_i hk
      obtain rfl := Option.some.inj h
      obtain ⟨hauto, hcol⟩ := hk
      obtain ⟨s, hs, hauto⟩ := Option.any_eq_true _ _ |>.mp hauto
      have hids (rows : List (Row κ)) :
          highest k (rows.map (Symbolic.eval julianday ⟨some t, row⟩)) = highest k rows := by
        induction rows with
        | nil => rfl
        | cons r rows ih =>
          show ((Symbolic.expr ⟨some t, row⟩ k).eval julianday r).maxId (highest k _) = _
          rw [ih, hcol]
          rfl
      simp only [Sql.rows, Mark.value, Symbolic.rows, hs, Option.bind_some,
        of_decide_eq_true hauto, Option.elim_some, Option.getD_none, hids]
      rw [max_eq_right (highest_nonneg k _)]
    · cases h
  · cases h

omit [DecidableEq κ] in
/-- The ids of the rows do not exceed the mark of their table. -/
theorem copied_le (hd : d.Valid) (t : τ) :
    (((d.schema.shape? t).bind Shape.autoincrement?).elim 0 fun k => highest k (d.rowsOf t)) ≤
      (d.mark t).getD 0 := by
  have hnonneg : 0 ≤ (d.mark t).getD 0 := by
    cases hm : d.mark t with
    | none => exact le_refl _
    | some m => exact hd.mark_nonneg hm
  rw [Store.shape?_schema]
  cases hT : d.table? t with
  | none => exact hnonneg
  | some T =>
    cases hk : T.shape.autoincrement? with
    | none => simpa [hk] using hnonneg
    | some k =>
      simp only [Option.map_some, Option.bind_some, hk, Option.elim_some]
      refine highest_le hnonneg fun r hr i hi => ?_
      rw [Store.rowsOf, hT] at hr
      obtain ⟨j, m, hj, hm, hle⟩ := hd.marked hT hk r hr
      obtain rfl := Value.int.inj (hi.symm.trans hj)
      rw [hm]
      exact hle

/-- A mark restored on the symbols is restored on the rows. -/
theorem value_restoreMark (hd : d.Valid) {high m m' : Mark τ}
    (h : (symbolic d.schema).restoreMark high m = some m') :
    (Sql.rows (κ := κ) julianday).restoreMark (high.value d) (m.value d) = some (m'.value d) := by
  simp only [symbolic] at h
  split at h
  · obtain rfl := Option.some.inj h
    rfl
  · rename_i t t'
    split at h
    · rename_i htt
      subst htt
      obtain rfl := Option.some.inj h
      have hle := copied_le hd t
      have hnonneg : 0 ≤ (((d.schema.shape? t).bind Shape.autoincrement?).elim 0 fun k =>
          highest k (d.rowsOf t)) := by
        cases (d.schema.shape? t).bind Shape.autoincrement? with
        | none => exact le_refl _
        | some k => exact highest_nonneg k _
      simp only [Sql.rows, Mark.value]
      cases hm : d.mark t with
      | none =>
        rw [hm] at hle
        rw [le_antisymm hle hnonneg]
      | some m =>
        rw [hm] at hle
        exact congrArg (fun m => some (some m)) (max_eq_right hle)
    · cases h
  · cases h

/-- **Over a valid store, symbolic contents stand for rows.** -/
theorem represents (hd : d.Valid) : Contents.Represents (Symbolic.rows julianday d)
    (Mark.value d) (symbolic d.schema) (Sql.rows julianday) where
  empty := rfl
  addColumn c x := by
    obtain ⟨source, row⟩ := x
    cases source with
    | none => rfl
    | some t =>
      simp only [Symbolic.rows, Sql.rows, symbolic, Option.elim_some, List.map_map]
      refine List.map_congr_left fun r _ => funext fun k => ?_
      simp only [Symbolic.eval, Function.comp_apply, Function.update_apply]
      rw [Symbolic.expr_put ⟨some t, row⟩]
      split <;> rfl
  dropColumn k x := by
    obtain ⟨source, row⟩ := x
    cases source with
    | none => rfl
    | some t =>
      simp only [Symbolic.rows, Sql.rows, symbolic, Option.elim_some, List.map_map]
      refine List.map_congr_left fun r _ => funext fun k' => ?_
      simp only [Symbolic.eval, Function.comp_apply, Function.update_apply]
      rw [Symbolic.expr_filter ⟨some t, row⟩]
      split <;> rfl
  update set p x := rows_update x set p
  insertFrom h := rows_insertFrom h
  conforms := by
    intro c x h
    obtain ⟨source, row⟩ := x
    cases source with
    | none => rfl
    | some t =>
      obtain ⟨s, hs, hfits⟩ := Option.any_eq_true _ _ |>.mp h
      refine List.all_eq_true.mpr fun r' hr' => ?_
      obtain ⟨r, hr, rfl⟩ := List.mem_map.mp hr'
      exact Expr.fits_eval (hd.admits hs r hr) hfits
  distinct h := rows_distinct hd h
  noMark := rfl
  raiseMark h := value_raiseMark h
  restoreMark h := value_restoreMark hd h

/-! ### Whole stores -/

/-- An entry is found where the keys are distinct. -/
theorem lookup_of_mem {A B : Type} [DecidableEq A] {l : List (A × B)}
    (hl : (l.map Prod.fst).Nodup) {a : A} {b : B} (h : (a, b) ∈ l) : l.lookup a = some b := by
  induction l with
  | nil => cases h
  | cons p l ih =>
    obtain ⟨c, y⟩ := p
    rw [List.map_cons, List.nodup_cons] at hl
    rw [lookup_cons_ite]
    rcases List.mem_cons.mp h with heq | hmem
    · obtain ⟨rfl, rfl⟩ := Prod.mk.inj heq
      rw [if_pos rfl]
    · have hne : a ≠ c := by
        rintro rfl
        exact hl.1 (List.mem_map.mpr ⟨(a, b), hmem, rfl⟩)
      rw [if_neg hne]
      exact ih hl.2 hmem

/-- An entry found is in the list. -/
theorem mem_of_lookup {A B : Type} [DecidableEq A] {l : List (A × B)} {a : A} {b : B}
    (h : l.lookup a = some b) : (a, b) ∈ l := by
  induction l with
  | nil => cases h
  | cons p l ih =>
    obtain ⟨c, y⟩ := p
    rw [lookup_cons_ite] at h
    split at h
    · rename_i hc
      obtain rfl := Option.some.inj h
      exact hc ▸ List.mem_cons_self
    · exact List.mem_cons_of_mem _ (ih h)

omit [DecidableEq κ] in
/-- A table of a valid database is found under its name. -/
theorem Store.table?_of_mem (hd : d.Valid) {p : τ × TableData κ τ (List (Row κ))}
    (hp : p ∈ d.tables) : d.table? p.1 = some p.2 :=
  lookup_of_mem hd.nodup hp

variable (julianday) in
/-- The symbolic form of a store stands for the store. -/
theorem toSymbolic_map (hd : d.Valid) :
    d.schema.toSymbolic.map (Symbolic.rows julianday d) (Mark.value d) = d := by
  have htables : d.schema.toSymbolic.tables.map
      (Prod.map id (TableData.map (Symbolic.rows julianday d))) = d.tables := by
    simp only [Schema.toSymbolic, Store.schema, List.map_map]
    refine (List.map_congr_left fun p hp => ?_).trans (List.map_id _)
    have hT := Store.table?_of_mem hd hp
    have hrows : (Symbolic.mk (some p.1) (p.2.shape.names.map fun k => (k, Expr.col k))).rows
        julianday d = p.2.contents := by
      rw [Symbolic.rows, Option.elim_some, Store.rowsOf, hT]
      refine (List.map_congr_left fun r hr => funext fun k => ?_).trans (List.map_id _)
      rw [Symbolic.eval, Symbolic.expr, lookup_map_name (fun k => k) Expr.col]
      cases hk : p.2.shape.names.find? fun k' => k' = k with
      | none =>
        -- outside the columns
        refine (hd.outside hT r hr k fun hmem => ?_).symm
        simpa using List.find?_eq_none.mp hk k hmem
      | some k' =>
        obtain rfl : k' = k := by simpa using List.find?_some hk
        rfl
    exact Prod.ext rfl (congrArg (TableData.mk p.2.shape) hrows)
  have hmarks : d.schema.toSymbolic.marks.map (Prod.map id (Mark.value d)) = d.marks := by
    have hnodup : (d.marks.map Prod.fst).Nodup := by
      rw [hd.marks]
      refine List.Nodup.sublist (List.filter_sublist.map _) ?_
      simpa [Store.schema, Function.comp_def] using hd.nodup
    have hkeys : d.schema.toSymbolic.marks.map (Prod.map id (Mark.value d)) =
        (d.marks.map Prod.fst).map fun t => (t, d.mark t) := by
      rw [hd.marks]
      simp [Schema.toSymbolic, Mark.value, Function.comp_def]
    rw [hkeys, List.map_map]
    refine (List.map_congr_left fun p hp => ?_).trans (List.map_id _)
    rw [Function.comp_apply, Store.mark, lookup_of_mem hnodup hp]
    rfl
  obtain ⟨tables, indexes, marks, highWater, version⟩ := d
  obtain rfl : highWater = none := hd.highWater
  exact congrArg₂ (fun t m => Store.mk t indexes m none version) htables hmarks

/-- A foreign key that is kept is met by the rows it stands for exactly when it was. -/
theorem keeps_iff {S : Store κ τ ι (Symbolic κ τ) (Mark τ)} {x : Symbolic κ τ}
    {fk : ForeignKey κ τ} (h : x.Keeps d.schema S fk = true) {t : τ} (ht : x.source = some t) :
    (∀ r ∈ x.rows julianday d, (r fk.column = .null ∨
      ∃ r' ∈ (S.map (Symbolic.rows julianday d) (Mark.value d)).rowsOf fk.table,
        r' fk.parent = r fk.column)) ↔
    ∀ r ∈ d.rowsOf t, (r fk.column = .null ∨
      ∃ r' ∈ d.rowsOf fk.table, r' fk.parent = r fk.column) := by
  simp only [Symbolic.Keeps, ht, Option.any_some, Option.any_eq_true, Bool.and_eq_true,
    decide_eq_true_eq] at h
  obtain ⟨s, -, ⟨-, hcol⟩, P, hP, hsource, hparent⟩ := h
  have hvalue (r : Row κ) : x.eval julianday r fk.column = r fk.column := by
    rw [Symbolic.eval, hcol]
    rfl
  rw [Store.rowsOf, Store.table?_map, hP, Symbolic.rows, ht]
  simp only [Option.map_some, Option.elim_some, TableData.map_contents, Symbolic.rows, hsource,
    List.mem_map, exists_exists_and_eq_and, Symbolic.eval, hparent, Expr.eval]
  constructor
  · intro h r hr
    have hrow := h _ ⟨r, hr, rfl⟩
    rwa [hvalue] at hrow
  · rintro h _ ⟨r, hr, rfl⟩
    rw [hvalue]
    exact h r hr

/-- **On a stable store the check finds what it finds on the initial one.** -/
theorem consistent_map (hd : d.Valid) {S : Store κ τ ι (Symbolic κ τ) (Mark τ)}
    (hS : stable d.schema S = true) :
    (S.map (Symbolic.rows julianday d) (Mark.value d)).consistent = d.consistent := by
  simp only [stable, Bool.and_eq_true, List.all_eq_true, Bool.or_eq_true, decide_eq_true_eq,
    List.any_eq_true] at hS
  obtain ⟨hthere, hkept⟩ := hS
  have hmeets (d : Database κ τ ι) : d.consistent = true ↔ ∀ p ∈ d.tables,
      ∀ fk ∈ p.2.shape.foreignKeys, ∀ r ∈ p.2.contents, (r fk.column = .null ∨
        ∃ r' ∈ d.rowsOf fk.table, r' fk.parent = r fk.column) := by
    simp only [Store.consistent, List.all_eq_true, Bool.or_eq_true, List.any_eq_true,
      decide_eq_true_eq]
  rw [Bool.eq_iff_iff, hmeets, hmeets]
  constructor
  · intro h p hp fk hfk
    have hp' : (p.1, p.2.shape) ∈ d.schema.tables := List.mem_map.mpr ⟨p, hp, rfl⟩
    obtain ⟨q, hq, ⟨hsource, hfk'⟩, hkeeps⟩ := hkept _ hp' fk hfk
    have hrows := (keeps_iff hkeeps hsource).mp
      (h _ (List.mem_map.mpr ⟨q, hq, rfl⟩) fk hfk')
    rwa [Store.rowsOf, Store.table?_of_mem hd hp] at hrows
  · intro h p hp fk hfk
    obtain ⟨q, hq, rfl⟩ := List.mem_map.mp hp
    rcases hthere q hq fk hfk with (hnone | hnull) | hkeeps
    · show ∀ r ∈ q.2.contents.rows julianday d, _
      rw [Symbolic.rows, hnone]
      intro r hr
      cases hr
    · show ∀ r ∈ q.2.contents.rows julianday d, _
      intro r hr
      cases hsource : q.2.contents.source with
      | none =>
        rw [Symbolic.rows, hsource] at hr
        cases hr
      | some t =>
        rw [Symbolic.rows, hsource] at hr
        obtain ⟨r₀, -, rfl⟩ := List.mem_map.mp hr
        left
        rw [Symbolic.eval, hnull]
        rfl
    · cases hsource : q.2.contents.source with
      | none =>
        rw [Symbolic.Keeps, hsource] at hkeeps
        cases hkeeps
      | some t =>
        refine (keeps_iff hkeeps hsource).mpr ?_
        simp only [Symbolic.Keeps, hsource, Option.any_some, Option.any_eq_true,
          Bool.and_eq_true, decide_eq_true_eq] at hkeeps
        obtain ⟨s, hs, ⟨hfk', -⟩, -⟩ := hkeeps
        rw [Store.shape?_schema] at hs
        obtain ⟨T, hT, rfl⟩ := Option.map_eq_some_iff.mp hs
        rw [Store.rowsOf, hT]
        exact h (t, T) (mem_of_lookup hT) fk hfk'

variable [DecidableEq ι]

/-- The engine of a kind of contents. -/
def Contents.engine {ρ ς : Type} (A : Contents κ ρ ς) (check : Store κ τ ι ρ ς → Bool) :
    Engine (Stmt κ τ ι) (Store κ τ ι ρ ς) :=
  ⟨fun st s => A.exec s st, Stmt.isDml, check⟩

/-- SQLite, as a driver in its legacy mode runs it. -/
def sqlite (julianday : Value → Option ℚ) : Engine (Stmt κ τ ι) (Database κ τ ι) :=
  (Sql.rows julianday).engine Store.consistent

/-- The symbolic engine over a store of schema `s`; its check asks that the foreign keys say
    what they said. -/
def symbolically (s : Schema κ τ ι) :
    Engine (Stmt κ τ ι) (Store κ τ ι (Symbolic κ τ) (Mark τ)) :=
  (symbolic s).engine (stable s)

/-- **Symbolic runs speak for the runs on the data.** -/
theorem carries (julianday : Value → Option ℚ) (hd : d.Valid) :
    Engine.Carries (Store.map (Symbolic.rows julianday d) (Mark.value d))
      (symbolically d.schema) (sqlite julianday) (stable d.schema) d.consistent where
  exec h := Contents.exec_map (represents hd) h
  opens _ := rfl
  check h := consistent_map hd h

end Valid

end Relational.Sql
