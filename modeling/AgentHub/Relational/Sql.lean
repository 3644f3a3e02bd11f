import Mathlib.Data.Rat.Defs
import Mathlib.Algebra.Order.Ring.Rat
import Mathlib.Logic.Function.Basic

namespace Relational.Sql

/-!
# A fragment of SQLite

The part of SQLite that a schema migration uses: tables with their declared shape, expressions
over a row, and the statements that change shapes, rows, indexes and `AUTOINCREMENT` marks.

* `Value`, `Expr` — storage classes and the expressions of `UPDATE … SET … WHERE`;
* `Column`, `Shape`, `IndexDef` — what `CREATE TABLE` and `CREATE INDEX` declare; two shapes
  are equal when the normalised texts of their statements are;
* `Contents` — what a table may hold, and what each statement does to it: `rows` is the
  database, and another instance may stand for a whole class of databases;
* `Store`, `Stmt`, `exec` — a database file and one statement; `none` is an SQL error;
* `Store.map` and `exec_map` — what is known of one kind of contents carries over to another.

Tables, columns and indexes are named by types of the user's choice.
-/

variable {κ τ ι ρ ς : Type}

/-! ### Values and expressions -/

/-- A stored value; no column here holds a blob. -/
inductive Value where
  | null
  | int (i : ℤ)
  | real (x : ℚ)
  | text (s : String)
deriving DecidableEq

namespace Value

/-- The number a value is, if it is one. -/
def num? : Value → Option ℚ
  | int i => some i
  | real x => some x
  | _ => none

/-- A condition holds: neither `NULL` nor zero. -/
def isTrue (v : Value) : Bool := v.num?.any fun x => x ≠ 0

/-- SQLite's truth values. -/
def ofBool (b : Bool) : Value := .int (if b then 1 else 0)

/-- A binary operator on numbers; `NULL` when a side is none.  Text is not computed with. -/
def arith (f : ℚ → ℚ → ℚ) (v w : Value) : Value :=
  match v.num?, w.num? with
  | some x, some y => .real (f x y)
  | _, _ => .null

/-- `max(v, w)`: the larger argument, `NULL` when one is. -/
def max (v w : Value) : Value :=
  match v.num?, w.num? with
  | some x, some y => if x < y then w else v
  | _, _ => .null

/-- A comparison, `NULL` when a side is. -/
def compare (r : Value → Value → Bool) (v w : Value) : Value :=
  if v = .null ∨ w = .null then .null else ofBool (r v w)

/-- `trim(v)`: spaces off both ends; only text is trimmed. -/
def trim : Value → Value
  | text s => .text (String.ofList
      ((s.toList.dropWhile (· = ' ')).reverse.dropWhile (· = ' ')).reverse)
  | v => v

/-- The larger of an id and a bound. -/
def maxId (m : ℤ) : Value → ℤ
  | int i => Max.max i m
  | _ => m

/-- A number in a `REAL` column is a real. -/
def toReal : Value → Value
  | int i => .real i
  | v => v

end Value

/-- An expression over the columns of a row. -/
inductive Expr (κ : Type) where
  | col (k : κ)
  | lit (v : Value)
  | trim (e : Expr κ)
  | coalesce (e e' : Expr κ)
  | julianday (e : Expr κ)
  | sub (e e' : Expr κ)
  | mul (e e' : Expr κ)
  | max (e e' : Expr κ)
  | eq (e e' : Expr κ)
  | ne (e e' : Expr κ)
  | isNotNull (e : Expr κ)
  | and (e e' : Expr κ)
  | case (p e e' : Expr κ)
  | toReal (e : Expr κ)
deriving DecidableEq

/-- A row: the value of each column, `NULL` outside the columns of its table. -/
abbrev Row (κ : Type) := κ → Value

namespace Expr

variable (julianday : Value → Option ℚ)

/-- The value of an expression in a row. -/
def eval (r : Row κ) : Expr κ → Value
  | col k => r k
  | lit v => v
  | trim e => (eval r e).trim
  | coalesce e e' => if eval r e = .null then eval r e' else eval r e
  | .julianday e => (julianday (eval r e)).elim .null .real
  | sub e e' => .arith (· - ·) (eval r e) (eval r e')
  | mul e e' => .arith (· * ·) (eval r e) (eval r e')
  | max e e' => (eval r e).max (eval r e')
  | eq e e' => .compare (fun v w => v = w) (eval r e) (eval r e')
  | ne e e' => .compare (fun v w => v ≠ w) (eval r e) (eval r e')
  | isNotNull e => .ofBool (eval r e ≠ .null)
  | and e e' => .ofBool ((eval r e).isTrue && (eval r e').isTrue)
  | case p e e' => if (eval r p).isTrue then eval r e else eval r e'
  | toReal e => (eval r e).toReal

/-- The columns an expression reads. -/
def columns : Expr κ → List κ
  | col k => [k]
  | lit _ => []
  | trim e | .julianday e | isNotNull e | toReal e => columns e
  | coalesce e e' | sub e e' | mul e e' | max e e' | eq e e' | ne e e' | and e e' =>
    columns e ++ columns e'
  | case p e e' => columns p ++ columns e ++ columns e'

/-- An expression over the columns of a row whose columns are expressions themselves. -/
def subst (f : κ → Expr κ) : Expr κ → Expr κ
  | col k => f k
  | lit v => lit v
  | trim e => trim (subst f e)
  | coalesce e e' => coalesce (subst f e) (subst f e')
  | .julianday e => .julianday (subst f e)
  | sub e e' => sub (subst f e) (subst f e')
  | mul e e' => mul (subst f e) (subst f e')
  | max e e' => max (subst f e) (subst f e')
  | eq e e' => eq (subst f e) (subst f e')
  | ne e e' => ne (subst f e) (subst f e')
  | isNotNull e => isNotNull (subst f e)
  | and e e' => and (subst f e) (subst f e')
  | case p e e' => case (subst f p) (subst f e) (subst f e')
  | toReal e => toReal (subst f e)

/-- Substituting and evaluating is evaluating the substituted row. -/
theorem eval_subst (r : Row κ) (f : κ → Expr κ) (e : Expr κ) :
    eval julianday r (e.subst f) = eval julianday (fun k => (f k).eval julianday r) e := by
  induction e with
  | col k => rfl
  | lit v => rfl
  | _ => simp_all only [subst, eval]

end Expr

/-! ### Shapes -/

/-- The declared type of a column. -/
inductive Affinity where
  | integer
  | real
  | text
deriving DecidableEq

/-- The key a column is by itself. -/
inductive ColumnKey where
  | none
  | unique
  | primary
  | autoincrement
deriving DecidableEq

/-- A column as `CREATE TABLE` declares it. -/
structure Column (κ : Type) where
  name : κ
  type : Affinity
  key : ColumnKey := .none
  notNull : Bool := false
  default : Value := .null
  /-- `CHECK (name IN (…))`; empty when there is none. -/
  oneOf : List Value := []
deriving DecidableEq

/-- What `ON DELETE` says. -/
inductive OnDelete where
  | noAction
  | cascade
  | setNull
deriving DecidableEq

/-- `FOREIGN KEY (column) REFERENCES table(parent)`. -/
structure ForeignKey (κ τ : Type) where
  column : κ
  table : τ
  parent : κ
  onDelete : OnDelete := .noAction
deriving DecidableEq

/-- The normalised text of a `CREATE TABLE` statement. -/
structure Shape (κ τ : Type) where
  columns : List (Column κ)
  primaryKey : List κ := []
  foreignKeys : List (ForeignKey κ τ) := []
  /-- Columns `ALTER TABLE` wrote behind the last line of a table without table constraints;
      with constraints it writes them behind the last column. -/
  appended : List (Column κ) := []
deriving DecidableEq

/-- `CREATE [UNIQUE] INDEX … ON table(columns) [WHERE partialOn IS NOT NULL]`. -/
structure IndexDef (κ τ : Type) where
  table : τ
  columns : List κ
  unique : Bool := false
  partialOn : Option κ := none
deriving DecidableEq

/-- A value of the column, as its type stores it. -/
def Column.stored (c : Column κ) (e : Expr κ) : Expr κ :=
  match c.type with
  | .real => e.toReal
  | _ => e

/-- The value of the column in a row that says nothing about it. -/
def Column.initial (c : Column κ) : Value :=
  match c.type with
  | .real => c.default.toReal
  | _ => c.default

/-- The column's constraints on one value; `CHECK` passes when its condition is `NULL`. -/
def Column.admits (c : Column κ) (v : Value) : Bool :=
  (!c.notNull || v ≠ .null) && (c.oneOf = [] || v = .null || v ∈ c.oneOf)

namespace Shape

variable (s : Shape κ τ)

/-- The columns of a table, in order. -/
def all : List (Column κ) := s.columns ++ s.appended

/-- The names of the columns, in order. -/
def names : List κ := s.all.map Column.name

/-- The keys the table declares: no two rows agree on all columns of one. -/
def keys : List (List κ) :=
  (if s.primaryKey = [] then [] else [s.primaryKey]) ++
    (s.all.filter fun c => c.key ≠ .none).map fun c => [c.name]

/-- The column whose values `AUTOINCREMENT` allocates. -/
def autoincrement? : Option κ :=
  (s.all.find? fun c => c.key = .autoincrement).map Column.name

/-- `ALTER TABLE ADD COLUMN`; see `appended` for where the text goes. -/
def addColumn (c : Column κ) : Shape κ τ :=
  if s.primaryKey = [] ∧ s.foreignKeys = [] then { s with appended := s.appended ++ [c] }
  else { s with columns := s.columns ++ [c] }

variable [DecidableEq κ]

/-- The column of a name. -/
def column? (k : κ) : Option (Column κ) := s.all.find? fun c => c.name = k

/-- `ALTER TABLE DROP COLUMN`. -/
def dropColumn (k : κ) : Shape κ τ :=
  { s with
    columns := s.columns.filter fun c => c.name ≠ k
    appended := s.appended.filter fun c => c.name ≠ k }

/-- What `UPDATE … SET` writes, as the columns store it. -/
def stored (set : List (κ × Expr κ)) : List (κ × Expr κ) :=
  set.map fun p => (p.1, (s.column? p.1).elim p.2 fun c => c.stored p.2)

end Shape

/-! ### Contents of a table -/

/-- What a table may hold, and what the statements do to it. -/
structure Contents (κ ρ ς : Type) where
  empty : ρ
  addColumn : Column κ → ρ → ρ
  dropColumn : κ → ρ → ρ
  /-- `UPDATE … SET set WHERE p`. -/
  update : List (κ × Expr κ) → Expr κ → ρ → ρ
  /-- `INSERT INTO … (names) SELECT names FROM …`, into a table with the given columns. -/
  insertFrom : List (Column κ) → List κ → ρ → ρ → Option ρ
  /-- Every row meets the constraints of the column. -/
  conforms : Column κ → ρ → Bool
  /-- No two rows agree on the key. -/
  distinct : List κ → ρ → Bool
  /-- No row in `sqlite_sequence`. -/
  noMark : ς
  /-- The mark after rows have been inserted under their own ids. -/
  raiseMark : ς → κ → ρ → Option ς
  /-- The mark after an older one has been carried over. -/
  restoreMark : ς → ς → Option ς

section Rows

variable [DecidableEq κ] (julianday : Value → Option ℚ)

/-- What `SET` makes of a row. -/
def Row.assign (set : List (κ × Expr κ)) (r : Row κ) : Row κ := fun k =>
  ((set.lookup k).getD (.col k)).eval julianday r

/-- A row of the source of an `INSERT … SELECT`, as a row of its target. -/
def Row.project (columns : List (Column κ)) (names : List κ) (r : Row κ) : Row κ := fun k =>
  (columns.find? fun c => c.name = k).elim .null fun c => if k ∈ names then r k else c.initial

/-- Two rows agree on a key; `NULL` agrees with nothing. -/
def Row.agree (key : List κ) (r r' : Row κ) : Bool := key.all fun k => r k ≠ .null && r k = r' k

/-- The highest id in a column, at least 0. -/
def highest (k : κ) (rows : List (Row κ)) : ℤ :=
  rows.foldr (fun r m => (r k).maxId m) 0

/-- Rows in the order in which they were inserted, and the marks of `sqlite_sequence`. -/
def rows : Contents κ (List (Row κ)) (Option ℤ) where
  empty := []
  addColumn c rows := rows.map fun r => Function.update r c.name c.initial
  dropColumn k rows := rows.map fun r => Function.update r k .null
  update set p rows :=
    rows.map fun r => if (p.eval julianday r).isTrue then r.assign julianday set else r
  insertFrom columns names target source :=
    some (target ++ source.map (Row.project columns names))
  conforms c rows := rows.all fun r => c.admits (r c.name)
  distinct key rows := decide (rows.Pairwise fun r r' => ¬ r.agree key r')
  noMark := none
  raiseMark mark k rows := some (some (max (mark.getD 0) (highest k rows)))
  restoreMark high mark := some <|
    match high, mark with
    | none, mark => mark
    | some h, none => some h
    | some h, some m => some (max m h)

end Rows

/-! ### Stores and statements -/

/-- A table: the text it was created by, and what it holds. -/
structure TableData (κ τ ρ : Type) where
  shape : Shape κ τ
  contents : ρ
deriving DecidableEq

/-- A database file.  `highWater` is the mark a program has read and holds in a variable. -/
structure Store (κ τ ι ρ ς : Type) where
  tables : List (τ × TableData κ τ ρ)
  indexes : List (ι × IndexDef κ τ)
  marks : List (τ × ς)
  highWater : ς
  version : ℕ
deriving DecidableEq

/-- A store of rows. -/
abbrev Database (κ τ ι : Type) := Store κ τ ι (List (Row κ)) (Option ℤ)

/-- What a program can read of a store without reading a row. -/
structure Schema (κ τ ι : Type) where
  tables : List (τ × Shape κ τ)
  indexes : List (ι × IndexDef κ τ)
  version : ℕ
deriving DecidableEq

/-- A statement. -/
inductive Stmt (κ τ ι : Type) where
  | addColumn (t : τ) (c : Column κ)
  | dropColumn (t : τ) (k : κ)
  | update (t : τ) (set : List (κ × Expr κ)) (p : Expr κ)
  /-- `IF NOT EXISTS`. -/
  | createTable (t : τ) (s : Shape κ τ)
  | dropTable (t : τ) (ifExists : Bool)
  /-- Under `legacy_alter_table`: no other table's text is rewritten. -/
  | renameTable (t t' : τ)
  | insertFrom (t t' : τ) (names : List κ)
  /-- `IF NOT EXISTS`. -/
  | createIndex (i : ι) (d : IndexDef κ τ)
  /-- `IF EXISTS`. -/
  | dropIndex (i : ι)
  /-- `SELECT seq FROM sqlite_sequence`, into the program's variable. -/
  | readMark (t : τ)
  /-- The mark of a table raised to the one in the variable. -/
  | restoreMark (t : τ)
  | setVersion (n : ℕ)

/-- The statements before which the driver opens a transaction. -/
def Stmt.isDml : Stmt κ τ ι → Bool
  | .update .. | .insertFrom .. | .restoreMark .. => true
  | _ => false

section Exec

variable [DecidableEq κ] [DecidableEq τ] [DecidableEq ι]

/-- An entry of an association list, written or appended. -/
def put {A B : Type} [DecidableEq A] (a : A) (b : B) : List (A × B) → List (A × B)
  | [] => [(a, b)]
  | p :: ps => if p.1 = a then (a, b) :: ps else p :: put a b ps

/-- Entries of an association list under a new name. -/
def rename {A B : Type} [DecidableEq A] (a a' : A) (l : List (A × B)) : List (A × B) :=
  l.map fun p => (if p.1 = a then a' else p.1, p.2)

namespace Store

variable (s : Store κ τ ι ρ ς)

/-- The schema of a store. -/
def schema : Schema κ τ ι := ⟨s.tables.map fun p => (p.1, p.2.shape), s.indexes, s.version⟩

/-- The table of a name. -/
def table? (t : τ) : Option (TableData κ τ ρ) := s.tables.lookup t

/-- The keys of a table of a given shape: its own, and those of its unique indexes. -/
def keys (t : τ) (shape : Shape κ τ) : List (List κ) :=
  shape.keys ++ (s.indexes.filter fun p => p.2.table = t && p.2.unique).map fun p => p.2.columns

end Store

namespace Schema

variable (s : Schema κ τ ι)

/-- The shape of a table. -/
def shape? (t : τ) : Option (Shape κ τ) := s.tables.lookup t

/-- `PRAGMA table_info`. -/
def columns (t : τ) : List κ := (s.shape? t).elim [] Shape.names

end Schema

variable (A : Contents κ ρ ς)

namespace Contents

/-- The constraints that a statement which wrote the columns `names` of a table has to meet. -/
def valid (s : Store κ τ ι ρ ς) (t : τ) (T : TableData κ τ ρ) (names : List κ) : Bool :=
  ((T.shape.all.filter fun c => c.name ∈ names).all fun c => A.conforms c T.contents) &&
    ((s.keys t T.shape).filter fun key => key.any (· ∈ names)).all fun key =>
      A.distinct key T.contents

/-- The AUTOINCREMENT mark of a table. -/
def mark (s : Store κ τ ι ρ ς) (t : τ) : ς := (s.marks.lookup t).getD A.noMark

/-- A table whose columns `names` have been written, when its constraints hold. -/
def write (s : Store κ τ ι ρ ς) (t : τ) (T : TableData κ τ ρ) (names : List κ) :
    Option (Store κ τ ι ρ ς) :=
  if A.valid s t T names then some { s with tables := put t T s.tables } else none

/-- The mark of a table after an `INSERT … SELECT` that copied the columns `names`. -/
def insertMark (T : TableData κ τ ρ) (names : List κ) (source : ρ) (mark : ς) : Option ς :=
  match T.shape.autoincrement? with
  | none => some mark
  | some k => if k ∈ names then A.raiseMark mark k source else none

/-- One statement. -/
def exec (s : Store κ τ ι ρ ς) : Stmt κ τ ι → Option (Store κ τ ι ρ ς)
  | .addColumn t c => do
    let T ← s.table? t
    if c.name ∈ T.shape.names ∨ c.key ≠ .none then none
    else A.write s t ⟨T.shape.addColumn c, A.addColumn c T.contents⟩ [c.name]
  | .dropColumn t k => do
    let T ← s.table? t
    -- a key, an index or a foreign key on the column is an error
    if k ∉ T.shape.names ∨ T.shape.keys.any (k ∈ ·) ∨ T.shape.foreignKeys.any (·.column = k) ∨
        s.indexes.any (fun p => p.2.table = t && k ∈ p.2.columns) then none
    else A.write s t ⟨T.shape.dropColumn k, A.dropColumn k T.contents⟩ []
  | .update t set p => do
    let T ← s.table? t
    if ∀ k ∈ set.map Prod.fst ++ p.columns ++ set.flatMap (·.2.columns), k ∈ T.shape.names then
      A.write s t ⟨T.shape, A.update (T.shape.stored set) p T.contents⟩ (set.map Prod.fst)
    else none
  | .createTable t shape =>
    if (s.table? t).isSome then some s
    else some { s with tables := s.tables ++ [(t, ⟨shape, A.empty⟩)] }
  | .dropTable t ifExists =>
    if (s.table? t).isSome then
      some { s with
        tables := s.tables.filter fun p => p.1 ≠ t
        indexes := s.indexes.filter fun p => p.2.table ≠ t
        marks := s.marks.filter fun p => p.1 ≠ t }
    else if ifExists then some s else none
  | .renameTable t t' =>
    if (s.table? t).isSome ∧ s.table? t' = none then
      some { s with
        tables := rename t t' s.tables
        indexes := s.indexes.map fun p =>
          (p.1, { p.2 with table := if p.2.table = t then t' else p.2.table })
        marks := rename t t' s.marks }
    else none
  | .insertFrom t t' names => do
    let T ← s.table? t
    let S ← s.table? t'
    if ∀ k ∈ names, k ∈ T.shape.names ∧ k ∈ S.shape.names then do
      let contents ← A.insertFrom T.shape.all names T.contents S.contents
      let mark ← A.insertMark T names S.contents (A.mark s t)
      let s' ← A.write s t ⟨T.shape, contents⟩ T.shape.names
      some (if T.shape.autoincrement? = none then s'
        else { s' with marks := put t mark s'.marks })
    else none
  | .createIndex i d =>
    if (s.indexes.lookup i).isSome then some s
    else do
      let T ← s.table? d.table
      if (∀ k ∈ d.columns, k ∈ T.shape.names) ∧ (d.unique → A.distinct d.columns T.contents) then
        some { s with indexes := s.indexes ++ [(i, d)] }
      else none
  | .dropIndex i => some { s with indexes := s.indexes.filter fun p => p.1 ≠ i }
  | .readMark t => some { s with highWater := A.mark s t }
  | .restoreMark t => do
    let mark ← A.restoreMark s.highWater (A.mark s t)
    some { s with marks := put t mark s.marks, highWater := A.noMark }
  | .setVersion n => some { s with version := n }

end Contents

end Exec

/-! ### Contents that stand for others -/

section Map

variable {ρ' ς' A' B' : Type} (f : ρ → ρ') (g : ς → ς')

/-- A table with its contents mapped. -/
def TableData.map (T : TableData κ τ ρ) : TableData κ τ ρ' := ⟨T.shape, f T.contents⟩

/-- A store over the contents that those of `s` stand for. -/
def Store.map (s : Store κ τ ι ρ ς) : Store κ τ ι ρ' ς' where
  tables := s.tables.map (Prod.map id (TableData.map f))
  indexes := s.indexes
  marks := s.marks.map (Prod.map id g)
  highWater := g s.highWater
  version := s.version

/-- Contents of one kind stand for contents of another: every statement does the same to both,
    and what one side can tell of its constraints is so on the other. -/
structure Contents.Represents (A : Contents κ ρ ς) (B : Contents κ ρ' ς') : Prop where
  empty : f A.empty = B.empty
  addColumn : ∀ c x, f (A.addColumn c x) = B.addColumn c (f x)
  dropColumn : ∀ k x, f (A.dropColumn k x) = B.dropColumn k (f x)
  update : ∀ set p x, f (A.update set p x) = B.update set p (f x)
  insertFrom : ∀ {cs names x y z}, A.insertFrom cs names x y = some z →
    B.insertFrom cs names (f x) (f y) = some (f z)
  conforms : ∀ {c x}, A.conforms c x = true → B.conforms c (f x) = true
  distinct : ∀ {key x}, A.distinct key x = true → B.distinct key (f x) = true
  noMark : g A.noMark = B.noMark
  raiseMark : ∀ {m k x m'}, A.raiseMark m k x = some m' →
    B.raiseMark (g m) k (f x) = some (g m')
  restoreMark : ∀ {high m m'}, A.restoreMark high m = some m' →
    B.restoreMark (g high) (g m) = some (g m')

/-- A mapped table keeps its shape. -/
@[simp] theorem TableData.map_shape (T : TableData κ τ ρ) : (T.map f).shape = T.shape := rfl

/-- A mapped table has the mapped contents. -/
@[simp] theorem TableData.map_contents (T : TableData κ τ ρ) :
    (T.map f).contents = f T.contents := rfl

/-- A look-up in a mapped list. -/
theorem lookup_map {A B B' : Type} [DecidableEq A] (h : B → B') (l : List (A × B)) (a : A) :
    (l.map (Prod.map id h)).lookup a = (l.lookup a).map h := by
  induction l with
  | nil => rfl
  | cons p l ih =>
    obtain ⟨b, x⟩ := p
    show List.lookup a ((b, h x) :: l.map (Prod.map id h)) = _
    rw [List.lookup_cons, List.lookup_cons, ih]
    cases a == b <;> rfl

/-- A put into a mapped list. -/
theorem put_map {A B B' : Type} [DecidableEq A] (h : B → B') (a : A) (b : B)
    (l : List (A × B)) : (put a b l).map (Prod.map id h) = put a (h b) (l.map (Prod.map id h)) := by
  induction l with
  | nil => rfl
  | cons p l ih =>
    by_cases ha : p.1 = a
    · simp [put, ha]
    · simp [put, ha, ih]

/-- A renaming in a mapped list. -/
theorem rename_map {A B B' : Type} [DecidableEq A] (h : B → B') (a a' : A) (l : List (A × B)) :
    (rename a a' l).map (Prod.map id h) = rename a a' (l.map (Prod.map id h)) := by
  simp [rename, Function.comp_def]

/-- A selection by key from a mapped list. -/
theorem filter_map_fst {A B B' : Type} (h : B → B') (p : A → Bool) (l : List (A × B)) :
    (l.filter fun q => p q.1).map (Prod.map id h) =
      (l.map (Prod.map id h)).filter fun q => p q.1 := by
  rw [List.filter_map]
  rfl

namespace Store

variable {f g} (s : Store κ τ ι ρ ς)

/-- A mapped store keeps its schema. -/
@[simp] theorem schema_map : (s.map f g).schema = s.schema := by
  simp [schema, Store.map, Function.comp_def]

/-- A mapped store keeps its indexes. -/
@[simp] theorem indexes_map : (s.map f g).indexes = s.indexes := rfl

variable [DecidableEq τ]

/-- A schema has the shapes of the tables of its store. -/
theorem shape?_schema (t : τ) : s.schema.shape? t = (s.table? t).map TableData.shape :=
  lookup_map TableData.shape s.tables t

/-- The tables of a mapped store. -/
@[simp] theorem table?_map (t : τ) : (s.map f g).table? t = (s.table? t).map (TableData.map f) :=
  lookup_map ..

end Store

namespace Contents

variable {f g} {A : Contents κ ρ ς} {B : Contents κ ρ' ς'} {s s' : Store κ τ ι ρ ς}
variable [DecidableEq τ]

/-- The marks of a mapped store. -/
theorem mark_map (h : Represents f g A B) (s : Store κ τ ι ρ ς) (t : τ) :
    B.mark (s.map f g) t = g (A.mark s t) := by
  rw [mark, mark, ← h.noMark]
  show ((s.marks.map (Prod.map id g)).lookup t).getD _ = _
  rw [lookup_map, Option.getD_map]

variable [DecidableEq κ]

/-- A check that passes on the symbols passes on the rows. -/
theorem valid_map (h : Represents f g A B) {t : τ} {T : TableData κ τ ρ} {names : List κ}
    (hv : A.valid s t T names = true) : B.valid (s.map f g) t (T.map f) names = true := by
  simp only [valid, Bool.and_eq_true, List.all_eq_true] at hv ⊢
  exact ⟨fun c hc => h.conforms (hv.1 c hc), fun key hkey => h.distinct (hv.2 key hkey)⟩

/-- A write of the symbols is one of the rows. -/
theorem write_map (h : Represents f g A B) {t : τ} {T : TableData κ τ ρ} {names : List κ}
    (hw : A.write s t T names = some s') :
    B.write (s.map f g) t (T.map f) names = some (s'.map f g) := by
  unfold write at hw ⊢
  split at hw
  · rename_i hv
    obtain rfl := Option.some.inj hw
    rw [if_pos (valid_map h hv)]
    simp [Store.map, put_map, TableData.map]
  · cases hw

omit [DecidableEq τ] in
/-- A mark raised by an insert is raised on the rows. -/
theorem insertMark_map (h : Represents f g A B) {T : TableData κ τ ρ} {names : List κ} {y : ρ}
    {m m' : ς} (hm : A.insertMark T names y m = some m') :
    B.insertMark (T.map f) names (f y) (g m) = some (g m') := by
  unfold insertMark at hm ⊢
  rw [TableData.map_shape]
  cases hk : T.shape.autoincrement? with
  | none =>
    rw [hk] at hm
    exact congrArg (Option.map g) hm
  | some k =>
    simp only [hk] at hm ⊢
    split at hm
    · rename_i hmem
      rw [if_pos hmem]
      exact h.raiseMark hm
    · cases hm

variable [DecidableEq ι]

/-- **What goes through on the one side goes through on the other**, with the same effect. -/
theorem exec_map (h : Represents f g A B) {st : Stmt κ τ ι} (he : A.exec s st = some s') :
    B.exec (s.map f g) st = some (s'.map f g) := by
  cases st with
  | addColumn t c =>
    simp only [exec, Option.bind_eq_bind, Option.bind_eq_some_iff, Store.table?_map,
      Option.map_eq_some_iff] at he ⊢
    obtain ⟨T, hT, he⟩ := he
    refine ⟨T.map f, ⟨T, hT, rfl⟩, ?_⟩
    rw [TableData.map_shape]
    split at he
    · cases he
    · rename_i hc
      rw [if_neg hc, TableData.map_contents, ← h.addColumn]
      exact write_map h he
  | dropColumn t k =>
    simp only [exec, Option.bind_eq_bind, Option.bind_eq_some_iff, Store.table?_map,
      Option.map_eq_some_iff] at he ⊢
    obtain ⟨T, hT, he⟩ := he
    refine ⟨T.map f, ⟨T, hT, rfl⟩, ?_⟩
    rw [TableData.map_shape, Store.indexes_map]
    split at he
    · cases he
    · rename_i hk
      rw [if_neg hk, TableData.map_contents, ← h.dropColumn]
      exact write_map h he
  | update t set p =>
    simp only [exec, Option.bind_eq_bind, Option.bind_eq_some_iff, Store.table?_map,
      Option.map_eq_some_iff] at he ⊢
    obtain ⟨T, hT, he⟩ := he
    refine ⟨T.map f, ⟨T, hT, rfl⟩, ?_⟩
    rw [TableData.map_shape]
    split at he
    · rename_i hk
      rw [if_pos hk, TableData.map_contents, ← h.update]
      exact write_map h he
    · cases he
  | createTable t shape =>
    simp only [exec, Store.table?_map, Option.isSome_map] at he ⊢
    split at he
    · rename_i ht
      obtain rfl := Option.some.inj he
      rw [if_pos ht]
    · rename_i ht
      obtain rfl := Option.some.inj he
      rw [if_neg ht]
      simp [Store.map, TableData.map, h.empty]
  | dropTable t ifExists =>
    simp only [exec, Store.table?_map, Option.isSome_map] at he ⊢
    split at he
    · rename_i ht
      obtain rfl := Option.some.inj he
      have hne {B B' : Type} (h : B → B') (l : List (τ × B)) :
          (l.filter fun p => p.1 ≠ t).map (Prod.map id h) =
            (l.map (Prod.map id h)).filter fun p => p.1 ≠ t := filter_map_fst h (· ≠ t) l
      rw [if_pos ht, Store.map, Store.map, hne, hne]
    · rename_i ht
      rw [if_neg ht]
      split at he
      · rename_i hexists
        obtain rfl := Option.some.inj he
        rw [if_pos hexists]
      · cases he
  | renameTable t t' =>
    simp only [exec, Store.table?_map, Option.isSome_map, Option.map_eq_none_iff] at he ⊢
    split at he
    · rename_i ht
      obtain rfl := Option.some.inj he
      rw [if_pos ht]
      simp [Store.map, rename_map]
    · cases he
  | insertFrom t t' names =>
    simp only [exec, Option.bind_eq_bind, Option.bind_eq_some_iff, Store.table?_map,
      Option.map_eq_some_iff] at he ⊢
    obtain ⟨T, hT, S, hS, he⟩ := he
    refine ⟨T.map f, ⟨T, hT, rfl⟩, S.map f, ⟨S, hS, rfl⟩, ?_⟩
    split at he
    · rename_i hnames
      have hnames' : ∀ k ∈ names, k ∈ (T.map f).shape.names ∧ k ∈ (S.map f).shape.names := hnames
      rw [if_pos hnames']
      simp only [Option.bind_eq_some_iff, TableData.map_contents] at he ⊢
      obtain ⟨z, hz, m, hm, w, hw, he⟩ := he
      refine ⟨f z, h.insertFrom hz, g m, ?_, w.map f g, write_map h hw, ?_⟩
      · rw [mark_map h]
        exact insertMark_map h hm
      · obtain rfl := Option.some.inj he
        show some (if T.shape.autoincrement? = none then _ else _) = _
        by_cases hk : T.shape.autoincrement? = none
        · rw [if_pos hk, if_pos hk]
        · rw [if_neg hk, if_neg hk]
          simp [Store.map, put_map]
    · cases he
  | createIndex i d =>
    simp only [exec, Option.bind_eq_bind] at he ⊢
    change (if (s.indexes.lookup i).isSome = true then _ else _) = _
    split at he
    · rename_i hi
      obtain rfl := Option.some.inj he
      rw [if_pos hi]
    · rename_i hi
      rw [if_neg hi]
      simp only [Option.bind_eq_some_iff, Store.table?_map, Option.map_eq_some_iff] at he ⊢
      obtain ⟨T, hT, he⟩ := he
      refine ⟨T.map f, ⟨T, hT, rfl⟩, ?_⟩
      split at he
      · rename_i hd
        obtain rfl := Option.some.inj he
        rw [if_pos ⟨hd.1, fun hu => h.distinct (hd.2 hu)⟩]
        rfl
      · cases he
  | dropIndex i =>
    obtain rfl := Option.some.inj he
    rfl
  | readMark t =>
    obtain rfl := Option.some.inj he
    rw [exec, mark_map h]
    rfl
  | restoreMark t =>
    simp only [exec, Option.bind_eq_bind, Option.bind_eq_some_iff] at he ⊢
    obtain ⟨m, hm, he⟩ := he
    obtain rfl := Option.some.inj he
    refine ⟨g m, ?_, ?_⟩
    · rw [mark_map h]
      exact h.restoreMark hm
    · simp [Store.map, put_map, h.noMark]
  | setVersion n =>
    obtain rfl := Option.some.inj he
    rfl

end Contents

end Map

end Relational.Sql
