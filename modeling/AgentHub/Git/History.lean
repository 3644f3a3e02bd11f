import Mathlib.Logic.Relation
import Mathlib.Data.List.Basic

namespace Git

/-!
# Commits

The objects of a repository: a commit, named by its contents, has parents and a tree of files.

* `History` — parents and trees, without cycles;
* `Ancestor` — a commit that is in the history of another one, or the other one itself;
* `Ancestor.antisymm`, `Ancestor.of_single` — what fast-forward movement rests on;
* `ChangesOnly` — a commit that changes one file of its parent.
-/

/-- Commits with their parents and files.  A commit is younger than its parents: it is named by a
    digest of them. -/
class History (C : Type) where
  parents : C → List C
  tree : C → String → Option String
  /-- What `git diff --name-only` prints for two commits.  Nothing is asked of it: it looks for
      renames, and the old name of a renamed file is not printed. -/
  diff : C → C → List String
  depth : C → ℕ
  depth_lt : ∀ c p, p ∈ parents c → depth p < depth c

variable {C : Type} [History C]

open History

/-- `a` is `c` or in the history of `c`. -/
def Ancestor (a c : C) : Prop := Relation.ReflTransGen (fun p c => p ∈ parents c) a c

/-- A commit is an ancestor of itself. -/
theorem Ancestor.refl (c : C) : Ancestor c c := Relation.ReflTransGen.refl

/-- An ancestor of an ancestor is one. -/
theorem Ancestor.trans {a b c : C} (h : Ancestor a b) (h' : Ancestor b c) : Ancestor a c :=
  Relation.ReflTransGen.trans h h'

/-- A parent is an ancestor. -/
theorem Ancestor.parent {p c : C} (h : p ∈ parents c) : Ancestor p c :=
  Relation.ReflTransGen.single h

/-- An ancestor is no deeper than what came from it. -/
theorem Ancestor.depth_le {a c : C} (h : Ancestor a c) : depth a ≤ depth c := by
  induction h with
  | refl => exact Nat.le_refl _
  | tail _ hparent ih => exact Nat.le_trans ih (Nat.le_of_lt (depth_lt _ _ hparent))

/-- Two commits in the history of each other are the same. -/
theorem Ancestor.antisymm {a c : C} (h : Ancestor a c) (h' : Ancestor c a) : a = c := by
  rcases Relation.ReflTransGen.cases_tail h with rfl | ⟨p, hap, hpc⟩
  · rfl
  · have hle : depth c ≤ depth p := Nat.le_trans h'.depth_le (Ancestor.depth_le hap)
    exact absurd (depth_lt c p hpc) (Nat.not_lt.mpr hle)

/-- What is in the history of a commit with one parent is the commit or in that of the parent. -/
theorem Ancestor.of_single {a c p : C} (h : Ancestor a c) (hc : parents c = [p]) :
    a = c ∨ Ancestor a p := by
  rcases Relation.ReflTransGen.cases_tail h with heq | ⟨q, haq, hq⟩
  · exact .inl heq.symm
  · have hqp : q = p := by simpa [hc] using hq
    exact .inr (hqp ▸ haq)

/-- A child is not in the history of its parent. -/
theorem not_ancestor_parent {c p : C} (h : p ∈ parents c) : ¬ Ancestor c p := fun hc => by
  have hle := Ancestor.depth_le hc
  exact absurd (depth_lt c p h) (Nat.not_lt.mpr hle)

/-- `c` is a commit on `p` that changes at most the file `name`. -/
def ChangesOnly (c p : C) (name : String) : Prop :=
  (parents c).head? = some p ∧ ∀ other, other ≠ name → tree c other = tree p other

end Git
