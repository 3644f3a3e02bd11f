import Mathlib.Data.List.Basic
import Mathlib.Data.List.Infix

namespace Diff

/-!
# Matching blocks of two lists

Two lists are compared by their longest common block: it is taken, and what lies before it in both
lists and what lies after it in both lists is compared in the same way.

* `commonPrefix`, `longestMatch` — the longest common block, and of several the one that begins
  first;
* `blocks` — the common blocks, in order; `blocks_of_le`, that the fuel is enough;
* `blocks_sublist` — together they are a part of both lists;
* `blocks_self`, `blocks_eq_nil` — all of a list against itself, and nothing only where nothing is
  in common.
-/

universe u

/-- A list around a block. -/
theorem take_block_drop {β : Type*} (as : List β) (i k : ℕ) :
    as.take i ++ ((as.drop i).take k ++ as.drop (i + k)) = as := by
  rw [← List.drop_drop, List.take_append_drop, List.take_append_drop]

variable {α : Type u} [DecidableEq α]

/-- The length of the longest common prefix. -/
def commonPrefix : List α → List α → ℕ
  | a :: as, b :: bs => if a = b then commonPrefix as bs + 1 else 0
  | _, _ => 0

/-- Where a block begins in each list, and its size. -/
structure Block where
  left : ℕ
  right : ℕ
  size : ℕ
deriving DecidableEq

/-- The common block that begins at each place of the first list and each place of the second. -/
def candidates (as bs : List α) : List Block :=
  (List.range as.length).flatMap fun i =>
    (List.range bs.length).map fun j => ⟨i, j, commonPrefix (as.drop i) (bs.drop j)⟩

/-- The larger block, or the first of two that are equally large. -/
def Block.larger (best c : Block) : Block := if best.size < c.size then c else best

/-- The first of the longest common blocks. -/
def longestMatch (as bs : List α) : Block := (candidates as bs).foldl Block.larger ⟨0, 0, 0⟩

/-- The common blocks, in order, as parts of the second list. -/
def blocksFrom : ℕ → List α → List α → List (List α)
  | 0, _, _ => []
  | fuel + 1, as, bs =>
    let m := longestMatch as bs
    if m.size = 0 then []
    else
      blocksFrom fuel (as.take m.left) (bs.take m.right) ++
        (bs.drop m.right).take m.size ::
          blocksFrom fuel (as.drop (m.left + m.size)) (bs.drop (m.right + m.size))

/-- The common blocks of two lists. -/
def blocks (as bs : List α) : List (List α) := blocksFrom as.length as bs

/-! ### The longest common block -/

/-- The common prefix is a prefix of both. -/
theorem commonPrefix_spec (as bs : List α) :
    as.take (commonPrefix as bs) = bs.take (commonPrefix as bs) ∧
      commonPrefix as bs ≤ as.length ∧ commonPrefix as bs ≤ bs.length := by
  fun_induction commonPrefix as bs with
  | case1 a as bs ih =>
    obtain ⟨htake, has, hbs⟩ := ih
    refine ⟨?_, Nat.succ_le_succ has, Nat.succ_le_succ hbs⟩
    rw [List.take_succ_cons, List.take_succ_cons, htake]
  | case2 => exact ⟨rfl, Nat.zero_le _, Nat.zero_le _⟩
  | case3 => exact ⟨by simp, Nat.zero_le _, Nat.zero_le _⟩

/-- The common prefix of a list with itself is the list. -/
theorem commonPrefix_self (as : List α) : commonPrefix as as = as.length := by
  induction as with
  | nil => rfl
  | cons a as ih => rw [commonPrefix, if_pos rfl, ih, List.length_cons]

/-- The largest block of a list is in the list, unless it is the one to beat. -/
theorem larger_foldl (cs : List Block) (best : Block) :
    (cs.foldl Block.larger best = best ∨ cs.foldl Block.larger best ∈ cs) ∧
      best.size ≤ (cs.foldl Block.larger best).size ∧
      ∀ c ∈ cs, c.size ≤ (cs.foldl Block.larger best).size := by
  induction cs generalizing best with
  | nil =>
    refine ⟨.inl rfl, le_rfl, fun c hc => ?_⟩
    cases hc
  | cons c cs ih =>
    obtain ⟨hfrom, hle, hall⟩ := ih (best.larger c)
    have hbest : best.size ≤ (best.larger c).size := by
      unfold Block.larger
      split <;> omega
    have hc : c.size ≤ (best.larger c).size := by
      unfold Block.larger
      split <;> omega
    refine ⟨?_, hbest.trans hle, fun c' hc' => ?_⟩
    · rcases hfrom with heq | hmem
      · show cs.foldl Block.larger (best.larger c) = best ∨ _
        rw [List.foldl_cons, heq]
        unfold Block.larger
        split
        · exact .inr List.mem_cons_self
        · exact .inl rfl
      · exact .inr (List.mem_cons_of_mem _ hmem)
    · rcases List.mem_cons.mp hc' with rfl | hmem
      · exact hc.trans hle
      · exact hall c' hmem

/-- A block is common to two lists: it lies in both of them, and they agree on it. -/
structure Block.Common (m : Block) (as bs : List α) : Prop where
  left : m.left + m.size ≤ as.length
  right : m.right + m.size ≤ bs.length
  same : (as.drop m.left).take m.size = (bs.drop m.right).take m.size

/-- A candidate is common to both lists. -/
theorem common_of_mem {as bs : List α} {m : Block} (h : m ∈ candidates as bs) :
    m.Common as bs := by
  obtain ⟨i, hi, h⟩ := List.mem_flatMap.mp h
  obtain ⟨j, hj, rfl⟩ := List.mem_map.mp h
  rw [List.mem_range] at hi hj
  obtain ⟨hsame, hleft, hright⟩ := commonPrefix_spec (as.drop i) (bs.drop j)
  rw [List.length_drop] at hleft hright
  refine ⟨?_, ?_, hsame⟩
  · show i + commonPrefix (as.drop i) (bs.drop j) ≤ as.length
    omega
  · show j + commonPrefix (as.drop i) (bs.drop j) ≤ bs.length
    omega

/-- **The longest match** is common to the lists, and no common block is longer. -/
theorem longestMatch_spec (as bs : List α) :
    (longestMatch as bs).Common as bs ∧
      ∀ i j, i < as.length → j < bs.length →
        commonPrefix (as.drop i) (bs.drop j) ≤ (longestMatch as bs).size := by
  obtain ⟨hfrom, -, hall⟩ := larger_foldl (candidates as bs) ⟨0, 0, 0⟩
  constructor
  · rcases hfrom with heq | hmem
    · rw [longestMatch, heq]
      exact ⟨Nat.zero_le _, Nat.zero_le _, rfl⟩
    · exact common_of_mem hmem
  · intro i j hi hj
    exact hall ⟨i, j, _⟩ (List.mem_flatMap.mpr
      ⟨i, List.mem_range.mpr hi, List.mem_map.mpr ⟨j, List.mem_range.mpr hj, rfl⟩⟩)

/-! ### The blocks -/

/-- **The blocks are a part of both lists.** -/
theorem blocksFrom_sublist (fuel : ℕ) (as bs : List α) :
    (blocksFrom fuel as bs).flatten.Sublist as ∧ (blocksFrom fuel as bs).flatten.Sublist bs := by
  induction fuel generalizing as bs with
  | zero => exact ⟨List.nil_sublist _, List.nil_sublist _⟩
  | succ fuel ih =>
    rw [blocksFrom]
    split
    · exact ⟨List.nil_sublist _, List.nil_sublist _⟩
    · obtain ⟨hcommon, -⟩ := longestMatch_spec as bs
      generalize longestMatch as bs = m at hcommon ⊢
      obtain ⟨hbefore, hbefore'⟩ := ih (as.take m.left) (bs.take m.right)
      obtain ⟨hafter, hafter'⟩ := ih (as.drop (m.left + m.size)) (bs.drop (m.right + m.size))
      rw [List.flatten_append, List.flatten_cons]
      constructor
      · conv_rhs => rw [← take_block_drop as m.left m.size, hcommon.same]
        exact hbefore.append ((List.Sublist.refl _).append hafter)
      · conv_rhs => rw [← take_block_drop bs m.right m.size]
        exact hbefore'.append ((List.Sublist.refl _).append hafter')

/-- The blocks are lines of both lists, in order. -/
theorem blocks_sublist (as bs : List α) :
    (blocks as bs).flatten.Sublist as ∧ (blocks as bs).flatten.Sublist bs :=
  blocksFrom_sublist _ as bs

/-- **The fuel is enough**: more of it changes nothing. -/
theorem blocks_of_le {fuel : ℕ} {as bs : List α} (h : as.length ≤ fuel) :
    blocksFrom fuel as bs = blocks as bs := by
  suffices hboth : ∀ fuel' fuel (as bs : List α), as.length ≤ fuel → as.length ≤ fuel' →
      blocksFrom fuel as bs = blocksFrom fuel' as bs from hboth _ _ _ _ h le_rfl
  intro fuel'
  induction fuel' with
  | zero =>
    intro fuel as bs _ hle
    obtain rfl := List.length_eq_zero_iff.mp (Nat.le_zero.mp hle)
    cases fuel <;> rfl
  | succ fuel' ih =>
    intro fuel as bs hfuel hle
    cases fuel with
    | zero =>
      obtain rfl := List.length_eq_zero_iff.mp (Nat.le_zero.mp hfuel)
      rfl
    | succ fuel =>
      rw [blocksFrom, blocksFrom]
      split
      · rfl
      · next hsize =>
        obtain ⟨hcommon, -⟩ := longestMatch_spec as bs
        generalize longestMatch as bs = m at hcommon hsize ⊢
        have hleft := hcommon.left
        have hbefore : (as.take m.left).length ≤ fuel ∧ (as.take m.left).length ≤ fuel' := by
          rw [List.length_take]
          omega
        have hafter : (as.drop (m.left + m.size)).length ≤ fuel ∧
            (as.drop (m.left + m.size)).length ≤ fuel' := by
          rw [List.length_drop]
          omega
        rw [ih fuel _ _ hbefore.1 hbefore.2, ih fuel _ _ hafter.1 hafter.2]

/-- **A list against itself** is matched whole. -/
theorem blocks_self (as : List α) : (blocks as as).flatten = as := by
  cases as with
  | nil => rfl
  | cons a as =>
    obtain ⟨hcommon, hmax⟩ := longestMatch_spec (a :: as) (a :: as)
    have hfull := hmax 0 0 (Nat.succ_pos _) (Nat.succ_pos _)
    rw [List.drop_zero, commonPrefix_self] at hfull
    have hleft := hcommon.left
    have hright := hcommon.right
    have hpos : 0 < (a :: as).length := Nat.succ_pos _
    rw [blocks, List.length_cons, blocksFrom]
    rw [if_neg (by omega)]
    have hl : (longestMatch (a :: as) (a :: as)).left = 0 := by omega
    have hr : (longestMatch (a :: as) (a :: as)).right = 0 := by omega
    have hs : (longestMatch (a :: as) (a :: as)).size = (a :: as).length := by omega
    have hnil (bs : List α) : (blocksFrom as.length [] bs).flatten = [] :=
      List.sublist_nil.mp (blocksFrom_sublist _ [] bs).1
    rw [hl, hr, hs, List.flatten_append, List.flatten_cons, Nat.zero_add, List.drop_length,
      List.take_zero, List.drop_zero, List.take_length, hnil, List.nil_append,
      List.append_nil]

/-- **Nothing is matched** only where nothing is in common. -/
theorem blocks_eq_nil {as bs : List α} : (blocks as bs).flatten = [] ↔ as.Disjoint bs := by
  constructor
  · intro h a ha hb
    obtain ⟨i, hi, rfl⟩ := List.getElem_of_mem ha
    obtain ⟨j, hj, hij⟩ := List.getElem_of_mem hb
    obtain ⟨hcommon, hmax⟩ := longestMatch_spec as bs
    have hone : 1 ≤ (longestMatch as bs).size := by
      refine le_trans ?_ (hmax i j hi hj)
      rw [List.drop_eq_getElem_cons hi, List.drop_eq_getElem_cons hj, commonPrefix, if_pos hij.symm]
      omega
    obtain ⟨fuel, hfuel⟩ : ∃ fuel, as.length = fuel + 1 := ⟨as.length - 1, by omega⟩
    rw [blocks, hfuel, blocksFrom, if_neg (by omega), List.flatten_append, List.flatten_cons,
      List.append_eq_nil_iff, List.append_eq_nil_iff] at h
    have hlength := congrArg List.length h.2.1
    have hright := hcommon.right
    rw [List.length_take, List.length_drop, List.length_nil] at hlength
    omega
  · intro h
    obtain ⟨hleft, hright⟩ := blocks_sublist as bs
    rw [List.eq_nil_iff_forall_not_mem]
    intro a ha
    exact h (hleft.subset ha) (hright.subset ha)

example : blocks [1, 2, 3] [3, 9, 1, 2] = [[1, 2]] := by decide

end Diff
