import Mathlib.Order.Interval.Set.Basic
import Mathlib.Algebra.Order.Group.Defs
import Mathlib.Algebra.BigOperators.Group.List.Basic
import Mathlib.Data.List.Sort
import Mathlib.Tactic.Order
import Mathlib.Tactic.Abel

namespace Intervals

/-!
# Lists of intervals

Finite lists of intervals over a linear order, the points they cover and the room they take.

* `region`, `closedRegion` — the points in some interval, its end left out or counted in;
* `Separated` — sorted, non-empty and apart;
* `Apart` — pairwise without a common point, in any order;
* `room` — the sum of the lengths, over an ordered group;
* `room_le_of_apart`, `le_room_of_subset` — intervals apart inside a window take no more room
  than it has, intervals that cover a window no less.
-/

/-- An interval by its end points. -/
abbrev Span (α : Type) := α × α

section Order

variable {α : Type} [LinearOrder α]

/-- The points in some interval of the list, the end of each left out. -/
def region (l : List (Span α)) : Set α := {t | ∃ i ∈ l, t ∈ Set.Ico i.1 i.2}

/-- The points in some non-empty interval of the list, both ends counted in. -/
def closedRegion (l : List (Span α)) : Set α := {t | ∃ i ∈ l, i.1 < i.2 ∧ t ∈ Set.Icc i.1 i.2}

/-- Non-empty intervals in order, each ending before the next starts. -/
structure Separated (l : List (Span α)) : Prop where
  nonempty : ∀ i ∈ l, i.1 < i.2
  ordered : l.Pairwise fun i j => i.2 < j.1

/-- Two intervals without a common point. -/
def Compatible (i j : Span α) : Prop := i.2 ≤ j.1 ∨ j.2 ≤ i.1

/-- Non-empty intervals, no two with a common point. -/
structure Apart (l : List (Span α)) : Prop where
  nonempty : ∀ i ∈ l, i.1 < i.2
  compatible : l.Pairwise Compatible

/-- Compatibility is symmetric. -/
theorem Compatible.symm {i j : Span α} (h : Compatible i j) : Compatible j i := Or.symm h

/-- Separated spans are pairwise apart. -/
theorem Separated.apart {l : List (Span α)} (h : Separated l) : Apart l :=
  ⟨h.nonempty, h.ordered.imp fun hij => .inl hij.le⟩

/-- Non-empty intervals that share no point are disjoint. -/
theorem compatible_of_forall {i j : Span α} (hi : i.1 < i.2) (hj : j.1 < j.2)
    (h : ∀ t, t ∈ Set.Ico i.1 i.2 → t ∉ Set.Ico j.1 j.2) : Compatible i j := by
  by_contra hnot
  rw [Compatible, not_or, not_le, not_le] at hnot
  -- the later of the two starts lies in both
  refine h (max i.1 j.1) ⟨le_max_left _ _, max_lt hi hnot.1⟩ ⟨le_max_right _ _, max_lt hnot.2 hj⟩

/-- Two lists apart whose regions do not meet are apart together. -/
theorem Apart.append {l l' : List (Span α)} (h : Apart l) (h' : Apart l')
    (hmeet : ∀ t ∈ region l, t ∉ region l') : Apart (l ++ l') := by
  refine ⟨?_, List.pairwise_append.mpr ⟨h.compatible, h'.compatible, ?_⟩⟩
  · intro i hi
    rcases List.mem_append.mp hi with hi | hi
    · exact h.nonempty i hi
    · exact h'.nonempty i hi
  · intro i hi j hj
    refine compatible_of_forall (h.nonempty i hi) (h'.nonempty j hj) fun t hti htj => ?_
    exact hmeet t ⟨i, hi, hti⟩ ⟨j, hj, htj⟩

/-- Non-empty intervals lie in a window that their points lie in. -/
theorem bounds_of_region_subset {l : List (Span α)} (hne : ∀ i ∈ l, i.1 < i.2) {lo hi : α}
    (h : region l ⊆ Set.Ico lo hi) {i : Span α} (hmem : i ∈ l) : lo ≤ i.1 ∧ i.2 ≤ hi := by
  have hlen := hne i hmem
  refine ⟨(h ⟨i, hmem, le_refl _, hlen⟩).1, ?_⟩
  -- a point of the interval beyond the window would be a point of the region
  by_contra hout
  have hpoint := h ⟨i, hmem, le_max_left i.1 _, max_lt hlen (not_le.mp hout)⟩
  exact absurd hpoint.2 (not_lt.mpr (le_max_right _ _))

/-- Being apart does not depend on the order. -/
theorem Apart.perm {l l' : List (Span α)} (h : Apart l) (hp : l.Perm l') : Apart l' :=
  ⟨fun i hi => h.nonempty i (hp.mem_iff.mpr hi),
    (hp.pairwise_iff fun {_ _} hij => hij.symm).mp h.compatible⟩

end Order

/-! ### Room -/

section Group

variable {α : Type} [AddCommGroup α]

/-- The lengths of the intervals, added up. -/
def room (l : List (Span α)) : α := (l.map fun i => i.2 - i.1).sum

/-- No spans take no room. -/
@[simp] theorem room_nil : room ([] : List (Span α)) = 0 := rfl

/-- The room of a list is the first span's and the rest's. -/
@[simp] theorem room_cons (i : Span α) (l : List (Span α)) :
    room (i :: l) = (i.2 - i.1) + room l := by
  simp [room]

/-- The room of two lists together. -/
@[simp] theorem room_append (l l' : List (Span α)) : room (l ++ l') = room l + room l' := by
  simp [room]

/-- The room does not depend on the order. -/
theorem room_perm {l l' : List (Span α)} (h : l.Perm l') : room l = room l' :=
  (h.map _).sum_eq

variable [LinearOrder α] [IsOrderedAddMonoid α] {lo hi : α} {l : List (Span α)}

/-- Spans that are not empty take no negative room. -/
theorem room_nonneg (h : ∀ i ∈ l, i.1 < i.2) : 0 ≤ room l := by
  induction l with
  | nil => exact le_refl _
  | cons i l ih =>
    rw [room_cons]
    have hlen := h i List.mem_cons_self
    exact add_nonneg (sub_nonneg.mpr hlen.le) (ih fun j hj => h j (List.mem_cons_of_mem _ hj))

/-- Intervals one after the other take no more room than the window they lie in. -/
theorem room_le_of_chain (hle : lo ≤ hi) (hchain : l.Pairwise fun i j => i.2 ≤ j.1)
    (hin : ∀ i ∈ l, lo ≤ i.1 ∧ i.2 ≤ hi) : room l ≤ hi - lo := by
  induction l generalizing lo with
  | nil => exact sub_nonneg.mpr hle
  | cons i l ih =>
    rw [List.pairwise_cons] at hchain
    have hwindow := hin i List.mem_cons_self
    have htail : room l ≤ hi - i.2 := by
      apply ih hwindow.2 hchain.2
      intro j hj
      exact ⟨hchain.1 j hj, (hin j (List.mem_cons_of_mem _ hj)).2⟩
    calc room (i :: l) = (i.2 - i.1) + room l := room_cons i l
      _ ≤ (i.2 - lo) + (hi - i.2) := add_le_add (sub_le_sub_left hwindow.1 _) htail
      _ = hi - lo := by abel

/-- **Packing.** Intervals apart take no more room than the window they lie in. -/
theorem room_le_of_apart (hle : lo ≤ hi) (h : Apart l) (hin : ∀ i ∈ l, lo ≤ i.1 ∧ i.2 ≤ hi) :
    room l ≤ hi - lo := by
  -- sorted by their starts, they stand one after the other
  have hperm := l.perm_insertionSort fun i j => i.1 ≤ j.1
  have hsorted : (l.insertionSort fun i j => i.1 ≤ j.1).Pairwise fun i j => i.1 ≤ j.1 :=
    l.pairwise_insertionSort _
  have happart := h.perm hperm.symm
  rw [← room_perm hperm]
  refine room_le_of_chain hle ?_ fun i hi => hin i (hperm.mem_iff.mp hi)
  refine (hsorted.and happart.compatible).imp_of_mem ?_
  intro i j hi hj hij
  rcases hij.2 with hbefore | hafter
  · exact hbefore
  · exact absurd (lt_of_lt_of_le (happart.nonempty j hj) (hafter.trans hij.1)) (lt_irrefl _)

/-- **Covering.** Intervals that cover a window take no less room than it has. -/
theorem le_room_of_subset (hne : ∀ i ∈ l, i.1 < i.2) (h : Set.Ico lo hi ⊆ region l) :
    hi - lo ≤ room l := by
  classical
  -- the interval that covers `lo` is taken off, and the others cover what it leaves
  induction hn : l.length generalizing l lo with
  | zero =>
    rw [List.length_eq_zero_iff.mp hn] at h ⊢
    have hempty : ¬ lo < hi := fun hlt => by
      obtain ⟨i, hi, -⟩ := h ⟨le_refl lo, hlt⟩
      exact List.not_mem_nil hi
    exact sub_nonpos.mpr (not_lt.mp hempty)
  | succ n ih =>
    rcases le_or_gt hi lo with hle | hlt
    · exact (sub_nonpos.mpr hle).trans (room_nonneg hne)
    · obtain ⟨i, hmem, hlo⟩ := h ⟨le_refl lo, hlt⟩
      have hperm := List.perm_cons_erase hmem
      have hrest : Set.Ico i.2 hi ⊆ region (l.erase i) := by
        intro t ht
        obtain ⟨j, hj, htj⟩ := h ⟨hlo.2.le.trans ht.1, ht.2⟩
        rcases List.mem_cons.mp (hperm.mem_iff.mp hj) with rfl | hj
        · exact absurd htj.2 (not_lt.mpr ht.1)
        · exact ⟨j, hj, htj⟩
      have hroom : hi - i.2 ≤ room (l.erase i) := by
        apply ih (fun j hj => hne j (List.mem_of_mem_erase hj)) hrest
        rw [List.length_erase_of_mem hmem, hn]
        rfl
      calc hi - lo = (i.2 - lo) + (hi - i.2) := by abel
        _ ≤ (i.2 - i.1) + room (l.erase i) := add_le_add (sub_le_sub_left hlo.1 _) hroom
        _ = room l := by rw [room_perm hperm, room_cons]

end Group

end Intervals
