import AgentHub.Intervals.Region
import Mathlib.Data.Prod.Lex

namespace AgentHub.Report

open Intervals

/-!
# The interval helpers of the report

`union`, `clip`, `subtract` and `within` of the report script, over any linear order.

* `union_separated`, `region_union`, `closedRegion_union` — `union` returns separated intervals
  with the points of the non-empty inputs;
* `region_clip` — `clip` keeps the points of the window;
* `region_subtract`, `mem_closedRegion_subtract` — `subtract` keeps the points outside the removed
  intervals.
-/

variable {α : Type} [LinearOrder α]

/-! ### The helpers -/

/-- One turn of the loop of `union`; `merged` has its last interval first. -/
def mergeStep (merged : List (Span α)) (i : Span α) : List (Span α) :=
  match merged with
  | [] => [i]
  | last :: merged =>
    if i.1 ≤ last.2 then (last.1, max last.2 i.2) :: merged else i :: last :: merged

/-- The order of Python on pairs. -/
def tupleLE (i j : Span α) : Prop := i.1 < j.1 ∨ (i.1 = j.1 ∧ i.2 ≤ j.2)

instance : DecidableRel (tupleLE (α := α)) :=
  fun i j => inferInstanceAs (Decidable (i.1 < j.1 ∨ (i.1 = j.1 ∧ i.2 ≤ j.2)))

/-- `union`. -/
def union (intervals : List (Span α)) : List (Span α) :=
  (((intervals.filter fun i => i.1 < i.2).insertionSort tupleLE).foldl mergeStep []).reverse

/-- `clip`. -/
def clip (intervals : List (Span α)) (lower upper : α) : List (Span α) :=
  union (intervals.map fun i => (max i.1 lower, min i.2 upper))

/-- What `subtract` leaves of one piece after one removed interval. -/
def cutPiece (r p : Span α) : List (Span α) :=
  if r.2 ≤ p.1 ∨ r.1 ≥ p.2 then [p]
  else
    (if r.1 > p.1 then [(p.1, r.1)] else []) ++ (if r.2 < p.2 then [(r.2, p.2)] else [])

/-- `subtract`. -/
def subtract (intervals removed : List (Span α)) : List (Span α) :=
  union (intervals.flatMap fun i =>
    removed.foldl (fun pieces r => pieces.flatMap (cutPiece r)) [i])

/-- `within`. -/
def within (moment : α) (intervals : List (Span α)) : Bool :=
  intervals.any fun i => i.1 ≤ moment && moment ≤ i.2

/-! ### Merging -/

/-- The loop invariant of `union` on the intervals merged so far, the last one first. -/
structure Merged (merged : List (Span α)) : Prop where
  nonempty : ∀ i ∈ merged, i.1 < i.2
  ordered : merged.Pairwise fun j i => i.2 < j.1

/-- Merging one more interval that starts no earlier than the others. -/
theorem Merged.step {merged : List (Span α)} (h : Merged merged) {i : Span α}
    (hi : i.1 < i.2) : Merged (mergeStep merged i) := by
  cases merged with
  | nil => exact ⟨by simpa [mergeStep] using hi, by simp [mergeStep]⟩
  | cons last merged =>
    have hlast := h.nonempty last List.mem_cons_self
    have hordered := List.pairwise_cons.mp h.ordered
    have hrest : ∀ j ∈ merged, j.1 < j.2 := fun j hj => h.nonempty j (List.mem_cons_of_mem _ hj)
    rw [mergeStep]
    split
    · refine ⟨?_, List.pairwise_cons.mpr ⟨hordered.1, hordered.2⟩⟩
      intro j hj
      rcases List.mem_cons.mp hj with rfl | hj
      · exact lt_max_of_lt_left hlast
      · exact hrest j hj
    · next hgap =>
      have hgap := not_le.mp hgap
      refine ⟨?_, List.pairwise_cons.mpr ⟨?_, h.ordered⟩⟩
      · intro j hj
        rcases List.mem_cons.mp hj with rfl | hj
        · exact hi
        · exact h.nonempty j hj
      · intro j hj
        rcases List.mem_cons.mp hj with rfl | hj
        · exact hgap
        · exact (hordered.1 j hj).trans (hlast.trans hgap)

/-- Some property of an interval that a widened interval has just if one of its two parts has. -/
def Spreads (P : Span α → Prop) : Prop :=
  ∀ last i : Span α, last.1 < last.2 → i.1 < i.2 → last.1 ≤ i.1 → i.1 ≤ last.2 →
    (P (last.1, max last.2 i.2) ↔ P last ∨ P i)

variable {P : Span α → Prop}

/-- A property that spreads holds after a step of merging where it held before, or of the new
    span. -/
theorem exists_mergeStep (hP : Spreads P) {merged : List (Span α)} (hmerged : Merged merged)
    {i : Span α} (hi : i.1 < i.2) (hstart : ∀ j ∈ merged, j.1 ≤ i.1) :
    (∃ j ∈ mergeStep merged i, P j) ↔ (∃ j ∈ merged, P j) ∨ P i := by
  cases merged with
  | nil => simp [mergeStep]
  | cons last merged =>
    rw [mergeStep]
    split
    · next htouch =>
      have hwide := hP last i (hmerged.nonempty last List.mem_cons_self) hi
        (hstart last List.mem_cons_self) htouch
      rw [List.exists_mem_cons_iff, List.exists_mem_cons_iff, hwide]
      exact or_right_comm
    · rw [List.exists_mem_cons_iff]
      exact or_comm

/-- Merging a span moves no start beyond it. -/
theorem start_mergeStep {merged : List (Span α)} {i k : Span α} (hik : i.1 ≤ k.1)
    (hstart : ∀ j ∈ merged, j.1 ≤ k.1) : ∀ j ∈ mergeStep merged i, j.1 ≤ k.1 := by
  intro j hj
  cases merged with
  | nil =>
    rw [mergeStep, List.mem_singleton] at hj
    rw [hj]
    exact hik
  | cons last merged =>
    rw [mergeStep] at hj
    split at hj
    · rcases List.mem_cons.mp hj with rfl | hj
      · exact hstart last List.mem_cons_self
      · exact hstart j (List.mem_cons_of_mem _ hj)
    · rcases List.mem_cons.mp hj with rfl | hj
      · exact hik
      · exact hstart j hj

/-- The loop of `union` keeps its invariant, and a property that spreads. -/
theorem foldl_mergeStep (hP : Spreads P) {merged rest : List (Span α)}
    (hmerged : Merged merged) (hne : ∀ i ∈ rest, i.1 < i.2)
    (hsorted : rest.Pairwise fun i j => i.1 ≤ j.1) (hstart : ∀ i ∈ rest, ∀ j ∈ merged, j.1 ≤ i.1) :
    Merged (rest.foldl mergeStep merged) ∧
      ((∃ i ∈ rest.foldl mergeStep merged, P i) ↔ (∃ i ∈ merged, P i) ∨ ∃ i ∈ rest, P i) := by
  induction rest generalizing merged with
  | nil => exact ⟨hmerged, by simp⟩
  | cons i rest ih =>
    rw [List.pairwise_cons] at hsorted
    have hi := hne i List.mem_cons_self
    have hi_start := hstart i List.mem_cons_self
    obtain ⟨hinv, hiff⟩ := ih (hmerged.step hi) (fun j hj => hne j (List.mem_cons_of_mem _ hj))
      hsorted.2 fun k hk => start_mergeStep (hsorted.1 k hk) (hstart k (List.mem_cons_of_mem _ hk))
    refine ⟨hinv, ?_⟩
    rw [List.foldl_cons, hiff, exists_mergeStep hP hmerged hi hi_start, List.exists_mem_cons_iff]
    exact or_assoc

instance : Std.Total (tupleLE (α := α)) where
  total i j := by
    rcases lt_trichotomy i.1 j.1 with hlt | heq | hgt
    · exact .inl (.inl hlt)
    · rcases le_total i.2 j.2 with hle | hle
      · exact .inl (.inr ⟨heq, hle⟩)
      · exact .inr (.inr ⟨heq.symm, hle⟩)
    · exact .inr (.inl hgt)

instance : IsTrans (Span α) tupleLE where
  trans i j k hij hjk := by
    rcases hij with hij | ⟨hij, hij'⟩
    · rcases hjk with hjk | ⟨hjk, -⟩
      · exact .inl (hij.trans hjk)
      · exact .inl (hij.trans_eq hjk)
    · rcases hjk with hjk | ⟨hjk, hjk'⟩
      · exact .inl (hij.trans_lt hjk)
      · exact .inr ⟨hij.trans hjk, hij'.trans hjk'⟩

/-- The loop of `union` over its sorted input. -/
theorem foldl_union (hP : Spreads P) (l : List (Span α)) :
    Merged (((l.filter fun i => i.1 < i.2).insertionSort tupleLE).foldl mergeStep []) ∧
      ((∃ i ∈ ((l.filter fun i => i.1 < i.2).insertionSort tupleLE).foldl mergeStep [], P i) ↔
        ∃ i ∈ l, i.1 < i.2 ∧ P i) := by
  have hmem : ∀ i, i ∈ (l.filter fun i => i.1 < i.2).insertionSort tupleLE ↔ i ∈ l ∧ i.1 < i.2 := by
    intro i
    rw [List.mem_insertionSort, List.mem_filter, decide_eq_true_eq]
  have hsorted := ((l.filter fun i => i.1 < i.2).pairwise_insertionSort tupleLE).imp
    fun {i j} (hij : tupleLE i j) => (hij.elim le_of_lt fun h => h.1.le : i.1 ≤ j.1)
  obtain ⟨hinv, hiff⟩ := foldl_mergeStep hP (show Merged [] from ⟨by simp, .nil⟩)
    (fun i hi => ((hmem i).mp hi).2) hsorted (by simp)
  refine ⟨hinv, hiff.trans ?_⟩
  simp only [hmem, List.not_mem_nil, false_and, exists_false, false_or, and_assoc]

/-- `union` returns separated intervals. -/
theorem union_separated (l : List (Span α)) : Separated (union l) := by
  obtain ⟨hinv, -⟩ := foldl_union (P := fun _ => False) (fun _ _ _ _ _ _ => by simp) l
  exact ⟨fun i hi => hinv.nonempty i (List.mem_reverse.mp hi),
    List.pairwise_reverse.mpr hinv.ordered⟩

/-- A property that spreads holds of the union where it held of a span. -/
theorem exists_union (hP : Spreads P) (l : List (Span α)) :
    (∃ i ∈ union l, P i) ↔ ∃ i ∈ l, i.1 < i.2 ∧ P i := by
  rw [← (foldl_union hP l).2]
  simp only [union, List.mem_reverse]

/-- Holding an instant spreads over spans that meet. -/
theorem spreads_ico (t : α) : Spreads fun i => t ∈ Set.Ico i.1 i.2 := by
  intro last i hlast hi hstart htouch
  simp only [Set.mem_Ico, lt_max_iff]
  constructor
  · rintro ⟨hlo, hhi | hhi⟩
    · exact .inl ⟨hlo, hhi⟩
    · -- beyond the first interval `t` is in the second
      rcases lt_or_ge t i.1 with hbefore | hafter
      · exact .inl ⟨hlo, hbefore.trans_le htouch⟩
      · exact .inr ⟨hafter, hhi⟩
  · rintro (⟨hlo, hhi⟩ | ⟨hlo, hhi⟩)
    · exact ⟨hlo, .inl hhi⟩
    · exact ⟨hstart.trans hlo, .inr hhi⟩

/-- Holding an instant, ends included, spreads over spans that meet. -/
theorem spreads_icc (t : α) : Spreads fun i => i.1 < i.2 ∧ t ∈ Set.Icc i.1 i.2 := by
  intro last i hlast hi hstart htouch
  simp only [Set.mem_Icc, le_max_iff, lt_max_iff]
  constructor
  · rintro ⟨-, hlo, hhi | hhi⟩
    · exact .inl ⟨hlast, hlo, hhi⟩
    · rcases lt_or_ge t i.1 with hbefore | hafter
      · exact .inl ⟨hlast, hlo, hbefore.le.trans htouch⟩
      · exact .inr ⟨hi, hafter, hhi⟩
  · rintro (⟨-, hlo, hhi⟩ | ⟨-, hlo, hhi⟩)
    · exact ⟨.inl hlast, hlo, .inl hhi⟩
    · exact ⟨.inl hlast, hstart.trans hlo, .inr hhi⟩

/-- `union` covers the points of the inputs, the end of each left out. -/
theorem region_union (l : List (Span α)) : region (union l) = region l := by
  ext t
  refine (exists_union (spreads_ico t) l).trans ⟨?_, ?_⟩
  · rintro ⟨i, hi, -, ht⟩
    exact ⟨i, hi, ht⟩
  · rintro ⟨i, hi, ht⟩
    exact ⟨i, hi, ht.1.trans_lt ht.2, ht⟩

/-- `union` covers the points of the non-empty inputs, their ends counted in. -/
theorem closedRegion_union (l : List (Span α)) : closedRegion (union l) = closedRegion l := by
  ext t
  refine (exists_union (spreads_icc t) l).trans ⟨?_, ?_⟩
  · rintro ⟨i, hi, -, ht⟩
    exact ⟨i, hi, ht⟩
  · rintro ⟨i, hi, ht⟩
    exact ⟨i, hi, ht.1, ht⟩

/-! ### Clipping and subtracting -/

/-- Clipped spans are separated. -/
theorem clip_separated (l : List (Span α)) (lower upper : α) :
    Separated (clip l lower upper) :=
  union_separated _

/-- `clip` keeps the points of the window. -/
theorem region_clip (l : List (Span α)) (lower upper : α) :
    region (clip l lower upper) = region l ∩ Set.Ico lower upper := by
  ext t
  rw [clip, region_union]
  constructor
  · rintro ⟨j, hj, ht⟩
    obtain ⟨i, hi, rfl⟩ := List.mem_map.mp hj
    simp only [Set.mem_Ico, max_le_iff, lt_min_iff] at ht
    exact ⟨⟨i, hi, ht.1.1, ht.2.1⟩, ht.1.2, ht.2.2⟩
  · rintro ⟨⟨i, hi, hlo, hhi⟩, hlower, hupper⟩
    exact ⟨_, List.mem_map_of_mem hi, max_le hlo hlower, lt_min hhi hupper⟩

/-- What is left after a subtraction is separated. -/
theorem subtract_separated (l removed : List (Span α)) : Separated (subtract l removed) :=
  union_separated _

/-- What cutting one piece leaves: the piece, or what is before and what is after the cut. -/
theorem exists_cutPiece (r p : Span α) :
    (∃ q ∈ cutPiece r p, P q) ↔
      if r.2 ≤ p.1 ∨ p.2 ≤ r.1 then P p
      else (p.1 < r.1 ∧ P (p.1, r.1)) ∨ (r.2 < p.2 ∧ P (r.2, p.2)) := by
  rw [cutPiece]
  split
  · simp
  · by_cases hbefore : p.1 < r.1 <;> by_cases hafter : r.2 < p.2 <;> simp [hbefore, hafter]

/-- Some property of an interval that a piece keeps where the removed interval lacks it. -/
def CutsOff (P : Span α → Prop) (r : Span α) : Prop :=
  ∀ p : Span α, (∃ q ∈ cutPiece r p, P q) ↔ P p ∧ ¬ P r

/-- Holding an instant is cut off by a removed span. -/
theorem cutsOff_ico (t : α) (r : Span α) : CutsOff (fun i => t ∈ Set.Ico i.1 i.2) r := by
  intro p
  rw [exists_cutPiece]
  simp only [Set.mem_Ico]
  split
  · grind
  · grind

/-- Holding an instant, ends included, is cut off away from the ends. -/
theorem cutsOff_icc {t : α} {r : Span α} (hstart : t ≠ r.1) (hend : t ≠ r.2) :
    CutsOff (fun i => i.1 < i.2 ∧ t ∈ Set.Icc i.1 i.2) r := by
  intro p
  rw [exists_cutPiece]
  simp only [Set.mem_Icc]
  split
  · grind
  · grind

/-- The loop over the removed intervals keeps what none of them has. -/
theorem exists_pieces {removed : List (Span α)} (hP : ∀ r ∈ removed, CutsOff P r)
    (pieces : List (Span α)) :
    (∃ q ∈ removed.foldl (fun pieces r => pieces.flatMap (cutPiece r)) pieces, P q) ↔
      (∃ p ∈ pieces, P p) ∧ ¬ ∃ r ∈ removed, P r := by
  induction removed generalizing pieces with
  | nil => simp
  | cons r removed ih =>
    have hr := hP r List.mem_cons_self
    have hstep : (∃ q ∈ pieces.flatMap (cutPiece r), P q) ↔ (∃ p ∈ pieces, P p) ∧ ¬ P r := by
      simp only [List.mem_flatMap]
      constructor
      · rintro ⟨q, ⟨p, hp, hq⟩, hPq⟩
        have hcut := (hr p).mp ⟨q, hq, hPq⟩
        exact ⟨⟨p, hp, hcut.1⟩, hcut.2⟩
      · rintro ⟨⟨p, hp, hPp⟩, hnot⟩
        obtain ⟨q, hq, hPq⟩ := (hr p).mpr ⟨hPp, hnot⟩
        exact ⟨q, ⟨p, hp, hq⟩, hPq⟩
    have htail := ih (fun r hr => hP r (List.mem_cons_of_mem _ hr)) (pieces.flatMap (cutPiece r))
    rw [List.foldl_cons, htail, hstep, List.exists_mem_cons_iff, not_or, and_assoc]

/-- The pieces of all intervals, before `subtract` merges them. -/
theorem exists_subtracted {removed : List (Span α)} (hP : ∀ r ∈ removed, CutsOff P r)
    (l : List (Span α)) :
    (∃ q ∈ l.flatMap fun i =>
        removed.foldl (fun pieces r => pieces.flatMap (cutPiece r)) [i], P q) ↔
      (∃ i ∈ l, P i) ∧ ¬ ∃ r ∈ removed, P r := by
  simp only [List.mem_flatMap]
  constructor
  · rintro ⟨q, ⟨i, hi, hq⟩, hPq⟩
    obtain ⟨⟨j, hj, hPj⟩, hnot⟩ := (exists_pieces hP [i]).mp ⟨q, hq, hPq⟩
    rw [List.mem_singleton] at hj
    exact ⟨⟨i, hi, hj ▸ hPj⟩, hnot⟩
  · rintro ⟨⟨i, hi, hPi⟩, hnot⟩
    obtain ⟨q, hq, hPq⟩ := (exists_pieces hP [i]).mpr ⟨⟨i, List.mem_singleton_self i, hPi⟩, hnot⟩
    exact ⟨q, ⟨i, hi, hq⟩, hPq⟩

/-- `subtract` keeps the points outside the removed intervals, the end of each left out. -/
theorem region_subtract (l removed : List (Span α)) :
    region (subtract l removed) = region l \ region removed := by
  ext t
  rw [subtract, region_union]
  exact exists_subtracted (fun r _ => cutsOff_ico t r) l

/-- With the ends counted in, it does so at the points that are no end of a removed interval. -/
theorem mem_closedRegion_subtract (l : List (Span α)) {removed : List (Span α)} {t : α}
    (ht : ∀ r ∈ removed, t ≠ r.1 ∧ t ≠ r.2) :
    t ∈ closedRegion (subtract l removed) ↔ t ∈ closedRegion l ∧ t ∉ closedRegion removed := by
  rw [subtract, closedRegion_union]
  exact exists_subtracted (fun r hr => cutsOff_icc (ht r hr).1 (ht r hr).2) l

example : subtract [(0, 9), (20, 20)] (union [(7, 3), (5, 6), (1, 2), (2, 4)]) =
    [((0 : ℤ), 1), (4, 5), (6, 9)] := by
  decide

end AgentHub.Report
