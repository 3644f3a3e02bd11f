import Mathlib.Data.List.TakeWhile

namespace Framing

/-!
# Lines of a sequence

A sequence over any alphabet, split after each occurrence of one end mark.

* `lines` — the pieces: every line with its mark, then what follows the last mark, if anything;
* `Framed` — what a list of pieces has to look like to be the lines of a sequence;
* `framed_lines`, `flatten_lines`, `Framed.lines_flatten` — `lines` is the one framed list of
  pieces whose concatenation is the sequence;
* `cut` — `split(mark, 1)`, and `lines_eq_cut`, how it takes the lines off one by one;
* `splitlines` — the lines between any of several marks, one of them possibly in two parts, with
  their marks or without.
-/

variable {α : Type} [DecidableEq α] {mark : α}

/-- `a` in front of the first piece. -/
def extend (a : α) : List (List α) → List (List α)
  | [] => [[a]]
  | piece :: pieces => (a :: piece) :: pieces

/-- A sequence split after each `mark`. -/
def lines (mark : α) : List α → List (List α)
  | [] => []
  | a :: s => if a = mark then [a] :: lines mark s else extend a (lines mark s)

/-- A list of pieces in which every piece but possibly the last ends in its only `mark`, and the
    last does too or is a non-empty remainder without one. -/
inductive Framed (mark : α) : List (List α) → Prop
  | nil : Framed mark []
  | remainder {t : List α} (hne : t ≠ []) (ht : mark ∉ t) : Framed mark [t]
  | line {t : List α} {pieces : List (List α)} (ht : mark ∉ t) (h : Framed mark pieces) :
      Framed mark ((t ++ [mark]) :: pieces)

/-! ### What the lines of a sequence are -/

omit [DecidableEq α] in
/-- A symbol before the pieces is one before their text. -/
@[simp] theorem flatten_extend (a : α) (pieces : List (List α)) :
    (extend a pieces).flatten = a :: pieces.flatten := by
  cases pieces with
  | nil => simp [extend]
  | cons piece pieces => simp [extend]

/-- The lines of a sequence make it up: nothing is lost, doubled or moved. -/
@[simp] theorem flatten_lines (mark : α) (s : List α) : (lines mark s).flatten = s := by
  induction s with
  | nil => simp [lines]
  | cons a s ih =>
    rw [lines]
    split
    · rw [List.flatten_cons, ih, List.singleton_append]
    · rw [flatten_extend, ih]

omit [DecidableEq α] in
/-- A symbol that is no mark extends the first piece only. -/
theorem Framed.extend {a : α} (ha : a ≠ mark) {pieces : List (List α)} (h : Framed mark pieces) :
    Framed mark (extend a pieces) := by
  have hmem {t : List α} (ht : mark ∉ t) : mark ∉ a :: t := by
    intro hin
    rcases List.mem_cons.mp hin with rfl | hin
    · exact ha rfl
    · exact ht hin
  cases h with
  | nil => exact .remainder (by simp) (hmem List.not_mem_nil)
  | remainder hne ht => exact .remainder (by simp) (hmem ht)
  | line ht h => exact .line (hmem ht) h

/-- Every line but possibly the last ends in its only mark. -/
theorem framed_lines (mark : α) (s : List α) : Framed mark (lines mark s) := by
  induction s with
  | nil => exact .nil
  | cons a s ih =>
    rw [lines]
    split
    · next ha =>
      subst ha
      exact .line (t := []) List.not_mem_nil ih
    · next ha => exact ih.extend ha

/-- A line in front of a sequence is the first of its lines. -/
theorem lines_line {t : List α} (ht : mark ∉ t) (s : List α) :
    lines mark (t ++ mark :: s) = (t ++ [mark]) :: lines mark s := by
  induction t with
  | nil => simp [lines]
  | cons a t ih =>
    have ha : a ≠ mark := fun h => ht (h ▸ List.mem_cons_self)
    rw [List.cons_append, lines, if_neg ha, ih (fun h => ht (List.mem_cons_of_mem _ h))]
    simp [Framing.extend]

/-- A sequence without the mark is its only line. -/
theorem lines_remainder {t : List α} (hne : t ≠ []) (ht : mark ∉ t) : lines mark t = [t] := by
  induction t with
  | nil => exact absurd rfl hne
  | cons a t ih =>
    have ha : a ≠ mark := fun h => ht (h ▸ List.mem_cons_self)
    rw [lines, if_neg ha]
    by_cases hnil : t = []
    · subst hnil
      simp [lines, Framing.extend]
    · rw [ih hnil (fun h => ht (List.mem_cons_of_mem _ h))]
      simp [Framing.extend]

/-- **The framing is unique.** A framed list of pieces is the lines of its concatenation. -/
theorem Framed.lines_flatten {pieces : List (List α)} (h : Framed mark pieces) :
    lines mark pieces.flatten = pieces := by
  induction h with
  | nil => simp [lines]
  | remainder hne ht => simpa using lines_remainder hne ht
  | line ht h ih =>
    rw [List.flatten_cons, List.append_assoc, List.singleton_append, lines_line ht, ih]

omit [DecidableEq α] in
/-- A piece ends in its only mark, or is the last and a non-empty remainder. -/
theorem Framed.line_or_remainder {pieces : List (List α)} (h : Framed mark pieces) {i : ℕ}
    (hi : i < pieces.length) :
    (∃ t, mark ∉ t ∧ pieces[i] = t ++ [mark]) ∨
      (i + 1 = pieces.length ∧ mark ∉ pieces[i] ∧ pieces[i] ≠ []) := by
  induction h generalizing i with
  | nil => simp at hi
  | remainder hne ht =>
    have hzero : i = 0 := by simpa using hi
    subst hzero
    exact .inr ⟨rfl, ht, hne⟩
  | @line t pieces ht h ih =>
    cases i with
    | zero => exact .inl ⟨t, ht, rfl⟩
    | succ i =>
      rcases ih (by simpa using hi) with hline | ⟨hlast, hrest⟩
      · exact .inl hline
      · exact .inr ⟨by simpa using hlast, hrest⟩

/-! ### Taking one line off -/

/-- `split(mark, 1)` of a sequence that has the mark: what is before the first mark and what is
    after it. -/
def cut (mark : α) (s : List α) : List α × List α :=
  (s.takeWhile (· ≠ mark), (s.dropWhile (· ≠ mark)).tail)

/-- The piece cut off holds no mark. -/
theorem notMem_cut (mark : α) (s : List α) : mark ∉ (cut mark s).1 := by
  intro h
  simpa using List.mem_takeWhile_imp h

/-- A text with a mark is its first piece, the mark and the rest. -/
theorem cut_append {s : List α} (h : mark ∈ s) :
    s = (cut mark s).1 ++ mark :: (cut mark s).2 := by
  induction s with
  | nil => exact absurd h List.not_mem_nil
  | cons a s ih =>
    by_cases ha : a = mark
    · simp [cut, ha]
    · have hs : mark ∈ s := (List.mem_cons.mp h).resolve_left (Ne.symm ha)
      have htail := ih hs
      simp only [cut] at htail
      simpa [cut, ha] using htail

/-- The first line of a sequence that has the mark, whatever is appended to it. -/
theorem lines_eq_cut {s : List α} (h : mark ∈ s) (rest : List α) :
    lines mark (s ++ rest) =
      ((cut mark s).1 ++ [mark]) :: lines mark ((cut mark s).2 ++ rest) := by
  calc lines mark (s ++ rest)
      = lines mark ((cut mark s).1 ++ mark :: ((cut mark s).2 ++ rest)) := by
        rw [← List.cons_append, ← List.append_assoc, ← cut_append h]
    _ = ((cut mark s).1 ++ [mark]) :: lines mark ((cut mark s).2 ++ rest) :=
        lines_line (notMem_cut mark s) _

/-! ### Lines between several marks -/

/-- The lines of a sequence, each with the mark that ends it; `cr` and `lf` in a row are one mark.
    `line` is what the first line has begun with. -/
def endedLines (isMark : α → Bool) (cr lf : α) (line : List α) : List α → List (List α × List α)
  | [] => if line.isEmpty then [] else [(line, [])]
  | [a] => if isMark a then [(line, [a])] else [(line ++ [a], [])]
  | a :: b :: s =>
    if a = cr ∧ b = lf then (line, [a, b]) :: endedLines isMark cr lf [] s
    else if isMark a then (line, [a]) :: endedLines isMark cr lf [] (b :: s)
    else endedLines isMark cr lf (line ++ [a]) (b :: s)

/-- `splitlines(keepends)`: the lines between the marks, with them or without. -/
def splitlines (keepends : Bool) (isMark : α → Bool) (cr lf : α) (s : List α) : List (List α) :=
  (endedLines isMark cr lf [] s).map fun p => if keepends then p.1 ++ p.2 else p.1

/-- A line and its mark in front of a sequence, if they are no part of a mark of two. -/
theorem endedLines_line {isMark : α → Bool} {cr a : α} (lf : α) (ha : isMark a = true)
    (hcr : a ≠ cr) {t : List α} (ht : ∀ b ∈ t, isMark b = false) (hmark : isMark cr = true)
    (line s : List α) :
    endedLines isMark cr lf line (t ++ a :: s) =
      (line ++ t, [a]) :: endedLines isMark cr lf [] s := by
  induction t generalizing line with
  | nil =>
    rw [List.nil_append, List.append_nil]
    cases s with
    | nil => simp [endedLines, ha]
    | cons b s => simp [endedLines, ha, hcr]
  | cons c t ih =>
    have hc : isMark c = false := ht c List.mem_cons_self
    have hne : c ≠ cr := by
      rintro rfl
      rw [hc] at hmark
      cases hmark
    have hrest := ih (fun b hb => ht b (List.mem_cons_of_mem _ hb)) (line ++ [c])
    cases htail : t ++ a :: s with
    | nil => simp at htail
    | cons b s' =>
      rw [htail, List.append_assoc] at hrest
      rw [List.cons_append, htail, endedLines, if_neg (fun h => hne h.1), if_neg (by simp [hc]),
        hrest]
      rfl

/-- The lines with their marks make the sequence up. -/
theorem flatten_endedLines (isMark : α → Bool) (cr lf : α) (line s : List α) :
    ((endedLines isMark cr lf line s).map fun p => p.1 ++ p.2).flatten = line ++ s := by
  fun_induction endedLines isMark cr lf line s <;> simp_all

/-- No line is empty with its mark. -/
theorem endedLines_ne_nil (isMark : α → Bool) (cr lf : α) (line s : List α) :
    ∀ p ∈ endedLines isMark cr lf line s, p.1 ++ p.2 ≠ [] := by
  fun_induction endedLines isMark cr lf line s <;> simp_all <;> assumption

end Framing
