import Mathlib.Data.List.Basic
import Mathlib.Data.Nat.Basic
import Mathlib.Tactic.Common
import Mathlib.Tactic.Ring

namespace Decimal

/-!
# Decimal numbers of a fixed width

* `pad` — a number with leading zeros; `number` — so many digits read from a text;
* `columns` — the text of a layout: numbers of fixed widths, each with the text after it;
* `number_pad` — what is written is read;
* `columns_lt` — the texts of one layout are ordered as the lists of their numbers.
-/

/-! ### Digits -/

/-- The last `w` digits of a number. -/
def pad : ℕ → ℕ → List Char
  | 0, _ => []
  | w + 1, n => Nat.digitChar (n / 10 ^ w) :: pad w (n % 10 ^ w)

/-- The value of an ASCII digit. -/
def digitValue? (c : Char) : Option ℕ :=
  if '0' ≤ c ∧ c ≤ '9' then some (c.toNat - 48) else none

/-- The number that digits are, after a number already read. -/
def digitsFrom? : ℕ → List Char → Option ℕ
  | n, [] => some n
  | n, c :: cs => (digitValue? c).bind fun d => digitsFrom? (n * 10 + d) cs

/-- The number of the first `w` characters, which are digits, and the rest. -/
def number (w : ℕ) (cs : List Char) : Option (ℕ × List Char) :=
  if w ≤ cs.length then (digitsFrom? 0 (cs.take w)).map fun n => (n, cs.drop w) else none

/-- A digit written is read back. -/
theorem digitValue?_digitChar {d : ℕ} (h : d < 10) : digitValue? (Nat.digitChar d) = some d := by
  have hall : ∀ d < 10, digitValue? (Nat.digitChar d) = some d := by decide
  exact hall d h

/-- Digits are written in order. -/
theorem digitChar_lt {d d' : ℕ} (h : d < d') (h' : d' < 10) :
    Nat.digitChar d < Nat.digitChar d' := by
  have hall : ∀ d' < 10, ∀ d < d', Nat.digitChar d < Nat.digitChar d' := by decide
  exact hall d' h' d h

/-- A number padded to a width has that width, whatever it is. -/
@[simp] theorem length_pad (w n : ℕ) : (pad w n).length = w := by
  induction w generalizing n with
  | zero => rfl
  | succ w ih => rw [pad, List.length_cons, ih]

/-- The leading digit of a number that fits its width. -/
theorem leading_lt {w n : ℕ} (h : n < 10 ^ (w + 1)) : n / 10 ^ w < 10 := by
  apply Nat.div_lt_of_lt_mul
  rw [← Nat.pow_succ]
  exact h

/-- Only digits are written. -/
theorem digit_of_mem_pad {w n : ℕ} (h : n < 10 ^ w) {c : Char} (hc : c ∈ pad w n) :
    (digitValue? c).isSome = true := by
  induction w generalizing n with
  | zero => cases hc
  | succ w ih =>
    rw [pad, List.mem_cons] at hc
    rcases hc with rfl | hc
    · rw [digitValue?_digitChar (leading_lt h)]
      rfl
    · exact ih (Nat.mod_lt _ (Nat.pow_pos (by decide))) hc

/-- A padded number is read back, after the digits before it. -/
theorem digitsFrom?_pad {w n : ℕ} (h : n < 10 ^ w) (m : ℕ) :
    digitsFrom? m (pad w n) = some (m * 10 ^ w + n) := by
  induction w generalizing n m with
  | zero =>
    have hzero : n = 0 := by simpa using h
    rw [hzero]
    simp [pad, digitsFrom?]
  | succ w ih =>
    have hrest : n % 10 ^ w < 10 ^ w := Nat.mod_lt _ (Nat.pow_pos (by decide))
    rw [pad, digitsFrom?, digitValue?_digitChar (leading_lt h)]
    show digitsFrom? (m * 10 + n / 10 ^ w) (pad w (n % 10 ^ w)) = _
    rw [ih hrest]
    have hsplit : 10 ^ w * (n / 10 ^ w) + n % 10 ^ w = n := Nat.div_add_mod n (10 ^ w)
    congr 1
    calc (m * 10 + n / 10 ^ w) * 10 ^ w + n % 10 ^ w
        = m * 10 ^ (w + 1) + (10 ^ w * (n / 10 ^ w) + n % 10 ^ w) := by ring
      _ = m * 10 ^ (w + 1) + n := by rw [hsplit]

/-- **What is written is read.** -/
theorem number_pad {w n : ℕ} (h : n < 10 ^ w) (rest : List Char) :
    number w (pad w n ++ rest) = some (n, rest) := by
  have htake : (pad w n ++ rest).take w = pad w n := by
    rw [List.take_append_of_le_length (by simp), List.take_of_length_le (by simp)]
  have hdrop : (pad w n ++ rest).drop w = rest := by
    rw [List.drop_append_of_le_length (by simp), List.drop_of_length_le (by simp), List.nil_append]
  rw [number, if_pos (by simp), htake, hdrop, digitsFrom?_pad h]
  simp

/-! ### Order -/

/-- A text is decided before what follows it. -/
theorem append_lt_append {xs ys : List Char} (hlen : xs.length = ys.length) (h : xs < ys)
    (as bs : List Char) : xs ++ as < ys ++ bs := by
  induction xs generalizing ys with
  | nil =>
    cases ys with
    | nil => exact absurd h (List.lt_irrefl _)
    | cons y ys => cases hlen
  | cons x xs ih =>
    cases ys with
    | nil => cases hlen
    | cons y ys =>
      rw [List.cons_append, List.cons_append, List.cons_lt_cons_iff]
      rcases List.cons_lt_cons_iff.mp h with hlt | ⟨heq, hlt⟩
      · exact .inl hlt
      · exact .inr ⟨heq, ih (Nat.succ.inj hlen) hlt⟩

/-- Numbers of one width are ordered as their texts. -/
theorem pad_lt {w n n' : ℕ} (hlt : n < n') (h' : n' < 10 ^ w) : pad w n < pad w n' := by
  induction w generalizing n n' with
  | zero => omega
  | succ w ih =>
    rw [pad, pad, List.cons_lt_cons_iff]
    have hle : n / 10 ^ w ≤ n' / 10 ^ w := Nat.div_le_div_right (Nat.le_of_lt hlt)
    rcases Nat.lt_or_eq_of_le hle with hleading | hleading
    · exact .inl (digitChar_lt hleading (leading_lt h'))
    · refine .inr ⟨by rw [hleading], ih ?_ (Nat.mod_lt _ (Nat.pow_pos (by decide)))⟩
      have hn := Nat.div_add_mod n (10 ^ w)
      have hn' := Nat.div_add_mod n' (10 ^ w)
      rw [hleading] at hn
      omega

/-! ### Layouts -/

/-- The text of a layout: the width of each number and the text after it. -/
def columns : List (ℕ × List Char) → List ℕ → List Char
  | (w, after) :: layout, n :: ns => pad w n ++ (after ++ columns layout ns)
  | _, _ => []

/-- The numbers have at most the digits of their columns. -/
def Fits : List (ℕ × List Char) → List ℕ → Prop :=
  List.Forall₂ fun column n => n < 10 ^ column.1

/-- **The texts of a layout are ordered as the numbers.** -/
theorem columns_lt {layout : List (ℕ × List Char)} {ns ns' : List ℕ} (h : Fits layout ns)
    (h' : Fits layout ns') (hlt : ns < ns') : columns layout ns < columns layout ns' := by
  induction h generalizing ns' with
  | nil =>
    cases h'
    exact absurd hlt (List.lt_irrefl _)
  | @cons column n layout ns hn hns ih =>
    cases h' with
    | @cons _ n' _ ns' hn' hns' =>
      rw [columns, columns]
      rcases List.cons_lt_cons_iff.mp hlt with hhead | ⟨rfl, htail⟩
      · exact append_lt_append (by simp) (pad_lt hhead hn') _ _
      · exact List.append_left_lt (List.append_left_lt (ih hns' htail))

/-- All texts of a layout have one length. -/
theorem length_columns {layout : List (ℕ × List Char)} {ns : List ℕ} (h : Fits layout ns) :
    (columns layout ns).length = (layout.map fun column => column.1 + column.2.length).sum := by
  induction h with
  | nil => rfl
  | cons hn hns ih =>
    rw [columns, List.length_append, List.length_append, length_pad, ih, List.map_cons,
      List.sum_cons, Nat.add_assoc]

/-- What is in the text is a digit or in the layout. -/
theorem mem_columns {layout : List (ℕ × List Char)} {ns : List ℕ} (h : Fits layout ns) {c : Char}
    (hc : c ∈ columns layout ns) :
    (digitValue? c).isSome = true ∨ ∃ column ∈ layout, c ∈ column.2 := by
  induction h with
  | nil => cases hc
  | @cons column n layout ns hn hns ih =>
    rw [columns, List.mem_append, List.mem_append] at hc
    rcases hc with hc | hc | hc
    · exact .inl (digit_of_mem_pad hn hc)
    · exact .inr ⟨column, List.mem_cons_self, hc⟩
    · rcases ih hc with hdigit | ⟨other, hmem, hother⟩
      · exact .inl hdigit
      · exact .inr ⟨other, List.mem_cons_of_mem _ hmem, hother⟩

end Decimal
