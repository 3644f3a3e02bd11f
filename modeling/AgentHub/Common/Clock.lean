import Mathlib.Data.Rat.Floor
import Mathlib.Order.Basic

namespace AgentHub

/-!
# Clock readings and persisted timestamps

`datetime` instants in UTC and the one format every persisted timestamp uses.

* `Moment` — an aware datetime, in microseconds since the start of year 1; the years end with
  9999, and that range is a field;
* `Stamp` — a persisted timestamp: an instant cut to milliseconds.  The hub compares stamps
  lexically in SQL; the fixed-width rendering makes that the order of `ms`;
* `Moment.toIso`, `Stamp.parse` — `to_iso` and `_parse_timestamp`;
* `Moment.addMicros?` — adding a `timedelta`, which raises outside the range of years.
-/

/-- Microseconds from the start of year 1 to the end of year 9999. -/
def maxMicros : ℕ := 315537897600000000

/-- An aware `datetime`, as a UTC instant. -/
@[ext] structure Moment where
  us : ℕ
  lt : us < maxMicros
deriving DecidableEq

/-- A persisted timestamp. -/
@[ext] structure Stamp where
  ms : ℕ
  lt : ms * 1000 < maxMicros
deriving DecidableEq

namespace Stamp

instance : LinearOrder Stamp :=
  LinearOrder.lift' Stamp.ms fun _ _ h => Stamp.ext h

/-- Stamps are ordered by their milliseconds. -/
theorem le_def {a b : Stamp} : a ≤ b ↔ a.ms ≤ b.ms := Iff.rfl

/-- Stamps are ordered by their milliseconds. -/
theorem lt_def {a b : Stamp} : a < b ↔ a.ms < b.ms := Iff.rfl

/-- `_parse_timestamp`. -/
def parse (s : Stamp) : Moment := ⟨s.ms * 1000, s.lt⟩

end Stamp

namespace Moment

instance : LinearOrder Moment :=
  LinearOrder.lift' Moment.us fun _ _ h => Moment.ext h

/-- Moments are ordered by their microseconds. -/
theorem le_def {a b : Moment} : a ≤ b ↔ a.us ≤ b.us := Iff.rfl

/-- `to_iso`: the instant, cut to milliseconds. -/
def toIso (m : Moment) : Stamp :=
  ⟨m.us / 1000, lt_of_le_of_lt (Nat.div_mul_le_self m.us 1000) m.lt⟩

/-- A stamp read and written again is the same stamp. -/
@[simp] theorem toIso_parse (s : Stamp) : s.parse.toIso = s :=
  Stamp.ext (Nat.mul_div_cancel s.ms (by decide))

/-- A stamp is at or before the moment it was taken. -/
theorem parse_toIso_le (m : Moment) : m.toIso.parse ≤ m := Nat.div_mul_le_self m.us 1000

/-- A later moment has no earlier stamp. -/
theorem toIso_mono {a b : Moment} (h : a ≤ b) : a.toIso ≤ b.toIso := Nat.div_le_div_right h

/-- `moment + timedelta(microseconds=d)`; `none` where Python raises `OverflowError`. -/
def addMicros? (m : Moment) (d : ℤ) : Option Moment :=
  if h : 0 ≤ (m.us : ℤ) + d ∧ (m.us : ℤ) + d < maxMicros then
    some ⟨((m.us : ℤ) + d).toNat, by omega⟩
  else none

end Moment

/-- Round to the nearest integer, halves to the even one, as `timedelta` rounds a fraction of
    a microsecond. -/
def roundHalfEven (q : ℚ) : ℤ :=
  let below := q.floor
  let rest := q - below
  if rest < 1 / 2 then below
  else if 1 / 2 < rest then below + 1
  else if below % 2 = 0 then below
  else below + 1

/-- `timedelta(seconds=s)`, in microseconds. -/
def seconds (s : ℚ) : ℤ := roundHalfEven (s * 1000000)

/-- `timedelta(minutes=m)`, in microseconds. -/
def minutes (m : ℚ) : ℤ := roundHalfEven (m * 60000000)

example : minutes 30 = 1800000000 := by decide +kernel

end AgentHub
