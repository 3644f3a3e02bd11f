import AgentHub.Calendar.Decimal
import AgentHub.Calendar.Gregorian
import AgentHub.Common.Clock
import Mathlib.Data.List.MinMax
import Mathlib.Data.String.Basic

namespace AgentHub

open Gregorian Decimal

/-!
# Persisted timestamps as text

The strings behind `Stamp`: what `to_iso` writes of a timezone-aware datetime and what
`_parse_timestamp` reads.

* `Naive`, `Aware`, `Datetime` — datetimes; the ranges that Python checks are fields;
* `Aware.astimezone` — `astimezone(UTC)`; `isoformat`, `fromIsoFormat` — the text of a datetime;
* `toIso`, `parseTimestamp` — `to_iso` and `_parse_timestamp`;
* `Stamp.render` — the text of a timestamp; `render_le_render` — texts are ordered as timestamps.
-/

/-! ### Datetimes -/

/-- The fields of a datetime, without a timezone. -/
@[ext] structure Naive where
  date : Date
  hour : ℕ
  minute : ℕ
  second : ℕ
  microsecond : ℕ
  year_le : date.year ≤ 9999
  hour_lt : hour < 24
  minute_lt : minute < 60
  second_lt : second < 60
  microsecond_lt : microsecond < 1000000

/-- The constructor, which checks the ranges. -/
def Naive.make (year month day hour minute second microsecond : ℕ) : Option Naive :=
  if h : (1 ≤ year ∧ year ≤ 9999) ∧ (1 ≤ month ∧ month ≤ 12) ∧
      (1 ≤ day ∧ day ≤ daysInMonth (isLeap year) month) ∧ hour < 24 ∧ minute < 60 ∧ second < 60 ∧
      microsecond < 1000000 then
    some ⟨⟨year, month, day, h.1.1, h.2.1, h.2.2.1⟩, hour, minute, second, microsecond, h.1.2,
      h.2.2.2.1, h.2.2.2.2.1, h.2.2.2.2.2.1, h.2.2.2.2.2.2⟩
  else none

/-- Microseconds since the start of year 1, as the clock that the fields are read from shows it. -/
def Naive.micros (f : Naive) : ℕ :=
  (f.date.toOrdinal - 1) * 86400000000 +
    ((f.hour * 60 + f.minute) * 60 + f.second) * 1000000 + f.microsecond

/-- What the `utcoffset` of a `tzinfo` returns, in microseconds: less than a day either way. -/
structure Offset where
  us : ℤ
  bounds : -86400000000 < us ∧ us < 86400000000
deriving DecidableEq

/-- `timezone.utc`. -/
def Offset.utc : Offset := ⟨0, by decide⟩

/-- A timezone-aware datetime. -/
structure Aware where
  fields : Naive
  offset : Offset

/-- A datetime, with or without a timezone. -/
inductive Datetime where
  | naive (f : Naive)
  | aware (a : Aware)

/-- The UTC instant, in microseconds since the start of year 1. -/
def Aware.instant (a : Aware) : ℤ := a.fields.micros - a.offset.us

/-- The UTC instant lies in the years 1 to 9999. -/
def Aware.InYears (a : Aware) : Prop := 0 ≤ a.instant ∧ a.instant < maxMicros

instance (a : Aware) : Decidable a.InYears := inferInstanceAs (Decidable (_ ∧ _))

/-- The UTC instant of a datetime in range. -/
def Aware.moment (a : Aware) (h : a.InYears) : Moment :=
  ⟨a.instant.toNat, by
    obtain ⟨hpos, hlt⟩ := h
    omega⟩

/-- A day up to the last ordinal is in year 9999 at the latest. -/
theorem year_le_of_toOrdinal {d : Date} (h : d.toOrdinal ≤ 3652059) : d.year ≤ 9999 := by
  by_contra hyear
  have hbegin : daysBeforeYear 9999 + daysInYear 9999 ≤ daysBeforeYear d.year :=
    daysBeforeYear_le (by decide) (by omega)
  have hlast : daysBeforeYear 9999 + daysInYear 9999 = 3652059 := by decide
  have hday := d.day_mem.1
  have hordinal : d.toOrdinal =
      daysBeforeYear d.year + daysBeforeMonth (isLeap d.year) d.month + d.day := rfl
  omega

/-- The fields that a clock shows `n` microseconds after the start of year 1. -/
def Naive.ofMicros (n : ℕ) (h : n < maxMicros) : Naive where
  date := ofOrdinal (n / 86400000000 + 1)
  hour := n % 86400000000 / 3600000000
  minute := n % 86400000000 % 3600000000 / 60000000
  second := n % 86400000000 % 3600000000 % 60000000 / 1000000
  microsecond := n % 86400000000 % 3600000000 % 60000000 % 1000000
  year_le := by
    apply year_le_of_toOrdinal
    rw [toOrdinal_ofOrdinal (by omega)]
    unfold maxMicros at h
    omega
  hour_lt := by omega
  minute_lt := by omega
  second_lt := by omega
  microsecond_lt := by omega

/-- A date and time made of microseconds has those microseconds. -/
@[simp] theorem micros_ofMicros (n : ℕ) (h : n < maxMicros) : (Naive.ofMicros n h).micros = n := by
  simp only [Naive.micros, Naive.ofMicros, toOrdinal_ofOrdinal (Nat.succ_pos _)]
  omega

/-- `moment.astimezone(UTC)`: the fields less the offset; `none` where Python raises
    `OverflowError`. -/
def Aware.astimezone (a : Aware) : Option Naive :=
  if h : a.InYears then some (.ofMicros a.instant.toNat (a.moment h).lt) else none

/-! ### Texts -/

/-- `text.replace(old, new)` for a nonempty `old`; `skip` characters of a match are still to go. -/
def replaceFrom (old new : List Char) : ℕ → List Char → List Char
  | _, [] => []
  | skip + 1, _ :: cs => replaceFrom old new skip cs
  | 0, c :: cs =>
    if old.isPrefixOf (c :: cs) then new ++ replaceFrom old new (old.length - 1) cs
    else c :: replaceFrom old new 0 cs

/-- `str.replace`: every occurrence, from the left. -/
def replace (old new text : String) : String :=
  String.ofList (replaceFrom old.toList new.toList 0 text.toList)

/-- `"%04d-%02d-%02dT%02d:%02d:%02d.%03d"`. -/
def millisLayout : List (ℕ × List Char) :=
  [(4, ['-']), (2, ['-']), (2, ['T']), (2, [':']), (2, [':']), (2, ['.']), (3, [])]

/-- The numbers of `isoformat(timespec="milliseconds")`; microseconds are cut. -/
def Naive.columns (f : Naive) : List ℕ :=
  [f.date.year, f.date.month, f.date.day, f.hour, f.minute, f.second, f.microsecond / 1000]

/-- `isoformat(timespec="milliseconds")` of a datetime in UTC. -/
def isoformat (f : Naive) : String :=
  String.ofList (Decimal.columns millisLayout f.columns ++ "+00:00".toList)

/-- `to_iso`. -/
def toIso (moment : Aware) : Option String :=
  moment.astimezone.map fun utc => replace "+00:00" "Z" (isoformat utc)

/-! ### Reading -/

/-- The rest of a text after a separator, if its parts are separated. -/
def skip (separated : Bool) (cs : List Char) : List Char := if separated then cs.tail else cs

/-- `YYYY-MM-DD` or `YYYYMMDD`, and the rest. -/
def readDate (cs : List Char) : Option ((ℕ × ℕ × ℕ) × List Char) := do
  let (year, cs) ← number 4 cs
  let dashed := cs.head? = some '-'
  let (month, cs) ← number 2 (skip dashed cs)
  if (cs.head? = some '-') ≠ dashed then none
  let (day, cs) ← number 2 (skip dashed cs)
  return ((year, month, day), cs)

/-- The digits of a fraction of a second, of which six count. -/
def readFraction (cs : List Char) : Option ℕ :=
  let digits := cs.take 6
  if cs ≠ [] ∧ (cs.all fun c => (digitValue? c).isSome) then
    (digitsFrom? 0 digits).map (· * 10 ^ (6 - digits.length))
  else none

/-- `HH[:MM[:SS[.ffffff]]]`, with or without colons. -/
def readTime (cs : List Char) : Option (ℕ × ℕ × ℕ × ℕ) := do
  let (hour, cs) ← number 2 cs
  if cs = [] then return (hour, 0, 0, 0)
  let colons := cs.head? = some ':'
  let (minute, cs) ← number 2 (skip colons cs)
  if cs = [] then return (hour, minute, 0, 0)
  if (cs.head? = some ':') ≠ colons then none
  let (second, cs) ← number 2 (skip colons cs)
  if cs = [] then return (hour, minute, second, 0)
  if cs.head? ≠ some '.' ∧ cs.head? ≠ some ',' then none
  let microsecond ← readFraction cs.tail
  return (hour, minute, second, microsecond)

/-- `timezone(timedelta)`, which refuses a day or more. -/
def Offset.make (us : ℤ) : Option Offset :=
  if h : -86400000000 < us ∧ us < 86400000000 then some ⟨us, h⟩ else none

/-- `Z` or an offset with its sign. -/
def readZone (cs : List Char) : Option Offset :=
  if cs = ['Z'] then some .utc
  else do
    let (hours, minutes, seconds, micros) ← readTime cs.tail
    let us : ℤ := (((hours * 60 + minutes) * 60 + seconds) * 1000000 + micros : ℕ)
    if cs.head? = some '+' then Offset.make us
    else if cs.head? = some '-' then Offset.make (-us)
    else none

/-- Where the time ends and the timezone begins. -/
def startsZone (c : Char) : Bool := c = '+' || c = '-' || c = 'Z'

/-- `datetime.fromisoformat`.  Dates by weeks, which it reads too, are left out. -/
def fromIsoFormat (text : String) : Option Datetime := do
  let ((year, month, day), cs) ← readDate text.toList
  if cs = [] then return .naive (← Naive.make year month day 0 0 0 0)
  -- any character separates the time from the date, and then there has to be a time
  let cs := cs.tail
  let (hour, minute, second, microsecond) ← readTime (cs.takeWhile fun c => !startsZone c)
  let fields ← Naive.make year month day hour minute second microsecond
  let zone := cs.dropWhile fun c => !startsZone c
  if zone = [] then return .naive fields
  return .aware ⟨fields, ← readZone zone⟩

/-- `_parse_timestamp`. -/
def parseTimestamp (value : String) : Option Datetime :=
  fromIsoFormat (replace "Z" "+00:00" value)

/-! ### Replacing -/

/-- The end of a match is skipped. -/
theorem replaceFrom_length (old new cs : List Char) : replaceFrom old new cs.length cs = [] := by
  induction cs with
  | nil => rw [replaceFrom]
  | cons c cs ih => rw [List.length_cons, replaceFrom, ih]

/-- What begins with a character that comes nowhere before is replaced at the end. -/
theorem replaceFrom_append {c : Char} {old new text : List Char} (h : c ∉ text) :
    replaceFrom (c :: old) new 0 (text ++ c :: old) = text ++ new := by
  induction text with
  | nil =>
    rw [List.nil_append, replaceFrom, if_pos (by simp), List.length_cons, Nat.add_sub_cancel,
      replaceFrom_length, List.append_nil, List.nil_append]
  | cons d text ih =>
    rw [List.mem_cons, not_or] at h
    have hno : ¬ (c :: old).isPrefixOf (d :: (text ++ c :: old)) = true := by
      rw [List.isPrefixOf, Bool.and_eq_true, beq_iff_eq]
      exact fun hmatch => h.1 hmatch.1
    rw [List.cons_append, replaceFrom, if_neg hno, ih h.2, List.cons_append]

/-! ### The text of a timestamp -/

/-- The text of a datetime without its offset. -/
def Naive.text (f : Naive) : List Char := Decimal.columns millisLayout f.columns

/-- The text has its layout's columns. -/
theorem fits_columns (f : Naive) : Fits millisLayout f.columns := by
  have hdays : ∀ leap : Bool, ∀ month < 13, daysInMonth leap month ≤ 31 := by decide
  have hyear := f.year_le
  have hmonth := f.date.month_mem.2
  have hday := f.date.day_mem.2
  have hbound := hdays (isLeap f.date.year) f.date.month (by omega)
  have hhour := f.hour_lt
  have hminute := f.minute_lt
  have hsecond := f.second_lt
  have hmicro := f.microsecond_lt
  refine .cons ?_ (.cons ?_ (.cons ?_ (.cons ?_ (.cons ?_ (.cons ?_ (.cons ?_ .nil)))))) <;>
    simp only <;> omega

/-- No digit and no separator of the layout. -/
theorem notMem_text (f : Naive) {c : Char} (hdigit : digitValue? c = none)
    (hlayout : ∀ column ∈ millisLayout, c ∉ column.2) : c ∉ f.text := by
  intro hc
  rcases mem_columns (fits_columns f) hc with h | ⟨column, hcolumn, h⟩
  · rw [hdigit] at h
    cases h
  · exact hlayout column hcolumn h

/-- The suffix of UTC as `isoformat` writes it. -/
theorem utcSuffix : "+00:00".toList = '+' :: ['0', '0', ':', '0', '0'] := rfl

/-- The suffix of UTC as the hub stores it. -/
theorem zulu : "Z".toList = 'Z' :: [] := rfl

/-- The suffix is the only place where `+00:00` stands. -/
theorem replace_isoformat (f : Naive) :
    replace "+00:00" "Z" (isoformat f) = String.ofList (f.text ++ ['Z']) := by
  have hplus : '+' ∉ f.text := notMem_text f (by decide) (by decide)
  rw [replace, isoformat, utcSuffix, zulu, String.toList_ofList, ← Naive.text,
    replaceFrom_append hplus]

/-- The suffix is the only place where `Z` stands. -/
theorem replace_back (f : Naive) :
    replace "Z" "+00:00" (String.ofList (f.text ++ ['Z'])) = isoformat f := by
  have hzulu : 'Z' ∉ f.text := notMem_text f (by decide) (by decide)
  rw [replace, isoformat, utcSuffix, zulu, String.toList_ofList, replaceFrom_append hzulu,
    Naive.text]

/-! ### Reading what is written -/

/-- The datetime cut to milliseconds. -/
def Naive.cut (f : Naive) : Naive where
  date := f.date
  hour := f.hour
  minute := f.minute
  second := f.second
  microsecond := f.microsecond / 1000 * 1000
  year_le := f.year_le
  hour_lt := f.hour_lt
  minute_lt := f.minute_lt
  second_lt := f.second_lt
  microsecond_lt := by
    have hmicro := f.microsecond_lt
    omega

/-- The parts of a date and time, cut to milliseconds, make the cut one. -/
theorem make_cut (f : Naive) :
    Naive.make f.date.year f.date.month f.date.day f.hour f.minute f.second
      (f.microsecond / 1000 * 1000) = some f.cut := by
  have hchecks : (1 ≤ f.date.year ∧ f.date.year ≤ 9999) ∧ (1 ≤ f.date.month ∧ f.date.month ≤ 12) ∧
      (1 ≤ f.date.day ∧ f.date.day ≤ daysInMonth (isLeap f.date.year) f.date.month) ∧
      f.hour < 24 ∧ f.minute < 60 ∧ f.second < 60 ∧ f.microsecond / 1000 * 1000 < 1000000 :=
    ⟨⟨f.date.year_pos, f.year_le⟩, f.date.month_mem, f.date.day_mem, f.hour_lt, f.minute_lt,
      f.second_lt, f.cut.microsecond_lt⟩
  rw [Naive.make, dif_pos hchecks]
  rfl

/-- The date at the start of a text. -/
theorem readDate_columns {year month day : ℕ} (hyear : year < 10 ^ 4) (hmonth : month < 10 ^ 2)
    (hday : day < 10 ^ 2) (rest : List Char) :
    readDate (pad 4 year ++ '-' :: (pad 2 month ++ '-' :: (pad 2 day ++ rest))) =
      some ((year, month, day), rest) := by
  simp [readDate, skip, number_pad hyear, number_pad hmonth, number_pad hday]

/-- Three digits of a fraction are read back as milliseconds. -/
theorem readFraction_pad {ms : ℕ} (h : ms < 10 ^ 3) :
    readFraction (pad 3 ms) = some (ms * 1000) := by
  have hlen : (pad 3 ms).length = 3 := length_pad 3 ms
  have hne : pad 3 ms ≠ [] := fun hnil => by
    rw [hnil] at hlen
    cases hlen
  have hdigits : ((pad 3 ms).all fun c => (digitValue? c).isSome) = true :=
    List.all_eq_true.mpr fun c hc => digit_of_mem_pad h hc
  rw [readFraction, if_pos ⟨hne, hdigits⟩, List.take_of_length_le (by omega), digitsFrom?_pad h,
    hlen]
  simp

/-- The columns of the clock are read back. -/
theorem readTime_columns {hour minute second ms : ℕ} (hhour : hour < 10 ^ 2)
    (hminute : minute < 10 ^ 2) (hsecond : second < 10 ^ 2) (hms : ms < 10 ^ 3) :
    readTime (pad 2 hour ++ ':' :: (pad 2 minute ++ ':' :: (pad 2 second ++ '.' :: pad 3 ms))) =
      some (hour, minute, second, ms * 1000) := by
  simp [readTime, skip, number_pad hhour, number_pad hminute, number_pad hsecond,
    readFraction_pad hms]

/-- The time of day within the text. -/
def Naive.clockText (f : Naive) : List Char :=
  pad 2 f.hour ++ ':' :: (pad 2 f.minute ++ ':' ::
    (pad 2 f.second ++ '.' :: pad 3 (f.microsecond / 1000)))

/-- The text of a date and time: its date, a `T`, its clock. -/
theorem text_eq (f : Naive) :
    f.text = pad 4 f.date.year ++ '-' :: (pad 2 f.date.month ++ '-' ::
      (pad 2 f.date.day ++ 'T' :: f.clockText)) := by
  simp [Naive.text, Naive.columns, Decimal.columns, millisLayout, Naive.clockText]

/-- The time of day ends before the offset. -/
theorem clockText_ahead (f : Naive) : ∀ c ∈ f.clockText, (!startsZone c) = true := by
  intro c hc
  have hfits := fits_columns f
  simp only [Fits, millisLayout, Naive.columns, List.forall₂_cons] at hfits
  obtain ⟨-, -, -, htime⟩ := hfits
  have hcolumns : c ∈ Decimal.columns [(2, [':']), (2, [':']), (2, ['.']), (3, [])]
      [f.hour, f.minute, f.second, f.microsecond / 1000] := by
    simpa [Decimal.columns, Naive.clockText] using hc
  have hzone : ∀ d, startsZone d = true → digitValue? d = none ∧ d ≠ ':' ∧ d ≠ '.' := by
    intro d hd
    simp only [startsZone, Bool.or_eq_true, decide_eq_true_eq] at hd
    rcases hd with (rfl | rfl) | rfl <;> decide
  by_contra hstarts
  obtain ⟨hdigit, hcolon, hdot⟩ := hzone c (by simpa using hstarts)
  have hmem : Fits [(2, [':']), (2, [':']), (2, ['.']), (3, [])]
      [f.hour, f.minute, f.second, f.microsecond / 1000] := by
    simpa [Fits, List.forall₂_cons] using htime
  rcases mem_columns hmem hcolumns with h | ⟨column, hcolumn, h⟩
  · rw [hdigit] at h
    cases h
  · simp only [List.mem_cons, List.not_mem_nil, or_false] at hcolumn
    rcases hcolumn with rfl | rfl | rfl | rfl <;> simp [hcolon, hdot] at h

/-- **What is written is read**, cut to milliseconds. -/
theorem fromIsoFormat_isoformat (f : Naive) :
    fromIsoFormat (isoformat f) = some (.aware ⟨f.cut, .utc⟩) := by
  have hfits := fits_columns f
  simp only [Fits, millisLayout, Naive.columns, List.forall₂_cons] at hfits
  obtain ⟨hyear, hmonth, hday, hhour, hminute, hsecond, hms, -⟩ := hfits
  have hsplit : (isoformat f).toList = pad 4 f.date.year ++ '-' :: (pad 2 f.date.month ++ '-' ::
      (pad 2 f.date.day ++ ('T' :: (f.clockText ++ "+00:00".toList)))) := by
    rw [isoformat, String.toList_ofList, ← Naive.text, text_eq]
    simp only [List.append_assoc, List.cons_append]
  have htake : (f.clockText ++ "+00:00".toList).takeWhile (fun c => !startsZone c) =
      f.clockText := by
    rw [List.takeWhile_append_of_pos (clockText_ahead f), utcSuffix]
    simp [startsZone]
  have hdrop : (f.clockText ++ "+00:00".toList).dropWhile (fun c => !startsZone c) =
      "+00:00".toList := by
    rw [List.dropWhile_append_of_pos (clockText_ahead f), utcSuffix]
    simp [startsZone]
  have htime : readTime f.clockText =
      some (f.hour, f.minute, f.second, f.microsecond / 1000 * 1000) :=
    readTime_columns hhour hminute hsecond hms
  have hzone : readZone "+00:00".toList = some .utc := by decide +kernel
  rw [fromIsoFormat, hsplit, readDate_columns hyear hmonth hday]
  simp only [Option.bind_eq_bind, Option.bind_some, List.tail_cons, htake, hdrop, htime, make_cut,
    hzone, if_neg (List.cons_ne_nil _ _)]
  rfl

/-! ### Order -/

/-- A later millisecond has larger numbers. -/
theorem columns_ofMicros_lt {n n' : ℕ} (h : n < maxMicros) (h' : n' < maxMicros)
    (hlt : n / 1000 < n' / 1000) :
    (Naive.ofMicros n h).columns < (Naive.ofMicros n' h').columns := by
  have hday : n / 86400000000 ≤ n' / 86400000000 := by omega
  simp only [Naive.columns, Naive.ofMicros, List.cons_lt_cons_iff]
  rcases Nat.lt_or_eq_of_le hday with hearlier | hsame
  · -- another day: the date decides
    have hbefore := ofOrdinal_before (Nat.succ_pos (n / 86400000000)) (Nat.succ_lt_succ hearlier)
    rcases hbefore with hyear | ⟨hyear, hmonth | ⟨hmonth, hlt⟩⟩
    · exact .inl hyear
    · exact .inr ⟨hyear, .inl hmonth⟩
    · exact .inr ⟨hyear, .inr ⟨hmonth, .inl hlt⟩⟩
  · -- the same day: the time of day decides
    rw [hsame]
    refine .inr ⟨rfl, .inr ⟨rfl, .inr ⟨rfl, ?_⟩⟩⟩
    have hmillis : n % 86400000000 / 1000 < n' % 86400000000 / 1000 := by omega
    generalize n % 86400000000 = r at hmillis ⊢
    generalize n' % 86400000000 = r' at hmillis ⊢
    rcases Nat.lt_or_eq_of_le (show r / 3600000000 ≤ r' / 3600000000 by omega) with hlt | heq
    · exact .inl hlt
    · have hmillis : r % 3600000000 / 1000 < r' % 3600000000 / 1000 := by omega
      generalize r % 3600000000 = s at hmillis ⊢
      generalize r' % 3600000000 = s' at hmillis ⊢
      refine .inr ⟨heq, ?_⟩
      rcases Nat.lt_or_eq_of_le (show s / 60000000 ≤ s' / 60000000 by omega) with hlt | heq
      · exact .inl hlt
      · have hmillis : s % 60000000 / 1000 < s' % 60000000 / 1000 := by omega
        generalize s % 60000000 = t at hmillis ⊢
        generalize s' % 60000000 = t' at hmillis ⊢
        refine .inr ⟨heq, ?_⟩
        rcases Nat.lt_or_eq_of_le (show t / 1000000 ≤ t' / 1000000 by omega) with hlt | heq
        · exact .inl hlt
        · exact .inr ⟨heq, .inl (by omega)⟩

/-- The microseconds of a millisecond are not seen. -/
theorem columns_ofMicros_cut {n : ℕ} (h : n < maxMicros) (h' : n / 1000 * 1000 < maxMicros) :
    (Naive.ofMicros (n / 1000 * 1000) h').columns = (Naive.ofMicros n h).columns := by
  have hday : n / 1000 * 1000 / 86400000000 = n / 86400000000 := by omega
  simp only [Naive.columns, Naive.ofMicros, hday, List.cons.injEq, true_and, and_true]
  omega

/-- The string that the hub stores for a timestamp. -/
def Stamp.render (s : Stamp) : String :=
  String.ofList ((Naive.ofMicros (s.ms * 1000) s.lt).text ++ ['Z'])

/-- A later timestamp has a larger string. -/
theorem render_strictMono : StrictMono Stamp.render := by
  intro s t hlt
  rw [Stamp.lt_def] at hlt
  rw [Stamp.render, Stamp.render, String.lt_iff, String.toList_ofList, String.toList_ofList]
  have hfits := fits_columns (Naive.ofMicros (s.ms * 1000) s.lt)
  have hfits' := fits_columns (Naive.ofMicros (t.ms * 1000) t.lt)
  have hcolumns := columns_lt hfits hfits' (columns_ofMicros_lt s.lt t.lt (by omega))
  exact append_lt_append ((length_columns hfits).trans (length_columns hfits').symm) hcolumns _ _

/-- **Strings are ordered as timestamps.** -/
theorem render_le_render {s t : Stamp} : s.render ≤ t.render ↔ s ≤ t :=
  render_strictMono.le_iff_le

/-- `MAX` of the stored strings is the string of the latest timestamp. -/
theorem maximum_render (l : List Stamp) :
    (l.map Stamp.render).maximum = l.maximum.map Stamp.render := by
  induction l with
  | nil => rfl
  | cons s l ih =>
    rw [List.map_cons, List.maximum_cons, List.maximum_cons, ih]
    have hmax := render_strictMono.monotone.withBot_map.map_max (a := (s : WithBot Stamp))
      (b := l.maximum)
    exact hmax.symm

/-- `to_iso` writes the UTC instant cut to milliseconds. -/
theorem toIso_eq (a : Aware) (h : a.InYears) : toIso a = some (a.moment h).toIso.render := by
  have hcut : (Naive.ofMicros ((a.moment h).toIso.ms * 1000) (a.moment h).toIso.lt).text =
      (Naive.ofMicros a.instant.toNat (a.moment h).lt).text :=
    congrArg (Decimal.columns millisLayout) (columns_ofMicros_cut (a.moment h).lt _)
  rw [toIso, Aware.astimezone, dif_pos h, Option.map_some, replace_isoformat, Stamp.render, hcut]

/-- `_parse_timestamp` reads the instant back. -/
theorem parse_render (s : Stamp) : ∃ d, parseTimestamp s.render = some (.aware d) ∧
    d.instant = s.parse.us := by
  have hcut : (Naive.ofMicros (s.ms * 1000) s.lt).cut = Naive.ofMicros (s.ms * 1000) s.lt := by
    simp only [Naive.cut, Naive.ofMicros, Naive.mk.injEq, true_and]
    omega
  refine ⟨⟨(Naive.ofMicros (s.ms * 1000) s.lt).cut, .utc⟩, ?_, ?_⟩
  · rw [parseTimestamp, Stamp.render, replace_back, fromIsoFormat_isoformat]
  · rw [hcut, Aware.instant, micros_ofMicros]
    exact sub_zero _

/-- **Stored timestamps order like time.** The strings of two datetimes are ordered as their UTC
    instants cut to milliseconds, each is read back as that instant, and among stored strings the
    largest is the latest. -/
theorem timestamps_order_like_time (a b : Aware) (ha : a.InYears) (hb : b.InYears) :
    (∃ s t, toIso a = some s ∧ toIso b = some t ∧
      (s ≤ t ↔ a.instant / 1000 ≤ b.instant / 1000) ∧
      ∃ d, parseTimestamp s = some (.aware d) ∧ d.instant = a.instant / 1000 * 1000) ∧
    ∀ l : List Stamp, (l.map Stamp.render).maximum = l.maximum.map Stamp.render := by
  refine ⟨⟨_, _, toIso_eq a ha, toIso_eq b hb, ?_, ?_⟩, maximum_render⟩
  · obtain ⟨hpos, -⟩ := ha
    obtain ⟨hpos', -⟩ := hb
    rw [render_le_render, Stamp.le_def]
    show a.instant.toNat / 1000 ≤ b.instant.toNat / 1000 ↔ _
    omega
  · obtain ⟨d, hd, hinstant⟩ := parse_render (a.moment ha).toIso
    refine ⟨d, hd, hinstant.trans ?_⟩
    obtain ⟨hpos, -⟩ := ha
    show ((a.instant.toNat / 1000 * 1000 : ℕ) : ℤ) = _
    omega

/-- February 29, 2024, a microsecond before midnight, an hour behind UTC. -/
def leapEvening : Aware :=
  ⟨⟨⟨2024, 2, 29, by decide, by decide, by decide⟩, 23, 59, 59, 999999, by decide, by decide,
    by decide, by decide, by decide⟩, ⟨-3600000000, by decide⟩⟩

/-- The next day in UTC, a second later. -/
def firstOfMarch : Aware :=
  ⟨⟨⟨2024, 3, 1, by decide, by decide, by decide⟩, 1, 0, 0, 0, by decide, by decide, by decide,
    by decide, by decide⟩, .utc⟩

/-- The last evening of February in a leap year sorts before the next day, and parses back. -/
theorem leapEvening_persisted : ∃ s t, toIso leapEvening = some s ∧ toIso firstOfMarch = some t ∧
    s ≤ t ∧ ∃ d, parseTimestamp s = some (.aware d) ∧ d.instant = 63844851599999000 := by
  obtain ⟨⟨s, t, hs, ht, hle, d, hd, hinstant⟩, -⟩ :=
    timestamps_order_like_time leapEvening firstOfMarch (by decide) (by decide)
  exact ⟨s, t, hs, ht, hle.mpr (by decide), d, hd, hinstant.trans (by decide)⟩

end AgentHub
