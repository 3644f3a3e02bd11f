import AgentHub.Common.Json

namespace AgentHub

/-!
# `json.dumps`

The text the standard library writes for a value: separators `", "` and `": "`, and
`ensure_ascii`, so that every character outside printable ASCII is escaped.

* `Json.dumps` — the encoder; `escapeChar` — one character of a string;
* `printable_dumps` — what it writes is printable ASCII if the numbers are;
* `dumps_obj` — what it writes for an object stands between braces.
-/

/-- Printable ASCII, `[ -~]`. -/
def isPrintable (c : Char) : Bool := 0x20 ≤ c.toNat && c.toNat ≤ 0x7e

/-! ### Strings -/

/-- `'\\u{0:04x}'` of a number below `0x10000`. -/
def unicodeEscape (n : ℕ) : List Char :=
  ['\\', 'u', Nat.digitChar (n / 4096 % 16), Nat.digitChar (n / 256 % 16),
    Nat.digitChar (n / 16 % 16), Nat.digitChar (n % 16)]

/-- `ESCAPE_DCT`, the characters with an escape of their own. -/
def escapeTable : List (Char × List Char) :=
  [('\\', ['\\', '\\']), ('"', ['\\', '"']), (Char.ofNat 8, ['\\', 'b']),
    (Char.ofNat 12, ['\\', 'f']), ('\n', ['\\', 'n']), ('\r', ['\\', 'r']), ('\t', ['\\', 't'])]

/-- The escape of a character by its code.  Beyond the basic plane it is a surrogate pair. -/
def escapeCode (n : ℕ) : List Char :=
  if n < 0x10000 then unicodeEscape n
  else
    let n := n - 0x10000
    unicodeEscape (0xd800 ||| ((n >>> 10) &&& 0x3ff)) ++ unicodeEscape (0xdc00 ||| (n &&& 0x3ff))

/-- `py_encode_basestring_ascii` of one character. -/
def escapeChar (c : Char) : List Char :=
  if isPrintable c ∧ c ≠ '\\' ∧ c ≠ '"' then [c]
  else (escapeTable.lookup c).getD (escapeCode c.toNat)

/-- A string between its quotes. -/
def quoteString (s : String) : List Char := '"' :: (s.toList.flatMap escapeChar ++ ['"'])

/-- All characters of a text are printable ASCII. -/
def Printable (text : List Char) : Prop := ∀ c ∈ text, isPrintable c = true

instance (text : List Char) : Decidable (Printable text) :=
  decidable_of_iff (text.all isPrintable = true) List.all_eq_true

/-- Printable texts joined are printable. -/
theorem Printable.append {s t : List Char} (hs : Printable s) (ht : Printable t) :
    Printable (s ++ t) := by
  intro c hc
  rcases List.mem_append.mp hc with hc | hc
  · exact hs c hc
  · exact ht c hc

/-- An escape is printable. -/
theorem printable_unicodeEscape (n : ℕ) : Printable (unicodeEscape n) := by
  have hdigit : ∀ d < 16, isPrintable (Nat.digitChar d) = true := by decide
  intro c hc
  simp only [unicodeEscape, List.mem_cons, List.not_mem_nil, or_false] at hc
  rcases hc with rfl | rfl | rfl | rfl | rfl | rfl
  · decide
  · decide
  all_goals exact hdigit _ (Nat.mod_lt _ (by omega))

/-- The escape of a code point is printable. -/
theorem printable_escapeCode (n : ℕ) : Printable (escapeCode n) := by
  rw [escapeCode]
  split
  · exact printable_unicodeEscape n
  · exact (printable_unicodeEscape _).append (printable_unicodeEscape _)

/-- Every character is escaped to printable ASCII. -/
theorem printable_escapeChar (c : Char) : Printable (escapeChar c) := by
  have htable : ∀ entry ∈ escapeTable, Printable entry.2 := by decide +kernel
  rw [escapeChar]
  split
  · next h =>
    intro d hd
    rw [List.mem_singleton.mp hd]
    exact h.1
  · cases hentry : escapeTable.lookup c with
    | none => exact printable_escapeCode c.toNat
    | some text =>
      obtain ⟨before, after, htab, -⟩ := List.lookup_eq_some_iff.mp hentry
      exact htable (c, text) (by simp [htab])

/-- A quoted string is printable, whatever it holds. -/
theorem printable_quoteString (s : String) : Printable (quoteString s) := by
  intro d hd
  simp only [quoteString, List.mem_cons, List.mem_append, List.mem_flatMap, List.not_mem_nil,
    or_false] at hd
  rcases hd with rfl | ⟨c, -, hd⟩ | rfl
  · decide
  · exact printable_escapeChar c d hd
  · decide

/-! ### Values -/

namespace Json

mutual

/-- The characters of `json.dumps`. -/
def dumpsChars : Json → List Char
  | .null => "null".toList
  | .bool b => if b then "true".toList else "false".toList
  | .num literal => literal.toList
  | .str s => quoteString s
  | .arr items => '[' :: ([',', ' '].intercalate (dumpsItems items) ++ [']'])
  | .obj fields => '\x7b' :: ([',', ' '].intercalate (dumpsFields fields) ++ ['\x7d'])

/-- The items of an array, each dumped. -/
def dumpsItems : List Json → List (List Char)
  | [] => []
  | a :: as => a.dumpsChars :: dumpsItems as

/-- The fields of an object, each dumped. -/
def dumpsFields : List (String × Json) → List (List Char)
  | [] => []
  | (k, a) :: as => (quoteString k ++ ':' :: ' ' :: a.dumpsChars) :: dumpsFields as

end

/-- `json.dumps(value)`. -/
def dumps (v : Json) : String := String.ofList v.dumpsChars

mutual

/-- The literals of the numbers in a value. -/
def numbers : Json → List String
  | .num literal => [literal]
  | .arr items => numbersItems items
  | .obj fields => numbersFields fields
  | _ => []

/-- The number literals in the items of an array. -/
def numbersItems : List Json → List String
  | [] => []
  | a :: as => a.numbers ++ numbersItems as

/-- The number literals in the fields of an object. -/
def numbersFields : List (String × Json) → List String
  | [] => []
  | (_, a) :: as => a.numbers ++ numbersFields as

end

/-- A list of pieces between brackets. -/
theorem printable_between {first last : Char} (hfirst : isPrintable first = true)
    (hlast : isPrintable last = true) {pieces : List (List Char)}
    (h : ∀ piece ∈ pieces, Printable piece) :
    Printable (first :: ([',', ' '].intercalate pieces ++ [last])) := by
  have hpieces : Printable ([',', ' '].intercalate pieces) := by
    induction pieces with
    | nil => decide
    | cons piece pieces ih =>
      have hpiece := h piece List.mem_cons_self
      have htail := ih fun p hp => h p (List.mem_cons_of_mem _ hp)
      cases pieces with
      | nil => simpa using hpiece
      | cons next pieces =>
        rw [List.intercalate_cons_cons]
        exact (hpiece.append (by decide)).append htail
  intro c hc
  rcases List.mem_cons.mp hc with rfl | hc
  · exact hfirst
  · rcases List.mem_append.mp hc with hc | hc
    · exact hpieces c hc
    · rw [List.mem_singleton.mp hc]
      exact hlast

mutual

/-- **`ensure_ascii`.** Whatever the strings in a value hold, its text is printable ASCII. -/
theorem printable_dumpsChars : (v : Json) → (∀ literal ∈ v.numbers, Printable literal.toList) →
    Printable v.dumpsChars
  | .null, _ => by decide
  | .bool b, _ => by cases b <;> decide
  | .num literal, h => h literal (by simp [numbers])
  | .str s, _ => printable_quoteString s
  | .arr items, h => printable_between (by decide) (by decide) (printable_dumpsItems items h)
  | .obj fields, h => printable_between (by decide) (by decide) (printable_dumpsFields fields h)

/-- The dumped items are printable. -/
theorem printable_dumpsItems : (items : List Json) →
    (∀ literal ∈ numbersItems items, Printable literal.toList) →
    ∀ piece ∈ dumpsItems items, Printable piece
  | [], _ => by simp [dumpsItems]
  | a :: as, h => by
    intro piece hpiece
    rcases List.mem_cons.mp hpiece with rfl | hpiece
    · exact printable_dumpsChars a fun l hl => h l (by simp [numbersItems, hl])
    · exact printable_dumpsItems as (fun l hl => h l (by simp [numbersItems, hl])) piece hpiece

/-- The dumped fields are printable. -/
theorem printable_dumpsFields : (fields : List (String × Json)) →
    (∀ literal ∈ numbersFields fields, Printable literal.toList) →
    ∀ piece ∈ dumpsFields fields, Printable piece
  | [], _ => by simp [dumpsFields]
  | (k, a) :: as, h => by
    intro piece hpiece
    rcases List.mem_cons.mp hpiece with rfl | hpiece
    · have hvalue := printable_dumpsChars a fun l hl => h l (by simp [numbersFields, hl])
      have hsep : Printable (':' :: ' ' :: a.dumpsChars) :=
        Printable.append (s := [':', ' ']) (by decide) hvalue
      exact (printable_quoteString k).append hsep
    · exact printable_dumpsFields as (fun l hl => h l (by simp [numbersFields, hl])) piece hpiece

end

/-- The text of an object stands between braces. -/
theorem dumpsChars_obj (fields : List (String × Json)) :
    (Json.obj fields).dumpsChars =
      '\x7b' :: ([',', ' '].intercalate (dumpsFields fields) ++ ['\x7d']) := by
  rw [dumpsChars]

example : (Json.obj [("note", .str "a\n\u2028\"")]).dumps =
    "\x7b\"note\": \"a\\n\\u2028\\\"\"\x7d" := by
  decide

end Json

end AgentHub
