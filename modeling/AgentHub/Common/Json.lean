import Mathlib.Data.List.DropRight

namespace AgentHub

/-!
# JSON values and Python strings

The values `json.loads` returns and `json.dumps` writes, the size caps are measured in, and
the string helpers of Python the hub leans on.

* `Json` — a value; a number is kept as the literal `json.dumps` writes for it;
* `Json.sizeBytes` — `_json_size_bytes`, the compact UTF-8 size under `ensure_ascii=False`;
* `strip` — `str.strip()`, over the characters for which `str.isspace()` holds;
* `isLineBoundary` — the characters at which `str.splitlines()` ends a line.
-/

/-- A JSON value.  The fields of an object stand in the order of the Python dict. -/
inductive Json where
  | null
  | bool (b : Bool)
  | num (literal : String)
  | str (s : String)
  | arr (items : List Json)
  | obj (fields : List (String × Json))
deriving Inhabited

namespace Json

mutual

/-- Equality of JSON values is decidable. -/
def decEq : (a b : Json) → Decidable (a = b)
  | .null, .null => isTrue rfl
  | .bool a, .bool b => decidable_of_iff (a = b) (by simp)
  | .num a, .num b => decidable_of_iff (a = b) (by simp)
  | .str a, .str b => decidable_of_iff (a = b) (by simp)
  | .arr a, .arr b =>
    match decEqItems a b with
    | isTrue h => isTrue (by rw [h])
    | isFalse h => isFalse (by simpa using h)
  | .obj a, .obj b =>
    match decEqFields a b with
    | isTrue h => isTrue (by rw [h])
    | isFalse h => isFalse (by simpa using h)
  | .null, .bool _ | .null, .num _ | .null, .str _ | .null, .arr _ | .null, .obj _
  | .bool _, .null | .bool _, .num _ | .bool _, .str _ | .bool _, .arr _ | .bool _, .obj _
  | .num _, .null | .num _, .bool _ | .num _, .str _ | .num _, .arr _ | .num _, .obj _
  | .str _, .null | .str _, .bool _ | .str _, .num _ | .str _, .arr _ | .str _, .obj _
  | .arr _, .null | .arr _, .bool _ | .arr _, .num _ | .arr _, .str _ | .arr _, .obj _
  | .obj _, .null | .obj _, .bool _ | .obj _, .num _ | .obj _, .str _ | .obj _, .arr _ =>
    isFalse (by simp)

/-- Equality of arrays, item by item. -/
def decEqItems : (a b : List Json) → Decidable (a = b)
  | [], [] => isTrue rfl
  | [], _ :: _ | _ :: _, [] => isFalse (by simp)
  | a :: as, b :: bs =>
    match decEq a b, decEqItems as bs with
    | isTrue h, isTrue h' => isTrue (by rw [h, h'])
    | isFalse h, _ => isFalse (by simp [h])
    | _, isFalse h => isFalse (by simp [h])

/-- Equality of objects, field by field. -/
def decEqFields : (a b : List (String × Json)) → Decidable (a = b)
  | [], [] => isTrue rfl
  | [], _ :: _ | _ :: _, [] => isFalse (by simp)
  | (k, a) :: as, (l, b) :: bs =>
    if hk : k = l then
      match decEq a b, decEqFields as bs with
      | isTrue h, isTrue h' => isTrue (by rw [hk, h, h'])
      | isFalse h, _ => isFalse (by simp [h])
      | _, isFalse h => isFalse (by simp [h])
    else isFalse (by simp [hk])

end

instance : DecidableEq Json := decEq

/-- `d.get(key)` on an object, and `none` on any other value. -/
def get? (key : String) : Json → Option Json
  | .obj fields => fields.lookup key
  | _ => none

/-- The value as a Python string, if it is one. -/
def asStr? : Json → Option String
  | .str s => some s
  | _ => none

/-! ### The size of the compact encoding -/

/-- Bytes one character takes inside a JSON string under `ensure_ascii=False`. -/
def charSize (c : Char) : Nat :=
  if c = '"' ∨ c = '\\' ∨ c = '\n' ∨ c = '\r' ∨ c = '\t' ∨ c.toNat = 8 ∨ c.toNat = 12 then 2
  else if c.toNat < 0x20 then 6
  else c.utf8Size

/-- Bytes of a JSON string, its quotes included. -/
def strSize (s : String) : Nat := s.toList.foldl (fun n c => n + charSize c) 2

mutual

/-- `_json_size_bytes`: bytes of the compact UTF-8 encoding. -/
def sizeBytes : Json → Nat
  | .null => 4
  | .bool b => if b then 4 else 5
  | .num literal => literal.utf8ByteSize
  | .str s => strSize s
  | .arr items => 2 + itemsSize items + (items.length - 1)
  | .obj fields => 2 + fieldsSize fields + (fields.length - 1)

/-- Bytes of the items of an array, without the commas. -/
def itemsSize : List Json → Nat
  | [] => 0
  | a :: as => a.sizeBytes + itemsSize as

/-- Bytes of the fields of an object, without the commas. -/
def fieldsSize : List (String × Json) → Nat
  | [] => 0
  | (k, a) :: as => strSize k + 1 + a.sizeBytes + fieldsSize as

end

end Json

/-! ### Python strings -/

/-- A Python `bytes` value. -/
abbrev Bytes := List UInt8

/-- `str.encode()`. -/
def encodeUtf8 (text : String) : Bytes := text.toUTF8.data.toList

/-- `str.isspace()` of one character. -/
def isSpace (c : Char) : Bool :=
  let n := c.toNat
  (9 ≤ n && n ≤ 13) || (28 ≤ n && n ≤ 32) || n == 0x85 || n == 0xa0 || n == 0x1680 ||
    (0x2000 ≤ n && n ≤ 0x200a) || n == 0x2028 || n == 0x2029 || n == 0x202f || n == 0x205f ||
    n == 0x3000

/-- A character at which `str.splitlines()` ends a line. -/
def isLineBoundary (c : Char) : Bool :=
  let n := c.toNat
  (10 ≤ n && n ≤ 13) || (28 ≤ n && n ≤ 30) || n == 0x85 || n == 0x2028 || n == 0x2029

/-- `str.strip()`. -/
def strip (s : String) : String :=
  String.ofList ((s.toList.dropWhile isSpace).rdropWhile isSpace)

/-- `not s or not s.strip()`: the string is empty or all white space. -/
def isBlank (s : String) : Bool := s.toList.all isSpace

/-- `[0-9a-fA-F]`. -/
def isHexDigit (c : Char) : Bool :=
  ('0' ≤ c && c ≤ '9') || ('a' ≤ c && c ≤ 'f') || ('A' ≤ c && c ≤ 'F')

/-- `SHA_HEX_40_RE`: forty hex digits. -/
def isSha40 (s : String) : Bool := s.toList.length == 40 && s.toList.all isHexDigit

example : (Json.obj [("kind", .str "text"), ("n", .arr [.null, .bool true])]).sizeBytes = 31 := by
  decide

end AgentHub
