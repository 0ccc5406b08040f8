/-
# JSON values as Python sees them

What `json.loads` returns, and the built-in conversions the gateway applies to it:
`int(x)`, `int(x, 16)`, `str(x)`, truth, `str.lower` and `dict.get`.  `int` is the
one that raises; the exception it raises is part of the answer.

Text is handled as Python handles it where it matters: decimal digits of every
script and Unicode blanks are accepted by `int`, and `lower` is exact on every
character whose lower case is ASCII.
-/

import Mathlib.Algebra.Order.Ring.Unbundled.Rat
import Mathlib.Data.List.Infix

namespace MorpheusGateway

/-- The value of a float. -/
inductive FloatValue : Type where
  | finite (q : ℚ)
  | infinite
  | nan
  deriving DecidableEq

/-- A JSON value.  An object is a dictionary in insertion order with distinct
keys; `float` keeps the text Python prints for it. -/
inductive Json : Type where
  | null
  | bool (b : Bool)
  | num (n : ℤ)
  | float (text : String) (v : FloatValue)
  | str (s : String)
  | arr (xs : List Json)
  | obj (fields : List (String × Json))

/-- The exceptions `int` raises. -/
inductive IntError : Type where
  | typeError
  | valueError
  | overflowError
  deriving DecidableEq

namespace Json

/-! ### Equality -/

mutual
/-- Structural equality. -/
def beq : Json → Json → Bool
  | null, null => true
  | bool a, bool b => a == b
  | num a, num b => a == b
  | float a v, float b w => a == b && decide (v = w)
  | str a, str b => a == b
  | arr a, arr b => beqList a b
  | obj a, obj b => beqFields a b
  | _, _ => false

def beqList : List Json → List Json → Bool
  | [], [] => true
  | a :: as, b :: bs => beq a b && beqList as bs
  | _, _ => false

def beqFields : List (String × Json) → List (String × Json) → Bool
  | [], [] => true
  | (k, a) :: as, (l, b) :: bs => k == l && beq a b && beqFields as bs
  | _, _ => false
end

mutual

/-- The comparison is equality. -/
theorem beq_iff : ∀ a b : Json, beq a b = true ↔ a = b
  | null, b => by cases b <;> simp [beq]
  | bool _, b => by cases b <;> simp [beq]
  | num _, b => by cases b <;> simp [beq]
  | float _ _, b => by cases b <;> simp [beq]
  | str _, b => by cases b <;> simp [beq]
  | arr xs, b => by
    cases b with
    | arr ys => simpa [beq] using beqList_iff xs ys
    | _ => simp [beq]
  | obj xs, b => by
    cases b with
    | obj ys => simpa [beq] using beqFields_iff xs ys
    | _ => simp [beq]

/-- So is that of lists. -/
theorem beqList_iff : ∀ a b : List Json, beqList a b = true ↔ a = b
  | [], b => by cases b <;> simp [beqList]
  | x :: xs, b => by
    cases b with
    | nil => simp [beqList]
    | cons y ys => simp [beqList, beq_iff x y, beqList_iff xs ys]

/-- So is that of fields. -/
theorem beqFields_iff : ∀ a b : List (String × Json), beqFields a b = true ↔ a = b
  | [], b => by cases b <;> simp [beqFields]
  | (k, x) :: xs, b => by
    cases b with
    | nil => simp [beqFields]
    | cons y ys =>
      obtain ⟨l, y⟩ := y
      simp [beqFields, beq_iff x y, beqFields_iff xs ys]
end

instance : DecidableEq Json := fun a b => decidable_of_iff _ (beq_iff a b)

end Json

/-! ### Text -/

/-- Where the ten decimal digits of each script start. -/
def digitZeros : List ℕ :=
  [0x30, 0x660, 0x6f0, 0x7c0, 0x966, 0x9e6, 0xa66, 0xae6, 0xb66, 0xbe6, 0xc66, 0xce6, 0xd66,
   0xde6, 0xe50, 0xed0, 0xf20, 0x1040, 0x1090, 0x17e0, 0x1810, 0x1946, 0x19d0, 0x1a80, 0x1a90,
   0x1b50, 0x1bb0, 0x1c40, 0x1c50, 0xa620, 0xa8d0, 0xa900, 0xa9d0, 0xa9f0, 0xaa50, 0xabf0,
   0xff10, 0x104a0, 0x10d30, 0x11066, 0x110f0, 0x11136, 0x111d0, 0x112f0, 0x11450, 0x114d0,
   0x11650, 0x116c0, 0x11730, 0x118e0, 0x11950, 0x11c50, 0x11d50, 0x11da0, 0x11f50, 0x16a60,
   0x16ac0, 0x16b50, 0x1d7ce, 0x1d7d8, 0x1d7e2, 0x1d7ec, 0x1d7f6, 0x1e140, 0x1e2f0, 0x1e4f0,
   0x1e950, 0x1fbf0]

/-- The value of a decimal digit of any script. -/
def decimalDigit (c : Char) : Option ℕ :=
  (digitZeros.find? fun z => z ≤ c.toNat ∧ c.toNat < z + 10).map fun z => c.toNat - z

/-- The value of a digit in base `base`: `a` to `z` stand for 10 to 35. -/
def digitValue (base : ℕ) (c : Char) : Option ℕ :=
  (match decimalDigit c with
    | some d => some d
    | none =>
      if 'a' ≤ c ∧ c ≤ 'z' then some (c.toNat - 'a'.toNat + 10)
      else if 'A' ≤ c ∧ c ≤ 'Z' then some (c.toNat - 'A'.toNat + 10)
      else none).filter fun d => d < base

/-- The blanks `int` strips: 0x1c to 0x1f, blanks to `str.strip`, are none here. -/
def isBlank (c : Char) : Bool :=
  let n := c.toNat
  (9 ≤ n && n ≤ 13) || n = 0x20 || n = 0x85 || n = 0xa0 || n = 0x1680 ||
  (0x2000 ≤ n && n ≤ 0x200a) || n = 0x2028 || n = 0x2029 || n = 0x202f || n = 0x205f || n = 0x3000

/-- The digits of a number, single underscores allowed between them. -/
def readDigits (base : ℕ) : List Char → Option (List ℕ)
  | [] => none
  | [c] => (digitValue base c).map fun d => [d]
  | c :: '_' :: cs => (digitValue base c).bind fun d => (readDigits base cs).map (d :: ·)
  | c :: cs => (digitValue base c).bind fun d => (readDigits base cs).map (d :: ·)

/-- Drop the `0x` that base 16 allows, and one underscore after it. -/
def dropRadix (base : ℕ) : List Char → List Char
  | '0' :: x :: '_' :: cs => if base = 16 ∧ (x = 'x' ∨ x = 'X') then cs else '0' :: x :: '_' :: cs
  | '0' :: x :: cs => if base = 16 ∧ (x = 'x' ∨ x = 'X') then cs else '0' :: x :: cs
  | cs => cs

/-- `int(text, base)`; decimal text of more than 4300 digits is refused. -/
def readInt (base : ℕ) (s : String) : Option ℤ :=
  let cs := ((s.toList.dropWhile isBlank).reverse.dropWhile isBlank).reverse
  let (neg, cs) := match cs with
    | '-' :: cs => (true, cs)
    | '+' :: cs => (false, cs)
    | cs => (false, cs)
  (readDigits base (dropRadix base cs)).bind fun ds =>
    if base = 10 ∧ 4300 < ds.length then none
    else
      let n : ℤ := ds.foldl (fun acc d => acc * base + d) 0
      some (if neg then -n else n)

/-- `str.lower` of one character, exact where the result is ASCII. -/
def lowerChar (c : Char) : Char := if c.toNat = 0x212a then 'k' else c.toLower

/-- `str.lower`. -/
def lower (s : String) : String := String.ofList (s.toList.map lowerChar)

/-- A hexadecimal digit. -/
def isHexDigit (c : Char) : Bool :=
  ('0' ≤ c && c ≤ '9') || ('a' ≤ c && c ≤ 'f') || ('A' ≤ c && c ≤ 'F')

/-- `0x` and exactly `n` hexadecimal digits. -/
def isHex (n : ℕ) (s : String) : Bool :=
  match s.toList with
  | '0' :: 'x' :: cs => cs.length = n && cs.all isHexDigit
  | _ => false

/-- `HASH.fullmatch`. -/
def isHash (s : String) : Bool := isHex 64 s

/-- `ADDRESS.fullmatch`. -/
def isAddress (s : String) : Bool := isHex 40 s

/-- `int(text, 16)` of a text that `isHash` or `isAddress` accepts. -/
def hexValue (s : String) : ℤ := (readInt 16 s).getD 0

/-- `int(text)` of a text of ASCII digits. -/
def decimal (s : String) : ℤ := (readInt 10 s).getD 0

namespace Json

/-! ### Conversions -/

/-- `int(x)`. -/
def toInt : Json → Except IntError ℤ
  | bool b => .ok (if b then 1 else 0)
  | num n => .ok n
  | float _ (.finite q) => .ok (if 0 ≤ q then q.floor else q.ceil)
  | float _ .infinite => .error .overflowError
  | float _ .nan => .error .valueError
  | str s => match readInt 10 s with
    | some n => .ok n
    | none => .error .valueError
  | null | arr _ | obj _ => .error .typeError

/-- `int(x, 16)`. -/
def toIntHex : Json → Except IntError ℤ
  | str s => match readInt 16 s with
    | some n => .ok n
    | none => .error .valueError
  | _ => .error .typeError

/-- How `repr` writes a character inside quotes. -/
def escapeChar (quote c : Char) : String :=
  if c = quote ∨ c.toNat = 92 then String.ofList [Char.ofNat 92, c]
  else if c.toNat = 10 then "\\n" else if c.toNat = 13 then "\\r"
  else if c.toNat = 9 then "\\t" else String.ofList [c]

/-- `repr` of a string. -/
def reprString (s : String) : String :=
  let hasCode (n : ℕ) : Bool := s.toList.any fun c => c.toNat = n
  let quote := Char.ofNat (if hasCode 39 && !hasCode 34 then 34 else 39)
  String.ofList [quote] ++ String.join (s.toList.map (escapeChar quote)) ++ String.ofList [quote]

mutual
/-- `repr(x)`. -/
def repr : Json → String
  | null => "None"
  | bool b => if b then "True" else "False"
  | num n => toString n
  | float text _ => text
  | str s => reprString s
  | arr xs => "[" ++ reprList xs ++ "]"
  | obj fields => "\x7b" ++ reprFields fields ++ "\x7d"

def reprList : List Json → String
  | [] => ""
  | [x] => repr x
  | x :: xs => repr x ++ ", " ++ reprList xs

def reprFields : List (String × Json) → String
  | [] => ""
  | [(k, x)] => reprString k ++ ": " ++ repr x
  | (k, x) :: xs => reprString k ++ ": " ++ repr x ++ ", " ++ reprFields xs
end

/-- `str(x)`. -/
def toStr : Json → String
  | str s => s
  | x => repr x

/-- `bool(x)`. -/
def truth : Json → Bool
  | null => false
  | bool b => b
  | num n => n ≠ 0
  | float _ v => v ≠ .finite 0
  | str s => s ≠ ""
  | arr xs => !xs.isEmpty
  | obj fields => !fields.isEmpty

/-- `x.get(key)` of an object; other values have no members. -/
def get? : Json → String → Option Json
  | obj fields, key => (fields.find? fun p => p.1 = key).map Prod.snd
  | _, _ => none

/-- `x.get(key, default)`. -/
def getD (x : Json) (key : String) (default : Json) : Json := (x.get? key).getD default

/-- `x.get(key)`, which is `None` for an absent key. -/
def get (x : Json) (key : String) : Json := x.getD key null

/-- `isinstance(x, dict)`. -/
def isObject : Json → Bool
  | obj _ => true
  | _ => false

/-- `str(x.get(key, "")).lower()`. -/
def lowerField (x : Json) (key : String) : String := lower (x.getD key (str "")).toStr

end Json
end MorpheusGateway
