/-
# Strict JSON

`strict_json` reads a text with the hooks it gives to `json.loads`, and then walks over
the value with a worklist.  The hooks see what the text spells out: they refuse `NaN` and
the infinities, integers of more than 256 characters and repeated members.  The walk
refuses what the value may still have: too many levels, infinite numbers and unpaired
surrogates.

The reader is `Text.parse`.  It takes a text apart before the first hook is called, so a
text that is malformed and has a value that a hook refuses is malformed here.  How bytes
are decoded and what a float is are the parameter `Loader`.
-/

import MorpheusGateway.Text.Printer
import Mathlib.Algebra.Order.BigOperators.Group.List

namespace MorpheusGateway
namespace Text

/-- A character, if the code point is one. -/
def toChar (c : ℕ) : Option Char := if h : c.isValidChar then some (Char.ofNatAux c h) else none

/-- `text.encode()`, `None` where it raises. -/
def utf8 (t : Text) : Option (List UInt8) :=
  (t.mapM toChar).map fun cs => cs.flatMap String.utf8EncodeChar

/-- How `json.loads` decodes bytes and reads a float: the text Python prints for it, and its
value.  UTF-8 without a byte order mark and without a NUL is decoded as UTF-8; the text of a
finite float is a number, and is read as that float. -/
structure Loader where
  decode : List UInt8 → Option Text
  toFloat : Text → Text × FloatValue
  decode_utf8 : ∀ t bs, utf8 t = some bs → 0 ∉ t → t.head? ≠ some 0xfeff → decode bs = some t
  toFloat_repr : ∀ literal, IsFloat literal → ∀ text q, toFloat literal = (text, .finite q) →
    IsFloat text ∧ toFloat text = (text, .finite q)

/-- Why a text is refused. -/
inductive Refusal : Type where
  /-- No JSON text. -/
  | malformed
  /-- `Non-finite JSON number` -/
  | nonFinite
  /-- `JSON integer exceeds supported precision` -/
  | precision
  /-- `Duplicate JSON member` -/
  | duplicate
  /-- `JSON nesting exceeds 64 levels` -/
  | nesting
  /-- An unpaired surrogate. -/
  | surrogate
  deriving DecidableEq

/-! ### The hooks -/

/-- The hook `integer`. -/
def integer (literal : Text) : Except Refusal ℤ :=
  if 256 < literal.length then .error .precision else .ok (intValue literal)

/-- The loop of the hook `pairs`. -/
def pairs : List (Text × Value) → List (Text × Value) → Except Refusal Value
  | result, [] => .ok (.obj result)
  | result, (k, x) :: items =>
    if result.any fun m => m.1 = k then .error .duplicate else pairs (result ++ [(k, x)]) items

variable (L : Loader)

mutual
/-- The value of what a text spells out, with the hooks of `strict_json`. -/
def build : Raw → Except Refusal Value
  | .null => .ok .null
  | .bool b => .ok (.bool b)
  | .int literal => (integer literal).map .int
  | .float literal => .ok (.float (L.toFloat literal).1 (L.toFloat literal).2)
  | .constant => .error .nonFinite
  | .str s => .ok (.str s)
  | .arr xs => (buildItems xs).map .arr
  | .obj ms => do pairs [] (← buildMembers ms)

def buildItems : List Raw → Except Refusal (List Value)
  | [] => .ok []
  | x :: xs => do return (← build x) :: (← buildItems xs)

def buildMembers : List (Text × Raw) → Except Refusal (List (Text × Value))
  | [] => .ok []
  | (k, x) :: ms => do return (k, ← build x) :: (← buildMembers ms)
end

/-! ### The walk -/

namespace Value

/-- What is one level below: the items of an array, the names and values of an object. -/
def children : Value → List Value
  | .arr xs => xs
  | .obj ms => ms.flatMap fun m => [.str m.1, m.2]
  | _ => []

mutual
/-- The number of values in a value. -/
def weight : Value → ℕ
  | .arr xs => 1 + weightItems xs
  | .obj ms => 1 + weightMembers ms
  | _ => 1

def weightItems : List Value → ℕ
  | [] => 0
  | x :: xs => weight x + weightItems xs

def weightMembers : List (Text × Value) → ℕ
  | [] => 0
  | (_, x) :: ms => 1 + weight x + weightMembers ms
end

/-- The check of a value by itself. -/
def plain : Value → Except Refusal Unit
  | .float _ v => match v with
    | .finite _ => .ok ()
    | _ => .error .nonFinite
  | .str s => if (utf8 s).isSome then .ok () else .error .surrogate
  | _ => .ok ()

/-- The children of a value weigh less than it. -/
theorem weight_children : ∀ x : Value, (x.children.map weight).sum < x.weight
  | .null | .bool _ | .int _ | .float .. | .str _ => by simp [children, weight]
  | .arr xs => by
    have : ∀ xs : List Value, (xs.map weight).sum = weightItems xs := by
      intro xs
      induction xs with
      | nil => rfl
      | cons x xs ih => simp [weightItems, ih]
    simp [children, weight, this]
  | .obj ms => by
    have : ∀ ms : List (Text × Value),
        ((ms.flatMap fun m => [Value.str m.1, m.2]).map weight).sum = weightMembers ms := by
      intro ms
      induction ms with
      | nil => rfl
      | cons m ms ih =>
        rw [List.flatMap_cons, List.map_append, List.sum_append, ih]
        simp [weightMembers, weight]
    rw [children, this, weight]
    omega

end Value

/-- The loop of `valid_json_tree`; the last entry of `pending` comes first here. -/
def walk : List (Value × ℕ) → Except Refusal Unit
  | [] => .ok ()
  | (item, depth) :: pending => do
    if 64 < depth then throw .nesting
    item.plain
    walk ((item.children.map fun x => (x, depth + 1)).reverse ++ pending)
  termination_by pending => (pending.map fun p => p.1.weight).sum
  decreasing_by
    have := item.weight_children
    simp [List.sum_reverse, Function.comp_def]
    omega

/-- `valid_json_tree`. -/
def validJsonTree (x : Value) : Except Refusal Value := do
  walk [(x, 0)]
  return x

/-- `json.loads` without the hooks: what the bytes spell out. -/
def spell (bs : List UInt8) : Option Raw := (L.decode bs).bind parse

/-- `strict_json`. -/
def strictJson (bs : List UInt8) : Except Refusal Value :=
  match spell L bs with
  | none => .error .malformed
  | some r => do validJsonTree (← build L r)

end Text
end MorpheusGateway
