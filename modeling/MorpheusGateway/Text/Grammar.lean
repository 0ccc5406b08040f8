/-
# JSON texts

The grammar of RFC 8259 as a relation between a text and what it spells out: numbers as
their literals, strings as their characters, and objects as lists of members, repeated
ones included.  Nothing is converted here.

A text is a list of code points.  Python decodes bytes into those, and among them may be
surrogates that are no characters.
-/

import Mathlib.Data.List.Basic

namespace MorpheusGateway

/-- A text as Python has it. -/
abbrev Text := List ℕ

/-- The text of a literal. -/
def chars (s : String) : Text := s.toList.map Char.toNat

namespace Text

/-- What a JSON text spells out.  `constant` is `NaN` or an infinity, which Python reads
besides. -/
inductive Raw : Type where
  | null
  | bool (b : Bool)
  | int (literal : Text)
  | float (literal : Text)
  | constant
  | str (s : Text)
  | arr (items : List Raw)
  | obj (members : List (Text × Raw))

/-- Space, tab, line feed and carriage return. -/
def isBlank (c : ℕ) : Bool := c = 32 || c = 9 || c = 10 || c = 13

/-- A text of blanks. -/
def Blank (w : Text) : Prop := ∀ c ∈ w, isBlank c = true

/-- The empty text is blank. -/
theorem blank_nil : Blank [] := by simp [Blank]

/-! ### Strings -/

/-- A character of a string: written as it is or by a short escape, or by its code. -/
inductive Piece : Type where
  | plain (c : ℕ)
  | coded (c : ℕ)
  deriving DecidableEq

/-- The first and the second half of a surrogate pair. -/
def isHigh (c : ℕ) : Bool := 0xd800 ≤ c && c ≤ 0xdbff

def isLow (c : ℕ) : Bool := 0xdc00 ≤ c && c ≤ 0xdfff

/-- The string the pieces spell: two codes that are a surrogate pair are one character. -/
def join : List Piece → Text
  | .coded hi :: .coded lo :: ps =>
    if isHigh hi && isLow lo then (0x10000 + (hi - 0xd800) * 0x400 + (lo - 0xdc00)) :: join ps
    else hi :: join (.coded lo :: ps)
  | .coded c :: ps => c :: join ps
  | .plain c :: ps => c :: join ps
  | [] => []

/-- The character of a short escape. -/
def shortEscape (e : ℕ) : Option ℕ :=
  [(34, 34), (92, 92), (47, 47), (98, 8), (102, 12), (110, 10), (114, 13), (116, 9)].lookup e

/-- The value of a hexadecimal digit. -/
def hexDigit (c : ℕ) : Option ℕ :=
  if 48 ≤ c ∧ c ≤ 57 then some (c - 48)
  else if 97 ≤ c ∧ c ≤ 102 then some (c - 87)
  else if 65 ≤ c ∧ c ≤ 70 then some (c - 55)
  else none

/-- The value of four of them. -/
def hex4 (a b c d : ℕ) : Option ℕ := do
  return (((← hexDigit a) * 16 + (← hexDigit b)) * 16 + (← hexDigit c)) * 16 + (← hexDigit d)

/-- What stands between the quotes. -/
inductive Chars : Text → List Piece → Prop
  | nil : Chars [] []
  | plain {c t ps} (blank : 32 ≤ c) (quote : c ≠ 34) (escape : c ≠ 92) (rest : Chars t ps) :
      Chars (c :: t) (.plain c :: ps)
  | short {e c t ps} (h : shortEscape e = some c) (rest : Chars t ps) :
      Chars (92 :: e :: t) (.plain c :: ps)
  | coded {a b c d n t ps} (h : hex4 a b c d = some n) (rest : Chars t ps) :
      Chars (92 :: 117 :: a :: b :: c :: d :: t) (.coded n :: ps)

/-! ### Numbers -/

def isDigit (c : ℕ) : Bool := 48 ≤ c && c ≤ 57

/-- A text of digits. -/
def Digits (ds : Text) : Prop := ds ≠ [] ∧ ∀ c ∈ ds, isDigit c = true

/-- `0`, or digits that do not begin with it. -/
def IsInt (i : Text) : Prop := i = [48] ∨ Digits i ∧ i.head? ≠ some 48

/-- `-` or nothing. -/
def IsSign (s : Text) : Prop := s = [] ∨ s = [45]

/-- A fraction or nothing. -/
def IsFrac (f : Text) : Prop := f = [] ∨ ∃ ds, Digits ds ∧ f = 46 :: ds

/-- An exponent or nothing. -/
def IsExp (x : Text) : Prop :=
  x = [] ∨ ∃ e s ds, (e = 101 ∨ e = 69) ∧ (s = [] ∨ s = [43] ∨ s = [45]) ∧ Digits ds ∧
    x = e :: (s ++ ds)

/-- The parts of a number. -/
structure Number where
  sign : Text
  int : Text
  frac : Text
  exp : Text

namespace Number

/-- They are what the grammar wants. -/
structure Valid (n : Number) : Prop where
  sign : IsSign n.sign
  int : IsInt n.int
  frac : IsFrac n.frac
  exp : IsExp n.exp

/-- The literal. -/
def text (n : Number) : Text := n.sign ++ (n.int ++ (n.frac ++ n.exp))

/-- An integer has neither a fraction nor an exponent. -/
def raw (n : Number) : Raw := if n.frac = [] ∧ n.exp = [] then .int n.text else .float n.text

end Number

/-- The text of a float. -/
def IsFloat (t : Text) : Prop := ∃ n : Number, n.Valid ∧ n.text = t ∧ n.raw = .float t

/-! ### Values -/

mutual
/-- The text of a value. -/
inductive IsValue : Text → Raw → Prop
  | isNull : IsValue (chars "null") .null
  | isTrue : IsValue (chars "true") (.bool true)
  | isFalse : IsValue (chars "false") (.bool false)
  | number {n} (valid : Number.Valid n) : IsValue n.text n.raw
  | str {t ps} (body : Chars t ps) : IsValue (34 :: (t ++ [34])) (.str (join ps))
  | emptyArr {w} (blank : Blank w) : IsValue (91 :: (w ++ [93])) (.arr [])
  | arr {t xs} (items : IsItems t xs) : IsValue (91 :: (t ++ [93])) (.arr xs)
  | emptyObj {w} (blank : Blank w) : IsValue (123 :: (w ++ [125])) (.obj [])
  | obj {t ms} (members : IsMembers t ms) : IsValue (123 :: (t ++ [125])) (.obj ms)

/-- Values with commas between them. -/
inductive IsItems : Text → List Raw → Prop
  | one {w t v x} (before : Blank w) (value : IsValue t x) (after : Blank v) :
      IsItems (w ++ (t ++ v)) [x]
  | cons {w t v u x xs} (before : Blank w) (value : IsValue t x) (after : Blank v)
      (rest : IsItems u xs) : IsItems (w ++ (t ++ (v ++ 44 :: u))) (x :: xs)

/-- Members with commas between them. -/
inductive IsMembers : Text → List (Text × Raw) → Prop
  | one {t k x} (member : IsMember t k x) : IsMembers t [(k, x)]
  | cons {t u k x ms} (member : IsMember t k x) (rest : IsMembers u ms) :
      IsMembers (t ++ 44 :: u) ((k, x) :: ms)

/-- A member: its name and its value. -/
inductive IsMember : Text → Text → Raw → Prop
  | mk {w k ps v u t z x} (before : Blank w) (name : Chars k ps) (colon : Blank v) (value : Blank u)
      (text : IsValue t x) (after : Blank z) :
      IsMember (w ++ 34 :: (k ++ 34 :: (v ++ 58 :: (u ++ (t ++ z))))) (join ps) x
end

/-- A JSON text: a value with blanks around it. -/
def IsText (t : Text) (x : Raw) : Prop :=
  ∃ w u v, Blank w ∧ IsValue u x ∧ Blank v ∧ t = w ++ (u ++ v)

/-! ### The characters of a text -/

/-- No character before the tab. -/
def Low (t : Text) : Prop := ∀ c ∈ t, 9 ≤ c

/-- It has no character below a tab. -/
@[simp] theorem low_nil : Low [] := nofun

/-- A text has none if its first character is none and the rest has none. -/
@[simp] theorem low_cons {c : ℕ} {t : Text} : Low (c :: t) ↔ 9 ≤ c ∧ Low t := List.forall_mem_cons

/-- Two texts have none if both together have none. -/
@[simp] theorem low_append {t u : Text} : Low (t ++ u) ↔ Low t ∧ Low u := List.forall_mem_append

/-- ASCII from the tab on. -/
def Plain (t : Text) : Prop := ∀ c ∈ t, 9 ≤ c ∧ c < 128

/-- A plain text has none. -/
theorem Plain.low {t : Text} (h : Plain t) : Low t := fun c hc => (h c hc).1

/-- The empty text is plain. -/
@[simp] theorem plain_nil : Plain [] := nofun

/-- A text is plain if its first character and the rest are. -/
@[simp] theorem plain_cons {c : ℕ} {t : Text} : Plain (c :: t) ↔ (9 ≤ c ∧ c < 128) ∧ Plain t :=
  List.forall_mem_cons

/-- Two texts are plain if both together are. -/
@[simp] theorem plain_append {t u : Text} : Plain (t ++ u) ↔ Plain t ∧ Plain u :=
  List.forall_mem_append

/-- Blanks are plain. -/
theorem Blank.plain {w : Text} (h : Blank w) : Plain w := fun c hc => by
  have := h c hc
  simp only [isBlank, Bool.or_eq_true, decide_eq_true_eq] at this
  omega

/-- A hexadecimal digit is no character below a tab. -/
theorem hexDigit_low {c n : ℕ} (h : hexDigit c = some n) : 9 ≤ c := by
  unfold hexDigit at h
  split_ifs at h <;> omega

/-- A string has no character below a tab. -/
theorem Chars.low {t : Text} {ps : List Piece} (h : Chars t ps) : Low t := by
  induction h with
  | nil => exact low_nil
  | plain blank _ _ _ ih => exact low_cons.2 ⟨by omega, ih⟩
  | @short e c t ps hs _ ih =>
    obtain ⟨l₁, l₂, hl, -⟩ := List.lookup_eq_some_iff.1 hs
    have hm : (e, c) ∈ [(34, 34), (92, 92), (47, 47), (98, 8), (102, 12), (110, 10), (114, 13), (116, 9)] := by
      rw [hl]
      simp
    simp only [List.mem_cons, Prod.mk.injEq, List.not_mem_nil, or_false] at hm
    exact low_cons.2 ⟨by decide, low_cons.2 ⟨by omega, ih⟩⟩
  | coded hn _ ih =>
    obtain ⟨a, ha, hn⟩ := Option.bind_eq_some_iff.1 hn
    obtain ⟨b, hb, hn⟩ := Option.bind_eq_some_iff.1 hn
    obtain ⟨c, hc, hn⟩ := Option.bind_eq_some_iff.1 hn
    obtain ⟨d, hd, -⟩ := Option.bind_eq_some_iff.1 hn
    simp [ih, hexDigit_low ha, hexDigit_low hb, hexDigit_low hc, hexDigit_low hd]

/-- What digits, signs, the point and the letters of an exponent have in common, a number has. -/
theorem Number.Valid.forall_mem {P : ℕ → Prop} {n : Number} (h : n.Valid)
    (digit : ∀ c, isDigit c = true → P c) (mark : ∀ c ∈ [43, 45, 46, 69, 101], P c) :
    ∀ c ∈ n.text, P c := by
  obtain ⟨hs, hi, hf, hx⟩ := h
  simp only [List.mem_cons, List.not_mem_nil, or_false, forall_eq_or_imp, forall_eq] at mark
  obtain ⟨h43, h45, h46, h69, h101⟩ := mark
  have digits : ∀ {ds}, Digits ds → ∀ c ∈ ds, P c := fun hd c hc => digit c (hd.2 c hc)
  have sign : ∀ c ∈ n.sign, P c := by
    rcases hs with h | h <;> rw [h] <;> simp [h45]
  have int : ∀ c ∈ n.int, P c := by
    rcases hi with h | h
    · rw [h]
      simp [digit 48 rfl]
    · exact digits h.1
  have frac : ∀ c ∈ n.frac, P c := by
    rcases hf with h | ⟨ds, hd, h⟩ <;> rw [h]
    · nofun
    · exact List.forall_mem_cons.2 ⟨h46, digits hd⟩
  have exp : ∀ c ∈ n.exp, P c := by
    rcases hx with h | ⟨e, s, ds, he, hs, hd, h⟩ <;> rw [h]
    · nofun
    · have letter : P e := by
        rcases he with rfl | rfl
        · exact h101
        · exact h69
      have mark : ∀ c ∈ s, P c := by
        rcases hs with rfl | rfl | rfl <;> simp [h43, h45]
      exact List.forall_mem_cons.2 ⟨letter, List.forall_mem_append.2 ⟨mark, digits hd⟩⟩
  simp only [Number.text, List.forall_mem_append]
  exact ⟨sign, int, frac, exp⟩

/-- A number is plain. -/
theorem Number.Valid.plain {n : Number} (h : n.Valid) : Plain n.text :=
  h.forall_mem (fun c hc => by
    simp only [isDigit, Bool.and_eq_true, decide_eq_true_eq] at hc
    omega) (by decide)

mutual

/-- A value has no character below a tab. -/
theorem IsValue.low : ∀ {t : Text} {x : Raw}, IsValue t x → Low t
  | _, _, .isNull => by unfold Low; decide
  | _, _, .isTrue => by unfold Low; decide
  | _, _, .isFalse => by unfold Low; decide
  | _, _, .number valid => valid.plain.low
  | _, _, .str body => by simp [body.low]
  | _, _, .emptyArr hw => by simp [hw.plain.low]
  | _, _, .arr items => by simp [items.low]
  | _, _, .emptyObj hw => by simp [hw.plain.low]
  | _, _, .obj members => by simp [members.low]

/-- The items of a list have none. -/
theorem IsItems.low : ∀ {t : Text} {xs : List Raw}, IsItems t xs → Low t
  | _, _, .one hw hx hv => by simp [hw.plain.low, hx.low, hv.plain.low]
  | _, _, .cons hw hx hv rest => by simp [hw.plain.low, hx.low, hv.plain.low, rest.low]

/-- The members of an object have none. -/
theorem IsMembers.low : ∀ {t : Text} {ms : List (Text × Raw)}, IsMembers t ms → Low t
  | _, _, .one hm => hm.low
  | _, _, .cons hm rest => by simp [hm.low, rest.low]

/-- A member has none. -/
theorem IsMember.low : ∀ {t k : Text} {x : Raw}, IsMember t k x → Low t
  | _, _, _, .mk hw hk hv hu hx hz => by simp [hw.plain.low, hk.low, hv.plain.low, hu.plain.low, hx.low, hz.plain.low]
end

end Text
end MorpheusGateway
