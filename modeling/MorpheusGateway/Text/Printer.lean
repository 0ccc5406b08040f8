/-
# Writing JSON texts

`json.dumps` of a value: numbers by their `repr`, strings with their escapes, and the
separators it is given.  What it writes is a JSON text, of what `Value.raw` says, for every
value whose strings are characters and whose floats are written as numbers.
-/

import MorpheusGateway.Text.Parser
import MorpheusGateway.Json
import Mathlib.Data.Nat.Digits.Lemmas
import Mathlib.Tactic.IntervalCases

namespace MorpheusGateway
namespace Text

/-- A value as `json.loads` makes it.  `float` keeps the text Python prints for it. -/
inductive Value : Type where
  | null
  | bool (b : Bool)
  | int (n : ℤ)
  | float (text : Text) (v : FloatValue)
  | str (s : Text)
  | arr (items : List Value)
  | obj (members : List (Text × Value))

/-- `ensure_ascii` and `separators`. -/
structure Style where
  ascii : Bool
  item : Text
  key : Text

/-! ### Writing -/

/-- A hexadecimal digit. -/
def hexChar (d : ℕ) : ℕ := if d < 10 then 48 + d else 87 + d

/-- An escape by code. -/
def code (c : ℕ) : Text :=
  [92, 117, hexChar (c / 4096 % 16), hexChar (c / 256 % 16), hexChar (c / 16 % 16), hexChar (c % 16)]

/-- The surrogate pair of a character. -/
def highHalf (c : ℕ) : ℕ := 0xd800 + (c - 0x10000) / 0x400

def lowHalf (c : ℕ) : ℕ := 0xdc00 + (c - 0x10000) % 0x400

/-- The letter of a short escape. -/
def shortLetter (c : ℕ) : Option ℕ :=
  [(34, 34), (92, 92), (10, 110), (13, 114), (9, 116), (12, 102), (8, 98)].lookup c

/-- A character of a string. -/
def writeChar (ascii : Bool) (c : ℕ) : Text :=
  match shortLetter c with
  | some e => [92, e]
  | none =>
    if c < 32 then code c
    else if ascii = false ∨ c < 127 then [c]
    else if c < 0x10000 then code c
    else code (highHalf c) ++ code (lowHalf c)

/-- A string. -/
def writeStr (ascii : Bool) (s : Text) : Text := 34 :: (s.flatMap (writeChar ascii) ++ [34])

/-- `str(n)` of a natural number. -/
def natText (n : ℕ) : Text := if n = 0 then [48] else ((Nat.digits 10 n).reverse).map (· + 48)

/-- `str(n)`. -/
def intText (n : ℤ) : Text := if n < 0 then 45 :: natText n.natAbs else natText n.natAbs

mutual
/-- `json.dumps(value, allow_nan=False)`, `None` where it raises. -/
def write (st : Style) : Value → Option Text
  | .null => some (chars "null")
  | .bool b => some (chars (if b then "true" else "false"))
  | .int n => some (intText n)
  | .float text (.finite _) => some text
  | .float _ _ => none
  | .str s => some (writeStr st.ascii s)
  | .arr xs => (writeItems st xs).map fun ts => 91 :: (st.item.intercalate ts ++ [93])
  | .obj ms => (writeMembers st ms).map fun ts => 123 :: (st.item.intercalate ts ++ [125])

/-- The items of an array. -/
def writeItems (st : Style) : List Value → Option (List Text)
  | [] => some []
  | x :: xs => do return (← write st x) :: (← writeItems st xs)

/-- The members of an object. -/
def writeMembers (st : Style) : List (Text × Value) → Option (List Text)
  | [] => some []
  | (k, x) :: ms => do
    return (writeStr st.ascii k ++ (st.key ++ (← write st x))) :: (← writeMembers st ms)
end

/-! ### What is written -/

mutual
/-- What the text of a value spells out. -/
def Value.raw : Value → Raw
  | .null => .null
  | .bool b => .bool b
  | .int n => .int (intText n)
  | .float text _ => .float text
  | .str s => .str s
  | .arr xs => .arr (rawItems xs)
  | .obj ms => .obj (rawMembers ms)

def rawItems : List Value → List Raw
  | [] => []
  | x :: xs => x.raw :: rawItems xs

def rawMembers : List (Text × Value) → List (Text × Raw)
  | [] => []
  | (k, x) :: ms => (k, x.raw) :: rawMembers ms
end

/-- A character: a code point that is no surrogate. -/
def IsChar (c : ℕ) : Prop := c < 0xd800 ∨ 0xdfff < c ∧ c < 0x110000

/-- A text of characters. -/
def AllChars (t : Text) : Prop := ∀ c ∈ t, IsChar c

/-- Strings are of characters, and floats are written as numbers. -/
inductive Printable : Value → Prop
  | null : Printable .null
  | bool {b} : Printable (.bool b)
  | int {n} : Printable (.int n)
  | float {text q} (number : IsFloat text) : Printable (.float text (.finite q))
  | str {s} (chars : AllChars s) : Printable (.str s)
  | arr {xs} (items : ∀ x ∈ xs, Printable x) : Printable (.arr xs)
  | obj {ms} (names : ∀ m ∈ ms, AllChars m.1) (values : ∀ k x, (k, x) ∈ ms → Printable x) :
      Printable (.obj ms)

/-! ### Strings -/

/-- A hexadecimal digit that is written is read back. -/
theorem hexDigit_hexChar {d : ℕ} (h : d < 16) : hexDigit (hexChar d) = some d := by
  interval_cases d <;> rfl

/-- Four of them are read as the number below 2¹⁶ that they stand for. -/
theorem hex4_code {c : ℕ} (h : c < 0x10000) :
    hex4 (hexChar (c / 4096 % 16)) (hexChar (c / 256 % 16)) (hexChar (c / 16 % 16))
      (hexChar (c % 16)) = some c := by
  have h4 : ∀ n, n % 16 < 16 := fun n => Nat.mod_lt n (by decide)
  simp only [hex4, hexDigit_hexChar (h4 _)]
  simp
  omega

/-- The pieces a character is written in. -/
def pieces (ascii : Bool) (c : ℕ) : List Piece :=
  if (shortLetter c).isSome then [.plain c]
  else if c < 32 then [.coded c]
  else if ascii = false ∨ c < 127 then [.plain c]
  else if c < 0x10000 then [.coded c]
  else [.coded (highHalf c), .coded (lowHalf c)]

/-- The `\u` escape of a code unit is one piece of a string. -/
theorem isHex4 {c : ℕ} {t : Text} {ps : List Piece} (hc : c < 0x10000) (h : Chars t ps) :
    Chars (code c ++ t) (.coded c :: ps) :=
  .coded (hex4_code hc) h

/-- The characters with a short escape. -/
theorem shortLetter_some {c e : ℕ} (h : shortLetter c = some e) :
    shortEscape e = some c ∧ e < 128 ∧ 32 ≤ e := by
  obtain ⟨l₁, l₂, hl, -⟩ := List.lookup_eq_some_iff.1 h
  have hm : (c, e) ∈ [(34, 34), (92, 92), (10, 110), (13, 114), (9, 116), (12, 102), (8, 98)] := by
    rw [hl]
    simp
  simp only [List.mem_cons, Prod.mk.injEq, List.not_mem_nil, or_false] at hm
  rcases hm with ⟨rfl, rfl⟩ | ⟨rfl, rfl⟩ | ⟨rfl, rfl⟩ | ⟨rfl, rfl⟩ | ⟨rfl, rfl⟩ | ⟨rfl, rfl⟩ | ⟨rfl, rfl⟩ <;>
    exact ⟨rfl, by decide⟩

/-- A character beyond 2¹⁶ is the sum of its two halves, a high and a low surrogate. -/
theorem halves {c : ℕ} (h : 0x10000 ≤ c) (hc : c < 0x110000) :
    isHigh (highHalf c) = true ∧ isLow (lowHalf c) = true ∧ highHalf c < 0x10000 ∧ lowHalf c < 0x10000 ∧
      0x10000 + (highHalf c - 0xd800) * 0x400 + (lowHalf c - 0xdc00) = c := by
  unfold isHigh isLow highHalf lowHalf
  refine ⟨?_, ?_, ?_, ?_, ?_⟩
  · exact Bool.and_eq_true_iff.2 ⟨decide_eq_true (by omega), decide_eq_true (by omega)⟩
  · exact Bool.and_eq_true_iff.2 ⟨decide_eq_true (by omega), decide_eq_true (by omega)⟩
  · omega
  · omega
  · omega

/-- A character is written in its pieces. -/
theorem chars_writeChar (ascii : Bool) {c : ℕ} (hc : IsChar c) {t : Text} {ps : List Piece}
    (h : Chars t ps) : Chars (writeChar ascii c ++ t) (pieces ascii c ++ ps) := by
  unfold writeChar pieces
  cases hs : shortLetter c with
  | some e => exact .short (shortLetter_some hs).1 h
  | none =>
    have hq : c ≠ 34 ∧ c ≠ 92 := by
      constructor <;> rintro rfl <;> exact nomatch hs
    simp only [Option.isSome_none, Bool.false_eq_true, if_false]
    split_ifs with h1 h2 h3
    · exact isHex4 (by omega) h
    · exact .plain (Nat.not_lt.1 h1) hq.1 hq.2 h
    · exact isHex4 h3 h
    · have hlt : c < 0x110000 := by
        rcases hc with hc | hc
        · omega
        · exact hc.2
      obtain ⟨-, -, hh, hl, -⟩ := halves (Nat.not_lt.1 h3) hlt
      rw [List.append_assoc]
      exact isHex4 hh (isHex4 hl h)

/-- And they are joined to it again. -/
theorem join_pieces (ascii : Bool) {c : ℕ} (hc : IsChar c) (ps : List Piece) :
    join (pieces ascii c ++ ps) = c :: join ps := by
  have single (p : Piece) (hp : p = .plain c ∨ p = .coded c) : join (p :: ps) = c :: join ps := by
    rcases hp with rfl | rfl
    · rfl
    · cases ps with
      | nil => rfl
      | cons p ps =>
        cases p with
        | plain d => rfl
        | coded d =>
          have hh : isHigh c = false := by
            simp only [isHigh, Bool.and_eq_false_iff, decide_eq_false_iff_not]
            rcases hc with hc | hc <;> omega
          simp [join, hh]
  unfold pieces
  split_ifs with h0 h1 h2 h3
  · exact single _ (.inl rfl)
  · exact single _ (.inr rfl)
  · exact single _ (.inl rfl)
  · exact single _ (.inr rfl)
  · have hlt : c < 0x110000 := by
      rcases hc with hc | hc
      · omega
      · exact hc.2
    obtain ⟨hh, hl, -, -, he⟩ := halves (Nat.not_lt.1 h3) hlt
    simp [join, hh, hl, he]

/-- A string is written as a text of it. -/
theorem chars_flatMap (ascii : Bool) : ∀ {s : Text}, AllChars s →
    ∃ ps, Chars (s.flatMap (writeChar ascii)) ps ∧ join ps = s
  | [], _ => ⟨[], .nil, rfl⟩
  | c :: s, h => by
    obtain ⟨ps, hp, hj⟩ := chars_flatMap ascii fun d hd => h d (.tail _ hd)
    refine ⟨pieces ascii c ++ ps, ?_, ?_⟩
    · rw [List.flatMap_cons]
      exact chars_writeChar ascii (h c (.head _)) hp
    · rw [join_pieces ascii (h c (.head _)), hj]

/-! ### The characters that are written -/

/-- The empty text has characters only. -/
@[simp] theorem allChars_nil : AllChars [] := nofun

/-- A text has characters only if its first is one and the rest has. -/
@[simp] theorem allChars_cons {c : ℕ} {t : Text} : AllChars (c :: t) ↔ IsChar c ∧ AllChars t :=
  List.forall_mem_cons

/-- Two texts have characters only if both together have. -/
@[simp] theorem allChars_append {t u : Text} : AllChars (t ++ u) ↔ AllChars t ∧ AllChars u :=
  List.forall_mem_append

/-- An ASCII code is a character. -/
theorem isChar_ascii {c : ℕ} (h : c < 128) : IsChar c := .inl (by omega)

/-- A plain text has characters only. -/
theorem Plain.allChars {t : Text} (h : Plain t) : AllChars t := fun c hc => isChar_ascii (h c hc).2

/-- The characters of an escape. -/
theorem mem_code {c d : ℕ} (h : d ∈ code c) : 32 ≤ d ∧ d < 128 := by
  have hx : ∀ n, 32 ≤ hexChar (n % 16) ∧ hexChar (n % 16) < 128 := fun n => by
    unfold hexChar
    split_ifs <;> omega
  simp only [code, List.mem_cons, List.not_mem_nil, or_false] at h
  rcases h with rfl | rfl | rfl | rfl | rfl | rfl
  · decide
  · decide
  all_goals exact hx _

/-- A string is written in characters of its own and of ASCII, and none is a control
character. -/
theorem mem_writeStr {ascii : Bool} {s : Text} {d : ℕ} (h : d ∈ writeStr ascii s) :
    32 ≤ d ∧ (d < 128 ∨ d ∈ s) := by
  have quote : 32 ≤ 34 ∧ (34 < 128 ∨ 34 ∈ s) := ⟨by decide, .inl (by decide)⟩
  have escape : ∀ {c}, d ∈ code c → 32 ≤ d ∧ (d < 128 ∨ d ∈ s) := fun hd =>
    ⟨(mem_code hd).1, .inl (mem_code hd).2⟩
  simp only [writeStr, List.mem_cons, List.mem_append, List.not_mem_nil, or_false] at h
  rcases h with rfl | h | rfl
  · exact quote
  · obtain ⟨c, hc, hd⟩ := List.mem_flatMap.1 h
    unfold writeChar at hd
    cases hs : shortLetter c with
    | some e =>
      rw [hs] at hd
      have he := (shortLetter_some hs).2
      simp only [List.mem_cons, List.not_mem_nil, or_false] at hd
      omega
    | none =>
      rw [hs] at hd
      dsimp only at hd
      split_ifs at hd with h1
      · exact escape hd
      · obtain rfl := List.mem_singleton.1 hd
        exact ⟨Nat.not_lt.1 h1, .inr hc⟩
      · exact escape hd
      · rcases List.mem_append.1 hd with hd | hd
        · exact escape hd
        · exact escape hd
  · exact quote

/-- A string of characters is written with characters. -/
theorem allChars_writeStr {ascii : Bool} {s : Text} (h : AllChars s) :
    AllChars (writeStr ascii s) := fun d hd => by
  rcases (mem_writeStr hd).2 with hd | hd
  · exact isChar_ascii hd
  · exact h d hd

/-- What parts and their separator have in common, the whole has. -/
theorem forall_mem_intercalate {P : ℕ → Prop} {s : Text} (hs : ∀ c ∈ s, P c) :
    ∀ {ts : List Text}, (∀ t ∈ ts, ∀ c ∈ t, P c) → ∀ c ∈ s.intercalate ts, P c
  | [], _ => nofun
  | [t], h => by simpa using h t (.head _)
  | t :: u :: ts, h => by
    have rest : ∀ c ∈ s.intercalate (u :: ts), P c :=
      forall_mem_intercalate hs fun v hv => h v (.tail _ hv)
    simp only [List.intercalate_cons_cons, List.forall_mem_append]
    exact ⟨⟨h t (.head _), hs⟩, rest⟩

/-! ### Integers -/

/-- The value of digits. -/
def natValue (ds : Text) : ℕ := Nat.ofDigits 10 ((ds.map (· - 48)).reverse)

/-- `int(literal)`. -/
def intValue (literal : Text) : ℤ :=
  let (sign, ds) := parseSign literal
  if sign = [] then natValue ds else -natValue ds

/-- A natural number is written in digits, without leading zeros. -/
theorem digits_natText (n : ℕ) : Digits (natText n) ∧ IsInt (natText n) := by
  unfold natText
  split_ifs with h0
  · exact ⟨⟨by simp, by simp [isDigit]⟩, .inl rfl⟩
  · have hne : Nat.digits 10 n ≠ [] := Nat.digits_ne_nil_iff_ne_zero.2 h0
    have hd : Digits (((Nat.digits 10 n).reverse).map (· + 48)) := by
      refine ⟨by simpa using hne, fun c hc => ?_⟩
      obtain ⟨d, hd, rfl⟩ := List.mem_map.1 hc
      have := Nat.digits_lt_base (by decide) (List.mem_reverse.1 hd)
      simp only [isDigit, Bool.and_eq_true, decide_eq_true_eq]
      omega
    refine ⟨hd, .inr ⟨hd, ?_⟩⟩
    have hl := Nat.getLast_digit_ne_zero 10 h0
    rw [List.head?_map, List.head?_reverse, List.getLast?_eq_some_getLast hne]
    simpa using hl

/-- The digits of a natural number have its value. -/
theorem natValue_natText (n : ℕ) : natValue (natText n) = n := by
  unfold natText natValue
  split_ifs with h0
  · rw [h0]
    rfl
  · rw [List.map_map]
    have : ((fun c => c - 48) ∘ fun d : ℕ => d + 48) = id := by
      funext d
      simp
    rw [this, List.map_id, List.reverse_reverse, Nat.ofDigits_digits]

/-- A number is not longer than the digits it was read from. -/
theorem length_natText {ds : Text} (h : Digits ds) : (natText (natValue ds)).length ≤ ds.length := by
  have hpos : 0 < ds.length := List.length_pos_iff.2 h.1
  have hlt : natValue ds < 10 ^ ds.length := by
    have := Nat.ofDigits_lt_base_pow_length (b := 10) (l := (ds.map (· - 48)).reverse) (by decide)
      fun d hd => by
        obtain ⟨c, hc, rfl⟩ := List.mem_map.1 (List.mem_reverse.1 hd)
        have := h.2 c hc
        simp only [isDigit, Bool.and_eq_true, decide_eq_true_eq] at this
        omega
    simpa [natValue] using this
  unfold natText
  split_ifs with h0
  · exact hpos
  · rw [List.length_map, List.length_reverse]
    exact (Nat.digits_length_le_iff (by decide) _).2 hlt

/-- A text of digits has no sign. -/
theorem parseSign_digits {ds : Text} (h : Digits ds) : parseSign ds = ([], ds) := by
  refine parseSign_append (s := []) (.inl rfl) fun hh => ?_
  cases ds with
  | nil => exact absurd rfl h.1
  | cons c ds =>
    obtain rfl := Option.some.inj hh
    exact nomatch h.2 45 (.head _)

/-- An integer is read from what is written of it. -/
theorem intValue_intText (n : ℤ) : intValue (intText n) = n := by
  unfold intText intValue
  split_ifs with hn
  · simp only [parseSign, if_true, natValue_natText, List.cons_ne_nil, if_false]
    omega
  · rw [parseSign_digits (digits_natText _).1]
    simp only [if_true, natValue_natText]
    omega

/-- The parts of an integer. -/
def intNumber (n : ℤ) : Number where
  sign := if n < 0 then [45] else []
  int := natText n.natAbs
  frac := []
  exp := []

/-- An integer is written as a number of the grammar. -/
theorem intNumber_valid (n : ℤ) : (intNumber n).Valid where
  sign := by
    unfold intNumber
    dsimp only
    split_ifs
    · exact .inr rfl
    · exact .inl rfl
  int := (digits_natText _).2
  frac := .inl rfl
  exp := .inl rfl

/-- Its text is the one that is printed. -/
theorem intNumber_text (n : ℤ) : (intNumber n).text = intText n := by
  unfold Number.text intNumber intText
  dsimp only
  split_ifs <;> simp

/-- It is read as an integer, not as a float. -/
theorem intNumber_raw (n : ℤ) : (intNumber n).raw = .int (intText n) := by
  rw [← intNumber_text]
  exact if_pos ⟨rfl, rfl⟩

/-- An integer is not longer than the literal it was read from. -/
theorem length_intText {n : Number} (h : n.Valid) :
    (intText (intValue (n.sign ++ n.int))).length ≤ (n.sign ++ n.int).length := by
  have hd : Digits n.int := by
    rcases h.int with hi | hi
    · rw [hi]
      exact ⟨by simp, by simp [isDigit]⟩
    · exact hi.1
  have hl := length_natText hd
  have hpos : 0 < n.int.length := List.length_pos_iff.2 hd.1
  rcases h.sign with hs | hs <;> rw [hs]
  · rw [List.nil_append, intValue, parseSign_digits hd]
    have h0 : ¬((natValue n.int : ℤ) < 0) := by omega
    simpa only [intText, if_true, if_neg h0, Int.natAbs_natCast] using hl
  · have hv : intValue ([45] ++ n.int) = -(natValue n.int : ℤ) := rfl
    rw [hv, List.length_append, List.length_singleton]
    unfold intText
    split_ifs
    · rw [Int.natAbs_neg, Int.natAbs_natCast, List.length_cons]
      omega
    · have h0 : natValue n.int = 0 := by omega
      rw [h0]
      change 1 ≤ _
      omega

/-! ### Values -/

/-- A separator of JSON: the character, and blanks around it. -/
def Separates (c : ℕ) (s : Text) : Prop := ∃ w v, Blank w ∧ Blank v ∧ s = w ++ c :: v

/-- A separator has characters only. -/
theorem Separates.allChars {c : ℕ} {s : Text} (h : Separates c s) (hc : c < 128 := by decide) :
    AllChars s := by
  obtain ⟨w, v, hw, hv, rfl⟩ := h
  simp [hw.plain.allChars, hv.plain.allChars, isChar_ascii hc]

mutual
/-- Writing fails for no separators. -/
theorem write_some (st : Style) : ∀ {x : Value}, Printable x → ∃ t, write st x = some t
  | .null, _ | .bool _, _ | .int _, _ | .str _, _ => ⟨_, rfl⟩
  | .float text v, h => by
    cases h
    exact ⟨text, rfl⟩
  | .arr xs, h => by
    cases h with
    | arr items =>
      obtain ⟨ts, ht⟩ := writeItems_some st items
      exact ⟨_, by rw [write, ht]; rfl⟩
  | .obj ms, h => by
    cases h with
    | obj names values =>
      obtain ⟨ts, ht⟩ := writeMembers_some st values
      exact ⟨_, by rw [write, ht]; rfl⟩

/-- A list of printable values can be written. -/
theorem writeItems_some (st : Style) : ∀ {xs : List Value}, (∀ x ∈ xs, Printable x) →
    ∃ ts, writeItems st xs = some ts
  | [], _ => ⟨[], rfl⟩
  | x :: xs, h => by
    obtain ⟨t, ht⟩ := write_some st (h x (.head _))
    obtain ⟨ts, hts⟩ := writeItems_some st fun y hy => h y (.tail _ hy)
    exact ⟨t :: ts, by simp [writeItems, ht, hts]⟩

/-- So can the members of an object whose values are printable. -/
theorem writeMembers_some (st : Style) : ∀ {ms : List (Text × Value)},
    (∀ k x, (k, x) ∈ ms → Printable x) → ∃ ts, writeMembers st ms = some ts
  | [], _ => ⟨[], rfl⟩
  | (k, x) :: ms, h => by
    obtain ⟨t, ht⟩ := write_some st (h k x (.head _))
    obtain ⟨ts, hts⟩ := writeMembers_some st fun l y hy => h l y (.tail _ hy)
    exact ⟨(writeStr st.ascii k ++ (st.key ++ t)) :: ts, by simp [writeMembers, ht, hts]⟩
end

section Values

variable {st : Style}

/-- A string that is written is a value of the grammar. -/
theorem isValue_str {ascii : Bool} {s : Text} (h : AllChars s) :
    IsValue (writeStr ascii s) (.str s) := by
  obtain ⟨ps, hp, hj⟩ := chars_flatMap ascii h
  have := IsValue.str hp
  rwa [hj] at this

/-- A member is written with blanks before it and none after. -/
theorem isMember_write (hk : Separates 58 st.key) {k t b : Text} {x : Raw} (hc : AllChars k)
    (ht : IsValue t x) (hb : Blank b) {v : Text} (hv : Blank v) :
    IsMember (b ++ (writeStr st.ascii k ++ (st.key ++ (t ++ v)))) k x := by
  obtain ⟨ps, hp, hj⟩ := chars_flatMap st.ascii hc
  obtain ⟨w, u, hw, hu, hs⟩ := hk
  have := IsMember.mk hb hp hw hu ht hv
  rw [hj] at this
  simpa [writeStr, hs] using this

mutual
/-- **What is written is a JSON text of the value.** -/
theorem isValue_write (hi : Separates 44 st.item) (hk : Separates 58 st.key) :
    ∀ {x : Value}, Printable x → ∃ t, write st x = some t ∧ IsValue t x.raw ∧ AllChars t
  | .null, _ => ⟨_, rfl, .isNull, Plain.allChars (by unfold Plain; decide)⟩
  | .bool true, _ => ⟨_, rfl, .isTrue, Plain.allChars (by unfold Plain; decide)⟩
  | .bool false, _ => ⟨_, rfl, .isFalse, Plain.allChars (by unfold Plain; decide)⟩
  | .int n, _ => by
    have hv := IsValue.number (intNumber_valid n)
    have hp := (intNumber_valid n).plain
    rw [intNumber_text] at hv hp
    rw [intNumber_raw] at hv
    exact ⟨_, rfl, hv, hp.allChars⟩
  | .float text v, h => by
    cases h with
    | float number =>
      obtain ⟨n, hn, ht, hr⟩ := number
      have hv := IsValue.number hn
      rw [ht, hr] at hv
      exact ⟨text, rfl, hv, ht ▸ hn.plain.allChars⟩
  | .str s, h => by
    cases h with
    | str hc => exact ⟨_, rfl, isValue_str hc, allChars_writeStr hc⟩
  | .arr xs, h => by
    cases h with
    | arr items =>
      obtain ⟨ts, ht, -, ha, hx⟩ := isItems_write hi hk items
      have hc : AllChars (st.item.intercalate ts) := forall_mem_intercalate hi.allChars ha
      refine ⟨_, by rw [write, ht]; rfl, ?_, by simp [hc, isChar_ascii]⟩
      cases xs with
      | nil =>
        obtain rfl := Option.some.inj ht
        exact .emptyArr (w := []) nofun
      | cons x xs => exact .arr (hx [] nofun (List.cons_ne_nil x xs))
  | .obj ms, h => by
    cases h with
    | obj names values =>
      obtain ⟨ts, ht, -, ha, hx⟩ := isMembers_write hi hk names values
      have hc : AllChars (st.item.intercalate ts) := forall_mem_intercalate hi.allChars ha
      refine ⟨_, by rw [write, ht]; rfl, ?_, by simp [hc, isChar_ascii]⟩
      cases ms with
      | nil =>
        obtain rfl := Option.some.inj ht
        exact .emptyObj (w := []) nofun
      | cons m ms => exact .obj (hx [] nofun (List.cons_ne_nil m ms))

/-- A list that is written is one of the grammar. -/
theorem isItems_write (hi : Separates 44 st.item) (hk : Separates 58 st.key) :
    ∀ {xs : List Value}, (∀ x ∈ xs, Printable x) → ∃ ts, writeItems st xs = some ts ∧
      ts.length = xs.length ∧ (∀ t ∈ ts, AllChars t) ∧
      ∀ b, Blank b → xs ≠ [] → IsItems (b ++ st.item.intercalate ts) (rawItems xs)
  | [], _ => ⟨[], rfl, rfl, nofun, fun _ _ h => absurd rfl h⟩
  | x :: xs, h => by
    obtain ⟨t, ht, hx, hct⟩ := isValue_write hi hk (h x (.head _))
    obtain ⟨ts, hts, hl, ha, hxs⟩ := isItems_write hi hk fun y hy => h y (.tail _ hy)
    refine ⟨t :: ts, by simp [writeItems, ht, hts], congrArg (· + 1) hl,
      List.forall_mem_cons.2 ⟨hct, ha⟩, fun b hb _ => ?_⟩
    cases xs with
    | nil =>
      obtain rfl := Option.some.inj hts
      simpa [rawItems] using IsItems.one hb hx (v := []) nofun
    | cons y ys =>
      cases ts with
      | nil => exact nomatch hl
      | cons u us =>
        obtain ⟨w, v, hw, hv, hs⟩ := id hi
        have := IsItems.cons hb hx hw (hxs v hv (List.cons_ne_nil y ys))
        rw [List.intercalate_cons_cons]
        nth_rewrite 1 [hs]
        simpa [rawItems] using this

/-- The members that are written are members of the grammar. -/
theorem isMembers_write (hi : Separates 44 st.item) (hk : Separates 58 st.key) :
    ∀ {ms : List (Text × Value)}, (∀ m ∈ ms, AllChars m.1) →
      (∀ k x, (k, x) ∈ ms → Printable x) → ∃ ts, writeMembers st ms = some ts ∧
      ts.length = ms.length ∧ (∀ t ∈ ts, AllChars t) ∧
      ∀ b, Blank b → ms ≠ [] → IsMembers (b ++ st.item.intercalate ts) (rawMembers ms)
  | [], _, _ => ⟨[], rfl, rfl, nofun, fun _ _ h => absurd rfl h⟩
  | (k, x) :: ms, hc, h => by
    obtain ⟨t, ht, hx, hct⟩ := isValue_write hi hk (h k x (.head _))
    obtain ⟨ts, hts, hl, ha, hxs⟩ := isMembers_write hi hk (fun m hm => hc m (.tail _ hm))
      fun k y hy => h k y (.tail _ hy)
    refine ⟨(writeStr st.ascii k ++ (st.key ++ t)) :: ts, by simp [writeMembers, ht, hts],
      congrArg (· + 1) hl, List.forall_mem_cons.2 ⟨?_, ha⟩, fun b hb _ => ?_⟩
    · simp [allChars_writeStr (hc _ (.head _)), hk.allChars, hct]
    cases ms with
    | nil =>
      obtain rfl := Option.some.inj hts
      have := isMember_write hk (hc _ (.head _)) hx hb (v := []) nofun
      simpa [rawMembers] using IsMembers.one this
    | cons y ys =>
      cases ts with
      | nil => exact nomatch hl
      | cons u us =>
        obtain ⟨w, v, hw, hv, hs⟩ := id hi
        have := IsMembers.cons (isMember_write hk (hc _ (.head _)) hx hb hw)
          (hxs v hv (List.cons_ne_nil y ys))
        rw [List.intercalate_cons_cons]
        nth_rewrite 1 [hs]
        simpa [rawMembers] using this
end

/-- No control character. -/
def Visible (t : Text) : Prop := ∀ c ∈ t, 32 ≤ c

/-- The empty text has no control character. -/
@[simp] theorem visible_nil : Visible [] := nofun

/-- A text has none if its first character is none and the rest has none. -/
@[simp] theorem visible_cons {c : ℕ} {t : Text} : Visible (c :: t) ↔ 32 ≤ c ∧ Visible t :=
  List.forall_mem_cons

/-- Two texts have none if both together have none. -/
@[simp] theorem visible_append {t u : Text} : Visible (t ++ u) ↔ Visible t ∧ Visible u :=
  List.forall_mem_append

/-- A number has no control character. -/
theorem Number.Valid.visible {n : Number} (h : n.Valid) : Visible n.text :=
  h.forall_mem (fun c hc => by
    simp only [isDigit, Bool.and_eq_true, decide_eq_true_eq] at hc
    omega) (by decide)

mutual
/-- **A value is written in one line**, with separators that have no line end. -/
theorem visible_write (hi : Visible st.item) (hk : Visible st.key) :
    ∀ {x : Value} {t : Text}, Printable x → write st x = some t → Visible t
  | .null, _, _, rfl => by unfold Visible; decide
  | .bool true, _, _, rfl => by unfold Visible; decide
  | .bool false, _, _, rfl => by unfold Visible; decide
  | .int n, _, _, rfl => intNumber_text n ▸ (intNumber_valid n).visible
  | .float text v, _, h, ht => by
    cases h with
    | float number =>
      obtain ⟨n, hn, rfl, -⟩ := number
      exact Option.some.inj ht ▸ hn.visible
  | .str s, _, _, rfl => fun _ hd => (mem_writeStr hd).1
  | .arr xs, _, h, ht => by
    cases h with
    | arr items =>
      obtain ⟨ts, hts, rfl⟩ := Option.map_eq_some_iff.1 ht
      have : Visible (st.item.intercalate ts) :=
        forall_mem_intercalate hi (visible_writeItems hi hk items hts)
      simp [this]
  | .obj ms, _, h, ht => by
    cases h with
    | obj _ values =>
      obtain ⟨ts, hts, rfl⟩ := Option.map_eq_some_iff.1 ht
      have : Visible (st.item.intercalate ts) :=
        forall_mem_intercalate hi (visible_writeMembers hi hk values hts)
      simp [this]

/-- The items of a list are written without control characters. -/
theorem visible_writeItems (hi : Visible st.item) (hk : Visible st.key) :
    ∀ {xs : List Value} {ts : List Text}, (∀ x ∈ xs, Printable x) → writeItems st xs = some ts →
      ∀ t ∈ ts, Visible t
  | [], _, _, rfl => nofun
  | x :: xs, _, h, ht => by
    simp only [writeItems, Option.bind_eq_bind, Option.bind_eq_some_iff, Option.pure_def,
      Option.some.injEq] at ht
    obtain ⟨t, hx, ts, hxs, rfl⟩ := ht
    exact List.forall_mem_cons.2 ⟨visible_write hi hk (h x (.head _)) hx,
      visible_writeItems hi hk (fun y hy => h y (.tail _ hy)) hxs⟩

/-- So are the members of an object. -/
theorem visible_writeMembers (hi : Visible st.item) (hk : Visible st.key) :
    ∀ {ms : List (Text × Value)} {ts : List Text}, (∀ k x, (k, x) ∈ ms → Printable x) →
      writeMembers st ms = some ts → ∀ t ∈ ts, Visible t
  | [], _, _, rfl => nofun
  | (k, x) :: ms, _, h, ht => by
    simp only [writeMembers, Option.bind_eq_bind, Option.bind_eq_some_iff, Option.pure_def,
      Option.some.injEq] at ht
    obtain ⟨t, hx, ts, hxs, rfl⟩ := ht
    have name : Visible (writeStr st.ascii k) := fun _ hd => (mem_writeStr hd).1
    have value := visible_write hi hk (h k x (.head _)) hx
    exact List.forall_mem_cons.2 ⟨by simp [name, hk, value],
      visible_writeMembers hi hk (fun l y hy => h l y (.tail _ hy)) hxs⟩
end

end Values

end Text
end MorpheusGateway
