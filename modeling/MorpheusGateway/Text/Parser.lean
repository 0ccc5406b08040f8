/-
# Reading JSON texts

A reader as `json.loads` is: from left to right, with one function a construct, and every
construct told by its first character.  Besides the grammar it takes `NaN`, `Infinity` and
`-Infinity`.  `parse_of_isText` says that it reads every JSON text as what it spells out;
that a text spells out one thing follows.
-/

import MorpheusGateway.Text.Grammar
import Mathlib.Data.List.TakeWhile

namespace MorpheusGateway
namespace Text

/-! ### The reader -/

/-- The text after its blanks. -/
def skip (t : Text) : Text := t.dropWhile isBlank

/-- The pieces of a string up to its closing quote. -/
def parseChars : Text → Option (List Piece × Text)
  | [] => none
  | c :: t =>
    if c = 34 then some ([], t)
    else if c = 92 then
      match t with
      | 117 :: a :: b :: c :: d :: t => do
        let n ← hex4 a b c d
        let (ps, t) ← parseChars t
        return (.coded n :: ps, t)
      | e :: t => do
        let c ← shortEscape e
        let (ps, t) ← parseChars t
        return (.plain c :: ps, t)
      | [] => none
    else if c < 32 then none
    else do
      let (ps, t) ← parseChars t
      return (.plain c :: ps, t)

/-- The digits a text begins with, and what follows. -/
def digits (t : Text) : Text × Text := (t.takeWhile isDigit, t.dropWhile isDigit)

/-- The sign a number may begin with. -/
def parseSign : Text → Text × Text
  | [] => ([], [])
  | c :: t => if c = 45 then ([45], t) else ([], c :: t)

/-- The digits before the point. -/
def parseInt : Text → Option (Text × Text)
  | [] => none
  | c :: t =>
    if c = 48 then some ([48], t) else if isDigit c then some (digits (c :: t)) else none

/-- The fraction, if there is one. -/
def parseFrac : Text → Text × Text
  | [] => ([], [])
  | c :: t =>
    let (ds, u) := digits t
    if c = 46 ∧ ds ≠ [] then (46 :: ds, u) else ([], c :: t)

/-- The sign of an exponent. -/
def parseExpSign : Text → Text × Text
  | [] => ([], [])
  | c :: t => if c = 43 ∨ c = 45 then ([c], t) else ([], c :: t)

/-- The exponent, if there is one. -/
def parseExp : Text → Text × Text
  | [] => ([], [])
  | e :: t =>
    let (s, u) := parseExpSign t
    let (ds, v) := digits u
    if (e = 101 ∨ e = 69) ∧ ds ≠ [] then (e :: (s ++ ds), v) else ([], e :: t)

/-- A number. -/
def parseNumber (t : Text) : Option (Raw × Text) := do
  let (sign, t) := parseSign t
  let (int, t) ← parseInt t
  let (frac, t) := parseFrac t
  let (exp, t) := parseExp t
  return (Number.raw ⟨sign, int, frac, exp⟩, t)

/-- The names of values. -/
def names : List (Text × Raw) :=
  [(chars "null", .null), (chars "true", .bool true), (chars "false", .bool false),
   (chars "NaN", .constant), (chars "Infinity", .constant), (chars "-Infinity", .constant)]

/-- A name or a number. -/
def parseName (t : Text) : Option (Raw × Text) :=
  match names.find? fun p => p.1.isPrefixOf t with
  | some p => some (p.2, t.drop p.1.length)
  | none => parseNumber t

mutual
/-- A value; the first argument bounds how much is read. -/
def parseValue : ℕ → Text → Option (Raw × Text)
  | 0, _ => none
  | _ + 1, [] => none
  | n + 1, c :: t =>
    if c = 34 then (parseChars t).map fun (ps, t) => (.str (join ps), t)
    else if c = 91 then
      if (skip t).head? = some 93 then some (.arr [], (skip t).tail)
      else (parseItems n t).map fun (xs, t) => (.arr xs, t)
    else if c = 123 then
      if (skip t).head? = some 125 then some (.obj [], (skip t).tail)
      else (parseMembers n t).map fun (ms, t) => (.obj ms, t)
    else parseName (c :: t)

/-- The items of an array up to its end. -/
def parseItems : ℕ → Text → Option (List Raw × Text)
  | 0, _ => none
  | n + 1, t => do
    let (x, t) ← parseValue n (skip t)
    match skip t with
    | [] => none
    | c :: t =>
      if c = 44 then (parseItems n t).map fun (xs, t) => (x :: xs, t)
      else if c = 93 then some ([x], t)
      else none

/-- The members of an object up to its end. -/
def parseMembers : ℕ → Text → Option (List (Text × Raw) × Text)
  | 0, _ => none
  | n + 1, t => do
    let (m, t) ← parseMember n t
    match skip t with
    | [] => none
    | c :: t =>
      if c = 44 then (parseMembers n t).map fun (ms, t) => (m :: ms, t)
      else if c = 125 then some ([m], t)
      else none

/-- A member: its name and its value. -/
def parseMember : ℕ → Text → Option ((Text × Raw) × Text)
  | 0, _ => none
  | n + 1, t =>
    match skip t with
    | [] => none
    | c :: t =>
      if c = 34 then do
        let (ps, t) ← parseChars t
        match skip t with
        | [] => none
        | c :: t =>
          if c = 58 then (parseValue n (skip t)).map fun (x, t) => ((join ps, x), t) else none
      else none
end

/-- A whole text. -/
def parse (t : Text) : Option Raw := do
  let (x, t) ← parseValue (t.length + 1) (skip t)
  if skip t = [] then some x else none


/-! ### Blanks and digits -/

/-- The text begins with no blank. -/
def Solid (t : Text) : Prop := ∀ c, t.head? = some c → isBlank c = false

/-- Before a solid text there is nothing to skip. -/
theorem skip_of_solid {t : Text} (h : Solid t) : skip t = t := by
  cases t with
  | nil => rfl
  | cons c t => exact List.dropWhile_cons_of_neg (by simp [h c rfl])

/-- The blanks before it are skipped. -/
theorem skip_blank {w t : Text} (hw : Blank w) (h : Solid t) : skip (w ++ t) = t := by
  unfold skip
  rw [List.dropWhile_append_of_pos hw]
  exact skip_of_solid h

/-- A text goes on with no digit. -/
def NoDigit (t : Text) : Prop := ∀ c, t.head? = some c → isDigit c = false

/-- Digits are read up to the first other character. -/
theorem digits_append {ds t : Text} (hd : ∀ c ∈ ds, isDigit c = true) (h : NoDigit t) :
    digits (ds ++ t) = (ds, t) := by
  have ht : t.takeWhile isDigit = [] ∧ t.dropWhile isDigit = t := by
    cases t with
    | nil => exact ⟨rfl, rfl⟩
    | cons c t => simp [h c rfl]
  unfold digits
  rw [List.takeWhile_append_of_pos hd, List.dropWhile_append_of_pos hd, ht.1, ht.2,
    List.append_nil]

/-- What ends a number: no digit, point or exponent follows. -/
def Ends (t : Text) : Prop :=
  ∀ c, t.head? = some c → isDigit c = false ∧ c ≠ 46 ∧ c ≠ 101 ∧ c ≠ 69

/-- A text that ends a number does not begin with a digit. -/
theorem Ends.noDigit {t : Text} (h : Ends t) : NoDigit t := fun c hc => (h c hc).1

/-! ### Strings and numbers are read -/

/-- The characters of a string are read up to the quotation mark. -/
theorem parseChars_of_chars {t rest : Text} {ps : List Piece} (h : Chars t ps) :
    parseChars (t ++ 34 :: rest) = some (ps, rest) := by
  induction h with
  | nil => rw [List.nil_append, parseChars.eq_def]; simp
  | plain hb hq he _ ih =>
    rw [List.cons_append, parseChars.eq_def]
    simp [hq, he, Nat.not_lt.2 hb, ih]
  | @short e c t ps hs _ ih =>
    have hu : e ≠ 117 := by
      rintro rfl
      exact nomatch hs
    rw [List.cons_append, List.cons_append, parseChars.eq_def]
    simp [hs, ih, hu]
  | coded hn _ ih =>
    simp only [List.cons_append]
    rw [parseChars.eq_def]
    simp [hn, ih]

/-- A sign is read. -/
theorem parseSign_append {s t : Text} (hs : IsSign s) (ht : t.head? ≠ some 45) :
    parseSign (s ++ t) = (s, t) := by
  rcases hs with rfl | rfl
  · cases t with
    | nil => rfl
    | cons c t =>
      have hc : c ≠ 45 := fun h => ht (congrArg some h)
      simp [parseSign, hc]
  · rfl

/-- The digits before the point are read. -/
theorem parseInt_append {i t : Text} (hi : IsInt i) (ht : NoDigit t) :
    parseInt (i ++ t) = some (i, t) := by
  rcases hi with rfl | ⟨⟨hne, hd⟩, h0⟩
  · rfl
  · cases i with
    | nil => exact absurd rfl hne
    | cons c i =>
      have hc : c ≠ 48 := fun h => h0 (congrArg some h)
      have := digits_append hd ht
      rw [List.cons_append] at this
      simp [parseInt, hc, hd c (.head _), this]

/-- The fraction is read. -/
theorem parseFrac_append {f t : Text} (hf : IsFrac f) (ht : NoDigit t) (hp : t.head? ≠ some 46) :
    parseFrac (f ++ t) = (f, t) := by
  rcases hf with rfl | ⟨ds, ⟨hne, hd⟩, rfl⟩
  · cases t with
    | nil => rfl
    | cons c t =>
      have hc : c ≠ 46 := fun h => hp (congrArg some h)
      simp [parseFrac, hc]
  · simp [parseFrac, digits_append hd ht, hne]

/-- The exponent is read. -/
theorem parseExp_append {x t : Text} (hx : IsExp x) (ht : Ends t) : parseExp (x ++ t) = (x, t) := by
  rcases hx with rfl | ⟨e, s, ds, he, hs, ⟨hne, hd⟩, rfl⟩
  · cases t with
    | nil => rfl
    | cons c t =>
      obtain ⟨-, -, h1, h2⟩ := ht c rfl
      simp [parseExp, h1, h2]
  · have sign : parseExpSign (s ++ (ds ++ t)) = (s, ds ++ t) := by
      rcases hs with rfl | rfl | rfl
      · cases ds with
        | nil => exact absurd rfl hne
        | cons d ds =>
          have h := hd d (.head _)
          have h1 : d ≠ 43 ∧ d ≠ 45 := by
            constructor <;> rintro rfl <;> exact nomatch h
          simp [parseExpSign, h1.1, h1.2]
      · rfl
      · rfl
    simp [parseExp, sign, digits_append hd ht.noDigit, hne, he]

/-- A number is read up to what ends it. -/
theorem parseNumber_append {n : Number} (h : n.Valid) {t : Text} (ht : Ends t) :
    parseNumber (n.text ++ t) = some (n.raw, t) := by
  obtain ⟨hs, hi, hf, hx⟩ := h
  have ex : NoDigit (n.exp ++ t) ∧ (n.exp ++ t).head? ≠ some 46 := by
    rcases hx with hx | ⟨e, s, ds, he, -, -, hx⟩ <;> rw [hx]
    · exact ⟨ht.noDigit, fun h => (ht 46 h).2.1 rfl⟩
    · refine ⟨fun c hc => ?_, fun h => ?_⟩
      · obtain rfl := Option.some.inj hc
        rcases he with rfl | rfl <;> rfl
      · obtain rfl := Option.some.inj h
        exact absurd he (by decide)
  have fr : NoDigit (n.frac ++ (n.exp ++ t)) := by
    rcases hf with hf | ⟨ds, -, hf⟩ <;> rw [hf]
    · exact ex.1
    · intro c hc
      obtain rfl := Option.some.inj hc
      rfl
  have int : (n.int ++ (n.frac ++ (n.exp ++ t))).head? ≠ some 45 := by
    rcases hi with hi | ⟨⟨hne, hd⟩, -⟩
    · rw [hi]
      simp
    · cases hc : n.int with
      | nil => exact absurd hc hne
      | cons c i =>
        intro h
        obtain rfl := Option.some.inj h
        exact absurd (hd 45 (hc ▸ .head _)) (by decide)
  simp only [parseNumber, Number.text, List.append_assoc]
  rw [parseSign_append hs int]
  dsimp only
  rw [parseInt_append hi fr]
  simp [parseFrac_append hf ex.1 ex.2, parseExp_append hx ht]

/-- What a number begins with: a digit, or a minus and a digit. -/
theorem Number.Valid.head {n : Number} (h : n.Valid) : ∃ c u, n.text = c :: u ∧
    (isDigit c = true ∨ c = 45 ∧ ∃ d v, u = d :: v ∧ isDigit d = true) := by
  have hi : ∃ d v, n.int = d :: v ∧ isDigit d = true := by
    rcases h.int with hi | ⟨⟨hne, hd⟩, -⟩
    · exact ⟨48, [], hi, rfl⟩
    · cases hc : n.int with
      | nil => exact absurd hc hne
      | cons d v => exact ⟨d, v, rfl, hd d (hc ▸ .head _)⟩
  obtain ⟨d, v, hi, hd⟩ := hi
  unfold text
  rcases h.sign with hs | hs <;> rw [hs, hi]
  · exact ⟨d, _, rfl, .inl hd⟩
  · exact ⟨45, _, rfl, .inr ⟨rfl, d, _, rfl, hd⟩⟩

/-- The codes of the names. -/
theorem names_eq : names =
    [([110, 117, 108, 108], .null), ([116, 114, 117, 101], .bool true),
     ([102, 97, 108, 115, 101], .bool false), ([78, 97, 78], .constant),
     ([73, 110, 102, 105, 110, 105, 116, 121], .constant),
     ([45, 73, 110, 102, 105, 110, 105, 116, 121], .constant)] := rfl

/-- A number is not mistaken for a name. -/
theorem parseName_number {n : Number} (h : n.Valid) {t : Text} (ht : Ends t) :
    parseName (n.text ++ t) = some (n.raw, t) := by
  have none : (names.find? fun p => p.1.isPrefixOf (n.text ++ t)) = none := by
    obtain ⟨c, u, hc, hd⟩ := h.head
    rw [hc]
    rcases hd with hd | ⟨rfl, d, v, rfl, hd⟩
    · have : c ≠ 110 ∧ c ≠ 116 ∧ c ≠ 102 ∧ c ≠ 78 ∧ c ≠ 73 ∧ c ≠ 45 := by
        simp only [isDigit, Bool.and_eq_true, decide_eq_true_eq] at hd
        omega
      simp [names_eq, List.isPrefixOf, this.1.symm, this.2.1.symm, this.2.2.1.symm,
        this.2.2.2.1.symm, this.2.2.2.2.1.symm, this.2.2.2.2.2.symm]
    · have : d ≠ 73 := by
        rintro rfl
        cases hd
      simp [names_eq, List.isPrefixOf, this.symm]
  unfold parseName
  rw [none]
  exact parseNumber_append h ht

/-! ### Values are read -/

/-- What may follow a value: the end, a blank, a comma or a closing bracket. -/
def Follows (t : Text) : Prop := ∀ c, t.head? = some c → isBlank c = true ∨ c = 44 ∨ c = 93 ∨ c = 125

/-- What may follow a value ends a number. -/
theorem Follows.ends {t : Text} (h : Follows t) : Ends t := by
  intro c hc
  have := h c hc
  simp only [isBlank, Bool.or_eq_true, decide_eq_true_eq] at this
  simp only [isDigit, Bool.and_eq_false_iff, decide_eq_false_iff_not]
  omega

/-- Blanks before it may follow as well. -/
theorem Follows.blank {w t : Text} (hw : Blank w) (ht : Follows t) : Follows (w ++ t) := by
  cases w with
  | nil => exact ht
  | cons c w =>
    intro d hd
    obtain rfl := Option.some.inj hd
    exact .inl (hw _ (.head _))

/-- A value begins with an ASCII character that is neither a blank nor a closing bracket. -/
theorem IsValue.head {t : Text} {x : Raw} (h : IsValue t x) :
    ∃ c u, t = c :: u ∧ isBlank c = false ∧ c ≠ 93 ∧ c ≠ 125 ∧ c < 128 := by
  cases h with
  | number valid =>
    obtain ⟨c, u, hc, hd⟩ := valid.head
    refine ⟨c, u, hc, ?_⟩
    have : 48 ≤ c ∧ c ≤ 57 ∨ c = 45 := by
      rcases hd with hd | ⟨hd, -⟩
      · exact .inl (by simpa [isDigit] using hd)
      · exact .inr hd
    simp only [isBlank, Bool.or_eq_false_iff, decide_eq_false_iff_not]
    omega
  | isNull => exact ⟨110, _, rfl, by decide⟩
  | isTrue => exact ⟨116, _, rfl, by decide⟩
  | isFalse => exact ⟨102, _, rfl, by decide⟩
  | str | emptyArr | arr | emptyObj | obj => exact ⟨_, _, rfl, by decide⟩

/-- A value begins without a blank. -/
theorem IsValue.solid {t u : Text} {x : Raw} (h : IsValue t x) : Solid (t ++ u) := by
  obtain ⟨c, v, rfl, hc, -⟩ := h.head
  intro d hd
  obtain rfl := Option.some.inj hd
  exact hc

/-- A value is not empty. -/
theorem IsValue.length_pos {t : Text} {x : Raw} (h : IsValue t x) : 0 < t.length := by
  obtain ⟨c, v, rfl, -⟩ := h.head
  exact Nat.succ_pos _

/-- Items are not the end of an array. -/
theorem IsItems.skip_ne {t u : Text} {xs : List Raw} (h : IsItems t xs) :
    (skip (t ++ u)).head? ≠ some 93 := by
  have first {w v : Text} {x : Raw} (hw : Blank w) (hv : IsValue v x) (u : Text) :
      (skip (w ++ (v ++ u))).head? ≠ some 93 := by
    rw [skip_blank hw hv.solid]
    obtain ⟨c, v, rfl, -, h, -⟩ := hv.head
    exact fun hc => h (Option.some.inj hc)
  cases h with
  | one hw hv _ =>
    simp only [List.append_assoc]
    exact first hw hv _
  | cons hw hv _ _ =>
    simp only [List.append_assoc]
    exact first hw hv _

/-- Members are not the end of an object. -/
theorem IsMembers.skip_ne {t u : Text} {ms : List (Text × Raw)} (h : IsMembers t ms) :
    (skip (t ++ u)).head? ≠ some 125 := by
  have first {t k : Text} {x : Raw} (h : IsMember t k x) (u : Text) :
      (skip (t ++ u)).head? ≠ some 125 := by
    obtain ⟨hw, -⟩ := h
    rw [List.append_assoc, skip_blank hw (by simp [Solid, isBlank])]
    simp
  cases h with
  | one hm => exact first hm u
  | cons hm _ =>
    rw [List.append_assoc]
    exact first hm _

/-- A comma or a closing bracket may follow a value. -/
theorem follows_cons {c : ℕ} {t : Text} (h : c = 44 ∨ c = 93 ∨ c = 125) : Follows (c :: t) :=
  fun _ hd => Option.some.inj hd ▸ .inr h

/-- A text is solid whose first character is no blank. -/
theorem solid_cons {c : ℕ} {t : Text} (h : isBlank c = false) : Solid (c :: t) :=
  fun _ hd => Option.some.inj hd ▸ h

/-- What is no string, array or object is a name or a number. -/
theorem parseValue_name {t : Text} (h : ∀ c, t.head? = some c → c ≠ 34 ∧ c ≠ 91 ∧ c ≠ 123)
    (hne : t ≠ []) {n : ℕ} (hn : 0 < n) : parseValue n t = parseName t := by
  obtain ⟨m, rfl⟩ := Nat.exists_eq_add_one_of_ne_zero hn.ne'
  cases t with
  | nil => exact absurd rfl hne
  | cons c t =>
    obtain ⟨h1, h2, h3⟩ := h c rfl
    simp [parseValue, h1, h2, h3]

/-- A name is read. -/
theorem parseName_append {p : Text × Raw} (hp : p ∈ names.take 3) {n : ℕ} (hn : 0 < n) (t : Text) :
    parseValue n (p.1 ++ t) = some (p.2, t) := by
  simp only [names_eq, List.take_succ_cons, List.take_zero, List.mem_cons, List.not_mem_nil,
    or_false] at hp
  rcases hp with rfl | rfl | rfl <;> rw [parseValue_name (by simp) (by simp) hn] <;>
    simp [parseName, names_eq, List.isPrefixOf]

mutual
/-- A value is read up to what follows it. -/
theorem parseValue_append : ∀ {t : Text} {x : Raw}, IsValue t x → ∀ {n : ℕ} {u : Text},
    t.length < n → Follows u → parseValue n (t ++ u) = some (x, u)
  | _, _, .isNull, _, u, hn, _ =>
    parseName_append (p := (chars "null", .null)) (.head _) (Nat.zero_lt_of_lt hn) u
  | _, _, .isTrue, _, u, hn, _ =>
    parseName_append (p := (chars "true", .bool true)) (.tail _ (.head _)) (Nat.zero_lt_of_lt hn) u
  | _, _, .isFalse, _, u, hn, _ =>
    parseName_append (p := (chars "false", .bool false)) (.tail _ (.tail _ (.head _)))
      (Nat.zero_lt_of_lt hn) u
  | _, _, .number valid, _, u, hn, hu => by
    obtain ⟨c, v, hc, hd⟩ := valid.head
    have hv := parseName_number valid hu.ends
    rw [hc, List.cons_append] at hv ⊢
    rw [parseValue_name (fun d hd' => ?_) (by simp) (Nat.zero_lt_of_lt hn), hv]
    obtain rfl := Option.some.inj hd'
    rcases hd with hd | ⟨rfl, -⟩
    · simp only [isDigit, Bool.and_eq_true, decide_eq_true_eq] at hd
      omega
    · decide
  | _, _, .str (t := t) body, n, u, hn, hu => by
    obtain ⟨m, rfl⟩ := Nat.exists_eq_add_one_of_ne_zero (Nat.ne_zero_of_lt hn)
    simp [parseValue, parseChars_of_chars body]
  | _, _, .emptyArr (w := w) hw, n, u, hn, hu => by
    obtain ⟨m, rfl⟩ := Nat.exists_eq_add_one_of_ne_zero (Nat.ne_zero_of_lt hn)
    have hs : skip (w ++ 93 :: u) = 93 :: u := skip_blank hw (solid_cons rfl)
    simp [parseValue, hs]
  | _, _, .arr (t := t) items, n, u, hn, hu => by
    obtain ⟨m, rfl⟩ := Nat.exists_eq_add_one_of_ne_zero (Nat.ne_zero_of_lt hn)
    have hi := parseItems_append items (n := m) (u := u) (by simp at hn; omega)
    have hs := items.skip_ne (u := 93 :: u)
    simp [parseValue, hs, hi]
  | _, _, .emptyObj (w := w) hw, n, u, hn, hu => by
    obtain ⟨m, rfl⟩ := Nat.exists_eq_add_one_of_ne_zero (Nat.ne_zero_of_lt hn)
    have hs : skip (w ++ 125 :: u) = 125 :: u := skip_blank hw (solid_cons rfl)
    simp [parseValue, hs]
  | _, _, .obj (t := t) members, n, u, hn, hu => by
    obtain ⟨m, rfl⟩ := Nat.exists_eq_add_one_of_ne_zero (Nat.ne_zero_of_lt hn)
    have hi := parseMembers_append members (n := m) (u := u) (by simp at hn; omega)
    have hs := members.skip_ne (u := 125 :: u)
    simp [parseValue, hs, hi]

/-- Items are read up to the end of their array. -/
theorem parseItems_append : ∀ {t : Text} {xs : List Raw}, IsItems t xs → ∀ {n : ℕ} {u : Text},
    t.length + 1 < n → parseItems n (t ++ 93 :: u) = some (xs, u)
  | _, _, .one (w := w) (t := t) (v := v) (x := x) before value after, n, u, hn => by
    obtain ⟨m, rfl⟩ := Nat.exists_eq_add_one_of_ne_zero (Nat.ne_zero_of_lt hn)
    have hv := parseValue_append value (n := m) (u := v ++ 93 :: u) (by simp at hn; omega)
      (.blank after (follows_cons (by simp)))
    have h1 : skip (w ++ (t ++ (v ++ 93 :: u))) = t ++ (v ++ 93 :: u) := skip_blank before value.solid
    have h2 : skip (v ++ 93 :: u) = 93 :: u := skip_blank after (solid_cons rfl)
    simp [parseItems, h1, hv, h2]
  | _, _, .cons (w := w) (t := t) (v := v) (u := r) (x := x) before value after rest, n, u, hn => by
    obtain ⟨m, rfl⟩ := Nat.exists_eq_add_one_of_ne_zero (Nat.ne_zero_of_lt hn)
    have hl := value.length_pos
    have hv := parseValue_append value (n := m) (u := v ++ 44 :: (r ++ 93 :: u)) (by simp at hn; omega)
      (.blank after (follows_cons (by simp)))
    have hr := parseItems_append rest (n := m) (u := u) (by simp at hn; omega)
    have h1 : skip (w ++ (t ++ (v ++ 44 :: (r ++ 93 :: u)))) = t ++ (v ++ 44 :: (r ++ 93 :: u)) :=
      skip_blank before value.solid
    have h2 : skip (v ++ 44 :: (r ++ 93 :: u)) = 44 :: (r ++ 93 :: u) := skip_blank after (solid_cons rfl)
    simp [parseItems, h1, hv, h2, hr]

/-- Members are read up to the end of their object. -/
theorem parseMembers_append : ∀ {t : Text} {ms : List (Text × Raw)}, IsMembers t ms →
    ∀ {n : ℕ} {u : Text}, t.length + 1 < n → parseMembers n (t ++ 125 :: u) = some (ms, u)
  | _, _, .one (t := t) member, n, u, hn => by
    obtain ⟨m, rfl⟩ := Nat.exists_eq_add_one_of_ne_zero (Nat.ne_zero_of_lt hn)
    obtain ⟨z, hz, hm⟩ := parseMember_append member (n := m) (u := 125 :: u) (by omega)
      (.inr rfl)
    have h2 : skip (z ++ 125 :: u) = 125 :: u := skip_blank hz (solid_cons rfl)
    simp [parseMembers, hm, h2]
  | _, _, .cons (t := t) (u := r) member rest, n, u, hn => by
    obtain ⟨m, rfl⟩ := Nat.exists_eq_add_one_of_ne_zero (Nat.ne_zero_of_lt hn)
    obtain ⟨z, hz, hm⟩ := parseMember_append member (n := m) (u := 44 :: (r ++ 125 :: u))
      (by simp at hn; omega) (.inl rfl)
    have hr := parseMembers_append rest (n := m) (u := u) (by simp at hn; omega)
    have h2 : skip (z ++ 44 :: (r ++ 125 :: u)) = 44 :: (r ++ 125 :: u) :=
      skip_blank hz (solid_cons rfl)
    simp [parseMembers, hm, h2, hr]

/-- A member is read up to the blanks after its value. -/
theorem parseMember_append : ∀ {t k : Text} {x : Raw}, IsMember t k x → ∀ {n : ℕ} {u : Text},
    t.length < n → (u.head? = some 44 ∨ u.head? = some 125) →
    ∃ z, Blank z ∧ parseMember n (t ++ u) = some ((k, x), z ++ u)
  | _, _, _, .mk (w := w) (k := k) (v := v) (u := b) (t := t) (z := z) before name colon value text after,
      n, u, hn, hu => by
    obtain ⟨m, rfl⟩ := Nat.exists_eq_add_one_of_ne_zero (Nat.ne_zero_of_lt hn)
    have hf : Follows u := fun c hc => by
      rcases hu with h | h <;> rw [h] at hc <;> obtain rfl := Option.some.inj hc <;> simp
    have hv := parseValue_append text (n := m) (u := z ++ u) (by simp at hn; omega) (.blank after hf)
    refine ⟨z, after, ?_⟩
    have h1 : skip (w ++ 34 :: (k ++ 34 :: (v ++ 58 :: (b ++ (t ++ (z ++ u)))))) =
        34 :: (k ++ 34 :: (v ++ 58 :: (b ++ (t ++ (z ++ u))))) := skip_blank before (solid_cons rfl)
    have h2 : skip (v ++ 58 :: (b ++ (t ++ (z ++ u)))) = 58 :: (b ++ (t ++ (z ++ u))) :=
      skip_blank colon (solid_cons rfl)
    have h3 : skip (b ++ (t ++ (z ++ u))) = t ++ (z ++ u) := skip_blank value text.solid
    simp [parseMember, h1, parseChars_of_chars name, h2, h3, hv]
end

/-- **Every JSON text is read as what it spells out.** -/
theorem parse_of_isText {t : Text} {x : Raw} (h : IsText t x) : parse t = some x := by
  obtain ⟨w, u, v, hw, hu, hv, rfl⟩ := h
  have hr := parseValue_append hu (n := (w ++ (u ++ v)).length + 1) (u := v)
    (by simp only [List.length_append]; omega) (by simpa using Follows.blank hv (t := []) nofun)
  have hs : skip v = [] := by simpa using skip_blank hv (t := []) nofun
  unfold parse
  rw [skip_blank hw hu.solid, hr]
  simp [hs]

/-- A text spells out one thing. -/
theorem isText_unique {t : Text} {x y : Raw} (hx : IsText t x) (hy : IsText t y) : x = y :=
  Option.some.inj ((parse_of_isText hx).symm.trans (parse_of_isText hy))

/-! ### What is read -/

/-- Its numbers are of valid parts. -/
inductive Spelled : Raw → Prop
  | null : Spelled .null
  | bool {b} : Spelled (.bool b)
  | number {n} (valid : Number.Valid n) : Spelled n.raw
  | constant : Spelled .constant
  | str {s} : Spelled (.str s)
  | arr {xs} (items : ∀ x ∈ xs, Spelled x) : Spelled (.arr xs)
  | obj {ms} (values : ∀ k x, (k, x) ∈ ms → Spelled x) : Spelled (.obj ms)

namespace Spelled

/-- An integer that is spelled out has neither a fraction nor an exponent. -/
theorem int {t : Text} (h : Spelled (.int t)) :
    ∃ n : Number, n.Valid ∧ t = n.sign ++ n.int := by
  generalize hx : Raw.int t = x at h
  cases h with
  | @number n valid =>
    unfold Number.raw at hx
    split_ifs at hx with hn
    obtain rfl := Raw.int.inj hx
    exact ⟨n, valid, by simp [Number.text, hn.1, hn.2]⟩
  | _ => cases hx

/-- A float that is spelled out has one of them. -/
theorem float {t : Text} (h : Spelled (.float t)) : IsFloat t := by
  generalize hx : Raw.float t = x at h
  cases h with
  | @number n valid =>
    have hr := hx
    unfold Number.raw at hx
    split_ifs at hx
    exact ⟨n, valid, (Raw.float.inj hx).symm, hr.symm⟩
  | _ => exact nomatch hx

/-- The items of a list that is spelled are spelled. -/
theorem items {xs : List Raw} (h : Spelled (.arr xs)) : ∀ x ∈ xs, Spelled x := by
  generalize hx : Raw.arr xs = x at h
  cases h with
  | number valid =>
    unfold Number.raw at hx
    split_ifs at hx
  | arr items =>
    obtain rfl := Raw.arr.inj hx
    exact items
  | _ => exact nomatch hx

/-- So are the values of an object. -/
theorem values {ms : List (Text × Raw)} (h : Spelled (.obj ms)) :
    ∀ k x, (k, x) ∈ ms → Spelled x := by
  generalize hx : Raw.obj ms = x at h
  cases h with
  | number valid =>
    unfold Number.raw at hx
    split_ifs at hx
  | obj values =>
    obtain rfl := Raw.obj.inj hx
    exact values
  | _ => exact nomatch hx

end Spelled

/-- Digits that are read are digits. -/
theorem digits_fst {t : Text} (h : (digits t).1 ≠ []) : Digits (digits t).1 :=
  ⟨h, fun _ hc => List.mem_takeWhile_imp hc⟩

/-- A sign that is read is one of the grammar. -/
theorem isSign_parseSign (t : Text) : IsSign (parseSign t).1 := by
  cases t with
  | nil => exact .inl rfl
  | cons c t =>
    unfold parseSign
    dsimp only
    split_ifs
    · exact .inr rfl
    · exact .inl rfl

/-- So are digits before the point. -/
theorem isInt_parseInt {t i u : Text} (h : parseInt t = some (i, u)) : IsInt i := by
  cases t with
  | nil => exact nomatch h
  | cons c t =>
    unfold parseInt at h
    dsimp only at h
    split_ifs at h with h0 hd
    · obtain ⟨rfl, -⟩ := Prod.mk.inj (Option.some.inj h)
      exact .inl rfl
    · have hi : (digits (c :: t)).1 = i := congrArg Prod.fst (Option.some.inj h)
      have hc : (digits (c :: t)).1 = c :: t.takeWhile isDigit := by simp [digits, hd]
      rw [← hi]
      refine .inr ⟨digits_fst (by rw [hc]; exact List.cons_ne_nil _ _), ?_⟩
      rw [hc]
      exact fun h => h0 (Option.some.inj h)

/-- So is a fraction. -/
theorem isFrac_parseFrac (t : Text) : IsFrac (parseFrac t).1 := by
  cases t with
  | nil => exact .inl rfl
  | cons c t =>
    unfold parseFrac
    dsimp only
    split_ifs with h
    · exact .inr ⟨_, digits_fst h.2, rfl⟩
    · exact .inl rfl

/-- So is an exponent. -/
theorem isExp_parseExp (t : Text) : IsExp (parseExp t).1 := by
  cases t with
  | nil => exact .inl rfl
  | cons e t =>
    have hs : (parseExpSign t).1 = [] ∨ (parseExpSign t).1 = [43] ∨ (parseExpSign t).1 = [45] := by
      cases t with
      | nil => exact .inl rfl
      | cons c t =>
        unfold parseExpSign
        dsimp only
        split_ifs with hc
        · rcases hc with rfl | rfl
          · exact .inr (.inl rfl)
          · exact .inr (.inr rfl)
        · exact .inl rfl
    unfold parseExp
    dsimp only
    split_ifs with h
    · exact .inr ⟨e, _, _, h.1, hs, digits_fst h.2, rfl⟩
    · exact .inl rfl

/-- A number that is read has valid parts. -/
theorem spelled_parseNumber {t u : Text} {x : Raw} (h : parseNumber t = some (x, u)) : Spelled x := by
  obtain ⟨⟨i, v⟩, hi, h⟩ := Option.bind_eq_some_iff.1 h
  obtain ⟨rfl, -⟩ := Prod.mk.inj (Option.some.inj h)
  exact .number ⟨isSign_parseSign t, isInt_parseInt hi, isFrac_parseFrac _, isExp_parseExp _⟩

/-- A name that is read is spelled. -/
theorem spelled_parseName {t u : Text} {x : Raw} (h : parseName t = some (x, u)) : Spelled x := by
  unfold parseName at h
  split at h
  · next p hp =>
    obtain ⟨rfl, -⟩ := Prod.mk.inj (Option.some.inj h)
    have hm := List.mem_of_find?_eq_some hp
    simp only [names_eq, List.mem_cons, List.not_mem_nil, or_false] at hm
    rcases hm with rfl | rfl | rfl | rfl | rfl | rfl
    · exact .null
    · exact .bool
    · exact .bool
    all_goals exact .constant
  · exact spelled_parseNumber h

/-- What every function of the reader gives back, up to a bound. -/
structure SpelledUpTo (n : ℕ) : Prop where
  value : ∀ {t u x}, parseValue n t = some (x, u) → Spelled x
  items : ∀ {t u xs}, parseItems n t = some (xs, u) → ∀ x ∈ xs, Spelled x
  members : ∀ {t u ms}, parseMembers n t = some (ms, u) → ∀ k x, (k, x) ∈ ms → Spelled x
  member : ∀ {t u k x}, parseMember n t = some ((k, x), u) → Spelled x

/-- **What is read is spelled**, by induction on the fuel. -/
theorem spelledUpTo : ∀ n, SpelledUpTo n
  | 0 => ⟨nofun, nofun, nofun, nofun⟩
  | n + 1 => by
    have ih := spelledUpTo n
    refine ⟨fun {t u x} h => ?_, fun {t u xs} h => ?_, fun {t u ms} h => ?_, fun {t u k x} h => ?_⟩
    · cases t with
      | nil => exact nomatch h
      | cons c t =>
        unfold parseValue at h
        split_ifs at h
        · obtain ⟨p, -, h⟩ := Option.map_eq_some_iff.1 h
          obtain ⟨rfl, -⟩ := Prod.mk.inj h
          exact .str
        · obtain ⟨rfl, -⟩ := Prod.mk.inj (Option.some.inj h)
          exact .arr nofun
        · obtain ⟨p, hp, h⟩ := Option.map_eq_some_iff.1 h
          obtain ⟨rfl, -⟩ := Prod.mk.inj h
          exact .arr (ih.items hp)
        · obtain ⟨rfl, -⟩ := Prod.mk.inj (Option.some.inj h)
          exact .obj nofun
        · obtain ⟨p, hp, h⟩ := Option.map_eq_some_iff.1 h
          obtain ⟨rfl, -⟩ := Prod.mk.inj h
          exact .obj (ih.members hp)
        · exact spelled_parseName h
    · obtain ⟨⟨x, v⟩, hx, h⟩ := Option.bind_eq_some_iff.1 h
      dsimp only at h
      cases hv : skip v with
      | nil =>
        rw [hv] at h
        exact nomatch h
      | cons c w =>
        rw [hv] at h
        dsimp only at h
        split_ifs at h
        · obtain ⟨p, hp, h⟩ := Option.map_eq_some_iff.1 h
          obtain ⟨rfl, -⟩ := Prod.mk.inj h
          intro y hy
          rcases List.mem_cons.1 hy with rfl | hy
          · exact ih.value hx
          · exact ih.items hp y hy
        · obtain ⟨rfl, -⟩ := Prod.mk.inj (Option.some.inj h)
          intro y hy
          obtain rfl := List.mem_singleton.1 hy
          exact ih.value hx
    · obtain ⟨⟨⟨k, x⟩, v⟩, hx, h⟩ := Option.bind_eq_some_iff.1 h
      dsimp only at h
      cases hv : skip v with
      | nil =>
        rw [hv] at h
        exact nomatch h
      | cons c w =>
        rw [hv] at h
        dsimp only at h
        split_ifs at h
        · obtain ⟨p, hp, h⟩ := Option.map_eq_some_iff.1 h
          obtain ⟨rfl, -⟩ := Prod.mk.inj h
          intro l y hy
          rcases List.mem_cons.1 hy with hy | hy
          · obtain ⟨rfl, rfl⟩ := Prod.mk.inj hy
            exact ih.member hx
          · exact ih.members hp l y hy
        · obtain ⟨rfl, -⟩ := Prod.mk.inj (Option.some.inj h)
          intro l y hy
          obtain ⟨rfl, rfl⟩ := Prod.mk.inj (List.mem_singleton.1 hy)
          exact ih.member hx
    · unfold parseMember at h
      cases ht : skip t with
      | nil =>
        rw [ht] at h
        exact nomatch h
      | cons c w =>
        rw [ht] at h
        dsimp only at h
        split_ifs at h
        obtain ⟨⟨ps, v⟩, -, h⟩ := Option.bind_eq_some_iff.1 h
        dsimp only at h
        cases hv : skip v with
        | nil =>
          rw [hv] at h
          exact nomatch h
        | cons d z =>
          rw [hv] at h
          dsimp only at h
          split_ifs at h
          obtain ⟨p, hp, h⟩ := Option.map_eq_some_iff.1 h
          obtain ⟨⟨rfl, rfl⟩, -⟩ := And.imp_left Prod.mk.inj (Prod.mk.inj h)
          exact ih.value hp

/-- What the parser accepts is spelled. -/
theorem spelled_parse {t : Text} {x : Raw} (h : parse t = some x) : Spelled x := by
  obtain ⟨⟨y, u⟩, hy, h⟩ := Option.bind_eq_some_iff.1 h
  obtain ⟨-, h⟩ := Option.ite_none_right_eq_some.1 h
  obtain rfl := Option.some.inj h
  exact (spelledUpTo _).value hy

end Text
end MorpheusGateway
