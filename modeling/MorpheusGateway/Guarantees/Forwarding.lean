/-
# Accepted JSON survives forwarding

A value that `strict_json` accepts is bounded, and what `json.dumps` writes of it is
accepted again as the same value: the walk has seen every string and every float, an
integer is written with no more characters than it was read from, and members were
distinct.
-/

import MorpheusGateway.StrictJson

namespace MorpheusGateway
namespace Text

/-! ### What the walk has seen -/

/-- `u` is in the value, `n` levels below it; the names of an object are, too. -/
inductive Occurs : Value → ℕ → Value → Prop
  | here {x} : Occurs x 0 x
  | inside {x y n u} (child : y ∈ x.children) (rest : Occurs y n u) : Occurs x (n + 1) u

/-- A float is finite, and a string can be encoded. -/
def Fit : Value → Prop
  | .float _ v => ∃ q, v = .finite q
  | .str s => ∃ bs, utf8 s = some bs
  | _ => True

/-- The check of one node passes exactly where the node fits. -/
theorem plain_ok {x : Value} : x.plain = .ok () ↔ Fit x := by
  cases x with
  | float text v => cases v <;> simp [Value.plain, Fit]
  | str s => cases h : utf8 s <;> simp [Value.plain, Fit, h]
  | _ => simp [Value.plain, Fit]

/-- Everything in the value is at most so many levels down, and fit. -/
def Bounded (x : Value) (levels : ℕ) : Prop := ∀ n u, Occurs x n u → n ≤ levels ∧ Fit u

/-- A value is bounded by the depth that is left, if its children are by one less. -/
theorem bounded_iff {x : Value} {d : ℕ} (hd : d ≤ 64) : Bounded x (64 - d) ↔
    Fit x ∧ ∀ y ∈ x.children, d + 1 ≤ 64 ∧ Bounded y (64 - (d + 1)) := by
  constructor
  · intro h
    refine ⟨(h 0 x .here).2, fun y hy => ?_⟩
    have h1 := (h 1 y (.inside hy .here)).1
    refine ⟨by omega, fun n u hu => ?_⟩
    obtain ⟨hn, hf⟩ := h (n + 1) u (.inside hy hu)
    exact ⟨by omega, hf⟩
  · rintro ⟨hf, hc⟩ n u hu
    cases hu with
    | here => exact ⟨Nat.zero_le _, hf⟩
    | inside hy hu =>
      obtain ⟨h1, hb⟩ := hc _ hy
      obtain ⟨hn, hf⟩ := hb _ u hu
      exact ⟨by omega, hf⟩

/-- **The walk accepts what is bounded**, of every entry that is pending. -/
theorem walk_ok : ∀ pending : List (Value × ℕ), walk pending = .ok () ↔
    ∀ p ∈ pending, p.2 ≤ 64 ∧ Bounded p.1 (64 - p.2)
  | [] => by simp [walk]
  | (item, depth) :: pending => by
    have ih := walk_ok ((item.children.map fun x => (x, depth + 1)).reverse ++ pending)
    rw [walk, List.forall_mem_cons]
    by_cases hd : 64 < depth
    · rw [if_pos hd]
      exact iff_of_false (fun h => by cases h) fun h => absurd h.1.1 (by omega)
    · rw [if_neg hd]
      have hle : depth ≤ 64 := Nat.not_lt.1 hd
      cases hp : item.plain with
      | error e =>
        refine iff_of_false (fun h => by cases h) fun h => ?_
        have := plain_ok.2 ((bounded_iff hle).1 h.1.2).1
        rw [hp] at this
        cases this
      | ok u =>
        have hf : Fit item := plain_ok.1 hp
        refine ih.trans ?_
        rw [List.forall_mem_append, bounded_iff hle]
        simp [hle, hf]
  termination_by pending => (pending.map fun p => p.1.weight).sum
  decreasing_by
    have := item.weight_children
    simp [List.sum_reverse, Function.comp_def]
    omega

/-- **The tree check accepts the values of at most 64 levels whose nodes fit**, unchanged. -/
theorem validJsonTree_ok {x y : Value} : validJsonTree x = .ok y ↔ Bounded x 64 ∧ x = y := by
  have hw := walk_ok [(x, 0)]
  simp only [List.mem_singleton, forall_eq, Nat.zero_le, true_and, Nat.sub_zero] at hw
  unfold validJsonTree
  cases h : walk [(x, 0)] with
  | error e =>
    rw [h] at hw
    exact iff_of_false nofun fun hb => nomatch hw.2 hb.1
  | ok u =>
    have hb := hw.1 h
    constructor
    · intro h
      exact ⟨hb, Except.ok.inj h⟩
    · rintro ⟨-, rfl⟩
      rfl

/-! ### What the hooks have seen -/

/-- What a text may spell out: short integers, no constants, and members with distinct
names. -/
inductive Proper : Raw → Prop
  | null : Proper .null
  | bool {b} : Proper (.bool b)
  | int {literal} (short : literal.length ≤ 256) : Proper (.int literal)
  | float {literal} : Proper (.float literal)
  | str {s} : Proper (.str s)
  | arr {xs} (items : ∀ x ∈ xs, Proper x) : Proper (.arr xs)
  | obj {ms} (distinct : (ms.map Prod.fst).Nodup) (values : ∀ k x, (k, x) ∈ ms → Proper x) :
      Proper (.obj ms)

/-- An integer is read if its literal has no more than 256 characters. -/
theorem integer_ok {literal : Text} {n : ℤ} :
    integer literal = .ok n ↔ literal.length ≤ 256 ∧ intValue literal = n := by
  unfold integer
  split_ifs with h
  · exact iff_of_false nofun fun hn => absurd hn.1 (by omega)
  · simp [Nat.not_lt.1 h]

/-- The loop of `pairs` refuses a name that was there before. -/
theorem pairs_ok : ∀ {items result : List (Text × Value)} {x : Value},
    (result.map Prod.fst).Nodup → (pairs result items = .ok x ↔
      ((result ++ items).map Prod.fst).Nodup ∧ .obj (result ++ items) = x)
  | [], result, x, h => by simp [pairs, h]
  | (k, y) :: items, result, x, h => by
    rw [pairs]
    by_cases hk : k ∈ result.map Prod.fst
    · have ha : (result.any fun m => m.1 = k) = true := by
        obtain ⟨m, hm, rfl⟩ := List.mem_map.1 hk
        exact List.any_eq_true.2 ⟨m, hm, by simp⟩
      rw [if_pos ha]
      refine iff_of_false nofun fun hn => ?_
      rw [List.map_append, List.nodup_append] at hn
      exact hn.1.2.2 k hk k (.head _) rfl
    · have ha : ¬(result.any fun m => m.1 = k) = true := by
        intro ha
        obtain ⟨m, hm, hmk⟩ := List.any_eq_true.1 ha
        exact hk (List.mem_map.2 ⟨m, hm, of_decide_eq_true hmk⟩)
      rw [if_neg ha, pairs_ok (by
        rw [List.map_append, List.nodup_append]
        refine ⟨h, by simp, fun a hm b hb hab => ?_⟩
        obtain rfl : b = k := List.mem_singleton.1 hb
        exact hk (hab ▸ hm)), List.append_assoc]
      rfl

/-- A sequence returns if both parts do. -/
theorem bind_ok {α β ε : Type} {x : Except ε α} {f : α → Except ε β} {b : β} :
    x.bind f = .ok b ↔ ∃ a, x = .ok a ∧ f a = .ok b := by
  cases x <;> simp [Except.bind]

/-- The result of a call that returns is mapped. -/
theorem map_ok {α β ε : Type} {x : Except ε α} {f : α → β} {b : β} :
    x.map f = .ok b ↔ ∃ a, x = .ok a ∧ f a = b := by
  cases x <;> simp [Except.map]

variable {L : Loader}

section Build

variable {x : Raw} {k : Text} {xs : List Raw} {ms : List (Text × Raw)}

/-- A list is built item by item. -/
theorem buildItems_cons {vs : List Value} : buildItems L (x :: xs) = .ok vs ↔
    ∃ v ws, build L x = .ok v ∧ buildItems L xs = .ok ws ∧ v :: ws = vs := by
  rw [buildItems]
  change (build L x).bind _ = _ ↔ _
  rw [bind_ok]
  constructor
  · rintro ⟨v, hv, h⟩
    obtain ⟨ws, hws, h⟩ := bind_ok.1 h
    exact ⟨v, ws, hv, hws, Except.ok.inj h⟩
  · rintro ⟨v, ws, hv, hws, rfl⟩
    exact ⟨v, hv, bind_ok.2 ⟨ws, hws, rfl⟩⟩

/-- An object is built member by member. -/
theorem buildMembers_cons {vs : List (Text × Value)} : buildMembers L ((k, x) :: ms) = .ok vs ↔
    ∃ v ws, build L x = .ok v ∧ buildMembers L ms = .ok ws ∧ (k, v) :: ws = vs := by
  rw [buildMembers]
  change (build L x).bind _ = _ ↔ _
  rw [bind_ok]
  constructor
  · rintro ⟨v, hv, h⟩
    obtain ⟨ws, hws, h⟩ := bind_ok.1 h
    exact ⟨v, ws, hv, hws, Except.ok.inj h⟩
  · rintro ⟨v, ws, hv, hws, rfl⟩
    exact ⟨v, hv, bind_ok.2 ⟨ws, hws, rfl⟩⟩

/-- A list is built of its items. -/
theorem build_arr {v : Value} :
    build L (.arr xs) = .ok v ↔ ∃ vs, buildItems L xs = .ok vs ∧ .arr vs = v := by
  rw [build, map_ok]

/-- An object is built of its members, if their names are distinct. -/
theorem build_obj {v : Value} : build L (.obj ms) = .ok v ↔
    ∃ vs, buildMembers L ms = .ok vs ∧ (vs.map Prod.fst).Nodup ∧ .obj vs = v := by
  rw [build]
  change (buildMembers L ms).bind _ = _ ↔ _
  rw [bind_ok]
  refine exists_congr fun vs => and_congr_right fun _ => ?_
  rw [pairs_ok (by simp)]
  rfl

/-- The names of an object are the names in its text. -/
theorem names_buildMembers : ∀ {ms : List (Text × Raw)} {vs : List (Text × Value)},
    buildMembers L ms = .ok vs → vs.map Prod.fst = ms.map Prod.fst
  | [], vs, h => by
    obtain rfl := Except.ok.inj h
    rfl
  | (k, x) :: ms, vs, h => by
    obtain ⟨v, ws, -, hws, rfl⟩ := buildMembers_cons.1 h
    rw [List.map_cons, List.map_cons, names_buildMembers hws]

end Build

mutual
/-- **The hooks accept what is proper.** -/
theorem build_ok : ∀ x : Raw, (∃ v, build L x = .ok v) ↔ Proper x
  | .null => ⟨fun _ => .null, fun _ => ⟨_, rfl⟩⟩
  | .bool _ => ⟨fun _ => .bool, fun _ => ⟨_, rfl⟩⟩
  | .float _ => ⟨fun _ => .float, fun _ => ⟨_, rfl⟩⟩
  | .str _ => ⟨fun _ => .str, fun _ => ⟨_, rfl⟩⟩
  | .constant => ⟨fun ⟨_, h⟩ => (nomatch h), fun h => (nomatch h)⟩
  | .int literal => by
    constructor
    · rintro ⟨v, h⟩
      obtain ⟨n, hn, -⟩ := map_ok.1 h
      exact .int (integer_ok.1 hn).1
    · intro h
      cases h with
      | int short => exact ⟨_, map_ok.2 ⟨_, integer_ok.2 ⟨short, rfl⟩, rfl⟩⟩
  | .arr xs => by
    have ih := buildItems_ok xs
    constructor
    · rintro ⟨v, h⟩
      obtain ⟨vs, hvs, -⟩ := build_arr.1 h
      exact .arr (ih.1 ⟨vs, hvs⟩)
    · intro h
      cases h with
      | arr items =>
        obtain ⟨vs, hvs⟩ := ih.2 items
        exact ⟨_, build_arr.2 ⟨vs, hvs, rfl⟩⟩
  | .obj ms => by
    have ih := buildMembers_ok ms
    constructor
    · rintro ⟨v, h⟩
      obtain ⟨vs, hvs, hn, -⟩ := build_obj.1 h
      exact .obj (names_buildMembers hvs ▸ hn) (ih.1 ⟨vs, hvs⟩)
    · intro h
      cases h with
      | obj distinct values =>
        obtain ⟨vs, hvs⟩ := ih.2 values
        exact ⟨_, build_obj.2 ⟨vs, hvs, names_buildMembers hvs ▸ distinct, rfl⟩⟩

/-- A list is built exactly where every item is proper. -/
theorem buildItems_ok : ∀ xs : List Raw, (∃ vs, buildItems L xs = .ok vs) ↔ ∀ x ∈ xs, Proper x
  | [] => ⟨fun _ => nofun, fun _ => ⟨_, rfl⟩⟩
  | x :: xs => by
    have hx := build_ok x
    have hxs := buildItems_ok xs
    rw [List.forall_mem_cons, ← hx, ← hxs]
    constructor
    · rintro ⟨vs, h⟩
      obtain ⟨v, ws, hv, hws, -⟩ := buildItems_cons.1 h
      exact ⟨⟨v, hv⟩, ws, hws⟩
    · rintro ⟨⟨v, hv⟩, ws, hws⟩
      exact ⟨_, buildItems_cons.2 ⟨v, ws, hv, hws, rfl⟩⟩

/-- An object is built exactly where every value is proper. -/
theorem buildMembers_ok : ∀ ms : List (Text × Raw),
    (∃ vs, buildMembers L ms = .ok vs) ↔ ∀ k x, (k, x) ∈ ms → Proper x
  | [] => ⟨fun _ => nofun, fun _ => ⟨_, rfl⟩⟩
  | (k, x) :: ms => by
    have hx := build_ok x
    have hms := buildMembers_ok ms
    constructor
    · rintro ⟨vs, h⟩ l y hy
      obtain ⟨v, ws, hv, hws, -⟩ := buildMembers_cons.1 h
      rcases List.mem_cons.1 hy with hy | hy
      · obtain ⟨rfl, rfl⟩ := Prod.mk.inj hy
        exact hx.1 ⟨v, hv⟩
      · exact hms.1 ⟨ws, hws⟩ l y hy
    · intro h
      obtain ⟨v, hv⟩ := hx.2 (h k x (.head _))
      obtain ⟨ws, hws⟩ := hms.2 fun l y hy => h l y (.tail _ hy)
      exact ⟨_, buildMembers_cons.2 ⟨v, ws, hv, hws, rfl⟩⟩
end

/-! ### What is accepted is written and accepted again -/

/-- Exactly the texts of characters can be encoded. -/
theorem utf8_iff {s : Text} : (∃ bs, utf8 s = some bs) ↔ AllChars s := by
  have chars : (∃ cs, s.mapM toChar = some cs) ↔ AllChars s := by
    induction s with
    | nil => exact ⟨fun _ => allChars_nil, fun _ => ⟨[], rfl⟩⟩
    | cons c s ih =>
      rw [allChars_cons, ← ih, List.mapM_cons]
      by_cases hc : c.isValidChar
      · have hv : IsChar c := hc
        rw [toChar, dif_pos hc]
        cases s.mapM toChar with
        | none =>
          constructor
          · rintro ⟨cs, e⟩
            cases e
          · rintro ⟨-, cs, e⟩
            cases e
        | some ds => exact ⟨fun _ => ⟨hv, ds, rfl⟩, fun _ => ⟨_, rfl⟩⟩
      · have hv : ¬IsChar c := hc
        rw [toChar, dif_neg hc]
        simp [hv]
  unfold utf8
  rw [← chars]
  simp

/-- A value that its own text gives back: integers are short, floats and strings are written
as what they are, and names are distinct. -/
inductive Lasting (L : Loader) : Value → Prop
  | null : Lasting L .null
  | bool {b} : Lasting L (.bool b)
  | int {n} (short : (intText n).length ≤ 256) : Lasting L (.int n)
  | float {text q} (number : IsFloat text) (same : L.toFloat text = (text, .finite q)) :
      Lasting L (.float text (.finite q))
  | str {s} (chars : AllChars s) : Lasting L (.str s)
  | arr {xs} (items : ∀ x ∈ xs, Lasting L x) : Lasting L (.arr xs)
  | obj {ms} (distinct : (ms.map Prod.fst).Nodup) (names : ∀ m ∈ ms, AllChars m.1)
      (values : ∀ k x, (k, x) ∈ ms → Lasting L x) : Lasting L (.obj ms)

/-- What lasts can be printed. -/
theorem Lasting.printable {x : Value} (h : Lasting L x) : Printable x := by
  induction h with
  | null => exact .null
  | bool => exact .bool
  | int => exact .int
  | float number => exact .float number
  | str chars => exact .str chars
  | arr _ ih => exact .arr ih
  | obj _ names _ ih => exact .obj names ih

mutual
/-- What is written of it is built again. -/
theorem build_raw : ∀ {x : Value}, Lasting L x → build L x.raw = .ok x
  | .null, _ => rfl
  | .bool _, _ => rfl
  | .int n, h => by
    cases h with
    | int short => exact map_ok.2 ⟨n, integer_ok.2 ⟨short, intValue_intText n⟩, rfl⟩
  | .float text v, h => by
    cases h with
    | float number same =>
      rw [Value.raw, build, same]
  | .str _, _ => rfl
  | .arr xs, h => by
    cases h with
    | arr items => exact build_arr.2 ⟨xs, buildItems_raw items, rfl⟩
  | .obj ms, h => by
    cases h with
    | obj distinct names values => exact build_obj.2 ⟨ms, buildMembers_raw values, distinct, rfl⟩

/-- Items that last are built again. -/
theorem buildItems_raw : ∀ {xs : List Value}, (∀ x ∈ xs, Lasting L x) →
    buildItems L (rawItems xs) = .ok xs
  | [], _ => rfl
  | x :: xs, h => buildItems_cons.2
      ⟨x, xs, build_raw (h x (.head _)), buildItems_raw fun y hy => h y (.tail _ hy), rfl⟩

/-- So are members. -/
theorem buildMembers_raw : ∀ {ms : List (Text × Value)}, (∀ k x, (k, x) ∈ ms → Lasting L x) →
    buildMembers L (rawMembers ms) = .ok ms
  | [], _ => rfl
  | (k, x) :: ms, h => buildMembers_cons.2
      ⟨x, ms, build_raw (h k x (.head _)), buildMembers_raw fun l y hy => h l y (.tail _ hy), rfl⟩
end

/-- Everything in the value is fit. -/
def AllFit (x : Value) : Prop := ∀ n u, Occurs x n u → Fit u

/-- The children of a value that fits at every node do. -/
theorem AllFit.child {x y : Value} (h : AllFit x) (hy : y ∈ x.children) : AllFit y :=
  fun n u hu => h (n + 1) u (.inside hy hu)

/-- A string that fits has characters only. -/
theorem AllFit.str {s : Text} (h : AllFit (.str s)) : AllChars s := utf8_iff.1 (h 0 _ .here)

/-- The members of an object that fits at every node do, with their names. -/
theorem AllFit.member {ms : List (Text × Value)} (h : AllFit (.obj ms)) {k : Text} {x : Value}
    (hm : (k, x) ∈ ms) : AllChars k ∧ AllFit x :=
  ⟨(h.child (List.mem_flatMap.2 ⟨(k, x), hm, .head _⟩)).str,
    h.child (List.mem_flatMap.2 ⟨(k, x), hm, .tail _ (.head _)⟩)⟩

mutual
/-- **What was read and is fit lasts.** -/
theorem lasting_of_build : ∀ {x : Raw} {v : Value}, Spelled x → build L x = .ok v → AllFit v →
    Lasting L v
  | .null, v, _, h, _ => by
    obtain rfl := Except.ok.inj h
    exact .null
  | .bool _, v, _, h, _ => by
    obtain rfl := Except.ok.inj h
    exact .bool
  | .constant, v, _, h, _ => nomatch h
  | .str _, v, _, h, hf => by
    obtain rfl := Except.ok.inj h
    exact .str hf.str
  | .int literal, v, hs, h, _ => by
    obtain ⟨n, hn, rfl⟩ := map_ok.1 h
    obtain ⟨hl, rfl⟩ := integer_ok.1 hn
    obtain ⟨m, hm, rfl⟩ := hs.int
    exact .int ((length_intText hm).trans hl)
  | .float literal, v, hs, h, hf => by
    obtain rfl := Except.ok.inj h
    obtain ⟨q, hq⟩ : ∃ q, (L.toFloat literal).2 = .finite q := hf 0 _ .here
    obtain ⟨number, same⟩ := L.toFloat_repr literal hs.float (L.toFloat literal).1 q (Prod.ext rfl hq)
    rw [hq]
    exact .float number same
  | .arr xs, v, hs, h, hf => by
    obtain ⟨vs, hvs, rfl⟩ := build_arr.1 h
    exact .arr (lasting_of_buildItems hs.items hvs fun y hy => hf.child hy)
  | .obj ms, v, hs, h, hf => by
    obtain ⟨vs, hvs, hn, rfl⟩ := build_obj.1 h
    exact .obj hn (fun (k, y) hm => (hf.member hm).1)
      (lasting_of_buildMembers hs.values hvs fun k y hy => (hf.member hy).2)

/-- The items that are built last, if they fit. -/
theorem lasting_of_buildItems : ∀ {xs : List Raw} {vs : List Value}, (∀ x ∈ xs, Spelled x) →
    buildItems L xs = .ok vs → (∀ y ∈ vs, AllFit y) → ∀ y ∈ vs, Lasting L y
  | [], vs, _, h, _ => by
    obtain rfl := Except.ok.inj h
    nofun
  | x :: xs, vs, hs, h, hf => by
    obtain ⟨v, ws, hv, hws, rfl⟩ := buildItems_cons.1 h
    rw [List.forall_mem_cons] at hs hf ⊢
    exact ⟨lasting_of_build hs.1 hv hf.1, lasting_of_buildItems hs.2 hws hf.2⟩

/-- So do the members. -/
theorem lasting_of_buildMembers : ∀ {ms : List (Text × Raw)} {vs : List (Text × Value)},
    (∀ k x, (k, x) ∈ ms → Spelled x) → buildMembers L ms = .ok vs →
    (∀ k y, (k, y) ∈ vs → AllFit y) → ∀ k y, (k, y) ∈ vs → Lasting L y
  | [], vs, _, h, _ => by
    obtain rfl := Except.ok.inj h
    nofun
  | (l, x) :: ms, vs, hs, h, hf => by
    obtain ⟨v, ws, hv, hws, rfl⟩ := buildMembers_cons.1 h
    intro k y hy
    rcases List.mem_cons.1 hy with hy | hy
    · obtain ⟨rfl, rfl⟩ := Prod.mk.inj hy
      exact lasting_of_build (hs _ _ (.head _)) hv (hf _ _ (.head _))
    · exact lasting_of_buildMembers (fun k x hx => hs k x (.tail _ hx)) hws
        (fun k y hy => hf k y (.tail _ hy)) k y hy
end

/-! ### The theorem -/

/-- **What `strict_json` accepts**: a text that is spelled, built and bounded. -/
theorem strictJson_ok {bs : List UInt8} {v : Value} : strictJson L bs = .ok v ↔
    ∃ r, spell L bs = some r ∧ build L r = .ok v ∧ Bounded v 64 := by
  unfold strictJson
  cases spell L bs with
  | none => simp
  | some r =>
    dsimp only
    change (build L r).bind validJsonTree = _ ↔ _
    rw [bind_ok]
    constructor
    · rintro ⟨x, hx, h⟩
      obtain ⟨hb, rfl⟩ := validJsonTree_ok.1 h
      exact ⟨r, rfl, hx, hb⟩
    · rintro ⟨r', hr, hx, hb⟩
      obtain rfl := Option.some.inj hr
      exact ⟨v, hx, validJsonTree_ok.2 ⟨hb, rfl⟩⟩

/-- A JSON text is decoded and read as what it spells out. -/
theorem spell_of_isText {t : Text} {r : Raw} {bs : List UInt8} (h : IsText t r)
    (hb : utf8 t = some bs) : spell L bs = some r := by
  obtain ⟨w, u, v, hw, hu, hv, ht⟩ := id h
  have low : Low t := by
    rw [ht]
    simp [hw.plain.low, hu.low, hv.plain.low]
  have mark : t.head? ≠ some 0xfeff := by
    cases w with
    | nil =>
      obtain ⟨c, z, rfl, -, -, -, hc⟩ := hu.head
      rw [ht]
      intro hh
      obtain rfl := Option.some.inj hh
      exact absurd hc (by decide)
    | cons c w =>
      rw [ht]
      intro hh
      obtain rfl := Option.some.inj hh
      exact absurd (hw _ (.head _)) (by decide)
  have hd := L.decode_utf8 t bs hb (fun h0 => absurd (low 0 h0) (by decide)) mark
  unfold spell
  rw [hd]
  exact parse_of_isText h

/-- What is accepted is bounded and given back by its own text. -/
theorem lasting_of_strictJson {bs : List UInt8} {v : Value} (h : strictJson L bs = .ok v) :
    Lasting L v ∧ Bounded v 64 := by
  obtain ⟨r, hr, hv, hb⟩ := strictJson_ok.1 h
  obtain ⟨t, -, ht⟩ := Option.bind_eq_some_iff.1 hr
  exact ⟨lasting_of_build (spelled_parse ht) hv fun n u hu => (hb n u hu).2, hb⟩

/-- With the separators of JSON, what is written of it is accepted. -/
theorem strictJson_written {v : Value} (hl : Lasting L v) (hb : Bounded v 64) {st : Style}
    (hi : Separates 44 st.item) (hk : Separates 58 st.key) {t : Text} (ht : write st v = some t) :
    ∃ bs, utf8 t = some bs ∧ strictJson L bs = .ok v := by
  obtain ⟨t', ht', hval, hc⟩ := isValue_write hi hk hl.printable
  obtain rfl := Option.some.inj (ht.symm.trans ht')
  obtain ⟨bs, hbs⟩ := utf8_iff.2 hc
  have text : IsText t v.raw := ⟨[], t, [], blank_nil, hval, blank_nil, by simp⟩
  exact ⟨bs, hbs, strictJson_ok.2 ⟨v.raw, spell_of_isText text hbs, build_raw hl, hb⟩⟩

/-- **Accepted JSON survives forwarding.**  What `strict_json` accepts is at most 64 levels
deep, names included, with finite numbers and strings that can be encoded; its text had no
repeated member and no integer of more than 256 characters.  It can be written with any
separators, and with those of JSON it is accepted again as the same value.  Every JSON text
that meets these conditions is accepted. -/
theorem acceptedSurvives (L : Loader) :
    (∀ bs v, strictJson L bs = .ok v →
      (∃ r, spell L bs = some r ∧ Proper r) ∧ Bounded v 64 ∧
      ∀ st : Style, ∃ t, write st v = some t ∧
        (Separates 44 st.item → Separates 58 st.key →
          ∃ bs', utf8 t = some bs' ∧ strictJson L bs' = .ok v)) ∧
    ∀ t r bs, IsText t r → utf8 t = some bs → Proper r →
      ∃ v, build L r = .ok v ∧ (Bounded v 64 → strictJson L bs = .ok v) := by
  refine ⟨fun bs v h => ?_, fun t r bs ht hb hp => ?_⟩
  · obtain ⟨r, hr, hv, -⟩ := strictJson_ok.1 h
    obtain ⟨hl, hb⟩ := lasting_of_strictJson h
    refine ⟨⟨r, hr, (build_ok r).1 ⟨v, hv⟩⟩, hb, fun st => ?_⟩
    obtain ⟨t, ht⟩ := write_some st hl.printable
    exact ⟨t, ht, fun hi hk => strictJson_written hl hb hi hk ht⟩
  · obtain ⟨v, hv⟩ := (build_ok (L := L) r).2 hp
    exact ⟨v, hv, fun hbd => strictJson_ok.2 ⟨r, spell_of_isText ht hb, hv, hbd⟩⟩

/-- The value of the text of a number. -/
def decimalValue (t : Text) : ℚ :=
  let (sign, t) := parseSign t
  let (int, t) := (parseInt t).getD ([], t)
  let (frac, t) := parseFrac t
  let e := intValue (parseExp t).1.tail - frac.tail.length
  let q : ℚ := natValue (int ++ frac.tail) * 10 ^ e.toNat / 10 ^ (-e).toNat
  if sign = [] then q else -q

/-- A loader that decodes UTF-8 and keeps the text of a float as it is. -/
def Loader.exact : Loader where
  decode bs := bs.toByteArray.utf8Decode?.map fun cs => cs.toList.map Char.toNat
  toFloat literal := (literal, .finite (decimalValue literal))
  decode_utf8 t bs h _ _ := by
    obtain ⟨cs, hcs, rfl⟩ := Option.map_eq_some_iff.1 h
    have hc : ∀ {t : Text} {cs : List Char}, t.mapM toChar = some cs → cs.map Char.toNat = t := by
      intro t
      induction t with
      | nil =>
        intro cs h
        obtain rfl := Option.some.inj h
        rfl
      | cons c t ih =>
        intro cs h
        rw [List.mapM_cons] at h
        obtain ⟨d, hd, h⟩ := Option.bind_eq_some_iff.1 h
        obtain ⟨ds, hds, h⟩ := Option.bind_eq_some_iff.1 h
        obtain rfl : d :: ds = cs := Option.some.inj h
        by_cases hv : c.isValidChar
        · rw [toChar, dif_pos hv] at hd
          obtain rfl := Option.some.inj hd
          rw [List.map_cons, ih hds]
          rfl
        · rw [toChar, dif_neg hv] at hd
          cases hd
    have hu : (cs.flatMap String.utf8EncodeChar).toByteArray.utf8Decode? = some cs.toArray :=
      List.utf8Decode?_utf8Encode
    rw [hu]
    simp [hc hcs]
  toFloat_repr literal h text q hq := by
    obtain ⟨rfl, -⟩ := Prod.mk.inj hq
    exact ⟨h, hq⟩

/-- An object with an array in it. -/
def sampleValue : Value := .obj [([107], .arr [.int 1, .str [0x1f600]])]

/-- The sample lasts. -/
theorem lasting_sampleValue : Lasting .exact sampleValue := by
  refine .obj (by simp) (by simp [isChar_ascii]) fun k x hx => ?_
  obtain ⟨-, rfl⟩ := Prod.mk.inj (List.mem_singleton.1 hx)
  refine .arr fun y hy => ?_
  simp only [List.mem_cons, List.not_mem_nil, or_false] at hy
  rcases hy with rfl | rfl
  · exact .int (by simp [intText, natText])
  · exact .str (allChars_cons.2 ⟨.inr ⟨by decide, by decide⟩, allChars_nil⟩)

/-- It is not too deep. -/
theorem bounded_sampleValue : Bounded sampleValue 64 := by
  have name : utf8 [107] = some [107] := rfl
  have face : utf8 [0x1f600] = some [0xf0, 0x9f, 0x98, 0x80] := rfl
  have hw : validJsonTree sampleValue = .ok sampleValue := by
    simp [validJsonTree, sampleValue, walk, Value.plain, Value.children, name, face]
    rfl
  exact (validJsonTree_ok.1 hw).1

/-- Its text is accepted, and so is what is written of it without blanks. -/
theorem acceptedSurvives_sample : ∃ bs t bs', strictJson .exact bs = .ok sampleValue ∧
    write ⟨true, [44], [58]⟩ sampleValue = some t ∧ utf8 t = some bs' ∧
    strictJson .exact bs' = .ok sampleValue := by
  have comma : Separates 44 [44, 32] := ⟨[], [32], blank_nil, by simp [Blank, isBlank], rfl⟩
  have colon : Separates 58 [58, 32] := ⟨[], [32], blank_nil, by simp [Blank, isBlank], rfl⟩
  obtain ⟨t, (- : write ⟨false, [44, 32], [58, 32]⟩ sampleValue = some t), hval, hc⟩ :=
    @isValue_write ⟨false, [44, 32], [58, 32]⟩ comma colon _ lasting_sampleValue.printable
  obtain ⟨bs, hbs⟩ := utf8_iff.2 hc
  have text : IsText t sampleValue.raw := ⟨[], t, [], blank_nil, hval, blank_nil, by simp⟩
  have hv : strictJson .exact bs = .ok sampleValue := strictJson_ok.2
    ⟨_, spell_of_isText text hbs, build_raw lasting_sampleValue, bounded_sampleValue⟩
  obtain ⟨-, -, hw⟩ := (acceptedSurvives .exact).1 bs _ hv
  obtain ⟨t', ht, h⟩ := hw ⟨true, [44], [58]⟩
  obtain ⟨bs', hb, hs⟩ := h ⟨[], [], blank_nil, blank_nil, rfl⟩ ⟨[], [], blank_nil, blank_nil, rfl⟩
  exact ⟨bs, t', bs', hv, ht, hb, hs⟩

end Text
end MorpheusGateway
