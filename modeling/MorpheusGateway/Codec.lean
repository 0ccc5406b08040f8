/-
# Types with a JSON form

A `Codec` reads a type from JSON and writes it back.  Reading may normalise, so writing
does not give back the JSON that was read; what every codec carries is that its own
output is read as the same value, and so is never normalised again.

Codecs are put together as a schema is: a bound on a number, a list of items, a record
of named fields with their defaults, and a check over the whole record.
-/

import MorpheusGateway.Json
import Mathlib.Tactic.NormNum

namespace MorpheusGateway

/-- A type with a JSON form: what was read once is written in a form that is read as the
same value. -/
structure Codec (α : Type) where
  read : Json → Option α
  dump : α → Json
  stable : ∀ x v, read x = some v → read (dump v) = some v

namespace Codec

variable {α β ε : Type}

/-- The value is read back from what is written of it. -/
def Good (c : Codec α) (v : α) : Prop := c.read (c.dump v) = some v

/-- **What is read is good**: it is read back from what is written of it. -/
theorem good_of_read (c : Codec α) {x : Json} {v : α} (h : c.read x = some v) : c.Good v :=
  c.stable x v h

/-! ### Text, lists, alternatives -/

/-- A string. -/
def text : Codec String where
  read
    | .str s => some s
    | _ => none
  dump := .str
  stable _ _ _ := rfl

/-- Every text is good. -/
@[simp] theorem good_text (v : String) : text.Good v := rfl

/-- The values that pass a test. -/
def such (c : Codec α) (p : α → Bool) : Codec α where
  read x := (c.read x).filter p
  dump := c.dump
  stable x v h := by
    obtain ⟨hr, hp⟩ := Option.filter_eq_some_iff.1 h
    exact Option.filter_eq_some_iff.2 ⟨c.stable x v hr, hp⟩

/-- A checked value is good if it passes the check. -/
@[simp] theorem good_such {c : Codec α} {p : α → Bool} {v : α} :
    (c.such p).Good v ↔ c.Good v ∧ p v = true := Option.filter_eq_some_iff

/-- A value without its error is the value. -/
theorem toOption_eq_some {e : Except ε α} {a : α} : e.toOption = some a ↔ e = .ok a := by
  cases e <;> simp [Except.toOption]

/-- A value that is normalised after it is read, and stays as it is when normalised again. -/
def normalise (c : Codec α) (f : α → Except ε β) (back : β → α)
    (keeps : ∀ x a b, c.read x = some a → f a = .ok b → c.Good (back b) ∧ f (back b) = .ok b) :
    Codec β where
  read x := (c.read x).bind fun a => (f a).toOption
  dump b := c.dump (back b)
  stable x b h := by
    obtain ⟨a, ha, hb⟩ := Option.bind_eq_some_iff.1 h
    obtain ⟨hg, hf⟩ := keeps x a b ha (toOption_eq_some.1 hb)
    exact Option.bind_eq_some_iff.2 ⟨back b, hg, toOption_eq_some.2 hf⟩

/-- A normal form is good if it is its own. -/
theorem good_normalise {c : Codec α} {f : α → Except ε β} {back : β → α} {keeps} {b : β}
    (hg : c.Good (back b)) (hf : f (back b) = .ok b) : (c.normalise f back keeps).Good b :=
  Option.bind_eq_some_iff.2 ⟨back b, hg, toOption_eq_some.2 hf⟩

/-- One of the listed strings. -/
def literal (options : List (String × α)) (name : α → String)
    (h : ∀ a, options.lookup (name a) = some a) : Codec α where
  read
    | .str s => options.lookup s
    | _ => none
  dump a := .str (name a)
  stable _ a _ := h a

/-- Every option is good. -/
@[simp] theorem good_literal {options : List (String × α)} {name : α → String} {h} (a : α) :
    (literal options name h).Good a := h a

/-- A value or `None`. -/
def nullable (c : Codec α) (h : ∀ a, c.dump a ≠ .null) : Codec (Option α) where
  read x := if x = .null then some none else (c.read x).map some
  dump
    | none => .null
    | some a => c.dump a
  stable x v hv := by
    split_ifs at hv with hx
    · obtain rfl := Option.some.inj hv
      rfl
    · obtain ⟨a, ha, rfl⟩ := Option.map_eq_some_iff.1 hv
      simp only [h a, if_false]
      rw [c.stable x a ha]
      rfl

/-- The absence of a value is good. -/
@[simp] theorem good_nullable_none {c : Codec α} {h} : (c.nullable h).Good none := rfl

/-- Its presence is as good as the value. -/
@[simp] theorem good_nullable_some {c : Codec α} {h : ∀ a, c.dump a ≠ .null} {a : α} :
    (c.nullable h).Good (some a) ↔ c.Good a := by
  change (if c.dump a = .null then some none else (c.read (c.dump a)).map some) = some (some a) ↔ _
  rw [if_neg (h a)]
  simp [Good]

/-- Written items are read back one by one. -/
theorem mapM_dump (c : Codec α) : ∀ {vs : List α}, (∀ v ∈ vs, c.Good v) →
    (vs.map c.dump).mapM c.read = some vs
  | [], _ => rfl
  | v :: vs, h => by
    have hv : c.read (c.dump v) = some v := h v (.head _)
    rw [List.map_cons, List.mapM_cons, hv, mapM_dump c fun w hw => h w (.tail _ hw)]
    rfl

/-- The items that were read are as many as there were. -/
theorem mapM_read (c : Codec α) : ∀ {xs : List Json} {vs : List α}, xs.mapM c.read = some vs →
    vs.length = xs.length ∧ ∀ v, v ∈ vs ↔ ∃ x ∈ xs, c.read x = some v
  | [], vs, h => by
    obtain rfl : [] = vs := Option.some.inj h
    exact ⟨rfl, fun v => by simp⟩
  | x :: xs, vs, h => by
    rw [List.mapM_cons] at h
    obtain ⟨w, hw, h⟩ := Option.bind_eq_some_iff.1 h
    obtain ⟨ws, hws, h⟩ := Option.bind_eq_some_iff.1 h
    obtain rfl : w :: ws = vs := Option.some.inj h
    obtain ⟨hl, hm⟩ := mapM_read c hws
    refine ⟨congrArg (· + 1) hl, fun v => ?_⟩
    rw [List.mem_cons, hm]
    constructor
    · rintro (rfl | ⟨y, hy, hv⟩)
      · exact ⟨x, .head _, hw⟩
      · exact ⟨y, .tail _ hy, hv⟩
    · rintro ⟨y, hy, hv⟩
      rcases List.mem_cons.1 hy with rfl | hy
      · exact .inl (Option.some.inj (hv.symm.trans hw))
      · exact .inr ⟨y, hy, hv⟩

/-- A list; `limit` bounds its length as it is given. -/
def list (c : Codec α) (limit : Option ℕ) : Codec (List α) where
  read
    | .arr xs => if limit.all fun n => xs.length ≤ n then xs.mapM c.read else none
    | _ => none
  dump vs := .arr (vs.map c.dump)
  stable x vs h := by
    cases x with
    | arr xs =>
      dsimp only at h ⊢
      split_ifs at h with hl
      obtain ⟨hlen, hm⟩ := mapM_read c h
      rw [List.length_map, hlen, if_pos hl]
      refine mapM_dump c fun v hv => ?_
      obtain ⟨y, -, hy⟩ := (hm v).1 hv
      exact c.good_of_read hy
    | _ => exact nomatch h

/-- The lists that are read back are those within the limit, of items that are. -/
@[simp] theorem good_list {c : Codec α} {limit : Option ℕ} {vs : List α} :
    (c.list limit).Good vs ↔ (limit.all fun n => vs.length ≤ n) = true ∧ ∀ v ∈ vs, c.Good v := by
  have hr : (c.list limit).read ((c.list limit).dump vs) =
      if limit.all fun n => (vs.map c.dump).length ≤ n then (vs.map c.dump).mapM c.read else none :=
    rfl
  unfold Good
  rw [hr, List.length_map]
  constructor
  · intro h
    split_ifs at h with hl
    refine ⟨hl, fun v hv => ?_⟩
    obtain ⟨y, -, hy⟩ := ((mapM_read c h).2 v).1 hv
    exact c.good_of_read hy
  · rintro ⟨hl, hg⟩
    rw [if_pos hl]
    exact mapM_dump c hg

end Codec

/-! ### Records -/

/-- The members of an object by name.  Only the named ones matter to what is read, and
what was read is read back from the members that are written. -/
structure Record (τ : Type) where
  names : List String
  read : Json → Option τ
  members : τ → List (String × Json)
  named : ∀ v, (members v).map Prod.fst = names
  local_ : ∀ x y : Json, (∀ k ∈ names, x.get? k = y.get? k) → read x = read y
  stable : ∀ x v, read x = some v → read (.obj (members v)) = some v

namespace Record

variable {α τ σ ε : Type}

/-- No further fields. -/
def done : Record Unit where
  names := []
  read _ := some ()
  members _ := []
  named _ := rfl
  local_ _ _ _ := rfl
  stable _ _ _ := rfl

/-- The first member has the first name. -/
theorem get?_self (name : String) (x : Json) (l : List (String × Json)) :
    (Json.obj ((name, x) :: l)).get? name = some x := by
  simp [Json.get?]

/-- Other names are looked up behind it. -/
theorem get?_of_ne {name key : String} (x : Json) (l : List (String × Json)) (h : name ≠ key) :
    (Json.obj ((name, x) :: l)).get? key = (Json.obj l).get? key := by
  simp [Json.get?, h]

/-- The record is read back from the members that are written of it. -/
def Good (r : Record τ) (v : τ) : Prop := r.read (.obj (r.members v)) = some v

/-- A record without fields is good. -/
@[simp] theorem good_done : done.Good () := rfl

/-- What a field and the fields after it are read as.  An absent member is `default`. -/
def readField (name : String) (default : Option α) (c : Codec α) (rest : Record τ) (x : Json) :
    Option (α × τ) :=
  (match x.get? name with
    | some y => c.read y
    | none => default).bind fun a => (rest.read x).map fun t => (a, t)

/-- A field is read back from its own member, and the fields after it from theirs. -/
theorem readField_members {name : String} (default : Option α) {c : Codec α} {rest : Record τ}
    (fresh : name ∉ rest.names) {a : α} {t : τ} :
    readField name default c rest (.obj ((name, c.dump a) :: rest.members t)) = some (a, t) ↔
      c.Good a ∧ rest.Good t := by
  have hr : rest.read (.obj ((name, c.dump a) :: rest.members t)) =
      rest.read (.obj (rest.members t)) := by
    refine rest.local_ _ _ fun k hk => get?_of_ne _ _ ?_
    rintro rfl
    exact fresh hk
  unfold readField
  rw [get?_self, hr]
  dsimp only [Good, Codec.Good]
  cases c.read (c.dump a) <;> cases rest.read (.obj (rest.members t)) <;> simp

/-- A field before others.  Without a default it is required. -/
def field (name : String) (default : Option α) (c : Codec α)
    (good : ∀ a, default = some a → c.Good a) (rest : Record τ)
    (fresh : name ∉ rest.names) : Record (α × τ) where
  names := name :: rest.names
  read := readField name default c rest
  members v := (name, c.dump v.1) :: rest.members v.2
  named v := by rw [List.map_cons, rest.named]
  local_ x y h := by
    unfold readField
    rw [h name (.head _), rest.local_ x y fun k hk => h k (.tail _ hk)]
  stable x v h := by
    obtain ⟨a, ha, h⟩ := Option.bind_eq_some_iff.1 h
    obtain ⟨t, ht, rfl⟩ := Option.map_eq_some_iff.1 h
    refine (readField_members default fresh).2 ⟨?_, rest.stable x t ht⟩
    cases hx : x.get? name with
    | some y =>
      rw [hx] at ha
      exact c.good_of_read ha
    | none =>
      rw [hx] at ha
      exact good a ha

/-- A record is good if its first field is and the rest is. -/
theorem good_field {name : String} {default : Option α} {c : Codec α}
    {good : ∀ a, default = some a → c.Good a} {rest : Record τ} {fresh : name ∉ rest.names}
    {v : α × τ} : (field name default c good rest fresh).Good v ↔ c.Good v.1 ∧ rest.Good v.2 :=
  readField_members default fresh

/-- It has no names. -/
@[simp] theorem names_done : done.names = [] := rfl

/-- A field that must be there. -/
def required (name : String) (c : Codec α) (rest : Record τ)
    (fresh : name ∉ rest.names := by simp) : Record (α × τ) :=
  field name none c (fun _ h => nomatch h) rest fresh

/-- A field with a default, which passes the field's own checks. -/
def optional (name : String) (default : α) (c : Codec α) (rest : Record τ)
    (good : c.Good default := by norm_num <;> decide +kernel)
    (fresh : name ∉ rest.names := by simp) : Record (α × τ) :=
  field name (some default) c (fun _ h => Option.some.inj h ▸ good) rest fresh

/-- A field whose default is what an empty object is read as. -/
def nested (name : String) (c : Codec α) (rest : Record τ)
    (fresh : name ∉ rest.names := by simp) : Record (α × τ) :=
  field name (c.read (.obj [])) c (fun a h => c.stable _ a h) rest fresh

section Fields

variable {name : String} {default : α} {c : Codec α} {rest : Record τ} {fresh : name ∉ rest.names}
  {good : c.Good default} {v : α × τ}

/-- A required field adds its name. -/
@[simp] theorem names_required : (required name c rest fresh).names = name :: rest.names := rfl

/-- So does an optional one. -/
@[simp] theorem names_optional :
    (optional name default c rest good fresh).names = name :: rest.names := rfl

/-- So does a nested one. -/
@[simp] theorem names_nested : (nested name c rest fresh).names = name :: rest.names := rfl

/-- A field is read from its member, or is its default, and the fields after it are read. -/
theorem read_optional {x : Json} : (optional name default c rest good fresh).read x = some v ↔
    (match x.get? name with
      | some y => c.read y
      | none => some default) = some v.1 ∧ rest.read x = some v.2 := by
  obtain ⟨a, t⟩ := v
  change readField name (some default) c rest x = _ ↔ _
  unfold readField
  rw [Option.bind_eq_some_iff]
  simp

/-- A required field has to be good. -/
@[simp] theorem good_required :
    (required name c rest fresh).Good v ↔ c.Good v.1 ∧ rest.Good v.2 := good_field

/-- So has an optional one. -/
@[simp] theorem good_optional :
    (optional name default c rest good fresh).Good v ↔ c.Good v.1 ∧ rest.Good v.2 := good_field

/-- So has a nested one. -/
@[simp] theorem good_nested :
    (nested name c rest fresh).Good v ↔ c.Good v.1 ∧ rest.Good v.2 := good_field

end Fields

/-- The object has no member besides the named ones. -/
def closed (names : List String) : Json → Bool
  | .obj fields => fields.all fun m => names.contains m.1
  | _ => false

/-- What is written has no other names. -/
theorem closed_members (r : Record τ) (t : τ) : closed r.names (.obj (r.members t)) = true := by
  refine List.all_eq_true.2 fun m hm => List.contains_iff_mem.2 ?_
  rw [← r.named t]
  exact List.mem_map_of_mem hm

/-- A type whose values are the records that pass a check.  The check may change the
record, but not one that it has passed. -/
def codec (r : Record τ) (check : τ → Except ε σ) (back : σ → τ)
    (keeps : ∀ x t s, r.read x = some t → check t = .ok s →
      r.Good (back s) ∧ check (back s) = .ok s) : Codec σ where
  read x := if closed r.names x then (r.read x).bind fun t => (check t).toOption else none
  dump s := .obj (r.members (back s))
  stable x s h := by
    split_ifs at h with hc
    obtain ⟨t, ht, hs⟩ := Option.bind_eq_some_iff.1 h
    obtain ⟨hg, hk⟩ := keeps x t s ht (Codec.toOption_eq_some.1 hs)
    rw [if_pos (r.closed_members (back s))]
    exact Option.bind_eq_some_iff.2 ⟨back s, hg, Codec.toOption_eq_some.2 hk⟩

/-- What is read back has a record that is, and that passes the check. -/
theorem good_codec {r : Record τ} {check : τ → Except ε σ} {back : σ → τ}
    {keeps : ∀ x t s, r.read x = some t → check t = .ok s → r.Good (back s) ∧ check (back s) = .ok s}
    {s : σ} :
    (r.codec check back keeps).Good s ↔ r.Good (back s) ∧ check (back s) = .ok s := by
  constructor
  · intro h
    obtain ⟨-, h⟩ := Option.ite_none_right_eq_some.1 h
    obtain ⟨t, ht, hs⟩ := Option.bind_eq_some_iff.1 h
    exact keeps _ t s ht (Codec.toOption_eq_some.1 hs)
  · rintro ⟨hg, hk⟩
    refine Option.ite_none_right_eq_some.2 ⟨r.closed_members _, ?_⟩
    exact Option.bind_eq_some_iff.2 ⟨back s, hg, Codec.toOption_eq_some.2 hk⟩

/-- A type whose values are the records that pass a check, as they are. -/
def checked (r : Record τ) (check : τ → Except ε σ) (back : σ → τ)
    (same : ∀ t s, check t = .ok s → back s = t) : Codec σ :=
  r.codec check back fun x t s ht hs => by
    obtain rfl := same t s hs
    exact ⟨r.stable x _ ht, hs⟩

/-- A checked record is good if its fields are and it passes. -/
theorem good_checked {r : Record τ} {check : τ → Except ε σ} {back : σ → τ}
    {same : ∀ t s, check t = .ok s → back s = t} {s : σ} :
    (r.checked check back same).Good s ↔ r.Good (back s) ∧ check (back s) = .ok s := good_codec

/-- A type whose values are the records. -/
def plain (r : Record τ) (make : τ → σ) (back : σ → τ) (same : ∀ t, back (make t) = t) :
    Codec σ :=
  r.checked (fun t => (.ok (make t) : Except Empty σ)) back fun t s h => by
    obtain rfl := Except.ok.inj h
    exact same t

section Plain

variable {r : Record τ} {make : τ → σ} {back : σ → τ} {same : ∀ t, back (make t) = t} {s : σ}

/-- A record is read if it has no other members and its fields are read. -/
theorem read_plain {x : Json} : (r.plain make back same).read x = some s ↔
    closed r.names x = true ∧ ∃ t, r.read x = some t ∧ make t = s := by
  change (if closed r.names x then _ else none) = some s ↔ _
  rw [Option.ite_none_right_eq_some, Option.bind_eq_some_iff]
  simp [Except.toOption]

/-- A record without a check is good if its fields are. -/
theorem good_plain : (r.plain make back same).Good s ↔ r.Good (back s) ∧ make (back s) = s := by
  rw [plain, good_checked]
  simp

end Plain

end Record
end MorpheusGateway
