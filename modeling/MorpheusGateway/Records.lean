/-
# The one table of the store

`Store` keeps every record of the gateway in one SQL table with a primary key of kind and
ID.  A new row gets the `rowid` after the greatest one there is; an upsert of a row that
exists changes its data and keeps its `rowid`.  Listings are in descending order of `rowid`.

Kind by kind this is a `Table`: rows with distinct keys, newest first, in which `put`
replaces in place or adds in front (`newest_put`, `newest_delete`, `newest_prune`).  A run of
statements is a run of the tables (`newest_run`).

What a statement reads of the data is `Fields`; a field that a record does not have is SQL's
`NULL`, which passes no test.
-/

import MorpheusGateway.Table
import Mathlib.Algebra.Order.Ring.Unbundled.Rat
import Mathlib.Data.List.Infix
import Mathlib.Tactic.SplitIfs

namespace MorpheusGateway

/-- A table is its rows. -/
theorem Table.eq_of_rows {κ α : Type} {key : α → κ} {t u : Table key} (h : t.rows = u.rows) :
    t = u := by
  cases t
  cases u
  cases h
  rfl

/-- The first `n` rows. -/
def Table.first {κ α : Type} {key : α → κ} (t : Table key) (n : ℕ) : Table key where
  rows := t.rows.take n
  nodup := t.nodup.sublist ((List.take_sublist n t.rows).map _)

/-- The kinds of records. -/
inductive RecordKind : Type where
  | settings | session | operation | request | key | admin | provider | openingFailure | event
  deriving DecidableEq

/-- The fields that the statements of the store extract from a record. -/
structure Fields (δ : Type) where
  state : δ → Option String
  createdAt : δ → Option ℚ
  expires : δ → Option ℚ

/-- A row of the table. -/
structure Line (κ δ : Type) where
  rowid : ℕ
  kind : RecordKind
  id : κ
  data : δ

variable {κ δ : Type}

/-- The primary key. -/
def Line.key (x : Line κ δ) : RecordKind × κ := (x.kind, x.id)

/-- The table, in the order of `rowid`. -/
structure Records (κ δ : Type) where
  lines : List (Line κ δ)
  sorted : lines.Pairwise fun x y => x.rowid < y.rowid
  nodup : (lines.map Line.key).Nodup

namespace Records

/-- The table of a new store. -/
def empty : Records κ δ := ⟨[], .nil, List.nodup_nil⟩

/-- The `rowid` of the next new row. -/
def nextRowid (l : List (Line κ δ)) : ℕ := (l.map Line.rowid).foldr max 0 + 1

/-- The next number is greater than all. -/
theorem lt_nextRowid {l : List (Line κ δ)} {x : Line κ δ} (h : x ∈ l) : x.rowid < nextRowid l := by
  induction l with
  | nil => cases h
  | cons y l ih =>
    have hm : nextRowid (y :: l) = max y.rowid ((l.map Line.rowid).foldr max 0) + 1 := rfl
    have hl : nextRowid l = (l.map Line.rowid).foldr max 0 + 1 := rfl
    rcases List.mem_cons.1 h with rfl | h
    · omega
    · have := ih h
      omega

/-- Keep the rows that pass the test: a `DELETE` of the others. -/
def filter (r : Records κ δ) (keep : Line κ δ → Bool) : Records κ δ where
  lines := r.lines.filter keep
  sorted := r.sorted.filter keep
  nodup := r.nodup.sublist (List.filter_sublist.map _)

/-- A row after all there are. -/
def added (l : List (Line κ δ)) (kind : RecordKind) (id : κ) (value : δ) : List (Line κ δ) :=
  l ++ [⟨nextRowid l, kind, id, value⟩]

/-- A new line comes last. -/
theorem sorted_added {l : List (Line κ δ)} (h : l.Pairwise fun x y => x.rowid < y.rowid)
    (kind : RecordKind) (id : κ) (value : δ) :
    (added l kind id value).Pairwise fun x y => x.rowid < y.rowid := by
  refine List.pairwise_append.2 ⟨h, List.pairwise_singleton .., fun x hx y hy => ?_⟩
  obtain rfl := List.mem_singleton.1 hy
  exact lt_nextRowid hx

/-- A new line with a new key keeps the keys distinct. -/
theorem nodup_added {l : List (Line κ δ)} (h : (l.map Line.key).Nodup) {kind : RecordKind} {id : κ}
    (hn : (kind, id) ∉ l.map Line.key) (value : δ) :
    ((added l kind id value).map Line.key).Nodup := by
  rw [added, List.map_append, List.nodup_append']
  refine ⟨h, List.nodup_singleton _, ?_⟩
  exact List.disjoint_singleton.2 hn

variable [DecidableEq κ]

/-- The row with new data if it is the one with this key. -/
def renew (kind : RecordKind) (id : κ) (value : δ) (x : Line κ δ) : Line κ δ :=
  if x.key = (kind, id) then { x with data := value } else x

/-- A line that is renewed keeps its number. -/
@[simp] theorem renew_rowid (kind : RecordKind) (id : κ) (value : δ) (x : Line κ δ) :
    (renew kind id value x).rowid = x.rowid := by
  unfold renew
  split_ifs
  all_goals rfl

/-- It keeps its kind. -/
@[simp] theorem renew_kind (kind : RecordKind) (id : κ) (value : δ) (x : Line κ δ) :
    (renew kind id value x).kind = x.kind := by
  unfold renew
  split_ifs
  all_goals rfl

/-- It keeps its ID. -/
@[simp] theorem renew_id (kind : RecordKind) (id : κ) (value : δ) (x : Line κ δ) :
    (renew kind id value x).id = x.id := by
  unfold renew
  split_ifs
  all_goals rfl

/-- Renewing keeps the keys. -/
theorem map_key_renew (kind : RecordKind) (id : κ) (value : δ) (l : List (Line κ δ)) :
    (l.map (renew kind id value)).map Line.key = l.map Line.key := by
  rw [List.map_map]
  refine List.map_congr_left fun x _ => ?_
  simp [Line.key]

/-- It keeps them distinct. -/
theorem nodup_renew {l : List (Line κ δ)} (h : (l.map Line.key).Nodup) (kind : RecordKind) (id : κ)
    (value : δ) : ((l.map (renew kind id value)).map Line.key).Nodup := by
  rw [map_key_renew]
  exact h

/-- It keeps the order. -/
theorem sorted_renew {l : List (Line κ δ)} (h : l.Pairwise fun x y => x.rowid < y.rowid)
    (kind : RecordKind) (id : κ) (value : δ) :
    (l.map (renew kind id value)).Pairwise fun x y => x.rowid < y.rowid := by
  refine List.pairwise_map.2 (h.imp fun hxy => ?_)
  simpa using hxy

/-- `INSERT … ON CONFLICT(kind,id) DO UPDATE SET data=excluded.data`. -/
def put (r : Records κ δ) (kind : RecordKind) (id : κ) (value : δ) : Records κ δ :=
  if h : (kind, id) ∈ r.lines.map Line.key then
    ⟨r.lines.map (renew kind id value), sorted_renew r.sorted kind id value,
      nodup_renew r.nodup kind id value⟩
  else
    ⟨added r.lines kind id value, sorted_added r.sorted kind id value, nodup_added r.nodup h value⟩

/-- `Store.delete`. -/
def delete (r : Records κ δ) (kind : RecordKind) (id : κ) : Records κ δ :=
  r.filter fun x => !(x.key = (kind, id))

/-- The rows of a kind, `ORDER BY rowid DESC`. -/
def select (r : Records κ δ) (kind : RecordKind) : List (Line κ δ) :=
  (r.lines.filter fun x => x.kind = kind).reverse

/-- `Store.get`. -/
def get (r : Records κ δ) (kind : RecordKind) (id : κ) : Option δ :=
  (r.lines.find? fun x => x.key = (kind, id)).map Line.data

/-- `Store.all`. -/
def all (r : Records κ δ) (kind : RecordKind) : List δ := (r.select kind).map Line.data

/-- `Store.page`. -/
def page (r : Records κ δ) (kind : RecordKind) (limit offset : ℕ) : List δ :=
  (((r.select kind).drop offset).take limit).map Line.data

variable (f : Fields δ)

/-- `json_extract(data,'$.state') IN (…)`. -/
def stateIn (states : List String) (x : Line κ δ) : Bool := (f.state x.data).any (· ∈ states)

/-- `json_extract(data,'$.state') NOT IN (…)`. -/
def stateNotIn (states : List String) (x : Line κ δ) : Bool := (f.state x.data).any (· ∉ states)

/-- `Store.sessions`. -/
def sessions (r : Records κ δ) : List δ :=
  ((r.select .session).filter (stateNotIn f ["closed", "failed"])).map Line.data

/-- `json_extract(data,'$.created_at') < cutoff`. -/
def createdBefore (cutoff : ℚ) (x : Line κ δ) : Bool := (f.createdAt x.data).any (· < cutoff)

/-- `json_extract(data,'$.expires') < cutoff`. -/
def expiresBefore (cutoff : ℚ) (x : Line κ δ) : Bool := (f.expires x.data).any (· < cutoff)

/-- What the three statements of `Store.prune` delete.  The clock is read once for the first two,
and again for the third. -/
def pruned (now later : ℚ) (x : Line κ δ) : Bool :=
  match x.kind with
  | .session => stateIn f ["closed", "failed"] x && createdBefore f (now - 30 * 86400) x
  | .operation | .request =>
      stateIn f ["succeeded", "failed", "completed", "interrupted"] x &&
        createdBefore f (now - 30 * 86400) x
  | .admin => expiresBefore f later x
  | _ => false

/-- `Store.prune`. -/
def prune (r : Records κ δ) (now later : ℚ) : Records κ δ := r.filter fun x => !pruned f now later x

/-- The second statement of `Store.event`: only the newest 500 events stay. -/
def trimEvents (r : Records κ δ) : Records κ δ :=
  r.filter fun x =>
    !(x.kind = .event && x.rowid ∉ ((r.select .event).take 500).map Line.rowid)

/-- `Store.event`: each of its two writes may fail, and the second is not tried when the
first failed. -/
def event (r : Records κ δ) (id : κ) (value : δ) (writes trims : Bool) : Records κ δ :=
  if writes then
    if trims then (r.put .event id value).trimEvents else r.put .event id value
  else r

/-! ### Kind by kind it is a table -/

omit [DecidableEq κ] in

/-- The lines of a kind have distinct IDs. -/
theorem nodup_select (r : Records κ δ) (kind : RecordKind) :
    (((r.select kind).map fun x => (x.id, x.data)).map Prod.fst).Nodup := by
  have keys : ((r.select kind).map Line.key).Nodup := by
    rw [select, List.map_reverse, List.nodup_reverse]
    exact r.nodup.sublist (List.filter_sublist.map _)
  have same : (r.select kind).map Line.key = ((r.select kind).map Line.id).map (Prod.mk kind) := by
    rw [List.map_map]
    refine List.map_congr_left fun x hx => ?_
    have hk : x.kind = kind := by simpa using (List.mem_filter.1 (List.mem_reverse.1 hx)).2
    exact Prod.ext hk rfl
  rw [same] at keys
  rw [List.map_map]
  exact keys.of_map _

/-- The records of a kind with their IDs, newest first. -/
def newest (r : Records κ δ) (kind : RecordKind) : Table (Prod.fst : κ × δ → κ) :=
  ⟨(r.select kind).map fun x => (x.id, x.data), r.nodup_select kind⟩

omit [DecidableEq κ] in

/-- What is selected is stored, and of the kind. -/
theorem kind_of_select {r : Records κ δ} {kind : RecordKind} {x : Line κ δ}
    (h : x ∈ r.select kind) : x ∈ r.lines ∧ x.kind = kind := by
  obtain ⟨hl, hk⟩ := List.mem_filter.1 (List.mem_reverse.1 h)
  exact ⟨hl, by simpa using hk⟩

omit [DecidableEq κ] in

/-- What is stored is selected. -/
theorem mem_select {r : Records κ δ} {x : Line κ δ} (h : x ∈ r.lines) : x ∈ r.select x.kind :=
  List.mem_reverse.2 (List.mem_filter.2 ⟨h, by simp⟩)

omit [DecidableEq κ] in

/-- Lines are deleted from the selections. -/
theorem select_filter (r : Records κ δ) (keep : Line κ δ → Bool) (kind : RecordKind) :
    (r.filter keep).select kind = (r.select kind).filter keep := by
  show ((r.lines.filter keep).filter fun x => x.kind = kind).reverse =
    (r.lines.filter fun x => x.kind = kind).reverse.filter keep
  rw [List.filter_reverse, List.filter_filter, List.filter_filter]
  exact congrArg List.reverse (List.filter_congr fun x _ => Bool.and_comm _ _)

omit [DecidableEq κ] in

/-- A deletion by ID and data is one from the table. -/
theorem newest_filter (r : Records κ δ) (keep : Line κ δ → Bool) (test : κ × δ → Bool)
    (kind : RecordKind) (h : ∀ x ∈ r.select kind, keep x = test (x.id, x.data)) :
    (r.filter keep).newest kind = (r.newest kind).filter test := by
  refine Table.eq_of_rows ?_
  show ((r.filter keep).select kind).map _ = ((r.select kind).map _).filter test
  rw [select_filter, List.filter_map]
  exact congrArg _ (List.filter_congr h)

/-- Looking a record up is looking it up among its kind. -/
theorem get_eq (r : Records κ δ) (kind : RecordKind) (id : κ) :
    r.get kind id = ((r.newest kind).get id).map Prod.snd := by
  refine Option.ext fun v => ?_
  rw [get, Option.map_eq_some_iff, Option.map_eq_some_iff]
  constructor
  · rintro ⟨x, hx, rfl⟩
    have hk : x.key = (kind, id) := by simpa using List.find?_some hx
    obtain ⟨rfl, rfl⟩ := Prod.mk.inj hk
    exact ⟨(x.id, x.data), Table.get_eq_some.2 ⟨List.mem_map.2
      ⟨x, mem_select (List.mem_of_find?_eq_some hx), rfl⟩, rfl⟩, rfl⟩
  · rintro ⟨⟨i, v'⟩, hx, rfl⟩
    obtain ⟨hm, rfl⟩ := Table.get_eq_some.1 hx
    obtain ⟨x, hs, hxe⟩ := List.mem_map.1 hm
    obtain ⟨rfl, rfl⟩ := Prod.mk.inj hxe
    obtain ⟨hl, rfl⟩ := kind_of_select hs
    have hs : (r.lines.find? fun y => y.key = (x.kind, x.id)).isSome :=
      List.find?_isSome.2 ⟨x, hl, by simp [Line.key]⟩
    obtain ⟨y, hy⟩ := Option.isSome_iff_exists.1 hs
    have same : y = x := List.inj_on_of_nodup_map r.nodup (List.mem_of_find?_eq_some hy) hl
      (by simpa [Line.key] using List.find?_some hy)
    exact ⟨y, hy, by rw [same]⟩

/-- **A write puts the record in front** of the table of its kind, and leaves the others. -/
theorem newest_put (r : Records κ δ) (kind kind' : RecordKind) (id : κ) (value : δ) :
    (r.put kind id value).newest kind' =
      if kind' = kind then (r.newest kind').put (id, value) else r.newest kind' := by
  refine Table.eq_of_rows ?_
  by_cases h : (kind, id) ∈ r.lines.map Line.key
  · have hl : (r.put kind id value).lines = r.lines.map (renew kind id value) := by
      rw [put, dif_pos h]
    have rows : ((r.put kind id value).newest kind').rows =
        (r.select kind').map fun x => (x.id, (renew kind id value x).data) := by
      show ((r.put kind id value).lines.filter fun x => x.kind = kind').reverse.map _ = _
      rw [hl, List.filter_map, ← List.map_reverse, List.map_map]
      simp [Function.comp_def, select]
    rw [rows]
    split_ifs with hk
    · subst hk
      obtain ⟨x, hx, hxk⟩ := List.mem_map.1 h
      obtain ⟨rfl, rfl⟩ := Prod.mk.inj hxk
      have there : x.id ∈ (r.newest x.kind).rows.map Prod.fst :=
        List.mem_map.2 ⟨(x.id, x.data), List.mem_map.2 ⟨x, mem_select hx, rfl⟩, rfl⟩
      show _ = Table.putRows Prod.fst (x.id, value) (r.newest x.kind).rows
      rw [Table.putRows, if_pos there]
      show _ = ((r.select x.kind).map fun y => (y.id, y.data)).map _
      rw [List.map_map]
      refine List.map_congr_left fun y hy => ?_
      have hyk : y.kind = x.kind := (kind_of_select hy).2
      by_cases hid : y.id = x.id
      · simp [renew, Line.key, hyk, hid]
      · simp [renew, Line.key, hid]
    · refine List.map_congr_left fun y hy => ?_
      have hyk : y.kind = kind' := (kind_of_select hy).2
      have : y.key ≠ (kind, id) := fun e => hk (hyk.symm.trans (Prod.mk.inj e).1)
      simp [renew, this]
  · have hl : (r.put kind id value).lines = added r.lines kind id value := by
      rw [put, dif_neg h]
    show ((r.put kind id value).lines.filter fun x => x.kind = kind').reverse.map _ = _
    rw [hl, added, List.filter_append, List.reverse_append, List.map_append]
    split_ifs with hk
    · subst hk
      have fresh : id ∉ (r.newest kind').rows.map Prod.fst := by
        intro hm
        obtain ⟨p, hp, rfl⟩ := List.mem_map.1 hm
        obtain ⟨x, hx, rfl⟩ := List.mem_map.1 hp
        obtain ⟨there, rfl⟩ := kind_of_select hx
        exact h (List.mem_map.2 ⟨x, there, rfl⟩)
      show _ = Table.putRows Prod.fst (id, value) (r.newest kind').rows
      rw [Table.putRows, if_neg fresh]
      simp [newest, select]
    · have : ¬kind = kind' := fun e => hk e.symm
      simp [newest, select, this]

/-- **A deletion takes the record out** of the table of its kind. -/
theorem newest_delete (r : Records κ δ) (kind kind' : RecordKind) (id : κ) :
    (r.delete kind id).newest kind' =
      if kind' = kind then (r.newest kind').filter fun p => !(p.1 = id) else r.newest kind' := by
  split_ifs with hk
  · subst hk
    exact r.newest_filter _ _ _ fun x hx => by simp [Line.key, (kind_of_select hx).2]
  · rw [delete, r.newest_filter _ (fun _ => true) _ fun x hx => by
      simp [Line.key, (kind_of_select hx).2, hk]]
    exact Table.eq_of_rows (List.filter_true _)

variable (f : Fields δ)

/-- What `Store.prune` deletes of a kind. -/
def expired (now later : ℚ) (kind : RecordKind) (p : κ × δ) : Bool :=
  pruned f now later ⟨0, kind, p.1, p.2⟩

omit [DecidableEq κ] in
/-- Pruning the table prunes each kind. -/
theorem newest_prune (r : Records κ δ) (now later : ℚ) (kind : RecordKind) :
    (r.prune f now later).newest kind =
      (r.newest kind).filter fun p => !expired f now later kind p := by
  refine r.newest_filter _ _ _ fun x hx => ?_
  obtain ⟨-, rfl⟩ := kind_of_select hx
  rfl

/-- Those that are among the first are the first. -/
theorem filter_take {α β : Type} [DecidableEq β] {f : α → β} {l : List α} (h : (l.map f).Nodup)
    (n : ℕ) : l.filter (fun a => f a ∈ (l.take n).map f) = l.take n := by
  have hd : ∀ a ∈ l.drop n, f a ∉ (l.take n).map f := by
    intro a ha ht
    rw [List.map_take] at ht
    have ha : f a ∈ (l.map f).drop n := by
      rw [← List.map_drop]
      exact List.mem_map_of_mem ha
    exact List.disjoint_take_drop h le_rfl ht ha
  calc l.filter (fun a => f a ∈ (l.take n).map f)
      = (l.take n ++ l.drop n).filter fun a => f a ∈ (l.take n).map f := by
        rw [List.take_append_drop]
    _ = l.take n ++ [] := by
        rw [List.filter_append,
          List.filter_eq_self.2 fun a ha => by simpa using List.mem_map_of_mem ha,
          List.filter_eq_nil_iff.2 fun a ha => by simpa using hd a ha]
    _ = l.take n := List.append_nil _

omit [DecidableEq κ] in

/-- The lines of a kind have distinct numbers. -/
theorem nodup_rowid (r : Records κ δ) (kind : RecordKind) : ((r.select kind).map Line.rowid).Nodup := by
  rw [select, List.map_reverse, List.nodup_reverse]
  have all : (r.lines.map Line.rowid).Nodup :=
    List.pairwise_map.2 (r.sorted.imp fun hxy => Nat.ne_of_lt hxy)
  exact all.sublist (List.filter_sublist.map _)

omit [DecidableEq κ] in
/-- **Of the events the newest 500 stay**, and nothing else goes. -/
theorem newest_trimEvents (r : Records κ δ) (kind : RecordKind) :
    r.trimEvents.newest kind = if kind = .event then (r.newest kind).first 500 else r.newest kind := by
  refine Table.eq_of_rows ?_
  split_ifs with hk
  · subst hk
    show (r.trimEvents.select .event).map _ = ((r.select .event).map _).take 500
    rw [trimEvents, select_filter, ← List.map_take]
    refine congrArg _ (.trans (List.filter_congr fun x hx => ?_)
      (filter_take (r.nodup_rowid .event) 500))
    simp [(kind_of_select hx).2]
  · rw [trimEvents, r.newest_filter _ (fun _ => true) _ fun x hx => by
      simp [(kind_of_select hx).2, hk]]
    exact List.filter_true _

/-! ### Runs of statements -/

/-- A write of the store. -/
inductive Statement (κ δ : Type) : Type where
  | put (kind : RecordKind) (id : κ) (value : δ)
  | delete (kind : RecordKind) (id : κ)
  | prune (now later : ℚ)
  | event (id : κ) (value : δ) (writes trims : Bool)

/-- The table after a write. -/
def exec (r : Records κ δ) : Statement κ δ → Records κ δ
  | .put kind id value => r.put kind id value
  | .delete kind id => r.delete kind id
  | .prune now later => r.prune f now later
  | .event id value writes trims => r.event id value writes trims

/-- The table after some writes. -/
def run (r : Records κ δ) (l : List (Statement κ δ)) : Records κ δ := l.foldl (exec f) r

/-- What the store is for: a keyed table for each kind. -/
abbrev Tables (κ δ : Type) := RecordKind → Table (Prod.fst : κ × δ → κ)

/-- The tables after a write. -/
def Tables.exec (T : Tables κ δ) : Statement κ δ → Tables κ δ
  | .put kind id value => Function.update T kind ((T kind).put (id, value))
  | .delete kind id => Function.update T kind ((T kind).filter fun p => !(p.1 = id))
  | .prune now later => fun kind => (T kind).filter fun p => !expired f now later kind p
  | .event id value writes trims =>
      if writes then
        Function.update T .event
          (if trims then ((T .event).put (id, value)).first 500 else (T .event).put (id, value))
      else T

/-- **Each write of the one table is that write of its kind's.** -/
theorem newest_exec (r : Records κ δ) (q : Statement κ δ) :
    (r.exec f q).newest = Tables.exec f r.newest q := by
  funext kind'
  cases q with
  | put kind id value =>
    rw [exec, Tables.exec, newest_put, Function.update_apply]
    split_ifs with h
    · rw [h]
    · rfl
  | delete kind id =>
    rw [exec, Tables.exec, newest_delete, Function.update_apply]
    split_ifs with h
    · rw [h]
    · rfl
  | prune now later => exact newest_prune f r now later kind'
  | event id value writes trims =>
    cases writes with
    | false => rfl
    | true =>
      cases trims with
      | false =>
        show (r.put .event id value).newest kind' =
          Function.update r.newest .event ((r.newest .event).put (id, value)) kind'
        rw [newest_put, Function.update_apply]
        split_ifs with h
        · rw [h]
        · rfl
      | true =>
        show (r.put .event id value).trimEvents.newest kind' =
          Function.update r.newest .event (((r.newest .event).put (id, value)).first 500) kind'
        rw [newest_trimEvents, newest_put, Function.update_apply]
        split_ifs with h
        · rw [h]
        · rfl

/-- **A run of statements is the same run over the tables.** -/
theorem newest_run (r : Records κ δ) (l : List (Statement κ δ)) :
    (r.run f l).newest = l.foldl (Tables.exec f) r.newest := by
  induction l generalizing r with
  | nil => rfl
  | cons q l ih =>
    show ((r.exec f q).run f l).newest = l.foldl (Tables.exec f) (Tables.exec f r.newest q)
    rw [ih, newest_exec]

omit [DecidableEq κ] in

/-- `Store.all` lists the table. -/
theorem all_eq (r : Records κ δ) (kind : RecordKind) :
    r.all kind = (r.newest kind).rows.map Prod.snd := by
  show (r.select kind).map Line.data = ((r.select kind).map _).map Prod.snd
  rw [List.map_map]
  rfl

omit [DecidableEq κ] in

/-- `Store.page` is a part of the table. -/
theorem page_eq (r : Records κ δ) (kind : RecordKind) (limit offset : ℕ) :
    r.page kind limit offset =
      (((r.newest kind).rows.drop offset).take limit).map Prod.snd := by
  show _ = ((((r.select kind).map _).drop offset).take limit).map Prod.snd
  rw [← List.map_drop, ← List.map_take, List.map_map]
  rfl

/-- The state of a record is one of these. -/
def liveState (d : δ) : Bool := (f.state d).any (· ∉ ["closed", "failed"])

omit [DecidableEq κ] in

/-- `Store.sessions` is the table without the records that are terminal. -/
theorem sessions_eq (r : Records κ δ) :
    r.sessions f = ((r.newest .session).rows.map Prod.snd).filter (liveState f) := by
  show ((r.select .session).filter _).map Line.data =
    (((r.select .session).map _).map Prod.snd).filter _
  rw [List.map_map, List.filter_map]
  rfl

end Records
end MorpheusGateway
