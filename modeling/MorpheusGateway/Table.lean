/-
# Keyed tables, newest row first

A `Table key` is what a relational store keeps under one kind: rows with distinct
keys, listed newest first.  `put` replaces the row with the same key in its place
and adds a row with a new key at the front; `filter` deletes rows.

`get` after each operation is the interface the rest of the development uses,
together with `mem_rows`, which says that listing the table and looking keys up
see the same rows.

A `Ledger` is a table that remembers every row ever put into it.
-/

import Mathlib.Data.List.Basic
import Mathlib.Data.List.Nodup

namespace MorpheusGateway

/-- Rows with distinct keys, newest first. -/
structure Table {κ α : Type} (key : α → κ) where
  rows : List α
  nodup : (rows.map key).Nodup

namespace Table

variable {κ α : Type} {key : α → κ}

/-- The table with no rows. -/
def empty : Table key := ⟨[], List.nodup_nil⟩

/-- Keep the rows that pass the test. -/
def filter (t : Table key) (keep : α → Bool) : Table key where
  rows := t.rows.filter keep
  nodup := t.nodup.sublist (List.filter_sublist.map _)

variable [DecidableEq κ]

/-- The row with key `k`. -/
def get (t : Table key) (k : κ) : Option α := t.rows.find? fun r => key r = k

/-- The rows with `v` in place of the row with its key, or in front. -/
def putRows (key : α → κ) (v : α) (l : List α) : List α :=
  if key v ∈ l.map key then l.map fun r => if key r = key v then v else r else v :: l

/-- Replacing a record keeps the keys. -/
theorem map_key_replace (v : α) (l : List α) :
    (l.map fun r => if key r = key v then v else r).map key = l.map key := by
  rw [List.map_map]
  refine List.map_congr_left fun r _ => ?_
  by_cases h : key r = key v
  · simp [h]
  · simp [h]

/-- Store `v` under its key. -/
def put (t : Table key) (v : α) : Table key where
  rows := putRows key v t.rows
  nodup := by
    unfold putRows
    split_ifs with h
    · rw [map_key_replace]
      exact t.nodup
    · exact List.nodup_cons.2 ⟨h, t.nodup⟩

/-- **Looking a key up is membership**, because keys are distinct. -/
theorem get_eq_some {t : Table key} {k : κ} {v : α} :
    t.get k = some v ↔ v ∈ t.rows ∧ key v = k := by
  constructor
  · intro h
    exact ⟨List.mem_of_find?_eq_some h, by simpa using List.find?_some h⟩
  · rintro ⟨hv, rfl⟩
    have hs : (t.rows.find? fun r => key r = key v).isSome := List.find?_isSome.2 ⟨v, hv, by simp⟩
    obtain ⟨w, hw⟩ := Option.isSome_iff_exists.1 hs
    obtain rfl : w = v := List.inj_on_of_nodup_map t.nodup (List.mem_of_find?_eq_some hw) hv
      (by simpa using List.find?_some hw)
    exact hw

/-- Nothing is found where no record has the key. -/
theorem get_eq_none {t : Table key} {k : κ} : t.get k = none ↔ ∀ v ∈ t.rows, key v ≠ k := by
  simp [get, List.find?_eq_none]

/-- **Listing sees what lookups see.** -/
theorem mem_rows {t : Table key} {v : α} : v ∈ t.rows ↔ t.get (key v) = some v :=
  ⟨fun h => get_eq_some.2 ⟨h, rfl⟩, fun h => (get_eq_some.1 h).1⟩

/-- What is found has the key. -/
theorem key_of_get {t : Table key} {k : κ} {v : α} (h : t.get k = some v) : key v = k :=
  (get_eq_some.1 h).2

/-- Behind a write there is the record, and those of other keys. -/
theorem mem_put {t : Table key} {v w : α} :
    w ∈ (t.put v).rows ↔ w = v ∨ w ∈ t.rows ∧ key w ≠ key v := by
  show w ∈ putRows key v t.rows ↔ _
  unfold putRows
  split_ifs with h
  · obtain ⟨r, hr, hk⟩ := List.mem_map.1 h
    simp only [List.mem_map]
    constructor
    · rintro ⟨a, ha, rfl⟩
      split_ifs with hak
      · exact .inl rfl
      · exact .inr ⟨ha, hak⟩
    · rintro (rfl | ⟨hw, hne⟩)
      · exact ⟨r, hr, by simp [hk]⟩
      · exact ⟨w, hw, by simp [hne]⟩
  · rw [List.mem_cons]
    refine or_congr_right ⟨fun hw => ⟨hw, fun e => h ?_⟩, And.left⟩
    exact e ▸ List.mem_map_of_mem hw

/-- What a lookup finds after a `put`. -/
theorem get_put (t : Table key) (v : α) (k : κ) :
    (t.put v).get k = if k = key v then some v else t.get k := by
  refine Option.ext fun w => ?_
  rw [get_eq_some, mem_put]
  split_ifs with h
  · subst h
    exact ⟨fun ⟨hw, e⟩ => by rcases hw with rfl | ⟨-, hne⟩; exacts [rfl, absurd e hne],
      fun e => by obtain rfl := Option.some.inj e; exact ⟨.inl rfl, rfl⟩⟩
  · rw [get_eq_some]
    exact ⟨fun ⟨hw, e⟩ => by rcases hw with rfl | ⟨hw, -⟩; exacts [absurd e.symm h, ⟨hw, e⟩],
      fun ⟨hw, e⟩ => ⟨.inr ⟨hw, e ▸ h⟩, e⟩⟩

/-- The record is found. -/
@[simp] theorem get_put_self (t : Table key) (v : α) : (t.put v).get (key v) = some v := by
  rw [get_put, if_pos rfl]

/-- Others are found as before. -/
theorem get_put_ne {t : Table key} {v : α} {k : κ} (h : k ≠ key v) : (t.put v).get k = t.get k := by
  rw [get_put, if_neg h]

/-- Behind a deletion a record is found if it is kept. -/
theorem get_filter (t : Table key) (keep : α → Bool) (k : κ) :
    (t.filter keep).get k = (t.get k).filter keep := by
  refine Option.ext fun w => ?_
  rw [get_eq_some, Option.filter_eq_some_iff, get_eq_some]
  show w ∈ t.rows.filter keep ∧ _ ↔ _
  rw [List.mem_filter]
  tauto

/-- Nothing is found in an empty table. -/
@[simp] theorem get_empty (k : κ) : (empty : Table key).get k = none := rfl

end Table

/-- A table with everything ever put into it, newest first. -/
structure Ledger {κ α : Type} (key : α → κ) extends Table key where
  written : List α
  stored : ∀ r ∈ rows, r ∈ written

namespace Ledger

variable {κ α : Type} {key : α → κ}

/-- The ledger in which nothing was written. -/
def empty : Ledger key := ⟨Table.empty, [], fun _ h => nomatch h⟩

/-- Keep the rows that pass the test; what was written stays written. -/
def filter (t : Ledger key) (keep : α → Bool) : Ledger key where
  toTable := t.toTable.filter keep
  written := t.written
  stored r hr := t.stored r (List.mem_of_mem_filter hr)

/-- Store `v` under its key. -/
def put [DecidableEq κ] (t : Ledger key) (v : α) : Ledger key where
  toTable := t.toTable.put v
  written := v :: t.written
  stored r hr := by
    rcases Table.mem_put.1 hr with rfl | ⟨hr, -⟩
    · exact List.mem_cons_self
    · exact List.mem_cons_of_mem _ (t.stored r hr)

/-- A deletion leaves what was written. -/
@[simp] theorem written_filter (t : Ledger key) (keep : α → Bool) :
    (t.filter keep).written = t.written := rfl

/-- A write is remembered. -/
@[simp] theorem written_put [DecidableEq κ] (t : Ledger key) (v : α) :
    (t.put v).written = v :: t.written := rfl

/-- What a lookup finds was written. -/
theorem mem_written [DecidableEq κ] {t : Ledger key} {k : κ} {v : α} (h : t.get k = some v) :
    v ∈ t.written := t.stored v (Table.get_eq_some.1 h).1

end Ledger
end MorpheusGateway
