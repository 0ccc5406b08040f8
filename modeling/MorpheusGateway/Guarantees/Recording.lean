/-
# What the store lists

Every run of writes on the one table is, kind by kind, the same run on keyed tables that list
newest first, and every read is a read of those tables (`readsTables`).

The console lists the sessions a page at a time and asks for the next page at an offset, so
the table moves under it.  A new session moves the others back by one, never forward: the
IDs listed before are a suffix of those listed after (`ids_run`).  So a listing that came to
its end shows every session that was there at its start (`listsAll`), and on a table that
does not change it shows each once, in order.  Deleting between two pages would move the
others forward.

`Store.event` swallows the failure of either of its writes.  What it leaves is the newest
500 events and those since the deletion last succeeded (`eventsKept`).
-/

import MorpheusGateway.Records

namespace MorpheusGateway
namespace Records

variable {κ δ : Type} [DecidableEq κ] (f : Fields δ)

/-! ### Reads -/

/-- The tables with no rows. -/
def Tables.empty : Tables κ δ := fun _ => Table.empty

/-- **The one table reads as keyed tables**, after any writes. -/
theorem readsTables (l : List (Statement κ δ)) :
    let T := l.foldl (Tables.exec f) Tables.empty
    let r := (empty : Records κ δ).run f l
    (∀ kind id, r.get kind id = ((T kind).get id).map Prod.snd) ∧
      (∀ kind, r.all kind = (T kind).rows.map Prod.snd) ∧
      (∀ kind limit offset, r.page kind limit offset =
        (((T kind).rows.drop offset).take limit).map Prod.snd) ∧
      r.sessions f = ((T .session).rows.map Prod.snd).filter (liveState f) := by
  intro T r
  have same : r.newest = T := newest_run f empty l
  rw [← same]
  exact ⟨get_eq _, all_eq _, page_eq _, sessions_eq f _⟩

/-! ### The pages of the console -/

/-- `GET /admin/api/sessions`: the page with what is `busy`, and `next_offset`.  Nothing is
the answer `invalid_page`. -/
def listSessions (busy : δ → Bool) (r : Records κ δ) (offset : ℤ) :
    Option (List (δ × Bool) × Option ℤ) :=
  if 0 ≤ offset ∧ offset ≤ 1000000 then
    let rows := r.page .session 100 offset.toNat
    some (rows.map fun s => (s, busy s), if rows.length = 100 then some (offset + 100) else none)
  else none

/-- A client that follows `next_offset`, with what is `busy` at each of its requests and the
writes after it: what it was shown, and whether it came to the end. -/
def follow (r : Records κ δ) (offset : ℤ) :
    List ((δ → Bool) × List (Statement κ δ)) → List (δ × Bool) × Bool
  | [] => ([], false)
  | (busy, l) :: ls =>
      match listSessions busy r offset with
      | none => ([], false)
      | some (rows, none) => (rows, true)
      | some (rows, some next) =>
          let rest := follow (r.run f l) next ls
          (rows ++ rest.1, rest.2)

/-- The write deletes no session. -/
def Statement.Spares : Statement κ δ → Prop
  | .delete kind _ => kind ≠ .session
  | .prune .. => False
  | _ => True

/-- The IDs of the sessions, newest first. -/
def ids (r : Records κ δ) : List κ := (r.newest .session).rows.map Prod.fst

/-- A write adds at most one ID, in front. -/
theorem ids_put (t : Table (Prod.fst : κ × δ → κ)) (p : κ × δ) :
    t.rows.map Prod.fst <:+ (t.put p).rows.map Prod.fst := by
  show _ <:+ (Table.putRows Prod.fst p t.rows).map Prod.fst
  unfold Table.putRows
  split_ifs with h
  · rw [Table.map_key_replace]
  · exact List.suffix_cons ..

/-- **A write that deletes no session adds to the front**, or nothing. -/
theorem ids_exec {q : Statement κ δ} (h : q.Spares) (r : Records κ δ) :
    r.ids <:+ (r.exec f q).ids := by
  unfold ids
  rw [newest_exec]
  cases q with
  | put kind id value =>
    rw [Tables.exec, Function.update_apply]
    split_ifs with hk
    · rw [← hk]
      exact ids_put ..
    · exact List.suffix_rfl
  | delete kind id =>
    have hk : RecordKind.session ≠ kind := fun e => h e.symm
    rw [Tables.exec, Function.update_of_ne hk]
  | prune now later => exact h.elim
  | event id value writes trims =>
    have hk : RecordKind.session ≠ .event := by decide
    rw [Tables.exec]
    split_ifs
    · rw [Function.update_of_ne hk]
    · rw [Function.update_of_ne hk]
    · exact List.suffix_rfl

/-- A run without deletions adds IDs in front. -/
theorem ids_run {l : List (Statement κ δ)} (h : ∀ q ∈ l, q.Spares) (r : Records κ δ) :
    r.ids <:+ (r.run f l).ids := by
  induction l generalizing r with
  | nil => exact List.suffix_rfl
  | cons q l ih =>
    exact (ids_exec f (h q List.mem_cons_self) r).trans
      (ih (fun p hp => h p (List.mem_cons_of_mem _ hp)) (r.exec f q))

/-- Dropping from a list that was added to in front leaves what it left before. -/
theorem drop_subset {α : Type} {l l' : List α} (h : l <:+ l') (n : ℕ) : l.drop n ⊆ l'.drop n := by
  obtain ⟨new, rfl⟩ := h
  intro a ha
  have suffix : l.drop n <:+ (new ++ l).drop n :=
    List.suffix_of_suffix_length_le ((List.drop_suffix n l).trans (List.suffix_append new l))
      (List.drop_suffix n _) (by simp only [List.length_drop, List.length_append]; omega)
  exact suffix.subset ha

/-- A session is stored under the ID that its data names. -/
def Statement.Names (ident : δ → κ) : Statement κ δ → Prop
  | .put .session id value => ident value = id
  | _ => True

/-- The data of every session names its ID. -/
def Named (ident : δ → κ) (r : Records κ δ) : Prop :=
  ∀ p ∈ (r.newest .session).rows, ident p.2 = p.1

/-- A statement that names its data keeps them named. -/
theorem named_exec {ident : δ → κ} {q : Statement κ δ} (hq : q.Names ident) {r : Records κ δ}
    (h : r.Named ident) : (r.exec f q).Named ident := by
  intro p hp
  rw [newest_exec] at hp
  cases q with
  | put kind id value =>
    rw [Tables.exec, Function.update_apply] at hp
    split_ifs at hp with hk
    · subst hk
      rcases Table.mem_put.1 hp with rfl | ⟨hp, -⟩
      · exact hq
      · exact h p hp
    · exact h p hp
  | delete kind id =>
    rw [Tables.exec, Function.update_apply] at hp
    split_ifs at hp with hk
    · subst hk
      exact h p (List.mem_of_mem_filter hp)
    · exact h p hp
  | prune now later => exact h p (List.mem_of_mem_filter hp)
  | event id value writes trims =>
    have hk : RecordKind.session ≠ .event := by decide
    rw [Tables.exec] at hp
    split_ifs at hp
    · rw [Function.update_of_ne hk] at hp
      exact h p hp
    · rw [Function.update_of_ne hk] at hp
      exact h p hp
    · exact h p hp

/-- So does a run of such statements. -/
theorem named_run {ident : δ → κ} {l : List (Statement κ δ)} (hl : ∀ q ∈ l, q.Names ident)
    {r : Records κ δ} (h : r.Named ident) : (r.run f l).Named ident := by
  induction l generalizing r with
  | nil => exact h
  | cons q l ih =>
    exact ih (fun p hp => hl p (List.mem_cons_of_mem _ hp))
      (named_exec f (hl q List.mem_cons_self) h)

/-- What a listing shows from an offset on. -/
theorem follow_lists {ident : δ → κ} {ls : List ((δ → Bool) × List (Statement κ δ))}
    (spares : ∀ l ∈ ls, ∀ q ∈ l.2, q.Spares) (names : ∀ l ∈ ls, ∀ q ∈ l.2, q.Names ident) :
    ∀ {r : Records κ δ} {offset : ℤ}, r.Named ident → (follow f r offset ls).2 = true →
      ∀ id ∈ r.ids.drop offset.toNat, ∃ x ∈ (follow f r offset ls).1, ident x.1 = id := by
  induction ls with
  | nil =>
    intro r offset _ h
    cases h
  | cons l ls ih =>
    obtain ⟨busy, l⟩ := l
    intro r offset hn h id hid
    rw [ids, ← List.map_drop] at hid
    obtain ⟨p, hp, rfl⟩ := List.mem_map.1 hid
    have named : ident p.2 = p.1 := hn p (List.mem_of_mem_drop hp)
    rw [← List.take_append_drop 100 ((r.newest .session).rows.drop offset.toNat),
      List.mem_append] at hp
    have page := page_eq r .session 100 offset.toNat
    have shown : p ∈ ((r.newest .session).rows.drop offset.toNat).take 100 →
        (p.2, busy p.2) ∈ (r.page .session 100 offset.toNat).map fun s => (s, busy s) := by
      intro hm
      rw [page, List.map_map]
      exact List.mem_map.2 ⟨p, hm, rfl⟩
    unfold follow listSessions at h ⊢
    by_cases ho : 0 ≤ offset ∧ offset ≤ 1000000
    · rw [if_pos ho] at h ⊢
      by_cases full : (r.page .session 100 offset.toNat).length = 100
      · simp only [full, if_true] at h ⊢
        rcases hp with hp | hp
        · exact ⟨_, List.mem_append_left _ (shown hp), named⟩
        · have later : p.1 ∈ (r.run f l).ids.drop (offset + 100).toNat := by
            have ho' : (offset + 100).toNat = offset.toNat + 100 := by omega
            rw [ho']
            refine drop_subset (ids_run f (spares _ List.mem_cons_self) r) _ ?_
            rw [ids, ← List.map_drop, ← List.drop_drop]
            exact List.mem_map_of_mem hp
          obtain ⟨x, hx, hxi⟩ := ih (fun l' hl' => spares l' (List.mem_cons_of_mem _ hl'))
            (fun l' hl' => names l' (List.mem_cons_of_mem _ hl'))
            (named_run f (names _ List.mem_cons_self) hn) h _ later
          exact ⟨x, List.mem_append_right _ hx, hxi⟩
      · simp only [full, if_false] at h ⊢
        rcases hp with hp | hp
        · exact ⟨_, shown hp, named⟩
        · refine absurd ?_ full
          have := List.length_pos_of_mem hp
          rw [page, List.length_map, List.length_take]
          rw [List.length_drop] at this
          omega
    · rw [if_neg ho] at h
      cases h

/-- The sessions as the console shows them. -/
def shown (busy : δ → Bool) (rows : List (κ × δ)) : List (δ × Bool) :=
  rows.map fun p => (p.2, busy p.2)

omit [DecidableEq κ] in

/-- **A request shows the hundred sessions of its page**, and the next offset if there are more.
-/
theorem listSessions_eq (busy : δ → Bool) (r : Records κ δ) {k : ℕ} (hk : k ≤ 10000) :
    listSessions busy r (100 * k : ℕ) =
      some (shown busy (((r.newest .session).rows.drop (100 * k)).take 100),
        if 100 * (k + 1) ≤ (r.newest .session).rows.length then some ((100 * (k + 1) : ℕ) : ℤ)
        else none) := by
  have within : (0 : ℤ) ≤ (100 * k : ℕ) ∧ ((100 * k : ℕ) : ℤ) ≤ 1000000 := by omega
  have full : ((((r.newest .session).rows.drop (100 * k)).take 100).map Prod.snd).length = 100 ↔
      100 * (k + 1) ≤ (r.newest .session).rows.length := by
    rw [List.length_map, List.length_take, List.length_drop]
    omega
  unfold listSessions
  rw [if_pos within, Int.toNat_natCast, page_eq]
  simp only [full, List.map_map]
  refine congrArg some (Prod.ext rfl ?_)
  show (if _ then _ else _) = (if _ then _ else _)
  split_ifs
  · exact congrArg some (by omega)
  · rfl

/-- On a table that does not change, a listing shows the rest in order, each with what was busy
at one of the requests. -/
theorem follow_quiet {r : Records κ δ} (few : (r.newest .session).rows.length < 1000100)
    (bs : List (δ → Bool)) : ∀ k ≤ 10000, 100 * k ≤ (r.newest .session).rows.length →
      (r.newest .session).rows.length < 100 * (k + bs.length) →
      (follow f r (100 * k : ℕ) (bs.map fun busy => (busy, []))).2 = true ∧
      (follow f r (100 * k : ℕ) (bs.map fun busy => (busy, []))).1.map Prod.fst =
        ((r.newest .session).rows.drop (100 * k)).map Prod.snd ∧
      ∀ x ∈ (follow f r (100 * k : ℕ) (bs.map fun busy => (busy, []))).1,
        ∃ busy ∈ bs, x.2 = busy x.1 := by
  have page : ∀ (busy : δ → Bool) (rows : List (κ × δ)), ∀ x ∈ shown busy rows, x.2 = busy x.1 := by
    intro busy rows x hx
    obtain ⟨p, -, rfl⟩ := List.mem_map.1 hx
    rfl
  have data : ∀ (busy : δ → Bool) (rows : List (κ × δ)), (shown busy rows).map Prod.fst = rows.map Prod.snd := by
    intro busy rows
    rw [shown, List.map_map]
    rfl
  induction bs with
  | nil =>
    intro k _ hk hn
    rw [List.length_nil] at hn
    omega
  | cons busy bs ih =>
    intro k hk _ hn
    rw [List.length_cons] at hn
    rw [List.map_cons, follow, listSessions_eq busy r hk]
    by_cases more : 100 * (k + 1) ≤ (r.newest .session).rows.length
    · rw [if_pos more]
      obtain ⟨ended, shows, each⟩ := ih (k + 1) (by omega) more (by omega)
      refine ⟨ended, ?_, fun x hx => ?_⟩
      · show (shown busy _ ++ (follow f r (100 * (k + 1) : ℕ) _).1).map Prod.fst = _
        rw [List.map_append, data, shows, ← List.map_append, Nat.mul_succ, ← List.drop_drop,
          List.take_append_drop]
      · rcases List.mem_append.1 hx with hx | hx
        · exact ⟨busy, List.mem_cons_self, page busy _ x hx⟩
        · obtain ⟨b, hb, hx⟩ := each x hx
          exact ⟨b, List.mem_cons_of_mem _ hb, hx⟩
    · have rest : ((r.newest .session).rows.drop (100 * k)).take 100 =
          (r.newest .session).rows.drop (100 * k) :=
        List.take_of_length_le (by rw [List.length_drop]; omega)
      rw [if_neg more, rest]
      exact ⟨rfl, data busy _, fun x hx => ⟨busy, List.mem_cons_self, page busy _ x hx⟩⟩

/-- **A listing that comes to its end shows every session there was at its start**, whatever
is written between its pages but deletions of sessions.  On a table that does not change it
comes to its end and shows each session once, newest first, and as busy or not as it was at one
of the requests. -/
theorem listsAll (ident : δ → κ) (l : List (Statement κ δ)) (named : ∀ q ∈ l, q.Names ident) :
    let r := (empty : Records κ δ).run f l
    (∀ ls : List ((δ → Bool) × List (Statement κ δ)),
        (∀ l ∈ ls, ∀ q ∈ l.2, q.Spares ∧ q.Names ident) → (follow f r 0 ls).2 = true →
        ∀ id, (r.get .session id).isSome = true → ∃ x ∈ (follow f r 0 ls).1, ident x.1 = id) ∧
      ((r.all .session).length < 1000100 →
        ∀ bs : List (δ → Bool), (r.all .session).length < 100 * bs.length →
          (follow f r 0 (bs.map fun busy => (busy, []))).2 = true ∧
          (follow f r 0 (bs.map fun busy => (busy, []))).1.map Prod.fst = r.all .session ∧
          ∀ x ∈ (follow f r 0 (bs.map fun busy => (busy, []))).1, ∃ busy ∈ bs, x.2 = busy x.1) := by
  intro r
  have start : (empty : Records κ δ).Named ident := by
    intro p hp
    cases hp
  refine ⟨fun ls hls hend id hid => ?_, fun few bs hn => ?_⟩
  · have there : id ∈ ((empty : Records κ δ).run f l).ids := by
      rw [get_eq, Option.isSome_map] at hid
      obtain ⟨p, hp⟩ := Option.isSome_iff_exists.1 hid
      obtain ⟨hm, rfl⟩ := Table.get_eq_some.1 hp
      exact List.mem_map_of_mem hm
    exact follow_lists f (fun l hl q hq => (hls l hl q hq).1) (fun l hl q hq => (hls l hl q hq).2)
      (named_run f named start) hend id there
  · rw [all_eq, List.length_map] at few hn
    rw [all_eq]
    exact follow_quiet f few bs 0 (by omega) (by omega) (by omega)

/-- Records without any of the fields. -/
def bare : Fields ℕ := ⟨fun _ => none, fun _ => none, fun _ => none⟩

/-- The sessions 0 to 100. -/
def manySessions : List (Statement ℕ ℕ) := (List.range 101).map fun i => .put .session i i

/-- A session is added behind the first page, and what is busy changes. -/
def twoPages : List ((ℕ → Bool) × List (Statement ℕ ℕ)) :=
  [(fun _ => false, [.put .session 200 200]), (fun _ => true, [])]

/-- The oldest of 101 sessions is on the second page, although one was added in between. -/
theorem listsAll_moved :
    ∃ x ∈ (follow bare ((empty : Records ℕ ℕ).run bare manySessions) 0 twoPages).1, x.1 = 0 :=
  (listsAll bare (fun n => n) manySessions (by simp [manySessions, Statement.Names])).1 twoPages
    (by simp [twoPages, Statement.Names, Statement.Spares]) (by decide +kernel) 0 (by decide +kernel)

/-! ### The events -/

/-- The event that the write stores. -/
def Statement.logs : Statement κ δ → Option (κ × δ)
  | .event id value true _ => some (id, value)
  | _ => none

/-- The write leaves the events to `Store.event`. -/
def Statement.Leaves : Statement κ δ → Prop
  | .put kind _ _ | .delete kind _ => kind ≠ .event
  | _ => True

/-- The number of events stored since the deletion of old ones last succeeded; the newest
write comes first. -/
def untrimmed : List (Statement κ δ) → ℕ
  | [] => 0
  | .event _ _ true true :: _ => 0
  | .event _ _ true false :: l => untrimmed l + 1
  | _ :: l => untrimmed l

/-- The last statement is the first of the list reversed. -/
theorem run_reverse_cons (r : Records κ δ) (q : Statement κ δ) (l : List (Statement κ δ)) :
    r.run f (q :: l).reverse = (r.run f l.reverse).exec f q := by
  rw [run, List.reverse_cons, List.foldl_append]
  rfl

/-- A record with a new key comes first. -/
theorem put_fresh {t : Table (Prod.fst : κ × δ → κ)} {p : κ × δ} (h : p.1 ∉ t.rows.map Prod.fst) :
    (t.put p).rows = p :: t.rows := if_neg h

/-- **The newest 500 events are kept**, and those stored since the deletion of older ones
last succeeded; nothing else is.  The newest write comes first. -/
theorem eventsKept (l : List (Statement κ δ)) (leaves : ∀ q ∈ l, q.Leaves)
    (distinct : ((l.filterMap Statement.logs).map Prod.fst).Nodup) :
    (((empty : Records κ δ).run f l.reverse).newest .event).rows =
      (l.filterMap Statement.logs).take (500 + untrimmed l) := by
  induction l with
  | nil => rfl
  | cons q l ih =>
    have kept := fun hd => ih (fun p hp => leaves p (List.mem_cons_of_mem _ hp)) hd
    rw [run_reverse_cons, newest_exec]
    cases q with
    | put kind id value =>
      have hk : RecordKind.event ≠ kind := fun e => leaves _ List.mem_cons_self e.symm
      rw [Tables.exec, Function.update_of_ne hk]
      exact kept distinct
    | delete kind id =>
      have hk : RecordKind.event ≠ kind := fun e => leaves _ List.mem_cons_self e.symm
      rw [Tables.exec, Function.update_of_ne hk]
      exact kept distinct
    | prune now later => exact (List.filter_true _).trans (kept distinct)
    | event id value writes trims =>
      cases writes with
      | false => exact kept distinct
      | true =>
        obtain ⟨fresh, distinct⟩ := List.nodup_cons.1 distinct
        have rows := kept distinct
        have new : (id, value).1 ∉
            (((empty : Records κ δ).run f l.reverse).newest .event).rows.map Prod.fst := by
          rw [rows, List.map_take]
          exact fun h => fresh (List.mem_of_mem_take h)
        rw [Tables.exec, if_pos rfl, Function.update_self]
        cases trims with
        | false =>
          show (Table.put _ (id, value)).rows = _
          rw [put_fresh new, rows]
          rfl
        | true =>
          show (Table.put _ (id, value)).rows.take 500 = _
          rw [put_fresh new, rows]
          show (id, value) :: ((l.filterMap Statement.logs).take (500 + untrimmed l)).take 499 =
            (id, value) :: (l.filterMap Statement.logs).take 499
          rw [List.take_take, Nat.min_eq_left (by omega)]

/-- The first `n` events, newest first; only behind the event 500 the deletion of old ones
failed. -/
def someEvents (n : ℕ) : List (Statement ℕ ℕ) :=
  (List.range n).reverse.map fun i => .event i i true (i ≠ 500)

/-- Of 502 events 501 are kept while the deletion fails, and 500 when it succeeds again. -/
theorem eventsKept_many :
    (((empty : Records ℕ ℕ).run bare (someEvents 501).reverse).newest .event).rows =
        ((someEvents 501).filterMap Statement.logs).take 501 ∧
      (((empty : Records ℕ ℕ).run bare (someEvents 502).reverse).newest .event).rows =
        ((someEvents 502).filterMap Statement.logs).take 500 := by
  have leaves : ∀ n, ∀ q ∈ someEvents n, q.Leaves := by simp [someEvents, Statement.Leaves]
  have distinct : ∀ n, (((someEvents n).filterMap Statement.logs).map Prod.fst).Nodup := by
    intro n
    have ids : ((someEvents n).filterMap Statement.logs).map Prod.fst = (List.range n).reverse := by
      simp [someEvents, List.filterMap_map, Function.comp_def, Statement.logs]
    rw [ids]
    exact List.nodup_reverse.2 List.nodup_range
  have failed := eventsKept bare (someEvents 501) (leaves 501) (distinct 501)
  have kept := eventsKept bare (someEvents 502) (leaves 502) (distinct 502)
  rw [show untrimmed (someEvents 501) = 1 by decide +kernel] at failed
  rw [show untrimmed (someEvents 502) = 0 by decide +kernel] at kept
  exact ⟨failed, kept⟩

end Records
end MorpheusGateway
