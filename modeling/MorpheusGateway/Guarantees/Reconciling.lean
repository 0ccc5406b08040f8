/-
# What `reconcile` overwrites

Each pass of `reconcile` stores a record made of the copy it last read.  The first two
read the record again before they write it.  The third pass lists its records once and
writes its copies: whether the stored record is still that copy depends on the others.

`LeavesListed` is what it needs of them: while a third pass has a record still to judge,
nobody stores another version of it.  `not_noLostUpdate` is a run in which `bind` opens the
session meanwhile and the pass puts the uncertain copy back.
-/

import MorpheusGateway.Protocol.Runs

namespace MorpheusGateway

open Contract

variable {cfg : Config} {C : ItemRule}

/-- The copy that a pass of `reconcile` writes from. -/
def Writer.copy : Writer → Option Row
  | .journalPass c | .truthPass c | .truthPassError c | .receiptPass c _ | .receiptPassError c _ => some c
  | _ => none

/-- The writer is the third pass. -/
def Writer.receipts : Writer → Bool
  | .receiptPass .. | .receiptPassError .. => true
  | _ => false

/-- A pass of `reconcile` writes over the copy it read. -/
def NoLostUpdate : ItemRule :=
  OnPut fun s _ _ w row => ∀ c, w.copy = some c → s.row? row.id = some c

/-- The record of an opening with an uncertain outcome and no session ID. -/
def Row.sessionless (row : Row) : Bool := row.state = .openUnknown && row.chainId.isNone

/-- The records that the third pass has still to judge; it skips the others it has listed. -/
def Place.unjudged (p : Place) : List Row := p.listed.filter Row.sessionless

/-- While a third pass has a record still to judge, only the pass itself stores another
version. -/
def LeavesListed : ItemRule :=
  OnPut fun _ l t w row => ∀ u pc r, pcAt l u = some pc → r ∈ pc.place.unjudged → row.id = r.id →
    (u = t → w.receipts = false) → row = r

/-- The records stay current when another version of none is stored. -/
theorem Current.apply {s : World} {t : ℕ} {e : Event} {rows : List Row} (h : Current s.store rows)
    (he : ∀ w row, e.stored = some (w, row) → ∀ r ∈ rows, row.id = r.id → row = r) :
    Current (s.apply t e).store rows := by
  refine ⟨fun r hr => ⟨?_, (h.1 r hr).2⟩, h.2⟩
  obtain ⟨hrow, hlive⟩ := h.1 r hr
  rcases row?_apply (t := t) (e := e) hrow hlive with ⟨hs, -⟩ | ⟨w, row, hw, hid, hs⟩
  · exact hs
  · rwa [he w row hw r hr hid] at hs

/-- Where the unjudged records are current, those of a listed part are. -/
theorem Listed.unjudged {pc : Pc} {s : World} {rows : List Row} (h : Listed pc s rows)
    (hc : Current s.store pc.place.unjudged) : Current s.store (rows.filter Row.sessionless) := by
  rcases h with now | before
  · exact now.sublist List.filter_sublist
  · exact hc.sublist (before.sublist.filter _)

/-- What the third pass writes from, and what it has still to judge, is current. -/
theorem current_of_write {pc : Pc} {s : World} {w : Writer} {row : Row}
    (h : Current s.store pc.place.unjudged) (ok : RowWrite cfg pc s row w) :
    ∀ c rest, w = .receiptPass c rest ∨ w = .receiptPassError c rest →
      Current s.store (c :: rest.filter Row.sessionless) ∧ row.id = c.id := by
  have head : ∀ {c : Row} {rest : List Row}, c.state = .openUnknown → c.chainId = none →
      (c :: rest).filter Row.sessionless = c :: rest.filter Row.sessionless := fun hst hid =>
    List.filter_cons_of_pos (by simp [Row.sessionless, hst, hid])
  rintro c rest (rfl | rfl)
  · obtain ⟨-, -, hk, hst, hid, seen, tx, a, all, hp, -⟩ := ok
    rw [← head hst hid]
    rw [hp] at h
    exact ⟨h, hk.1.1⟩
  · obtain ⟨-, hid, -, hk, hst, hl⟩ := ok
    rw [← head hst (hk.2.1.symm.trans hid)]
    exact ⟨hl.unjudged h, hk.1.1⟩

/-- **The records still to judge stay as they were listed.** -/
theorem undisturbed_listed : Undisturbed (gateway cfg) (protocol cfg) LeavesListed
    fun s _ pc => Current s.store pc.place.unjudged := by
  have nothing : ∀ st, Current st [] := fun st => ⟨fun _ hr => (nomatch hr), List.nodup_nil⟩
  refine undisturbed_place (J := fun st p => Current st p.unjudged) nothing id
    (fun {s t pc e l} h at_ ok c => ?_) (fun {s t pc e l u q} ne h atu _ _ c => ?_)
    fun {s t pc i l} h _ ok _ => ?_
  · rcases pc.place_emit e with ⟨hp, hw⟩ | ⟨w, row, rest, he, hw, hp⟩
    · rw [hp]
      refine h.apply fun w row he r hr hid => c.stored he t pc r at_ hr hid fun _ => ?_
      have hspends := hw w row he
      cases w with
      | receiptPass | receiptPassError => cases hspends
      | _ => rfl
    · rw [hp]
      obtain rfl := Event.eq_put he
      have ok : RowWrite cfg pc s row w := ok
      cases w with
      | bind | openStart =>
        obtain rfl := Option.some.inj hw
        exact nothing _
      | receiptPass c' rest' | receiptPassError c' rest' =>
        obtain rfl := Option.some.inj hw
        obtain ⟨hcur, hid⟩ := current_of_write h ok c' rest' (by simp)
        refine (hcur.sublist (List.sublist_cons_self _ _)).apply fun w row he r hr hne => ?_
        obtain ⟨rfl, rfl⟩ := Prod.mk.inj (Option.some.inj he)
        have hmem := (List.nodup_cons.1 hcur.2).1
        exact absurd (List.mem_map.2 ⟨r, hr, hne.symm.trans hid⟩) hmem
      | _ => cases hw
  · exact h.apply fun w row he r hr hid => c.stored he u q r atu hr hid fun hut => absurd hut ne
  · have settled : ∀ row rest, Listed pc s (row :: rest) →
        Current s.store ((row :: rest).filter Row.sessionless) := fun _ _ hl => hl.unjudged h
    cases i with
    | rpcChain j seen tx =>
      cases j with
      | opening row rest => exact settled row rest ok.2
      | _ => exact nothing _
    | receipt j seen tx =>
      cases j with
      | opening row rest => exact settled row rest ok.2
      | _ => exact nothing _
    | _ => exact nothing _

/-- **`reconcile` never overwrites a concurrent update**, as long as nobody else stores
another version of a record that its third pass has still to judge. -/
theorem noLostUpdate (cfg : Config) : Ensures cfg LeavesListed NoLostUpdate := by
  refine Ensures.put fun {s P l t pc w row} tr at_ ok _ c hc => ?_
  have hcur : Current s.store pc.place.unjudged :=
    undisturbed_listed.traj tr t pc (by rw [Run.pcs tr, at_])
  have hhead : ∀ {rest : List Row}, Current s.store (c :: rest) ∧ row.id = c.id →
      s.row? row.id = some c :=
    fun ⟨h, hid⟩ => hid ▸ (h.1 c List.mem_cons_self).1
  cases w with
  | journalPass old | truthPass old | truthPassError old =>
    obtain rfl := Option.some.inj hc
    exact ok.1
  | receiptPass old rest | receiptPassError old rest =>
    obtain rfl := Option.some.inj hc
    exact hhead (current_of_write hcur ok _ rest (by simp))
  | _ => cases hc

/-! ### A pass that nobody disturbs, and one that `bind` overtakes -/

namespace Sample

/-- The opening was rejected with its transaction. -/
def rejected : Answer := .response 500 (some (.obj [("progress", .obj [("transactions",
  .arr [.obj [("kind", .str "open"), ("hash", .str bidId)]])])]))

/-- After a restart the third pass asks for the receipt of that transaction. -/
def judging : Script := opening ++ [.wake 4 rejected [], .crash, .start 0 .run [], .wake 0 identity []]

/-- The chain of the node. -/
def chain : Answer := ok [("result", .str "0x1")]

/-- The transaction reverted. -/
def reverted : Answer := ok [("result", .obj [("status", .str "0x0")])]

end Sample

/-- Whether the task `t`, which stores `row`, leaves alone what one at `pc` has still to judge. -/
def leavesUnjudged (t : ℕ) (w : Writer) (row : Row) (u : ℕ) (pc : Pc) : Bool :=
  (u = t && w.receipts) || pc.place.unjudged.all fun r => row.id ≠ r.id

/-- Nobody stores a record that a third pass has still to judge. -/
def leavesListed (_ : World) (l : List LogItem) : LogItem → Bool
  | .task t (.emit (.put w row)) => everyPoint (leavesUnjudged t w row) l
  | _ => true

/-- The third pass stores what the receipt says. -/
def judges (_ : List LogItem) : LogItem → Bool
  | .task _ (.emit (.put (.receiptPass ..) _)) => true
  | _ => false

/-- The third pass finds out that the opening reverted. -/
theorem noLostUpdate_reverted :
    Exhibits { rpcConfigured := true } LeavesListed NoLostUpdate judges := by
  refine (noLostUpdate _).exhibit (exists_run leavesListed (fun s l x h => ?_) _
    (Sample.judging ++ [.wake 0 Sample.chain [], .wake 0 Sample.reverted []]) (by decide +kernel))
  cases x with
  | task t a =>
    cases a with
    | emit e =>
      cases e with
      | put w row =>
        intro u pc r at_ hr hid own
        have hp := everyPoint_spec h at_
        rcases Bool.or_eq_true_iff.1 hp with hp | hp
        · obtain ⟨hu, hw⟩ := Bool.and_eq_true_iff.1 hp
          rw [own (of_decide_eq_true hu)] at hw
          cases hw
        · exact absurd hid (of_decide_eq_true (List.all_eq_true.1 hp r hr))
      | _ => exact trivial
    | _ => exact trivial
  | _ => exact trivial

/-- The third pass writes over a record in the state of its copy. -/
def overCopy (s : World) (_ : List LogItem) : LogItem → Bool
  | .task _ (.emit (.put (.receiptPass c _) row)) => (s.row? row.id).map Row.state = some c.state
  | _ => true

/-- The opening was rejected with its transaction; after a restart `bind` opens the
session while the third pass awaits that transaction's receipt, which says it reverted. -/
theorem not_noLostUpdate : ¬Ensures { rpcConfigured := true } Always NoLostUpdate := by
  refine not_ensures overCopy (fun {s l x} h => ?_)
    (Sample.judging ++ [.start 5 (.bind (.uuid 2) Sample.sid) [], .wake 5 Sample.identity [],
      .wake 5 (Sample.session 0) [], .wake 0 Sample.chain []])
    (.wake 0 Sample.reverted []) (by decide +kernel)
  unfold overCopy
  split
  · rename_i t c rest row
    have hstored : s.row? row.id = some c := h c rfl
    simp [hstored]
  · rfl

end MorpheusGateway
