/-
# The wallet scan misses nothing

A sweep reads one page of the wallet's sessions, newest first, and stores where the next one
goes on.  New sessions come in front of the list between two sweeps, so that the offset points
at sessions that were examined already, never past one that was not.  A sweep that fails or is
cut by a crash leaves the offset as it was.

The offset is read, and the next one stored, in two pieces of the sweep.  They belong together
because there is one sweep at a time (`sweepsAlone`), which is the slot of the sweep.
-/

import MorpheusGateway.Guarantees.Openers
import MorpheusGateway.Guarantees.Revoking

namespace MorpheusGateway

open Contract

variable {cfg : Config} {C : ItemRule}

/-! ### One sweep at a time -/

/-- Two sweeps that are not done are one. -/
def OneSweep (l : List LogItem) : Prop :=
  ∀ ⦃t u a b h h'⦄, powers.point t l = some a → Sweeps h a → powers.point u l = some b →
    Sweeps h' b → t = u

/-- The wallet's sessions on the chain, newest first, at each point of a run.  New ones come in
front. -/
structure WalletHistory where
  sessions : List LogItem → List Json
  grows (x : LogItem) (l : List LogItem) : sessions l <:+ sessions (x :: l)

/-- The node answers with at most a hundred sessions of the history, from the offset on. -/
def WalletHistory.Serves (H : WalletHistory) : ItemRule
  | _, l, .task _ (.wake (.walletSessions offset) x) => ∀ wallet batch,
      readWalletSessions wallet offset x = .ok batch →
        batch = ((H.sessions l).drop offset).take 100
  | _, _, _ => True

/-- The history when the present pass began: when the offset was last stored as 0, or at the
start. -/
def WalletHistory.beginning (H : WalletHistory) : List LogItem → List Json
  | [] => H.sessions []
  | .task t (.emit (.walletScan n)) :: l =>
    if n = 0 then H.sessions (.task t (.emit (.walletScan n)) :: l) else H.beginning l
  | _ :: l => H.beginning l

/-- The page of the wallet that the task `t` has read last. -/
def pageOf (t : ℕ) : List LogItem → List Json
  | [] | .crash :: _ => []
  | .task u (.wake (.walletSessions offset) x) :: l =>
    if u = t then (readWalletSessions "" offset x).toOption.getD [] else pageOf t l
  | _ :: l => pageOf t l

/-- The sessions that the sweeps of the present pass have examined. -/
def examined : List LogItem → List Json
  | [] => []
  | .task t (.emit (.walletScan n)) :: l => if n = 0 then [] else pageOf t l ++ examined l
  | _ :: l => examined l

section Log

variable {H : WalletHistory} {t u : ℕ} {x : LogEntry} {l : List LogItem}

/-- Only a stored offset begins a pass. -/
theorem beginning_of_ne (hx : ∀ n, x ≠ .emit (.walletScan n)) :
    H.beginning (.task t x :: l) = H.beginning l := by
  cases x with
  | emit e =>
    cases e with
    | walletScan n => exact absurd rfl (hx n)
    | _ => rfl
  | _ => rfl

/-- Only a stored offset adds a page. -/
theorem examined_of_ne (hx : ∀ n, x ≠ .emit (.walletScan n)) :
    examined (.task t x :: l) = examined l := by
  cases x with
  | emit e =>
    cases e with
    | walletScan n => exact absurd rfl (hx n)
    | _ => rfl
  | _ => rfl

/-- What another task reads is not the page. -/
theorem pageOf_of_ne (h : u ≠ t) : pageOf u (.task t x :: l) = pageOf u l := by
  cases x with
  | wake i a =>
    cases i with
    | walletSessions offset => exact if_neg (Ne.symm h)
    | _ => rfl
  | _ => rfl

/-- What was there from an offset on is still there when the list has grown in front. -/
theorem mem_drop_of_suffix {α : Type} {h k : List α} (hk : h <:+ k) {n : ℕ} {a : α}
    (ha : a ∈ h.drop n) : a ∈ k.drop n := by
  obtain ⟨new, rfl⟩ := hk
  have later : h.drop n = (h.drop (n - new.length)).drop (n - (n - new.length)) := by
    rw [List.drop_drop]
    congr 1
    omega
  rw [List.drop_append]
  rw [later] at ha
  exact List.mem_append_right _ (List.mem_of_mem_drop ha)

end Log

/-! ### The scan over whole runs -/

/-- What was there when the pass began has been examined, or is in `h` from the offset on. -/
def WalletHistory.Covered (H : WalletHistory) (l : List LogItem) (h : List Json) (offset : ℕ) : Prop :=
  ∀ session ∈ H.beginning l, session ∈ examined l ∨ session ∈ h.drop offset

/-- What holds of a task that reads a page, or has read it. -/
structure Scans (H : WalletHistory) (s : World) (l : List LogItem) (t : ℕ) (a : Agent) : Prop where
  asks : ∀ offset, a.site = some (.walletSessions offset) →
    (∃ handle, a.program = .task handle .sweep) ∧ (a.done = false → offset = s.store.walletScan)
  reads : ∀ offset x, a.woken = some (.walletSessions offset, x) → a.site = none ∧
    (∃ handle, a.program = .task handle .sweep) ∧ (a.done = false → offset = s.store.walletScan ∧
      ∀ wallet batch, readWalletSessions wallet offset x = .ok batch → pageOf t l = batch ∧
        ∃ h, h <:+ H.sessions l ∧ batch = (h.drop offset).take 100 ∧ H.Covered l h offset)

/-- What holds of the scan. -/
structure Scanned (H : WalletHistory) (s : World) (l : List LogItem) : Prop where
  covered : H.Covered l (H.sessions l) s.store.walletScan
  scans : ∀ t a, powers.point t l = some a → Scans H s l t a

section Steps

variable {H : WalletHistory} {s s' : World} {l : List LogItem} {t u : ℕ} {x : LogEntry} {a b : Agent}

/-- What is covered stays covered as the history grows. -/
theorem covered_of_ne {h k : List Json} {offset : ℕ} (hc : H.Covered l h offset) (hk : h <:+ k)
    (hx : ∀ n, x ≠ .emit (.walletScan n)) : H.Covered (.task t x :: l) k offset := by
  intro session hs
  rw [beginning_of_ne hx] at hs
  rw [examined_of_ne hx]
  exact (hc session hs).imp_right (mem_drop_of_suffix hk)

/-- An entry that stores no offset leaves a task where it is, if it is not its own. -/
theorem Scans.keep (h : Scans H s l u a) (hs : s'.store.walletScan = s.store.walletScan)
    (hx : ∀ n, x ≠ .emit (.walletScan n)) (hp : pageOf u (.task t x :: l) = pageOf u l)
    (site : b.site = a.site) (woken : b.woken = a.woken) (program : b.program = a.program)
    (done : b.done = false → a.done = false) : Scans H s' (.task t x :: l) u b where
  asks offset hi := by
    rw [site] at hi
    rw [program, hs]
    exact (h.asks offset hi).imp_right fun ho hd => ho (done hd)
  reads offset y hy := by
    rw [woken] at hy
    obtain ⟨away, sweep, read⟩ := h.reads offset y hy
    rw [site, program, hs, hp]
    refine ⟨away, sweep, fun hd => ⟨(read (done hd)).1, fun wallet batch hb => ?_⟩⟩
    obtain ⟨hpage, k, hk, hbatch, hc⟩ := (read (done hd)).2 wallet batch hb
    exact ⟨hpage, k, hk.trans (H.grows _ l), hbatch, covered_of_ne hc (List.suffix_refl k) hx⟩

/-- An entry that stores no offset. -/
theorem Scanned.task (h : Scanned H s l) (hs : s'.store.walletScan = s.store.walletScan)
    (hx : ∀ n, x ≠ .emit (.walletScan n))
    (own : ∀ b, powers.advance x (powers.point t l) = some b → Scans H s' (.task t x :: l) t b) :
    Scanned H s' (.task t x :: l) where
  covered := by
    rw [hs]
    exact covered_of_ne h.covered (H.grows _ l) hx
  scans := forall_point own fun u q hu hq =>
    (h.scans u q hq).keep hs hx (pageOf_of_ne hu) rfl rfl rfl id

/-- A sweep stores the offset after its page. -/
theorem Scanned.store {n : ℕ} (h : Scanned H s l) (one : OneSweep l) (at_ : powers.point t l = some a)
    (ok : AgentOk a s (.emit (.walletScan n))) :
    Scanned H (s.apply t (.walletScan n)) (.task t (.emit (.walletScan n)) :: l) := by
  obtain ⟨may, hd, wallet, offset, x, batch, hpage, hb, hn⟩ := ok
  obtain ⟨away, ⟨handle, hp⟩, read⟩ := (h.scans t a at_).reads offset x hpage
  obtain ⟨page, k, hk, hbatch, hc⟩ := (read hd).2 wallet batch hb
  have mine : Sweeps handle a := ⟨hp, hd⟩
  refine ⟨fun session hs => ?_, forall_point (fun b hb' => ?_) fun u q hu hq => ?_⟩
  · show session ∈ examined (.task t (.emit (.walletScan n)) :: l) ∨
      session ∈ (H.sessions (.task t (.emit (.walletScan n)) :: l)).drop n
    unfold WalletHistory.beginning at hs
    unfold examined
    split_ifs at hs ⊢ with h0
    · subst h0
      exact .inr hs
    · have hlen : batch.length = 100 := by
        by_contra hlen
        exact h0 (hn.trans (if_neg hlen))
      rw [if_pos hlen, hlen] at hn
      rw [page, hn]
      rcases hc session hs with he | hm
      · exact .inl (List.mem_append_right _ he)
      · rw [← List.take_append_drop 100 (k.drop offset), ← hbatch, List.drop_drop] at hm
        rcases List.mem_append.1 hm with hm | hm
        · exact .inl (List.mem_append_left _ hm)
        · exact .inr (mem_drop_of_suffix (hk.trans (H.grows _ l)) hm)
  · rw [at_] at hb'
    obtain rfl := Option.some.inj hb'
    exact ⟨fun o hi => (by cases away.symm.trans hi), fun _ _ hy => (by cases hy)⟩
  · -- No other task that is not done scans.
    have other : ∀ handle', q.program = .task handle' .sweep → q.done ≠ false := fun handle' hq' hd' =>
      hu (one hq ⟨hq', hd'⟩ at_ mine)
    obtain ⟨asks, reads⟩ := h.scans u q hq
    refine ⟨fun o hi => ?_, fun o y hy => ?_⟩
    · obtain ⟨⟨handle', hq'⟩, -⟩ := asks o hi
      exact ⟨⟨handle', hq'⟩, fun hd' => absurd hd' (other handle' hq')⟩
    · obtain ⟨away', ⟨handle', hq'⟩, -⟩ := reads o y hy
      exact ⟨away', ⟨handle', hq'⟩, fun hd' => absurd hd' (other handle' hq')⟩

end Steps

namespace Sample

/-- The oldest hundred and one sessions of the wallet. -/
def oldest : List Json := (List.range 101).map fun n => .obj [("Id", .num n)]

/-- The second sweep starts. -/
def goesOn : LogItem → Bool
  | .task 4 (.start (.task _ .sweep)) => true
  | _ => false

/-- Another session comes before the second sweep starts. -/
def history : WalletHistory where
  sessions l := if l.any goesOn then .obj [("Id", .num 101)] :: oldest else oldest
  grows x l := by
    rw [List.any_cons]
    cases hl : l.any goesOn with
    | true => simp
    | false =>
      rewrite [if_neg Bool.false_ne_true]
      split_ifs
      · exact List.suffix_cons _ _
      · exact List.suffix_refl _

/-- The node answers with the pages of the history. -/
def serves (_ : World) (l : List LogItem) : LogItem → Bool
  | .task _ (.wake (.walletSessions offset) x) =>
      decide ((readWalletSessions "" offset x).toOption =
        some (((history.sessions l).drop offset).take 100))
  | _ => true

end Sample

end MorpheusGateway
