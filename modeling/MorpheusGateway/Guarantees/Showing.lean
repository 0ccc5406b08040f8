/-
# No session is given up unseen

A record in a terminal state is never looked at again, so what it stands for is lost from sight.
`Shows` says which answer of the node or of the helper makes the source take that step: a chain
read of the session with a `ClosedAt` for `closed`, and for `failed` the refusal of the POST, the
failure of the read that follows it, the journal, or the receipts of all its transactions.
Every record that was ever stored as terminal has such an answer in the log (`showsTerminal`).
-/

import MorpheusGateway.Protocol.Runs

namespace MorpheusGateway

open Contract

variable {cfg : Config} {C : ItemRule}

/-- The answer shows that the record may go to a terminal state. -/
def Shows (id : RowId) (i : Site) (a : Answer) : RowState → Prop
  | .closed => ∃ r n, i.reads = some r ∧ r.id = id ∧ closedAt a = some n ∧ n ≠ 0
  | .failed =>
    (i.label a = some .notSubmitted ∧
      ((∃ r duration limit, i = .openPost r duration limit ∧ r.id = id) ∨
        ∃ r, i = .openRead r ∧ r.id = id)) ∨
    (∃ r, i = .rowJournal r ∧ r.id = id ∧ answersUnsent a) ∨
    ∃ r rest seen tx all, i = .receipt (.opening r rest) seen tx ∧ r.id = id ∧
      receiptsAfter seen tx a = some all ∧ Sessions.verdict (all.map Prod.snd) = .ok .failed ∧
      all.map Prod.fst = (Judged.opening r rest).hashes
  | _ => True

/-- The task `t` was woken by the answer. -/
def Woken (l : List LogItem) (i : Site) (a : Answer) : Prop := ∃ t, Item.task t (.wake i a) ∈ l

/-- Some answer showed that the record may go to the terminal state. -/
def Shown (l : List LogItem) (id : RowId) (state : RowState) : Prop :=
  ∃ i a, Woken l i a ∧ Shows id i a state

/-- Every record that was ever stored in a terminal state was shown to be in it. -/
def ShowsTerminal : ItemRule := fun s l _ =>
  ∀ row ∈ s.written, row.state.terminal = true → Shown l row.id row.state

/-! ### What holds of the control points -/

/-- An answer stays in the log. -/
theorem Woken.older {l : List LogItem} {i : Site} {a : Answer} (h : Woken l i a) (x : LogItem) :
    Woken (x :: l) i a := h.imp fun _ h => List.mem_cons_of_mem x h

/-- So does what it shows. -/
theorem Shown.older {l : List LogItem} {id : RowId} {state : RowState} (h : Shown l id state)
    (x : LogItem) : Shown (x :: l) id state := by
  obtain ⟨i, a, hw, hs⟩ := h
  exact ⟨i, a, hw.older x, hs⟩

/-- The record that is to be closed and is read from the chain. -/
def Place.closing : Place → Option Row
  | .parked (.closeRead r) | .woken (.closeRead r) _ => some r
  | _ => none

/-- An answer at a control point was given, and a record to be closed is a live one. -/
structure Told (l : List LogItem) (p : Place) : Prop where
  woken : ∀ i a, p = .woken i a → Woken l i a
  live : ∀ r, p.closing = some r → r.state.terminal = false

/-- So does what a place was told. -/
theorem Told.older {l : List LogItem} {p : Place} (h : Told l p) (x : LogItem) : Told (x :: l) p :=
  ⟨fun i a hp => (h.woken i a hp).older x, h.live⟩

/-- The answer that a task goes on from shows it. -/
theorem Shown.of_place {l : List LogItem} {p : Place} (h : Told l p) {id : RowId} {state : RowState}
    (hs : ∃ i a, p = .woken i a ∧ Shows id i a state) : Shown l id state := by
  obtain ⟨i, a, hp, hs⟩ := hs
  exact ⟨i, a, h.woken i a hp, hs⟩

/-- A read that finds the session closed shows it. -/
theorem Shown.of_readClosed {l : List LogItem} {p : Place} (h : Told l p) {id : RowId}
    (hr : p.ReadClosed id) : Shown l id .closed := by
  obtain ⟨i, a, r, n, hp, hi, hid, hc, hn⟩ := hr
  exact .of_place h ⟨i, a, hp, r, n, hi, hid, hc, hn⟩

/-- How the journal changes the state of a record. -/
theorem state_journaled (row : Row) (progress : Json) (time : ℚ) :
    (Sessions.journaled row progress time).state = row.state ∨
      (Sessions.journaled row progress time).state = .draining ∨
      (Sessions.journaled row progress time).state = .failed ∧ Sessions.journalUnsent progress = true := by
  unfold Sessions.journaled
  dsimp only
  split
  · split
    · exact .inl rfl
    · split
      · rename_i unsent
        exact .inr (.inr ⟨rfl, unsent⟩)
      · exact .inl rfl
  · split
    · exact .inr (.inl rfl)
    · exact .inl rfl

/-- **A record goes to a terminal state only when that is shown.** -/
theorem RowWrite.shown {s : World} {l : List LogItem} {pc : Pc} {w : Writer} {row : Row}
    (ok : RowWrite cfg pc s row w) (told : Told l pc.place)
    (old : ∀ r ∈ s.written, r.state.terminal = true → Shown l r.id r.state)
    (terminal : row.state.terminal = true) : Shown l row.id row.state := by
  -- A record that is made from the stored one, in the state of that.
  have same : ∀ {r : Row}, s.row? row.id = some r → row.state = r.state → Shown l row.id row.state := by
    intro r hr hs
    obtain ⟨hrow, hid⟩ := Table.get_eq_some.1 hr
    have := old r (s.store.sessions.stored r hrow) (hs ▸ terminal)
    rwa [hs, ← hid]
  have closed : row.state = .closed → pc.place.ReadClosed row.id → Shown l row.id row.state := by
    intro hs hr
    rw [hs]
    exact .of_readClosed told hr
  have never : ∀ {state : RowState}, row.state = state → state.terminal = false →
      Shown l row.id row.state := by
    rintro state rfl h
    cases terminal.symm.trans h
  cases w with
  | recover =>
    obtain ⟨_, -, -, ⟨-, hs⟩ | ⟨-, hs⟩⟩ := ok
    · exact never hs rfl
    · exact never hs rfl
  | rebalance | tick =>
    obtain ⟨_, -, -, -, hs⟩ := ok
    exact never hs rfl
  | acquired =>
    obtain ⟨_, -, -, -, ⟨hs, -⟩ | hs | ⟨hs, hr⟩, -⟩ := ok
    · exact never hs rfl
    · exact never hs rfl
    · exact closed hs hr
  | release | closeUnverified =>
    obtain ⟨_, hr, -, hs⟩ := ok
    exact same hr hs
  | invalidate | closeActive | closeRequested =>
    obtain ⟨_, -, -, hs, -⟩ := ok
    exact never hs rfl
  | journalPass r =>
    obtain ⟨hr, a, progress, time, hp, ha, hrow, hlive⟩ := ok
    rcases state_journaled r progress time with hs | hs | ⟨hs, unsent⟩
    · rw [← hrow] at hs
      rcases hlive with hl | hl
      · exact never (hs.trans hl) rfl
      · exact never (hs.trans hl) rfl
    · exact never ((congrArg Row.state hrow).trans hs) rfl
    · rw [(congrArg Row.state hrow).trans hs]
      exact .of_place told ⟨_, a, hp, .inr (.inl ⟨r, rfl, (Table.get_eq_some.1 hr).2, progress, ha, unsent⟩)⟩
  | truthPass r =>
    obtain ⟨hr, -, -, hs | ⟨-, hs⟩ | ⟨-, hs, -⟩ | ⟨hs, hc⟩⟩ := ok
    · exact same hr hs
    · exact never hs rfl
    · exact never hs rfl
    · exact closed hs hc
  | truthPassError r => exact same ok.1 ok.2.2
  | quarantine => exact never ok.1 rfl
  | openStart => exact never ok.2.2.1 rfl
  | openBound => exact never ok.2.1 rfl
  | openDone =>
    obtain ⟨-, _, _, -, -, hs | hs | ⟨hs, hr⟩⟩ := ok
    · exact never hs rfl
    · exact never hs rfl
    · exact closed hs hr
  | openFailed =>
    obtain ⟨-, hs | ⟨hs, i, a, hp, hl⟩, at_⟩ := ok
    · exact never hs rfl
    · rw [hs]
      refine .of_place told ⟨i, a, hp, .inl ⟨hl, ?_⟩⟩
      rcases at_ with ⟨r, d, limit, a', hp', hk, -⟩ | ⟨r, a', hp', hk⟩
      · obtain ⟨rfl, rfl⟩ := Place.woken.inj (hp.symm.trans hp')
        exact .inl ⟨r, d, limit, rfl, hk.1.1.symm⟩
      · obtain ⟨rfl, rfl⟩ := Place.woken.inj (hp.symm.trans hp')
        exact .inr ⟨r, rfl, hk.1.1.symm⟩
  | openBroken => exact never ok.2.1 rfl
  | closeIntent => exact never ok.2.1 rfl
  | closePosted | closeBroken => exact never ok.2.1 rfl
  | closeFailed =>
    obtain ⟨-, hs | ⟨hs, -⟩, -⟩ := ok
    · exact never hs rfl
    · exact never hs rfl
  | closeFound | closeDone => exact closed ok.2.1 ok.2.2.1
  | closeError =>
    obtain ⟨-, ⟨r, a, hp, -, hs⟩ | ⟨hs | ⟨hs, -⟩, -⟩⟩ := ok
    · exact never hs (told.live r (by rw [hp]; rfl))
    · exact never hs rfl
    · exact never hs rfl
  | bind =>
    obtain ⟨hs | ⟨hs, hr⟩, -⟩ := ok
    · exact never hs rfl
    · exact closed hs hr
  | receiptPass r rest =>
    obtain ⟨hs, -, hk, -, -, seen, tx, a, all, hp, ha, hv, hh⟩ := ok
    rw [hs]
    exact .of_place told ⟨_, a, hp, .inr (.inr ⟨r, rest, seen, tx, all, rfl, hk.1.1.symm, ha, hv, hh⟩)⟩
  | receiptPassError | sweepError | candidate => exact never ok.1 rfl
  | orphan => exact never ok.1 rfl

/-! ### Whole runs -/

/-- What holds of the records ever stored and of the control points. -/
structure Evident (s : World) (l : List LogItem) : Prop where
  rows : ∀ row ∈ s.written, row.state.terminal = true → Shown l row.id row.state
  told : ∀ t pc, pcAt l t = some pc → Told l pc.place

/-- A step keeps the invariant if what it stores as terminal is shown. -/
theorem Evident.task {s s' : World} {l : List LogItem} {t : ℕ} {x : LogEntry} (h : Evident s l)
    (hs : ∀ row ∈ s'.written, row.state.terminal = true → row ∈ s.written ∨ Shown l row.id row.state)
    (own : ∀ pc, (protocol {}).advance x (pcAt l t) = some pc → Told (.task t x :: l) pc.place) :
    Evident s' (.task t x :: l) where
  rows row hr terminal := by
    rcases hs row hr terminal with hr | shown
    · exact (h.rows row hr terminal).older _
    · exact shown.older _
  told := forall_pcAt (J := fun _ pc => Told (.task t x :: l) pc.place) own
    fun u q _ hq => (h.told u q hq).older _

/-- A record that was ever stored was so before, or is the one that the event stores. -/
theorem mem_written_apply {s : World} {t : ℕ} {e : Event} {r : Row} (h : r ∈ (s.apply t e).written) :
    r ∈ s.written ∨ ∃ w, e = .put w r := by
  cases e with
  | put w row =>
    rcases List.mem_cons.1 h with rfl | h
    · exact .inr ⟨w, rfl⟩
    · exact .inl h
  | _ => exact .inl h

/-- **Every terminal record is shown by an answer**, in every run. -/
theorem maintained_evident : Maintained (gateway cfg) (protocol cfg) Installed C Evident where
  init {s} h := by
    obtain ⟨_, _, rfl⟩ := h
    exact ⟨fun _ hr => (by cases hr), fun _ _ hpc => (by cases hpc)⟩
  start {s t p s' l} h _ may _ := by
    refine h.task (fun row hr _ => .inl ?_) fun pc hpc => ?_
    · rwa [World.written, store_begin (t := t) may] at hr
    · obtain rfl := Option.some.inj hpc
      show Told _ (Pc.enter p).place
      rw [Pc.enter_place]
      exact ⟨fun _ _ hp => (by cases hp), fun _ hr => (by cases hr)⟩
  wake {s t pc i a l} h at_ site _ _ := by
    rw [point_protocol] at at_
    refine h.task (fun row hr _ => .inl hr) fun pc' hpc => ?_
    rw [at_] at hpc
    obtain rfl := Option.some.inj hpc
    refine ⟨fun i' a' hp => ?_, fun r hr => (h.told t pc at_).live r ?_⟩
    · obtain ⟨rfl, rfl⟩ := Place.woken.inj hp
      exact ⟨t, List.mem_cons_self⟩
    · rw [place_of_site site]
      cases i with
      | closeRead row => exact hr
      | _ => cases hr
  emit {s t pc e l} h at_ ok _ := by
    rw [point_protocol] at at_
    refine h.task (fun row hr terminal => ?_) fun pc' hpc => ?_
    · refine (mem_written_apply hr).imp_right ?_
      rintro ⟨w, rfl⟩
      have ok : RowWrite cfg pc s row w := ok
      exact ok.shown (h.told t pc at_) h.rows terminal
    · rw [at_] at hpc
      obtain rfl := Option.some.inj hpc
      show Told _ (pc.emit e).place
      rcases pc.place_emit e with ⟨hp, -⟩ | ⟨_, _, rest, -, -, hp⟩
      · rw [hp]
        exact (h.told t pc at_).older _
      · rw [hp]
        exact ⟨fun _ _ hp => (by cases hp), fun _ hr => (by cases hr)⟩
  toss {s t pc q b l} h at_ _ := by
    rw [point_protocol] at at_
    refine h.task (fun row hr _ => .inl hr) fun pc' hpc => ?_
    rw [at_] at hpc
    obtain rfl := Option.some.inj hpc
    show Told _ (pc.toss q b).place
    rw [place_toss]
    exact (h.told t pc at_).older _
  park {s t pc i l} h at_ ok _ := by
    rw [point_protocol] at at_
    refine h.task (fun row hr _ => .inl hr) fun pc' hpc => ?_
    rw [at_] at hpc
    obtain rfl := Option.some.inj hpc
    refine ⟨fun _ _ hp => (by cases hp), fun r hr => ?_⟩
    cases i with
    | closeRead row =>
      obtain rfl := Option.some.inj hr
      obtain ⟨-, -, -, -, live, -⟩ := ok.1
      exact live
    | _ => cases hr
  stop h _ _ _ := h.task (fun row hr _ => .inl hr) fun _ hpc => by cases hpc
  drift h _ := ⟨fun row hr terminal => (h.rows row hr terminal).older _,
    fun t pc hpc => (h.told t pc hpc).older _⟩
  crash h _ := ⟨fun row hr terminal => (h.rows row hr terminal).older _, fun _ _ hpc => (by cases hpc)⟩

/-- **No session is given up unseen.**  In every run, a record that was ever stored as closed was
read from the chain with a `ClosedAt`, and one that was ever stored as failed had its POST
refused or the read after it failed, or the journal or its receipts show that nothing came of it. -/
theorem showsTerminal (cfg : Config) : Ensures cfg Always ShowsTerminal :=
  Ensures.always fun tr => (maintained_evident.traj tr).rows

end MorpheusGateway
