/-
# The backoff of failed openings

An opener that fails before anything was sent leaves a record with the number of such
failures in a row, and no opener starts until the time in it has come.  The record is of
one policy revision, and openers of one model follow each other, so it counts exactly the
failures under the present revision since a session was opened (`Backing`).

An opener that finds the pool full opens nothing and ends without an error.  The source
takes that for a success and deletes the record (`not_keepsBackoff`).
-/

import MorpheusGateway.Protocol.Numbering
import Mathlib.Tactic.Linarith

namespace MorpheusGateway

open Contract

variable {cfg : Config} {C : ItemRule}

/-! ### The guarantee -/

/-- The task `t` was woken by the session that it opened. -/
def obtained (t : ℕ) (l : List LogItem) : Bool := (pcAt l t).any fun pc => pc.place.opened

/-- How many openings of the model under the revision were recorded as failed since a session
of it was opened, and how long ago the last of them was. -/
def failedOpenings (model : String) (revision : ℕ) : List LogItem → ℕ × ℚ
  | [] => (0, 0)
  | .task _ (.emit (.openingFailed m f)) :: l =>
      if m = model ∧ f.revision = revision then ((failedOpenings model revision l).1 + 1, 0)
      else failedOpenings model revision l
  | .task t (.emit (.openingSucceeded m)) :: l =>
      if m = model ∧ obtained t l then (0, 0) else failedOpenings model revision l
  | .drift d :: l => ((failedOpenings model revision l).1, (failedOpenings model revision l).2 + d.wall)
  | _ :: l => failedOpenings model revision l

/-- After `n` failures in a row an opener of the model starts no earlier than
`min(300, 5·2ⁿ)` seconds after the last, `n` counted up to eight.  A failure is recorded by
the opener that failed, under its revision, and the record is deleted only by one that has
read its session back. -/
def KeepsBackoff : ItemRule := OnEvent fun s l t e => match e with
  | .spawn _ (.opener model revision) => revision = s.store.policy.revision ∧
      (0 < (failedOpenings model revision l).1 →
        min 300 (5 * 2 ^ min (failedOpenings model revision l).1 8) ≤ (failedOpenings model revision l).2)
  | .openingFailed model f => f.error.outcome = .notSubmitted ∧
      ∃ h, Performs l t h (.opener model f.revision)
  | .openingSucceeded model => (∃ h revision, Performs l t h (.opener model revision)) ∧
      ∃ pc row, pcAt l t = some pc ∧ pc.place.Obtained s row
  | _ => True

/-- No opener finds the pool full. -/
def NeverFull : ItemRule := OnEvent fun _ l t e => match e with
  | .openingSucceeded _ => ∀ pc, pcAt l t = some pc → pc.place.catalog = false
  | _ => True

/-! ### What the record counts -/

/-- The record of a model is of the failures under its revision.  Failures under another
revision are past: no opener of that revision is left, and none will start. -/
structure Backing (s : World) (l : List LogItem) : Prop where
  past : ∀ model revision, 0 < (failedOpenings model revision l).1 →
    revision ≤ s.store.policy.revision
  opener : ∀ h model revision, Spawned h (.opener model revision) l →
    revision ≤ s.store.policy.revision
  order : ∀ h model r revision, Spawned h (.opener model r) l → s.memory.finished h = none →
    0 < (failedOpenings model revision l).1 → revision ≤ r
  counted : ∀ model revision, 0 < (failedOpenings model revision l).1 →
    (∃ f, s.store.openingFailures model = some f ∧ f.revision = revision ∧
      f.failures = min (failedOpenings model revision l).1 8 ∧
      f.retryAt + (failedOpenings model revision l).2 = s.now + min 300 (5 * 2 ^ f.failures)) ∨
    revision < s.store.policy.revision ∧
      ∀ h, Spawned h (.opener model revision) l → s.memory.finished h ≠ none
  kept : ∀ model f, s.store.openingFailures model = some f →
    0 < (failedOpenings model f.revision l).1

/-- An item that neither records, deletes nor starts anything. -/
theorem Backing.move {s s' : World} {l : List LogItem} {x : LogItem} (h : Backing s l)
    (hl : ∀ model revision, failedOpenings model revision (x :: l) = failedOpenings model revision l)
    (hs : s'.store.openingFailures = s.store.openingFailures) (hn : s'.now = s.now)
    (hp : s.store.policy.revision ≤ s'.store.policy.revision)
    (hw : ∀ h model revision, Spawned h (.opener model revision) (x :: l) →
      Spawned h (.opener model revision) l)
    (hf : ∀ h, s'.memory.finished h = none → s.memory.finished h = none) : Backing s' (x :: l) where
  past model revision hc := by
    rw [hl] at hc
    exact (h.past model revision hc).trans hp
  opener n model revision hs' := (h.opener n model revision (hw n model revision hs')).trans hp
  order n model r revision hs' hfin hc := by
    rw [hl] at hc
    exact h.order n model r revision (hw n model r hs') (hf n hfin) hc
  counted model revision hc := by
    rw [hl] at hc ⊢
    rcases h.counted model revision hc with ⟨f, hrec, hr, hfail, hage⟩ | ⟨hlt, hdone⟩
    · exact .inl ⟨f, hs ▸ hrec, hr, hfail, hn ▸ hage⟩
    · exact .inr ⟨hlt.trans_le hp, fun n hs' hfin => hdone n (hw n model revision hs') (hf n hfin)⟩
  kept model f hrec := by
    rw [hl]
    exact h.kept model f (hs ▸ hrec)

/-- An opener starts. -/
theorem Backing.spawn {s : World} {l : List LogItem} {t n : ℕ} {m : String} (h : Backing s l) :
    Backing (s.apply t (.spawn n (.opener m s.store.policy.revision)))
      (.task t (.emit (.spawn n (.opener m s.store.policy.revision))) :: l) where
  past := h.past
  opener k model revision hw := by
    rcases hw with ⟨-, he⟩ | hw
    · obtain ⟨-, rfl⟩ := Work.opener.inj he
      exact le_rfl
    · exact h.opener k model revision hw
  order k model r revision hw hf hc := by
    rcases hw with ⟨-, he⟩ | hw
    · obtain ⟨rfl, rfl⟩ := Work.opener.inj he
      exact h.past model revision hc
    · exact h.order k model r revision hw hf hc
  counted model revision hc := by
    refine (h.counted model revision hc).imp id fun ⟨hlt, hdone⟩ => ⟨hlt, fun k hw => ?_⟩
    rcases hw with ⟨-, he⟩ | hw
    · obtain ⟨-, rfl⟩ := Work.opener.inj he
      exact absurd hlt (lt_irrefl _)
    · exact hdone k hw
  kept := h.kept

/-- An opener records that it failed. -/
theorem Backing.fail {s : World} {l : List LogItem} {t n : ℕ} {m : String} {f : OpeningFailure}
    (h : Backing s l) (hw : Spawned n (.opener m f.revision) l) (hf : s.memory.finished n = none)
    (one : ∀ k revision, Spawned k (.opener m revision) l → s.memory.finished k = none →
      revision = f.revision)
    (hfail : f.failures = min (failuresOf s m f.revision + 1) 8)
    (hretry : f.retryAt = s.now + min 300 (5 * 2 ^ f.failures)) :
    Backing (s.apply t (.openingFailed m f)) (.task t (.emit (.openingFailed m f)) :: l) := by
  have mine : failedOpenings m f.revision (.task t (.emit (.openingFailed m f)) :: l) =
      ((failedOpenings m f.revision l).1 + 1, 0) := if_pos ⟨rfl, rfl⟩
  have other : ∀ {model revision}, ¬(m = model ∧ f.revision = revision) →
      failedOpenings model revision (.task t (.emit (.openingFailed m f)) :: l) =
        failedOpenings model revision l := fun hne => if_neg hne
  -- The record counts the failures so far.
  have count : failuresOf s m f.revision = min (failedOpenings m f.revision l).1 8 := by
    unfold failuresOf
    rcases Nat.eq_zero_or_pos (failedOpenings m f.revision l).1 with hz | hpos
    · cases hrec : s.store.openingFailures m with
      | none => simp [hz]
      | some f' =>
        have := h.kept m f' hrec
        by_cases hr : f'.revision = f.revision
        · rw [hr, hz] at this
          exact absurd this (lt_irrefl 0)
        · simp [hr, hz]
    · rcases h.counted m f.revision hpos with ⟨f', hrec, hr, hc, -⟩ | ⟨-, hdone⟩
      · simp only [hrec, hr, if_true]
        exact hc
      · exact absurd hf (hdone n hw)
  refine ⟨fun model revision hc => ?_, h.opener, fun k model r revision hk hfin hc => ?_,
    fun model revision hc => ?_, fun model f' hrec => ?_⟩
  · by_cases he : m = model ∧ f.revision = revision
    · obtain ⟨rfl, rfl⟩ := he
      exact h.opener n m _ hw
    · rw [other he] at hc
      exact h.past model revision hc
  · by_cases he : m = model ∧ f.revision = revision
    · obtain ⟨rfl, rfl⟩ := he
      exact (one k r hk hfin).ge
    · rw [other he] at hc
      exact h.order k model r revision hk hfin hc
  · by_cases he : m = model ∧ f.revision = revision
    · obtain ⟨rfl, rfl⟩ := he
      rw [mine]
      refine .inl ⟨f, Function.update_self .., rfl, ?_, ?_⟩
      · rw [hfail, count]
        show min (min (failedOpenings m f.revision l).1 8 + 1) 8 = min ((failedOpenings m f.revision l).1 + 1) 8
        omega
      · rw [add_zero]
        exact hretry
    · rw [other he] at hc ⊢
      by_cases hm : m = model
      · subst hm
        refine .inr ⟨?_, fun k hk hfin => he ⟨rfl, (one k revision hk hfin).symm⟩⟩
        have hle := h.order n m f.revision revision hw hf hc
        have hlt : revision < f.revision := lt_of_le_of_ne hle fun e => he ⟨rfl, e.symm⟩
        exact hlt.trans_le (h.opener n m _ hw)
      · rcases h.counted model revision hc with ⟨f', hrec, hr⟩ | hd
        · exact .inl ⟨f', (Function.update_of_ne (Ne.symm hm) ..).trans hrec, hr⟩
        · exact .inr hd
  · by_cases hm : model = m
    · subst hm
      have hrec' : Function.update s.store.openingFailures model (some f) model = some f' := hrec
      rw [Function.update_self] at hrec'
      obtain rfl := Option.some.inj hrec'
      rw [mine]
      exact Nat.succ_pos _
    · have hrec' : s.store.openingFailures model = some f' :=
        (Function.update_of_ne hm ..).symm.trans hrec
      rw [other fun he => hm he.1.symm]
      exact h.kept model f' hrec'

/-- An opener has opened a session. -/
theorem Backing.succeed {s : World} {l : List LogItem} {t : ℕ} {m : String} (h : Backing s l)
    (ho : obtained t l = true) :
    Backing (s.apply t (.openingSucceeded m)) (.task t (.emit (.openingSucceeded m)) :: l) := by
  have mine : ∀ revision, failedOpenings m revision (.task t (.emit (.openingSucceeded m)) :: l) = (0, 0) :=
    fun _ => if_pos ⟨rfl, ho⟩
  have other : ∀ {model revision}, m ≠ model →
      failedOpenings model revision (.task t (.emit (.openingSucceeded m)) :: l) =
        failedOpenings model revision l := fun hne => if_neg fun he => hne he.1
  have live : ∀ {model revision},
      0 < (failedOpenings model revision (.task t (.emit (.openingSucceeded m)) :: l)).1 → m ≠ model := by
    rintro model revision hc rfl
    rw [mine] at hc
    exact absurd hc (lt_irrefl 0)
  refine ⟨fun model revision hc => ?_, h.opener, fun k model r revision hk hfin hc => ?_,
    fun model revision hc => ?_, fun model f' hrec => ?_⟩
  · have hm := live hc
    rw [other hm] at hc
    exact h.past model revision hc
  · have hm := live hc
    rw [other hm] at hc
    exact h.order k model r revision hk hfin hc
  · have hm := live hc
    rw [other hm] at hc ⊢
    rcases h.counted model revision hc with ⟨f', hrec, hr⟩ | hd
    · exact .inl ⟨f', (Function.update_of_ne (Ne.symm hm) ..).trans hrec, hr⟩
    · exact .inr hd
  · by_cases hm : model = m
    · subst hm
      have hrec' : Function.update s.store.openingFailures model none model = some f' := hrec
      rw [Function.update_self] at hrec'
      cases hrec'
    · have hrec' : s.store.openingFailures model = some f' :=
        (Function.update_of_ne hm ..).symm.trans hrec
      rw [other (Ne.symm hm)]
      exact h.kept model f' hrec'

/-- An event that is about no opening. -/
theorem Backing.emit_other {s : World} {l : List LogItem} {t : ℕ} {pc : Pc} {e : Event}
    (h : Backing s l) (ok : EventOk cfg pc s e) (h1 : ∀ m f, e ≠ .openingFailed m f)
    (h2 : ∀ m, e ≠ .openingSucceeded m) (h3 : ∀ n m r, e ≠ .spawn n (.opener m r)) :
    Backing (s.apply t e) (.task t (.emit e) :: l) := by
  refine h.move (fun model revision => ?_) ?_ ?_ ?_ (fun n model revision hw => ?_) fun n hf => ?_
  · cases e with
    | openingFailed m f => exact absurd rfl (h1 m f)
    | openingSucceeded m => exact absurd rfl (h2 m)
    | _ => rfl
  · cases e with
    | openingFailed m f => exact absurd rfl (h1 m f)
    | openingSucceeded m => exact absurd rfl (h2 m)
    | _ => rfl
  · cases e with
    | _ => rfl
  · rcases (Grows.apply t ok).policy with hlt | he
    · exact hlt.le
    · exact (congrArg Policy.revision he).ge
  · exact hw.elim.resolve_right fun he => h3 n model revision (Entry.emit.inj he)
  · obtain ⟨-, ⟨he, -⟩ | ⟨m, r, rfl⟩, -⟩ := tasks_apply s t e
    · rwa [he] at hf
    · change Function.update s.memory.finished m (some r) n = none at hf
      rcases eq_or_ne n m with rfl | hnm
      · rw [Function.update_self] at hf
        cases hf
      · rwa [Function.update_of_ne hnm] at hf

/-- A task that starts takes no time. -/
theorem now_begin {s s' : World} {t : ℕ} {p : Program} (h : s.begin t p = some s') :
    s'.now = s.now := by
  cases p with
  | run | task =>
    simp only [World.begin] at h
    split at h
    all_goals cases h
    rfl
  | _ =>
    simp only [World.begin] at h
    split at h
    all_goals cases h
    rfl

/-- **The record counts the failures**, in every run in which no opener finds the pool full. -/
theorem maintained_backing
    (hC : ∀ {s l x}, C s l x → NeverFull s l x ∧ Numbered s l ∧ OneUnfinished s l) :
    Maintained (gateway cfg) (protocol cfg) Installed C Backing where
  init {s} h := by
    obtain ⟨_, _, rfl⟩ := h
    exact ⟨fun _ _ hc => absurd hc (lt_irrefl 0), fun _ _ _ hw => False.elim hw,
      fun _ _ _ _ hw => False.elim hw,
      fun _ _ hc => absurd hc (lt_irrefl 0), fun _ _ hrec => (nomatch hrec)⟩
  start {s t p s' l} h _ may _ := by
    have hs := store_begin (t := t) may
    refine h.move (fun _ _ => rfl) (by rw [hs]) (now_begin (t := t) may) (by rw [hs])
      (fun _ _ _ hw => hw) fun n hf => ?_
    rwa [(finished_begin (t := t) may).1] at hf
  wake h _ _ _ _ := h.move (fun _ _ => rfl) rfl rfl le_rfl (fun _ _ _ hw => hw) fun _ hf => hf
  emit {s t pc e l} h at_ ok c := by
    rw [point_protocol] at at_
    have ok : EventOk cfg pc s e := ok
    obtain ⟨full, numbered, one⟩ := hC c
    by_cases h1 : ∃ m f, e = .openingFailed m f
    · obtain ⟨m, f, rfl⟩ := h1
      obtain ⟨⟨n, ht⟩, hfail, hretry, -⟩ := ok
      obtain ⟨hw, hf, -⟩ := numbered.running t n _ ⟨pc, at_, ht⟩
      refine h.fail hw hf (fun k revision hk hfin => ?_) hfail hretry
      obtain rfl := one hk hw rfl rfl hfin hf
      exact (Work.opener.inj (numbered.one k _ _ hk hw)).2
    by_cases h2 : ∃ m, e = .openingSucceeded m
    · obtain ⟨m, rfl⟩ := h2
      obtain ⟨-, ⟨row, ho⟩ | hcat⟩ := ok
      · refine h.succeed ?_
        rw [obtained, at_]
        exact ho.opened
      · exact nomatch (full pc at_).symm.trans hcat
    by_cases h3 : ∃ n m r, e = .spawn n (.opener m r)
    · obtain ⟨n, m, r, rfl⟩ := h3
      obtain ⟨-, -, -, rfl, -⟩ := ok
      exact h.spawn
    exact h.emit_other ok (fun m f he => h1 ⟨m, f, he⟩) (fun m he => h2 ⟨m, he⟩)
      fun n m r he => h3 ⟨n, m, r, he⟩
  toss h _ _ := h.move (fun _ _ => rfl) rfl rfl le_rfl (fun _ _ _ hw => hw) fun _ hf => hf
  park h _ _ _ := h.move (fun _ _ => rfl) rfl rfl le_rfl (fun _ _ _ hw => hw) fun _ hf => hf
  stop h _ _ _ := h.move (fun _ _ => rfl) rfl rfl le_rfl (fun _ _ _ hw => hw) fun _ hf => hf
  drift {s d l} h _ := by
    refine ⟨h.past, h.opener, h.order, fun model revision hc => ?_, h.kept⟩
    refine (h.counted model revision hc).imp (fun ⟨f, hrec, hr, hfail, hage⟩ => ?_) id
    refine ⟨f, hrec, hr, hfail, ?_⟩
    show f.retryAt + ((failedOpenings model revision l).2 + d.wall) = s.now + d.wall + _
    linarith
  crash h _ := ⟨h.past, fun _ _ _ hw => False.elim hw, fun _ _ _ _ hw => False.elim hw,
    fun model revision hc => (h.counted model revision hc).imp id fun hd =>
      ⟨hd.1, fun _ hw => False.elim hw⟩, h.kept⟩

/-- **The backoff is kept** in every run in which no opener finds the pool full. -/
theorem keepsBackoff (cfg : Config) : Ensures cfg NeverFull KeepsBackoff := by
  refine Ensures.emit fun {s P l t pc e} tr hpc ok c => ?_
  have known := Traj.knowing (I := fun s l => Numbered s l ∧ OneUnfinished s l)
    (fun tr => ⟨Run.numbered tr, Run.one_unfinished tr⟩) tr
  have backing : Backing s l := (maintained_backing fun c => c).traj known
  cases e with
  | spawn n w =>
    cases w with
    | opener model revision =>
      obtain ⟨-, -, -, rfl, due⟩ := ok
      refine ⟨rfl, fun hc => ?_⟩
      rcases backing.counted model _ hc with ⟨f, hrec, hr, hfail, hage⟩ | ⟨hlt, -⟩
      · have := due f hrec hr
        rw [hfail] at hage
        linarith
      · exact absurd hlt (lt_irrefl _)
    | _ => exact trivial
  | openingFailed model f =>
    obtain ⟨⟨n, ht⟩, -, -, ho⟩ := ok
    exact ⟨ho, n, pc, hpc, ht⟩
  | openingSucceeded model =>
    obtain ⟨⟨revision, n, ht⟩, ⟨row, ho⟩ | hcat⟩ := ok
    · exact ⟨⟨n, revision, pc, hpc, ht⟩, pc, row, hpc, ho⟩
    · exact nomatch (c pc hpc).symm.trans hcat
  | _ => exact trivial

/-! ### An opener after a failure, and one that finds the pool full -/

/-- No record of a failure is deleted behind a read of the catalog. -/
def neverFull (_ : World) (l : List LogItem) : LogItem → Bool
  | .task t (.emit (.openingSucceeded _)) => (pcAt l t).all fun pc => !pc.place.catalog
  | _ => true

/-- An opener is spawned for a model of which one has failed. -/
def spawnsAgain (l : List LogItem) : LogItem → Bool
  | .task _ (.emit (.spawn _ (.opener model revision))) =>
      decide (0 < (failedOpenings model revision l).1)
  | _ => false

/-- Ten seconds pass. -/
def tenSeconds : Drift where
  wall := 10
  monotonic := 10

/-- The first opener fails, and the next one is spawned ten seconds later. -/
theorem keepsBackoff_again : Exhibits {} NeverFull KeepsBackoff spawnsAgain := by
  refine (keepsBackoff {}).exhibit (exists_run neverFull (fun s l x h => ?_) _
    (Sample.boot Sample.policy ++ [
      .start 3 (.prewarm Sample.modelId 5) [],
      .start 4 (.task 0 (.opener Sample.modelId 1)) [], .wake 4 Sample.identity [],
      .wake 4 Sample.models [], .wake 4 (Sample.ok [("bids", .arr [])]) [],
      .start 5 (.task 1 (.openerDone 0 Sample.modelId)) [], .drift tenSeconds,
      .start 6 (.prewarm Sample.modelId 5) []])
    (by decide +kernel))
  cases x with
  | task t a =>
    cases a with
    | emit e =>
      cases e with
      | openingSucceeded model =>
        intro pc hpc
        have hcat : (pcAt l t).all (fun pc => !pc.place.catalog) = true := h
        rw [hpc] at hcat
        simpa using hcat
      | _ => trivial
    | _ => trivial
  | _ => trivial

/-- Whoever deletes the record of a failure has opened a session. -/
def deletesOpened (_ : World) (l : List LogItem) : LogItem → Bool
  | .task t (.emit (.openingSucceeded model)) =>
      (failedOpenings model 1 l).1 = 0 || obtained t l
  | _ => true

/-- The first opener fails.  Before the next one, ten seconds later, looks at the pool, the
wallet scan has found another session of the model, and the opener deletes the record. -/
theorem not_keepsBackoff : ¬Ensures {} Always KeepsBackoff := by
  refine not_ensures deletesOpened (fun {s l x} h => ?_)
    (Sample.boot { Sample.policy with maxSessions := 1 } ++ [
      .start 3 (.prewarm Sample.modelId 5) [],
      .start 4 (.task 0 (.opener Sample.modelId 1)) [], .wake 4 Sample.identity [],
      .wake 4 Sample.models [], .wake 4 (Sample.ok [("bids", .arr [])]) [],
      .start 5 (.task 1 (.openerDone 0 Sample.modelId)) [], .drift tenSeconds,
      .start 6 (.prewarm Sample.modelId 5) [], .start 7 .recoveryRun [],
      .start 8 (.task 2 (.opener Sample.modelId 1)) [], .wake 8 Sample.identity [],
      .start 9 (.task 3 .sweep) [], .wake 9 Sample.identity [],
      .wake 9 (Sample.ok [("sessions", .arr [.obj [("Id", .str Sample.sid),
        ("User", .str Sample.wallet), ("ModelAgentId", .str Sample.modelId),
        ("Provider", .str Sample.provider), ("BidID", .str Sample.bidId), ("EndsAt", .num 0),
        ("ClosedAt", .num 0), ("Stake", .num 5), ("OpenedAt", .num 1)]])]) []])
    (.wake 8 Sample.models []) (by decide +kernel)
  unfold deletesOpened
  split
  · obtain ⟨-, pc, row, hpc, ho⟩ : _ ∧ _ := h
    rw [Bool.or_eq_true]
    refine .inr ?_
    rw [obtained, hpc]
    exact ho.opened
  · rfl

end MorpheusGateway
