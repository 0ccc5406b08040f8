/-
# Requests keep the protocol

The endpoints of `App` and the tasks of `Gateway`.  A chat request carries the
variables of its `cleanup` from the admission on (`Carries`), and ends when that
cleanup has run or was handed to a task of its own.  `protocol_holds` collects all
programs.
-/

import MorpheusGateway.Protocol.Borrowing

namespace MorpheusGateway

open Contract Sessions App

variable {cfg : Config} {t : ℕ} {A : Place → Prop} {pc : Pc} {s : World}

/-! ### Cleanups -/

/-- The control point without the request and its lease. -/
def Pc.released (pc : Pc) : Pc :=
  { pc with lease := none, key := none, cleaning := false, pledge := none }

/-- The request, or the task its cleanup was handed to, has what the cleanup needs. -/
structure Carries (pc : Pc) (s : World) (c : Cleanup) : Prop where
  held : pc.key = some (c.request, c.key) ∧ pc.lease = c.row.map Row.id ∨
    c.request ∈ s.memory.cleaned ∧ pc.key = none ∧ pc.lease = none
  row : ∀ row, c.row = some row → row ∈ s.written ∧ row.state = .opened

/-- What a request carries it carries on as the world grows. -/
theorem Carries.mono {c : Cleanup} (h : Carries pc s c) {s' : World} (g : Grows s s') (p : Place) :
    Carries (pc.move p) s' c :=
  ⟨h.held.imp id fun hc => ⟨g.cleaned hc.1, hc.2⟩, fun row hr => (h.row row hr).imp_left g.mem⟩

/-- Closing the upstream is quiet. -/
theorem quiet_closeUpstream (h : pc.At Anywhere) : Quiet cfg t Anywhere closeUpstream pc s := by
  refine .bind (quiet_suspend trivial (fun _ => trivial) h.clean.2.2.2) fun a p s1 _ _ => ?_
  split
  · exact quiet_pure Pc.at_anywhere _
  · exact quiet_raise Pc.at_anywhere _
  · exact quiet_raise Pc.at_anywhere _
  · exact quiet_raise Pc.at_anywhere _
  · exact quiet_raise Pc.at_anywhere _

/-- `settle`, after the finally. -/
def settleAttempt (c : Cleanup) : Op Unit := do
  match c.attempt with
  | some id => store (.attempt { id, state := .completed, createdAt := ← now })
  | none => pure ()
  event

/-- The lease of `settle`. -/
def releaseLease (c : Cleanup) : Op Unit :=
  match c.row with
  | some row => release row
  | none => pure ()

/-- The `finally` of `cleanup` gives back the lease and the place under the key's limit,
whatever it raises. -/
theorem wp_settle {c : Cleanup} (h : pc.At Anywhere) (hk : pc.key = some (c.request, c.key))
    (hcl : pc.cleaning = true)
    (hl : pc.lease = c.row.map Row.id) (hp : pc.pledge = none) (hc : c.request ∈ s.memory.cleaned) :
    Wp cfg t (settle c) (fun _ => After Anywhere pc.released s) (fun _ => After Anywhere pc.released s)
      pc s := by
  have rest : ∀ q s', Quiet cfg t Anywhere (settleAttempt c) (pc.released.move q) s' := by
    intro q s'
    unfold settleAttempt
    have done : ∀ q s', Quiet cfg t Anywhere event (pc.released.move q) s' := fun q s' =>
      quiet_event Pc.at_anywhere
    split
    · refine .bind (quiet_now Pc.at_anywhere) fun time q s1 _ _ => ?_
      refine .bind (quiet_store Pc.at_anywhere ?_ rfl) fun _ q s2 _ _ => done q s2
      exact fun h => by cases h
    · exact done q s'
  have dismiss : ∀ {pc' s'}, After Anywhere (pc.leased none) s pc' s' →
      EventOk cfg pc' s' (.dismiss c.key) ∧
        After Anywhere pc.released s (pc'.emit (.dismiss c.key)) (s'.apply t (.dismiss c.key)) := by
    rintro pc' s' ⟨⟨q, -, rfl⟩, g⟩
    refine ⟨⟨c.request, hk, hcl, g.cleaned hc⟩, ⟨q, trivial, ?_⟩, g.trans (by simp)⟩
    cases pc
    simp_all [Pc.emit, Pc.move, Pc.leased, Pc.released]
  have released : Wp cfg t (releaseLease c) (fun _ => After Anywhere (pc.leased none) s)
      (fun _ => After Anywhere (pc.leased none) s) pc s := by
    unfold releaseLease
    split
    · rename_i row hr
      exact wp_release h (by rw [hl, hr]; rfl)
    · rename_i hr
      have e : pc.leased none = pc := by
        rw [hr] at hl
        cases pc
        simp_all [Pc.leased]
      rw [e]
      exact h.refl s
  refine (wp_bind' _).2 ((wp_tryFinally _).2 (wp_mono (fun _ pc' s' ha => ?_) (fun _ pc' s' ha => ?_) _ released))
  · obtain ⟨hd, ⟨q, _, e⟩, g⟩ := dismiss ha
    refine (wp_perform _).2 ⟨hd, ?_⟩
    rw [next_emit, e]
    exact (rest q _).later g
  · exact dismiss ha

/-- **A cleanup** runs once, and then holds nothing. -/
theorem wp_cleanup {c : Cleanup} (h : pc.At Anywhere)
    (hok : c.request ∉ s.memory.cleaned → EventOk cfg pc s (.cleaned c))
    {Q : Unit → Pc → World → Prop} {E : Exc → Pc → World → Prop}
    (hin : c.request ∈ s.memory.cleaned → Q () pc s)
    (hQ : ∀ p s', Grows s s' → c.request ∈ s'.memory.cleaned → Q () (pc.released.move p) s')
    (hE : ∀ e p s', Grows s s' → c.request ∈ s'.memory.cleaned → E e (pc.released.move p) s') :
    Wp cfg t (cleanup c) Q E pc s := by
  refine (wp_bind' _).2 ((wp_memory _).2 ((wp_ite _ _ _).2 ⟨hin, fun hc => ?_⟩))
  have hev := hok hc
  have g0 := Grows.apply t hev
  have hmem : c.request ∈ (s.apply t (.cleaned c)).memory.cleaned := Finset.mem_insert_self _ _
  refine (wp_bind' _).2 ((wp_perform _).2 ⟨hev, (wp_tryFinally _).2 ?_⟩)
  rw [next_emit]
  have finish : ∀ q s', Grows (s.apply t (.cleaned c)) s' → ∀ {Q' : Pc → World → Prop},
      (∀ p s', Grows s s' → c.request ∈ s'.memory.cleaned → Q' (pc.released.move p) s') →
      Wp cfg t (settle c) (fun _ => Q') E ((pc.emit (.cleaned c)).move q) s' := by
    intro q s' g Q' hQ'
    have hc' := g.cleaned hmem
    refine wp_mono (fun _ pc' s2 ha => ?_) (fun e pc' s2 ha => ?_) _
      (wp_settle Pc.at_anywhere rfl rfl rfl rfl hc')
    · obtain ⟨⟨q2, -, rfl⟩, g2⟩ := ha
      exact hQ' q2 s2 ((g0.trans g).trans g2) (g2.cleaned hc')
    · obtain ⟨⟨q2, -, rfl⟩, g2⟩ := ha
      exact hE e q2 s2 ((g0.trans g).trans g2) (g2.cleaned hc')
  have start : (pc.emit (.cleaned c)).At Anywhere := ⟨h.clean, h.place⟩
  have closed : Quiet cfg t Anywhere (if c.upstream then closeUpstream else pure ())
      (pc.emit (.cleaned c)) (s.apply t (.cleaned c)) :=
    .ite (fun _ => quiet_closeUpstream start) fun _ => quiet_pure start _
  exact wp_quiet closed (fun q s1 _ g1 _ => finish q s1 g1 hQ) fun q s1 _ g1 e =>
    finish q s1 g1 (hE e)

/-- The control point after the cleanup was handed to a task of its own. -/
def Pc.handed (pc : Pc) (handle : ℕ) (c : Cleanup) : Pc :=
  { pc with lease := none, key := none, entrusted := some (handle, c) }

/-- The cleanup is handed to a task of its own, and waited for. -/
theorem wp_shieldedCleanup {c : Cleanup} (h : pc.At Anywhere) (hc : Carries pc s c)
    (hcl : pc.cleaning = false) (hp : pc.pledge = none)
    {Q : Unit → Pc → World → Prop} {E : Exc → Pc → World → Prop}
    (hQ : ∀ n s', Grows s s' → Q () ((pc.handed n c).move (.woken (.joinCleanup n) .done)) s')
    (hE : ∀ e n p s', Grows s s' → E e ((pc.handed n c).move p) s') :
    Wp cfg t (shieldedCleanup c) Q E pc s := by
  have hspawn : EventOk cfg (pc.emit (.uuid s.uuids)) (s.apply t (.uuid s.uuids))
      (.spawn s.uuids (.cleanup c)) := ⟨rfl, hcl, hp, hc.held⟩
  have hpc : (pc.emit (.uuid s.uuids)).emit (.spawn s.uuids (.cleanup c)) = pc.handed s.uuids c := by
    have hu := h.clean.1
    cases pc
    simp_all [Pc.emit, Pc.handed]
  refine (wp_bind' _).2 ((wp_spawn _).2 ⟨hspawn, (wp_bind' _).2
    ((wp_suspend _).2 ⟨⟨trivial, h.clean.2.2.2⟩, ?_⟩)⟩)
  intro s1 a g1 _
  have g : Grows s s1 := Grows.trans (by simp) g1
  rw [hpc, next_await]
  split
  · exact hQ _ s1 g
  · exact hE _ _ _ s1 g
  · exact hE _ _ _ s1 g

/-! ### A chat request -/

/-- The task may end here. -/
def Over (pc : Pc) (s : World) : Prop := (protocol {}).ok 0 pc s .stop

/-- The task holds nothing at all. -/
structure Pc.Idle (pc : Pc) : Prop where
  lock : pc.lock = false
  lease : pc.lease = none
  waits : pc.waits = false
  key : pc.key = none
  cleaning : pc.cleaning = false
  pledge : pc.pledge = none
  begun : pc.begun = none

/-- A task that holds nothing may end. -/
theorem Pc.Idle.ends (h : pc.Idle)
    (hr : pc.stuck = true ∨ pc.restarting = none ∧ pc.claimed = false) (p : Place) :
    Over (pc.move p) s where
  lock := h.lock
  cleaning := h.cleaning
  waits := .inr h.waits
  free := .inr (.inl ⟨h.lease, h.key⟩)
  pledge _ hc := nomatch h.pledge.symm.trans hc
  restarting := hr
  begun := rfl

/-- It may end where it is. -/
theorem Pc.Idle.over_self (h : pc.Idle)
    (hr : pc.stuck = true ∨ pc.restarting = none ∧ pc.claimed = false) :
    Over pc s where
  lock := h.lock
  cleaning := h.cleaning
  waits := .inr h.waits
  free := .inr (.inl ⟨h.lease, h.key⟩)
  pledge _ hc := nomatch h.pledge.symm.trans hc
  restarting := hr
  begun := h.begun

/-- The control point of a program that holds nothing at its start. -/
theorem Pc.idle : ({} : Pc).Idle := ⟨rfl, rfl, rfl, rfl, rfl, rfl, rfl⟩

/-- What was entrusted to others does not matter at the end. -/
theorem Settled.entrust (h : Settled pc s) (c : Option (ℕ × Cleanup)) :
    Settled { pc with entrusted := c } s :=
  ⟨h.lock, h.cleaning, h.waits, h.free, h.pledge, h.restarting, h.begun⟩

/-- The request is being served: it holds what its cleanup gives back, and nothing else. -/
structure Serves (pc : Pc) (s : World) (c : Cleanup) : Prop extends Carries pc s c where
  start : pc.At Anywhere
  lock : pc.lock = false
  cleaning : pc.cleaning = false
  pledge : pc.pledge = none
  waits : pc.leaks = true ∨ pc.waits = false
  restarting : pc.restarting = none ∧ pc.claimed = false

namespace Serves

variable {c : Cleanup}

/-- A request serves on from wherever it is moved. -/
theorem move (h : Serves pc s c) {s' : World} (g : Grows s s') (p : Place) :
    Serves (pc.move p) s' c :=
  ⟨h.toCarries.mono g p, Pc.at_anywhere, h.lock, h.cleaning, h.pledge, h.waits, h.restarting⟩

/-- It serves on as the world grows. -/
theorem grow (h : Serves pc s c) {s' : World} (g : Grows s s') : Serves pc s' c := by
  have := h.move g pc.place
  rwa [h.start.clean.move_self] at this

/-- The cleanup reads three of its variables. -/
theorem congr (h : Serves pc s c) {c' : Cleanup} (hr : c'.request = c.request) (hk : c'.key = c.key)
    (hrow : c'.row = c.row) : Serves pc s c' :=
  ⟨⟨by rw [hr, hk, hrow]; exact h.held, by rw [hrow]; exact h.row⟩, h.start, h.lock, h.cleaning,
    h.pledge, h.waits, h.restarting⟩

/-- What it holds, it may give back. -/
theorem cleaned (h : Serves pc s c) (hc : c.request ∉ s.memory.cleaned) :
    EventOk cfg pc s (.cleaned c) := by
  refine ⟨hc, h.cleaning, ?_⟩
  rcases h.held with hh | ⟨hm, -⟩
  · exact .inl hh
  · exact absurd hm hc

/-- It serves on with its attempt started. -/
theorem mark (h : Serves pc s c) (marked : Option (String × String)) :
    Serves { pc with marked } s c :=
  ⟨⟨h.held, h.row⟩, ⟨h.start.clean, h.start.place⟩, h.lock, h.cleaning, h.pledge, h.waits,
    h.restarting⟩

/-- Once its cleanup has begun, the request may end. -/
theorem ends (h : Serves pc s c) (hc : c.request ∈ s.memory.cleaned) : Over pc s where
  lock := h.lock
  cleaning := h.cleaning
  waits := h.waits
  free := by
    rcases h.held with ⟨hk, -⟩ | ⟨-, hk, hl⟩
    · exact .inr (.inr ⟨_, _, hk, hc⟩)
    · exact .inr (.inl ⟨hl, hk⟩)
  pledge _ hp := nomatch h.pledge.symm.trans hp
  restarting := .inr h.restarting
  begun := h.start.clean.2.2.2

/-- It may end once its cleanup has run. -/
theorem over_released (h : Serves pc s c) (p : Place) (s' : World) :
    Over (pc.released.move p) s' where
  lock := h.lock
  cleaning := rfl
  waits := h.waits
  free := .inr (.inl ⟨rfl, rfl⟩)
  pledge c hp := nomatch (show none = some c from hp)
  restarting := .inr h.restarting
  begun := rfl

/-- A request that has handed its cleanup on may end. -/
theorem over_handed (h : Serves pc s c) (n : ℕ) (p : Place) (s' : World) :
    Over ((pc.handed n c).move p) s' where
  lock := h.lock
  cleaning := h.cleaning
  waits := h.waits
  free := .inr (.inl ⟨rfl, rfl⟩)
  pledge _ hp := nomatch h.pledge.symm.trans hp
  restarting := .inr h.restarting
  begun := rfl

/-- It may end after a failure that leaks what it holds. -/
theorem over_leak (h : Serves pc s c) (s' : World) : Over (pc.toss .handler true) s' where
  lock := h.lock
  cleaning := h.cleaning
  waits := .inl rfl
  free := .inl rfl
  pledge _ hp := nomatch h.pledge.symm.trans hp
  restarting := .inr h.restarting
  begun := h.start.clean.2.2.2

end Serves

/-- The idempotency key is reserved when no record has it. -/
theorem wp_reserveAttempt {c : Cleanup} (key : Option String)
    {Q : Cleanup → Pc → World → Prop} {E : Cleanup × Exc → Pc → World → Prop}
    (hE : ∀ (c' : Cleanup) e, c'.request = c.request → c'.key = c.key → c'.row = c.row → E (c', e) pc s)
    (hQ : ∀ (c' : Cleanup) marked s', Grows s s' → c'.request = c.request → c'.key = c.key →
      c'.row = c.row → (∀ idem, key = some idem → marked = some (c.key, idem)) →
      Q c' { pc with marked } s') :
    Wp cfg t (reserveAttempt c key) Q E pc s := by
  unfold reserveAttempt
  split
  · exact hQ c pc.marked s (Grows.refl s) rfl rfl rfl nofun
  · refine (wp_ite _ _ _).2 ⟨fun _ => hE c _ rfl rfl rfl, fun _ => ?_⟩
    simp only [wp_bind', wp_mapError, wp_fetch, Pc.toss_read]
    refine ⟨hE _ _ rfl rfl rfl, ?_⟩
    split
    · exact hE c _ rfl rfl rfl
    · rename_i hnone
      simp only [wp_bind', wp_mapError, wp_now, wp_store, wp_pure, Pc.toss_write]
      refine ⟨hE _ _ rfl rfl rfl, fun _ => hnone, hQ _ (some (c.key, _)) _ (by simp) rfl rfl rfl ?_⟩
      rintro _ ⟨⟩
      rfl

/-- **The checks after `acquire`** are made in the piece that the request is dispatched in. -/
theorem wp_recheck {call : ChatCall} {m : ModelPolicy} {row : Row} (hl : pc.lease = some row.id)
    (hlent : Lent cfg pc.place s m.id row)
    (hreq : ∃ p ∈ s.store.saved, ∃ m' ∈ p.models, m'.enabled = true ∧ m'.id = m.id)
    {Q : Unit → Pc → World → Prop} {E : Exc → Pc → World → Prop} (hE : ∀ e, E e pc s)
    (hQ : ∀ s', Grows s s' → Dispatched cfg pc s' row m.id call → Q () pc s') :
    Wp cfg t (recheck call m row) Q E pc s := by
  simp only [recheck, wp_bind', wp_fetch, Pc.toss_read]
  refine ⟨hE _, ?_⟩
  split
  · exact hE _
  · rename_i key hkey
    refine (wp_ite _ _ _).2 ⟨fun _ => hE _, fun hok => ?_⟩
    simp only [not_or, not_not] at hok
    simp only [wp_bind', wp_policy, wp_memory, wp_ite, wp_raise, raise_seq, wp_now, wp_store,
      Pc.toss_read, Pc.toss_write]
    refine ⟨hE _, fun _ => hE _, fun hadm => ⟨hE _, trivial, hQ _ (by simp) ?_⟩⟩
    simp only [not_or, Bool.not_eq_true, Bool.not_eq_false, Option.isNone_eq_false_iff] at hadm
    have htok : key.token = call.token := Table.key_of_get hkey
    refine ⟨hl, hlent.of_eq rfl rfl rfl rfl, hreq, hadm.2.1, hadm.1, hadm.2.2.1, hadm.2.2.2,
      { key with lastUsed := some s.now }, ?_, hok.1, hok.2⟩
    show (s.store.keys.put _).get _ = _
    rw [Table.get_put, if_pos htok.symm]

/-- The dispatch to the provider is made only as admitted, and may raise anything. -/
theorem wp_dispatch {call : ChatCall} {m : ModelPolicy} {row : Row}
    (h : Dispatched cfg pc s row m.id call) (hb : pc.begun = none) {Q : ℕ → Pc → World → Prop}
    {E : Exc → Pc → World → Prop} (hQ : ∀ n p s', Grows s s' → Q n (pc.move p) s')
    (hE : ∀ e p s', Grows s s' → E e (pc.move p) s') :
    Wp cfg t (dispatch call m row) Q E pc s := by
  refine (wp_bind' _).2 ((wp_suspend _).2 ⟨⟨h, hb⟩, fun s1 a g1 _ => ?_⟩)
  rw [next_await]
  split
  · exact hQ _ _ s1 g1
  · exact hE _ _ s1 g1
  · exact hE _ _ s1 g1
  · exact hE _ _ s1 g1

/-- Reading the provider's answer is quiet. -/
theorem quiet_readBody (h : pc.At Anywhere) : Quiet cfg t Anywhere readBody pc s := by
  refine .bind (quiet_suspend trivial (fun _ => trivial) h.clean.2.2.2) fun a p s1 _ _ => ?_
  split
  · exact quiet_pure Pc.at_anywhere _
  · exact quiet_raise Pc.at_anywhere _
  · exact quiet_raise Pc.at_anywhere _
  · exact quiet_raise Pc.at_anywhere _
  · exact quiet_raise Pc.at_anywhere _

/-- **The `try` block of the chat endpoint.**  It ends with the variables of the cleanup,
and the request still holds what the cleanup gives back. -/
theorem wp_serve {call : ChatCall} {m : ModelPolicy} {stream : Bool} {c : Cleanup}
    (h : Serves pc s c) (hcall : pc.call = some call) (hk : pc.key = some (c.request, c.key))
    (hl : pc.lease = none) (hw : pc.waits = false)
    (hreq : ∃ p ∈ s.store.saved, ∃ m' ∈ p.models, m'.enabled = true ∧ m'.id = m.id)
    {Q : Cleanup × Served → Pc → World → Prop} {E : Cleanup × Exc → Pc → World → Prop}
    (hE : ∀ c e pc' s', Grows s s' → Serves pc' s' c → E (c, e) pc' s')
    (hanswer : ∀ c pc' s', Grows s s' → Over pc' s' → Q (c, .answer) pc' s')
    (hstream : ∀ c pc' s', Grows s s' → Serves pc' s' c → Q (c, .stream) pc' s') :
    Wp cfg t (serve cfg call m stream c) Q E pc s := by
  refine (wp_bind' _).2 (wp_reserveAttempt _ (fun c' e hr hk' hrow' => ?_) fun c1 marked s1 g1 hr hk' hrow' hmark => ?_)
  · exact hE c' e pc s (Grows.refl s) (h.congr hr hk' hrow')
  have h1 : Serves { pc with marked } s1 c1 := ((h.grow g1).congr hr hk' hrow').mark marked
  have hwait : EventOk cfg { pc with marked } s1 .wait := by
    refine ⟨hw, fun call' idem hc hi => ⟨c.request, c.key, hk, ?_⟩⟩
    obtain rfl := Option.some.inj (hcall.symm.trans hc)
    exact hmark idem hi
  generalize hpc : { pc with marked } = pc1 at *
  have hk : pc1.key = some (c.request, c.key) := by rw [← hpc]; exact hk
  have hl : pc1.lease = none := by rw [← hpc]; exact hl
  refine (wp_bind' _).2 ((wp_mapError _ _).2 (wp_acquire h1.start hl hwait (fun e p s2 g2 => ?_) (fun s2 g2 => ?_)
    fun p s2 row g2 hlent => ?_))
  · exact hE c1 e _ s2 (g1.trans g2) (h1.move g2 p)
  · refine hE c1 _ _ s2 (g1.trans g2) ⟨⟨(h1.grow g2).held, (h1.grow g2).row⟩, ?_, h1.lock, h1.cleaning,
      h1.pledge, .inl rfl, h1.restarting⟩
    exact ⟨h1.start.clean, h1.start.place⟩
  rw [if_neg (by simp)]
  replace g2 := g1.trans g2
  -- From here on the request holds a lease.
  have hs : Serves ((pc1.move p).leased (some row.id)) s2 { c1 with row := some row } := by
    refine ⟨⟨.inl ⟨?_, rfl⟩, ?_⟩, Pc.at_leased, h1.lock, h1.cleaning, h1.pledge, h1.waits,
      h1.restarting⟩
    · show pc1.key = some (c1.request, c1.key)
      rw [hr, hk']
      exact hk
    · rintro row' ⟨⟩
      exact ⟨Ledger.mem_written hlent.stored, hlent.opened⟩
  obtain ⟨p0, hp0, m', hm', hid⟩ := hreq
  refine (wp_bind' _).2 ((wp_mapError _ _).2 (wp_recheck rfl hlent ⟨p0, g2.saved hp0, m', hm', hid⟩
    (fun e => hE _ e _ s2 g2 hs) fun s3 g3 hd => ?_))
  have hs3 := hs.grow g3
  replace g3 := g2.trans g3
  refine (wp_bind' _).2 ((wp_mapError _ _).2 (wp_dispatch hd rfl (fun status q s4 g4 => ?_) fun e q s4 g4 =>
    hE _ e _ s4 (g3.trans g4) (hs3.move g4 q)))
  have hs4 : Serves (((pc1.move p).leased (some row.id)).move q) s4
      { c1 with row := some row, upstream := true } := (hs3.move g4 q).congr rfl rfl rfl
  replace g4 := g3.trans g4
  have body : Wp cfg t (do
      if stream then return ({ c1 with row := some row, upstream := true }, .stream)
      readBody.mapError fun e => ({ c1 with row := some row, upstream := true }, e)
      (cleanup { c1 with row := some row, upstream := true }).mapError fun e =>
        ({ c1 with row := some row, upstream := true }, e)
      return ({ c1 with row := some row, upstream := true }, .answer)) Q E
      (((pc1.move p).leased (some row.id)).move q) s4 := by
    refine (wp_ite _ _ _).2 ⟨fun _ => hstream _ _ s4 g4 hs4, fun _ => ?_⟩
    refine (wp_bind' _).2 ((wp_mapError _ _).2 (wp_quiet (quiet_readBody hs4.start) (fun q5 s5 _ g5 _ => ?_)
      fun q5 s5 _ g5 e => hE _ e _ s5 (g4.trans g5) (hs4.move g5 q5)))
    have hs5 := hs4.move g5 q5
    refine (wp_bind' _).2 ((wp_mapError _ _).2 (wp_cleanup hs5.start hs5.cleaned (fun hc => ?_)
      (fun q6 s6 g6 hc => ?_) fun e q6 s6 g6 hc => ?_))
    · exact hanswer _ _ s5 (g4.trans g5) (hs5.ends hc)
    · exact hanswer _ _ s6 ((g4.trans g5).trans g6) (hs5.over_released q6 s6)
    · refine hE _ e _ s6 ((g4.trans g5).trans g6) ⟨⟨.inr ⟨hc, rfl, rfl⟩, ?_⟩, Pc.at_anywhere, hs5.lock,
        rfl, rfl, hs5.waits, hs5.restarting⟩
      exact fun row' hr' => (hs5.row row' hr').imp_left g6.mem
  have refused : ∀ {s'}, Grows s4 s' → E ({ c1 with row := some row, upstream := true },
      providerRefusal status) (((pc1.move p).leased (some row.id)).move q) s' := fun g =>
    hE _ _ _ _ (g4.trans g) (hs4.grow g)
  refine (wp_ite _ _ _).2 ⟨fun _ => (wp_ite _ _ _).2 ⟨fun _ => ?_, fun _ => ?_⟩, fun _ => body⟩
  · have hmem := hs4.row row rfl
    refine (wp_bind' _).2 ((wp_mapError _ _).2 (wp_invalidate rfl (.inl rfl) ⟨row, hmem.1, rfl, hmem.2⟩
      (fun s5 g5 => ?_) fun s5 g5 => ?_))
    · rw [Pc.toss_write]
      exact hE _ _ _ s5 (g4.trans g5) (hs4.grow g5)
    · exact refused g5
  · exact refused (Grows.refl s4)

/-- The last frame of a stream is sent. -/
def sendLast : Op Unit := do
  match ← Coro.suspend .send with
  | .done => return ()
  | _ => Coro.raise .cancelled

/-- The error handlers clean up and raise. -/
theorem wp_serveFailed {c : Cleanup} {e : Exc} (h : Serves pc s c)
    {Q : Cleanup × Served → Pc → World → Prop} {E : Exc → Pc → World → Prop}
    (hE : ∀ e pc' s', Over pc' s' → E e pc' s') : Wp cfg t (serveFailed (c, e)) Q E pc s := by
  have last : ∀ e' s', Serves pc s' c → Wp cfg t (do
      shieldedCleanup c
      Coro.raise e' : Op (Cleanup × Served)) Q E pc s' := by
    intro e' s' h'
    refine (wp_bind' _).2 (wp_shieldedCleanup h'.start h'.toCarries h'.cleaning h'.pledge (fun n s2 _ => ?_) fun e2 n p s2 _ => ?_)
    · exact hE e' _ s2 (h'.over_handed n _ s2)
    · exact hE e2 _ s2 (h'.over_handed n p s2)
  have invalidated : ∀ reason {s'} {f : Unit → Op (Cleanup × Served)}, Serves pc s' c →
      (∀ s2, Serves pc s2 c → Wp cfg t (f ()) Q E pc s2) →
      Wp cfg t (invalidateFailed c reason >>= f) Q E pc s' := by
    intro reason s' f h' hf
    refine (wp_bind' _).2 ?_
    unfold invalidateFailed
    split
    · rename_i row hr
      obtain ⟨hm, ho⟩ := h'.row row hr
      exact wp_invalidate h.start.clean.1 (.inr rfl) ⟨row, hm, rfl, ho⟩
        (fun s2 _ => hE _ _ s2 (h.over_leak s2)) fun s2 g2 => hf s2 (h'.grow g2)
    · exact hf s' h'
  have when : ∀ {b : Prop} [Decidable b] {reason s'} {f : Unit → Op (Cleanup × Served)}, Serves pc s' c →
      (∀ s2, Serves pc s2 c → Wp cfg t (f ()) Q E pc s2) →
      Wp cfg t (if b then invalidateFailed c reason >>= f else f ()) Q E pc s' := fun h' hf =>
    (wp_ite _ _ _).2 ⟨fun _ => invalidated _ h' hf, fun _ => hf _ h'⟩
  cases e with
  | gateway g =>
    rw [serveFailed]
    apply when h
    intro s1 h1
    apply when h1
    intro s2 h2
    apply when h2
    exact last _
  | timeout =>
    refine invalidated _ h fun s1 h1 => ?_
    exact last _ s1 h1
  | http =>
    refine invalidated _ h fun s1 h1 => ?_
    exact last _ s1 h1
  | _ => exact last _ s h

/-! ### Streams -/

/-- The end of a broken stream is quiet. -/
theorem quiet_interruptStream {c : Cleanup} (h : pc.At Anywhere)
    (hr : ∀ row, c.row = some row → row ∈ s.written ∧ row.state = .opened) (e : Exc) :
    Quiet cfg t Anywhere (interruptStream c e) pc s := by
  have sent : ∀ q s', Quiet cfg t Anywhere sendLast (pc.move q) s' := by
    intro q s'
    refine .bind (quiet_suspend trivial fun _ => trivial) fun a q s1 _ _ => ?_
    split
    · exact quiet_pure Pc.at_anywhere _
    · exact quiet_raise Pc.at_anywhere _
  refine .ite (fun _ => quiet_raise h _) fun _ => ?_
  split
  · rename_i row hrow
    obtain ⟨hm, ho⟩ := hr row hrow
    have hinv : Quiet cfg t Anywhere (invalidate row (streamReason e)) pc s :=
      wp_invalidate h.clean.1 (.inl rfl) ⟨row, hm, rfl, ho⟩
        (fun s1 g1 => by rw [Pc.toss_write]; exact h.after g1) fun s1 g1 => h.after g1
    exact .bind hinv fun _ q s1 _ _ => sent q s1
  · have := sent pc.place s
    rwa [h.clean.move_self] at this

/-- The body of a stream is quiet. -/
theorem quiet_streamBody {c : Cleanup} (h : pc.At Anywhere)
    (hr : ∀ row, c.row = some row → row ∈ s.written ∧ row.state = .opened) :
    Quiet cfg t Anywhere (streamBody c) pc s := by
  refine .bind (quiet_suspend trivial (fun _ => trivial) h.clean.2.2.2) fun a q s1 _ g1 => ?_
  have hr1 : ∀ row, c.row = some row → row ∈ s1.written ∧ row.state = .opened := fun row h =>
    (hr row h).imp_left g1.mem
  split
  · exact quiet_pure Pc.at_anywhere _
  · exact quiet_raise Pc.at_anywhere _
  · exact quiet_interruptStream Pc.at_anywhere hr1 _
  · exact quiet_interruptStream Pc.at_anywhere hr1 _
  · exact quiet_interruptStream Pc.at_anywhere hr1 _

/-- A streaming response cleans up, whatever becomes of it. -/
theorem wp_respond {c : Cleanup} (h : Serves pc s c) {Q : Unit → Pc → World → Prop}
    {E : Exc → Pc → World → Prop} (hQ : ∀ pc' s', Over pc' s' → Q () pc' s')
    (hE : ∀ e pc' s', Over pc' s' → E e pc' s') : Wp cfg t (respond c) Q E pc s := by
  have swept : ∀ q s', Serves (pc.move q) s' c → Wp cfg t (cleanup c) Q E (pc.move q) s' := by
    intro q s' h'
    refine wp_cleanup h'.start h'.cleaned (fun hc => ?_) (fun q2 s2 _ _ => ?_) fun e q2 s2 _ _ => ?_
    · exact hQ _ s' (h'.ends hc)
    · exact hQ _ s2 (h'.over_released q2 s2)
    · exact hE e _ s2 (h'.over_released q2 s2)
  refine (wp_bind' _).2 ((wp_suspend _).2 ⟨⟨trivial, h.start.clean.2.2.2⟩, fun s1 a g1 _ => ?_⟩)
  rw [next_await]
  have h1 : Serves (pc.move (.woken .respond a)) s1 c := h.move g1 _
  split
  · refine (wp_bind' _).2 ((wp_tryFinally _).2 (wp_quiet (quiet_streamBody h1.start h1.row) (fun q s2 _ g2 _ => ?_)
      fun q s2 _ g2 e => ?_))
    · have h2 := h1.move g2 q
      refine wp_shieldedCleanup h2.start h2.toCarries h2.cleaning h2.pledge (fun n s3 _ => ?_) fun e n p s3 _ => ?_
      · -- The cleanup that was waited for has run.
        refine wp_cleanup Pc.at_anywhere
          (fun hc => ⟨hc, by exact h2.cleaning, .inr ⟨.inr ⟨n, rfl, rfl⟩, rfl, rfl⟩⟩)
          (fun hc => ?_) (fun q4 s4 _ _ => ?_) fun e q4 s4 _ _ => ?_
        · exact hQ _ s3 (h2.over_handed n _ s3)
        · exact hQ _ s4 (Settled.entrust (h2.over_released q4 s4) (some (n, c)))
        · exact hE e _ s4 (Settled.entrust (h2.over_released q4 s4) (some (n, c)))
      · exact hE e _ s3 (h2.over_handed n p s3)
    · have h2 := h1.move g2 q
      refine wp_shieldedCleanup h2.start h2.toCarries h2.cleaning h2.pledge (fun n s3 _ => ?_) fun e n p s3 _ => ?_
      · exact hE e _ s3 (h2.over_handed n _ s3)
      · exact hE e _ s3 (h2.over_handed n p s3)
  · exact swept _ s1 h1

/-! ### Endpoints -/

/-- The check of the key is quiet. -/
theorem quiet_apiKey (h : pc.At A) (token : String) : Quiet cfg t A (apiKey token) pc s := by
  refine .bind (quiet_fetch h _) fun k p s1 hp _ => ?_
  split
  · exact .ite (fun _ => quiet_pure (Pc.at_move hp) _) fun _ => quiet_raise (Pc.at_move hp) _
  · exact quiet_raise (Pc.at_move hp) _

/-- From its admission on, the request ends with nothing held. -/
theorem wp_admitted {call : ChatCall} {m : ModelPolicy} {stream : Bool} {request : ℕ} {key : String}
    (h : pc.At Anywhere) (hcall : pc.call = some call) (hlock : pc.lock = false)
    (hcl : pc.cleaning = false) (hp : pc.pledge = none)
    (hr : pc.restarting = none ∧ pc.claimed = false)
    (hk : pc.key = some (request, key)) (hl : pc.lease = none) (hw : pc.waits = false)
    (hreq : ∃ p ∈ s.store.saved, ∃ m' ∈ p.models, m'.enabled = true ∧ m'.id = m.id) :
    Wp cfg t (do
      let (c, served) ← (serve cfg call m stream { request, key }).tryCatch serveFailed
      match served with
      | .answer => return ()
      | .stream => respond c) (fun _ => Over) (fun _ => Over) pc s := by
  have hs : Serves pc s { request, key } :=
    ⟨⟨.inl ⟨hk, hl⟩, fun row hr => nomatch (show none = some row from hr)⟩, h, hlock, hcl, hp,
      .inr hw, hr⟩
  refine (wp_bind' _).2 ((wp_tryCatch _).2 (wp_serve hs hcall hk hl hw hreq (fun c e pc' s' _ hs => ?_)
    (fun c pc' s' _ ho => ho) fun c pc' s' _ hs => ?_))
  · exact wp_serveFailed hs fun _ _ _ ho => ho
  · exact wp_respond hs (fun _ _ ho => ho) fun _ _ _ ho => ho

/-- **The chat endpoint** ends with nothing held, unless a store operation failed where it
leaks. -/
theorem wp_completion {call : ChatCall} (h : pc.At Anywhere) (hi : pc.Idle)
    (hr : pc.restarting = none ∧ pc.claimed = false) (hcall : pc.call = some call)
    (hrated : pc.rated = false) :
    Wp cfg t (completion cfg call) (fun _ => Over) (fun _ => Over) pc s := by
  refine (wp_bind' _).2 (wp_quiet (quiet_apiKey h _) (fun p s1 _ g1 key => ?_) fun p s1 _ _ e => hi.ends (.inr hr) p)
  refine (wp_bind' _).2 ((wp_suspend _).2 ⟨⟨trivial, rfl⟩, fun s2 a g2 _ => ?_⟩)
  rw [next_await]
  have ends : ∀ s', Over ((pc.move p).move (.woken .requestBody a)) s' := fun _ => hi.ends (.inr hr) _
  split
  · split
    · exact ends s2
    · exact ends s2
  rename_i name stream _
  split
  swap
  · exact ends s2
  refine (wp_bind' _).2 ((wp_policy _).2 ⟨by simpa using ends s2, ?_⟩)
  split
  · exact ends s2
  rename_i m hm
  refine (wp_ite _ _ _).2 ⟨fun _ => ends s2, fun _ => ?_⟩
  have serves : pc.call.isSome = true := by
    rw [hcall]
    rfl
  refine (wp_bind' _).2 ((wp_perform _).2 ⟨⟨serves, hrated⟩, (wp_bind' _).2 ((wp_memory _).2 ((wp_ite _ _ _).2
    ⟨fun _ => ends _, fun hrate => ?_⟩))⟩)
  refine (wp_bind' _).2 ((wp_perform _).2 ⟨⟨serves, hrated⟩, (wp_bind' _).2 (wp_uuid.2 ?_)⟩)
  refine (wp_bind' _).2 ((wp_perform _).2 ⟨⟨rfl, hi.key, hi.lease, hi.pledge, ?_⟩, ?_⟩)
  · rw [not_or] at hrate
    exact not_le.1 hrate.2
  obtain ⟨hmem, enabled⟩ := Policy.resolve_mem hm
  exact wp_admitted ⟨⟨rfl, rfl, rfl, rfl⟩, trivial⟩ hcall hi.lock hi.cleaning hi.pledge hr rfl hi.lease hi.waits
    ⟨s2.store.policy, s2.store.policy_saved, m, hmem, enabled, rfl⟩

/-- Saving a policy is quiet. -/
theorem quiet_putPolicy (h : pc.At Anywhere) (p : Policy) :
    Quiet cfg t Anywhere (putPolicy p) pc s := by
  refine (wp_bind' _).2 ((wp_policy _).2 ⟨by simpa using h.refl s, ?_⟩)
  refine (wp_ite _ _ _).2 ⟨fun _ => h.refl s, fun hrev => ?_⟩
  have hp : EventOk cfg pc s (.policy p.bump) := by
    rw [not_not] at hrev
    simp [EventOk, hrev]
  exact Quiet.bind (quiet_store h hp rfl) fun _ q s1 _ _ =>
    .bind (quiet_event Pc.at_anywhere) fun _ q s2 _ _ => quiet_rebalance Pc.at_anywhere

/-- The edit of a key is quiet. -/
theorem quiet_editKey (h : pc.At A) (id : String) (models : List String) (concurrency rpm : ℕ) :
    Quiet cfg t A (editKey id models concurrency rpm) pc s := by
  refine .bind (quiet_fetch h _) fun p q s1 hq _ => ?_
  refine .ite (fun _ => quiet_raise (Pc.at_move hq) _) fun _ => ?_
  refine .bind (quiet_fetch (Pc.at_move hq) _) fun k q s2 hq _ => ?_
  split
  · exact quiet_store (Pc.at_move hq) trivial rfl
  · exact quiet_raise (Pc.at_move hq) _

/-- So is its revocation. -/
theorem quiet_revoke (h : pc.At A) (id : String) : Quiet cfg t A (revoke id) pc s := by
  refine .bind (quiet_fetch h _) fun k q s1 hq _ => ?_
  split
  · exact .bind (quiet_store (Pc.at_move hq) trivial rfl) fun _ q s2 hq _ => quiet_event (Pc.at_move hq)
  · exact quiet_raise (Pc.at_move hq) _

/-- So is the making of one. -/
theorem quiet_createKey (h : pc.At A) (key : ApiKey) (idempotencyKey : Option String) :
    Quiet cfg t A (createKey key idempotencyKey) pc s := by
  have stored : ∀ q s', A q → Quiet cfg t A (do
      store (.key { key with enabled := true, lastUsed := none })
      event) (pc.move q) s' := fun q s' hq =>
    .bind (quiet_store (Pc.at_move hq) trivial rfl) fun _ q s1 hq _ => quiet_event (Pc.at_move hq)
  unfold createKey
  cases given idempotencyKey with
  | none =>
    refine .bind (quiet_fetch h _) fun p q s1 hq _ => ?_
    exact .ite (fun _ => .bind (quiet_raise (Pc.at_move hq) _) fun _ q s2 hq _ => stored q s2 hq)
      fun _ => stored q s1 hq
  | some idem =>
    have marked : ∀ q s', A q → Quiet cfg t A (do
        store (.attempt { id := ("create-key", idem), state := .completed, createdAt := ← now })
        store (.key { key with enabled := true, lastUsed := none })
        event) (pc.move q) s' := by
      intro q s' hq
      refine .bind (quiet_now (Pc.at_move hq)) fun time q s1 hq _ => ?_
      refine .bind (quiet_store (Pc.at_move hq) ?_ rfl) fun _ q s2 hq _ => stored q s2 hq
      exact nofun
    have known : ∀ q s', A q → Quiet cfg t A (do
        let known := (← policy).models.map ModelPolicy.id
        if key.models.any fun m => !known.contains m then
          Coro.raise (refuse .unknownModel "Key restrictions must reference configured model IDs" 400)
        store (.attempt { id := ("create-key", idem), state := .completed, createdAt := ← now })
        store (.key { key with enabled := true, lastUsed := none })
        event) (pc.move q) s' := by
      intro q s' hq
      refine .bind (quiet_fetch (Pc.at_move hq) _) fun p q s1 hq _ => ?_
      exact .ite (fun _ => .bind (quiet_raise (Pc.at_move hq) _) fun _ q s2 hq _ => marked q s2 hq)
        fun _ => marked q s1 hq
    refine .bind (quiet_fetch h _) fun k q s1 hq _ => ?_
    exact .ite (fun _ => .bind (quiet_raise (Pc.at_move hq) _) fun _ q s2 hq _ => known q s2 hq)
      fun _ => known q s1 hq

/-- A task of the wallet scan or the treasury is recorded in the piece that spawns it. -/
theorem quiet_startSweep (h : pc.At A) {w : Work} (hw : w.slot = some .sweep)
    (hs : ¬sweeping s.memory = true) :
    Quiet cfg t A (do Coro.perform (.sweepTask (← spawn w)) : Op Unit) pc s :=
  (wp_bind' _).2 (wp_startSweep h hw (free_sweep hs) fun _ g => h.after g)

/-- The request of a wallet scan is quiet. -/
theorem quiet_recoveryRun (h : pc.At A) : Quiet cfg t A recoveryRun pc s :=
  (wp_bind' _).2 ((wp_memory _).2 ((wp_ite _ _ _).2
    ⟨fun hs => quiet_startSweep h rfl hs, fun _ => h.refl s⟩))

/-- So is that of a withdrawal. -/
theorem quiet_startWithdrawal (h : pc.At A) : Quiet cfg t A startWithdrawal pc s :=
  (wp_bind' _).2 ((wp_memory _).2 ((wp_ite _ _ _).2
    ⟨fun _ => h.refl s, fun hs => quiet_startSweep h rfl hs⟩))

/-- The status page is quiet. -/
theorem quiet_status (h : pc.At Anywhere) : Quiet cfg t Anywhere (status cfg) pc s := by
  have hid : Quiet cfg t Anywhere (verifyIdentity cfg .status) pc s :=
    quiet_verifyIdentity trivial (fun _ => trivial) h.clean.2.2.2
  refine .bind hid.attempt fun i q s1 _ _ => ?_
  refine .bind (quiet_suspend trivial fun _ => trivial) fun b q s2 _ _ => ?_
  refine .bind (quiet_suspend trivial fun _ => trivial) fun k q s3 _ _ => ?_
  exact quiet_perform Pc.at_anywhere trivial rfl

/-! ### Programs -/

/-- An error of an endpoint is answered. -/
theorem wp_handled {α : Type} {c : Op α}
    (hc : Wp cfg t c (fun _ => Over) (fun _ => Over) pc s) :
    Wp cfg t (handled c) (fun _ => Over) (fun e => nomatch e) pc s :=
  (wp_discard _).2 ((wp_attempt c).2 hc)

/-- What was quiet may end. -/
theorem Quiet.ends {α : Type} {c : Op α} (hi : pc.Idle) (hr : pc.restarting = none ∧ pc.claimed = false)
    (hc : Quiet cfg t Anywhere c pc s) : Wp cfg t c (fun _ => Over) (fun _ => Over) pc s :=
  wp_quiet hc (fun p _ _ _ _ => hi.ends (.inr hr) p) fun p _ _ _ _ => hi.ends (.inr hr) p

/-- A spawned task leaves its result under its own number. -/
theorem wp_settled {handle : ℕ} {w : Work} {c : Op Unit} (ht : pc.task = some (handle, w))
    {Q : Unit → Pc → World → Prop} {E : Empty → Pc → World → Prop}
    (hc : Wp cfg t c
      (fun _ pc' s' => pc'.task = pc.task ∧ (∀ c, w = .cleanup c → c.request ∈ s'.memory.cleaned) ∧
        ∀ r, Q () (pc'.emit (.finish handle r)) (s'.apply t (.finish handle r)))
      (fun _ pc' s' => pc'.task = pc.task ∧ (∀ c, w = .cleanup c → c.request ∈ s'.memory.cleaned) ∧
        ∀ r, Q () (pc'.emit (.finish handle r)) (s'.apply t (.finish handle r))) pc s) :
    Wp cfg t (settled handle c) Q E pc s := by
  refine (wp_bind' _).2 ((wp_attempt c).2 (wp_mono (fun a pc' s' h => ?_) (fun e pc' s' h => ?_) c hc))
  · exact ⟨⟨w, h.1.trans ht, h.2.1⟩, h.2.2 _⟩
  · exact ⟨⟨w, h.1.trans ht, h.2.1⟩, h.2.2 _⟩

/-- The task is the cleanup of a chat request. -/
def Work.isCleanup : Work → Bool
  | .cleanup _ => true
  | _ => false

/-- A quiet task finishes with nothing held. -/
theorem Quiet.settled {handle : ℕ} {w : Work} {c : Op Unit} (ht : pc.task = some (handle, w))
    (hw : w.isCleanup = false) (hi : pc.Idle) (hr : pc.restarting = none ∧ pc.claimed = false)
    (hc : Quiet cfg t Anywhere c pc s) :
    Wp cfg t (settled handle c) (fun _ => Over) (fun e => nomatch e) pc s := by
  have other : ∀ {p : Prop} c, w = .cleanup c → p := by
    rintro p c rfl
    cases hw
  have ended : ∀ p r s', Over ((pc.move p).emit (.finish handle r)) s' := fun p r s' =>
    Pc.Idle.over_self ⟨hi.lock, hi.lease, hi.waits, hi.key, hi.cleaning, hi.pledge, rfl⟩ (.inr hr)
  refine wp_settled ht (wp_quiet hc (fun p s' _ g _ => ?_) fun p s' _ g _ => ?_)
  · exact ⟨rfl, fun c => other c, fun r => ended p r _⟩
  · exact ⟨rfl, fun c => other c, fun r => ended p r _⟩

/-- A scheduled close is quiet. -/
theorem quiet_scheduledClose (h : pc.At Anywhere) (hl : pc.lock = false) (id : RowId) :
    Quiet cfg t Anywhere (scheduledClose cfg id) pc s := by
  refine .bind (quiet_close h hl id false).attempt fun r p s1 _ _ => ?_
  refine .bind (quiet_perform Pc.at_anywhere trivial rfl) fun _ p s2 _ _ => ?_
  split
  · exact quiet_pure Pc.at_anywhere _
  · exact quiet_pure Pc.at_anywhere _
  · exact quiet_raise Pc.at_anywhere _

/-- The spawned tasks keep the protocol. -/
theorem wp_taskBody (handle : ℕ) (w : Work) :
    Wp cfg t (taskBody cfg handle w) (fun _ => Over) (fun e => nomatch e)
      (Pc.enter (.task handle w)) s := by
  have start : ∀ w, (Pc.enter (.task handle w)).At Anywhere := by
    intro w
    cases w <;> exact ⟨⟨rfl, rfl, rfl, rfl⟩, trivial⟩
  have done : ∀ {w} {c : Op Unit}, (Pc.enter (.task handle w)).Idle →
      (Pc.enter (.task handle w)).restarting = none ∧ (Pc.enter (.task handle w)).claimed = false →
      (Pc.enter (.task handle w)).task = some (handle, w) → w.isCleanup = false →
      Quiet cfg t Anywhere c (Pc.enter (.task handle w)) s →
      Wp cfg t (settled handle c) (fun _ => Over) (fun e => nomatch e) (Pc.enter (.task handle w)) s :=
    fun hi hr ht hw hc => hc.settled ht hw hi hr
  have idle : (Pc.enter (.task handle w)).pledge = none → (Pc.enter (.task handle w)).Idle := by
    intro hp
    refine ⟨?_, ?_, ?_, ?_, ?_, hp, ?_⟩ <;> cases w <;> rfl
  cases w with
  | opener modelId revision =>
    have hi := idle rfl
    have opened : Quiet cfg t Anywhere (openModel cfg modelId revision) _ s :=
      quiet_openModel (start (.opener modelId revision)) rfl ⟨handle, rfl⟩
    -- The callback is spawned when the result of the opener is known.
    have done : ∀ p s' r, Grows s s' → Wp cfg t (spawn (.openerDone handle modelId))
        (fun _ => Over) (fun _ => Over)
        (((Pc.enter (.task handle (.opener modelId revision))).move p).emit (.finish handle r))
        (s'.apply t (.finish handle r)) := by
      intro p s' r _
      refine (wp_spawn _).2 ⟨⟨rfl, ?_⟩, Pc.Idle.over_self ⟨rfl, rfl, rfl, rfl, rfl, rfl, rfl⟩ (.inr ⟨rfl, rfl⟩)⟩
      show (Function.update s'.memory.finished handle (some r) handle).isSome = true
      rw [Function.update_self]
      rfl
    refine (wp_bind' _).2 (wp_settled (w := .opener modelId revision) rfl (wp_quiet opened
      (fun p s' _ g _ => ?_) fun p s' _ g _ => ?_))
    · exact ⟨rfl, fun _ hc => (nomatch hc), fun r => wp_handled (done p s' r g)⟩
    · exact ⟨rfl, fun _ hc => (nomatch hc), fun r => wp_handled (done p s' r g)⟩
  | openerDone opener modelId =>
    exact wp_handled (Quiet.ends (idle rfl) ⟨rfl, rfl⟩ (quiet_openerDone (start (.openerDone opener modelId)) rfl))
  | scheduledClose id => exact done (idle rfl) ⟨rfl, rfl⟩ rfl rfl (quiet_scheduledClose (start _) rfl id)
  | sweep => exact done (idle rfl) ⟨rfl, rfl⟩ rfl rfl (quiet_sweep (start _) rfl)
  | treasury => exact done (idle rfl) ⟨rfl, rfl⟩ rfl rfl (quiet_treasury (start _) rfl true)
  | restart op immediate applyRating =>
    have other : ∀ {p : Prop} c, Work.restart op immediate applyRating = .cleanup c → p := fun c hc =>
      nomatch congrArg Work.isCleanup hc
    refine wp_settled (w := .restart op immediate applyRating) rfl (wp_restartTask (start _) rfl rfl rfl rfl
      applyRating (fun e p s' _ => ?_) (fun p s' _ => ?_) fun p s' _ => ?_)
    · exact ⟨rfl, fun c => other c, fun r => Pc.Idle.over_self ⟨rfl, rfl, rfl, rfl, rfl, rfl, rfl⟩ (.inl rfl)⟩
    · exact ⟨rfl, fun c => other c, fun r => Pc.Idle.over_self ⟨rfl, rfl, rfl, rfl, rfl, rfl, rfl⟩ (.inr ⟨rfl, rfl⟩)⟩
    · exact ⟨rfl, fun c => other c, fun r => Pc.Idle.over_self ⟨rfl, rfl, rfl, rfl, rfl, rfl, rfl⟩ (.inr ⟨rfl, rfl⟩)⟩
  | tick => exact done (idle rfl) ⟨rfl, rfl⟩ rfl rfl (quiet_runTurn (start _))
  | cleanup c =>
    refine wp_settled (w := .cleanup c) rfl (wp_cleanup (start _)
      (fun hc => ⟨hc, rfl, .inr ⟨.inl rfl, rfl, rfl⟩⟩)
      (fun hc => ?_) (fun p s' _ hc => ?_) fun e p s' _ hc => ?_)
    · exact ⟨rfl, by rintro _ ⟨⟩; exact hc, fun r => ⟨rfl, rfl, .inr rfl, .inr (.inl ⟨rfl, rfl⟩), by
        rintro _ ⟨⟩
        exact hc, .inr ⟨rfl, rfl⟩, rfl⟩⟩
    · exact ⟨rfl, by rintro _ ⟨⟩; exact hc, fun r =>
        Pc.Idle.over_self ⟨rfl, rfl, rfl, rfl, rfl, rfl, rfl⟩ (.inr ⟨rfl, rfl⟩)⟩
    · exact ⟨rfl, by rintro _ ⟨⟩; exact hc, fun r =>
        Pc.Idle.over_self ⟨rfl, rfl, rfl, rfl, rfl, rfl, rfl⟩ (.inr ⟨rfl, rfl⟩)⟩

/-- A prewarm ends with nothing held. -/
theorem wp_prewarm (h : pc.At Anywhere) (hi : pc.Idle) (hr : pc.restarting = none ∧ pc.claimed = false)
    (hcall : pc.call = none) (modelId : String) (rounds : ℕ) :
    Wp cfg t (acquire cfg modelId true rounds) (fun _ => Over) (fun _ => Over) pc s := by
  refine wp_acquire h hi.lease ⟨hi.waits, fun call idem hc => nomatch hcall.symm.trans hc⟩
    (fun e p s1 _ => hi.ends (.inr hr) p) (fun s1 _ => ?_) fun p s1 r _ _ => ?_
  · exact ⟨hi.lock, hi.cleaning, .inl rfl, .inl rfl, fun _ hp => (nomatch hi.pledge.symm.trans hp),
      .inr hr, hi.begun⟩
  · exact ⟨hi.lock, hi.cleaning, .inr hi.waits, .inr (.inl ⟨rfl, hi.key⟩),
      fun _ hp => (nomatch hi.pledge.symm.trans hp), .inr hr, rfl⟩

/-- **Every program of the gateway keeps the protocol.** -/
theorem protocol_holds (cfg : Config) : Contract.Holds (gateway cfg) (protocol cfg) where
  site_park _ _ := rfl
  refl := Grows.refl
  trans := Grows.trans
  emit h := Grows.apply _ h
  begin {_ t _ _} h := Grows.begin (t := t) h
  drift d s := Grows.drift s d
  body {s t p s'} _ := by
    have h : ∀ {α : Type} {c : Op α}, Quiet cfg t Anywhere c {} s' →
        Wp cfg t (handled c) (fun _ => Over) (fun e => nomatch e) {} s' := fun hc =>
      wp_handled (Quiet.ends Pc.idle ⟨rfl, rfl⟩ hc)
    have start : ({} : Pc).At Anywhere := ⟨⟨rfl, rfl, rfl, rfl⟩, trivial⟩
    cases p with
    | run => exact h (quiet_run start)
    | task handle w => exact wp_taskBody handle w
    | chat call =>
      exact wp_handled (wp_completion ⟨⟨rfl, rfl, rfl, rfl⟩, trivial⟩ ⟨rfl, rfl, rfl, rfl, rfl, rfl, rfl⟩ ⟨rfl, rfl⟩ rfl rfl)
    | prewarm modelId rounds =>
      exact wp_handled (wp_prewarm start Pc.idle ⟨rfl, rfl⟩ rfl modelId rounds)
    | close id stopMaintaining => exact h (quiet_close start rfl id stopMaintaining)
    | bind id chainId => exact h (quiet_bind start id chainId)
    | putPolicy p => exact h (quiet_putPolicy start p)
    | editKey id models concurrency rpm => exact h (quiet_editKey start id models concurrency rpm)
    | revokeKey id => exact h (quiet_revoke start id)
    | createKey key idempotencyKey => exact h (quiet_createKey start key idempotencyKey)
    | recoveryRun => exact h (quiet_recoveryRun start)
    | withdraw => exact h (quiet_startWithdrawal start)
    | status => exact h (quiet_status start)
    | restart immediate applyRating =>
      refine wp_handled (wp_mono (fun _ pc' s2 hr => ?_) (fun _ pc' s2 hr => ?_) _
        (wp_restart rfl immediate applyRating))
      · obtain ⟨⟨u, rfl⟩, -⟩ := hr
        exact Pc.Idle.over_self ⟨rfl, rfl, rfl, rfl, rfl, rfl, rfl⟩ (.inr ⟨rfl, rfl⟩)
      · obtain ⟨rfl | ⟨u, rfl⟩, -⟩ := hr
        · exact Pc.Idle.over_self ⟨rfl, rfl, rfl, rfl, rfl, rfl, rfl⟩ (.inr ⟨rfl, rfl⟩)
        · exact Pc.Idle.over_self ⟨rfl, rfl, rfl, rfl, rfl, rfl, rfl⟩ (.inl rfl)

end MorpheusGateway
