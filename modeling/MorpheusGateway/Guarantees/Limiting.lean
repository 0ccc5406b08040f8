/-
# The limits of a key

A validated request in the scope of its key asks the limiter, which decides in the same
piece.  `HasRoom` is what it is meant to decide by: how many requests of the key the log
shows admitted in the last minute, and how many are unfinished, that is served or cleaned up
after.  The code goes by the bucket and the count in the memory instead.  The bucket says the
same (`Run.bucketed`), and the count does while releases succeed (`Run.served`); a store
operation that fails in the handling of a failed request leaves the request counted for ever,
which refutes the claim without that condition (`not_limitsExactly`).

What the task that asks does next is read off its course.  It asks once, because only a
request that is not yet admitted asks.
-/

import Mathlib.Data.Set.Card
import MorpheusGateway.Guarantees.Conserving
import MorpheusGateway.Guarantees.Restarting
import MorpheusGateway.Protocol.Courses

namespace MorpheusGateway

open Contract

variable {cfg : Config} {C : ItemRule}

/-! ### The guarantee -/

/-- Every record of the key that is stored has these limits. -/
def FixedLimits (id : String) (perMinute concurrency : ℕ) : ItemRule :=
  OnEvent fun _ _ _ e => match e with
    | .key k => k.id = id → k.requestsPerMinute = perMinute ∧ k.concurrency = concurrency
    | _ => True

/-- The limits of the key are fixed, and releases succeed. -/
def LimitsFixed (id : String) (perMinute concurrency : ℕ) : ItemRule := fun s l x =>
  FixedLimits id perMinute concurrency s l x ∧ ReleasesSucceed s l x

/-- A request asks the limiter of the key. -/
def asks (id : String) : LogEntry → Bool
  | .emit (.trimRate k) => k = id
  | _ => false

/-- A request of the key is admitted. -/
def admits (id : String) : LogEntry → Bool
  | .emit (.rate k) => k = id
  | _ => false

/-- A request of the key becomes one that is unfinished. -/
def counts (id : String) : LogEntry → Bool
  | .emit (.admitted _ k _) => k = id
  | _ => false

/-- The state changes, but for what a bucket no longer needs. -/
def changes : LogEntry → Bool
  | .emit (.trimRate _) => false
  | .emit _ => true
  | _ => false

/-- A read of the store failed. -/
def readFails : LogEntry → Bool
  | .toss .read true => true
  | _ => false

/-- The body of the request was read. -/
def readsBody : LogEntry → Bool
  | .wake .requestBody .done => true
  | _ => false

/-- The key that was stored last with this token. -/
def keyStored (token : String) : List LogItem → Option ApiKey
  | [] => none
  | .task _ (.emit (.key k)) :: l => if k.token = token then some k else keyStored token l
  | _ :: l => keyStored token l

/-- The task serves this request, and its token was that of the key when it began. -/
def RequestOf (l : List LogItem) (t : ℕ) (call : ChatCall) (key : ApiKey) : Prop :=
  ∃ l₀, started t l = some (.chat call, l₀) ∧ keyStored call.token l₀ = some key

/-- The request is validated, and in the scope of its key: the key is enabled, the store was
read without failure, and the body was read and names a model that the settings of this moment
offer and the key may use. -/
def Validated (s : World) (l : List LogItem) (t : ℕ) (call : ChatCall) (key : ApiKey) : Prop :=
  key.enabled = true ∧ made readFails t l = false ∧ made readsBody t l = true ∧
    ∃ name stream m, call.body = some (name, stream) ∧ s.store.policy.resolve name = some m ∧
      App.inScope key m.id = true

/-- In the last minute fewer than `perMinute` requests of the key were admitted, and fewer
than `concurrency` are unfinished: served or cleaned up after by a task under way, or about to
be cleaned up after. -/
def HasRoom (id : String) (perMinute concurrency : ℕ) (s : World) (l : List LogItem) : Prop :=
  Window.within (s.monotonic - 60) s.monotonic (admissions id s.monotonic l) < perMinute ∧
    Set.encard {r | Served s l r id} < concurrency

/-- Every validated request asks: it awaits nothing but its body before it has asked, and it
does not end without. -/
def Asks (id : String) : ItemRule := fun s l x =>
  OnPark (fun _ l t i => ∀ call key, RequestOf l t call key → key.id = id →
    i = .requestBody ∨ made (asks id) t l = true) s l x ∧
  OnStop (fun s l t => ∀ call key, RequestOf l t call key → key.id = id →
    Validated s l t call key → made (asks id) t l = true) s l x

/-- What the limiter decides.  A request is admitted only when it has just asked and there
was room.  One that has asked is admitted and counted, or it ends without having changed
anything, and there was no room. -/
def Decides (id : String) (perMinute concurrency : ℕ) : ItemRule := fun s l x =>
  OnEvent (fun s l t e =>
    (e = .rate id → ∃ l', l = .task t (.emit (.trimRate id)) :: l' ∧
      HasRoom id perMinute concurrency s l') ∧
    (made (asks id) t l = true → made (admits id) t l = true ∨ e = .rate id)) s l x ∧
  OnPark (fun _ l t _ => made (asks id) t l = true →
    made (admits id) t l = true ∧ made (counts id) t l = true) s l x ∧
  OnStop (fun s l t => made (asks id) t l = true →
    made (admits id) t l = true ∧ made (counts id) t l = true ∨
    made changes t l = false ∧ ∃ l', l = .task t (.emit (.trimRate id)) :: l' ∧
      ¬HasRoom id perMinute concurrency s l') s l x

/-- The limiter of a key is an exact sliding window: every validated request asks it, it decides
by the admissions of the last minute and the unfinished requests, and no minute has more than
`perMinute` admissions. -/
def LimitsExactly (id : String) (perMinute concurrency : ℕ) : ItemRule := fun s l x =>
  (∀ b, Window.within b (b + 60) (admissions id s.monotonic l) ≤ perMinute) ∧
    Asks id s l x ∧ Decides id perMinute concurrency s l x

/-! ### What a task has made -/

/-- What others do does not change what the task has made. -/
theorem made_aside {p : LogEntry → Bool} {t : ℕ} {m : List LogItem} (h : ∀ x ∈ m, Item.Aside t x)
    (l : List LogItem) : made p t (m ++ l) = made p t l := by
  induction m with
  | nil => rfl
  | cons x m ih =>
    have ih := ih fun y hy => h y (List.mem_cons_of_mem _ hy)
    have hx : Item.Aside t x := h x List.mem_cons_self
    cases x with
    | task u a => exact (made_of_ne (Ne.symm hx)).trans ih
    | drift d => exact ih
    | crash => exact hx.elim

/-- What a task has made it has made for the rest of its course. -/
theorem made_during {p : LogEntry → Bool} {t : ℕ} {m l : List LogItem}
    (h : ∀ x ∈ m, Item.During t x) (hl : made p t l = true) : made p t (m ++ l) = true := by
  induction m with
  | nil => exact hl
  | cons x m ih =>
    have ih := ih fun y hy => h y (List.mem_cons_of_mem _ hy)
    have hx : Item.During t x := h x List.mem_cons_self
    cases x with
    | task u a =>
      rcases eq_or_ne t u with rfl | hu
      · rw [List.cons_append, made_self, ih, Bool.or_true]
        rintro q rfl
        exact hx rfl
      · exact (made_of_ne hu).trans ih
    | drift d => exact ih
    | crash => exact hx.elim

/-- What a task has made stands in the log of its course. -/
theorem exists_of_made {p : LogEntry → Bool} {t : ℕ} {l : List LogItem} (h : made p t l = true) :
    ∃ a m l', l = m ++ .task t a :: l' ∧ p a = true ∧ (∀ q, a ≠ .start q) ∧
      ∀ x ∈ m, Item.During t x := by
  induction l with
  | nil => cases h
  | cons x l ih =>
    have later : Item.During t x → made p t l = true → ∃ a m l', x :: l = m ++ .task t a :: l' ∧
        p a = true ∧ (∀ q, a ≠ .start q) ∧ ∀ x ∈ m, Item.During t x := by
      intro hx hl
      obtain ⟨a, m, l', rfl, ha, hq, hm⟩ := ih hl
      exact ⟨a, x :: m, l', rfl, ha, hq, List.forall_mem_cons.2 ⟨hx, hm⟩⟩
    cases x with
    | drift d => exact later trivial h
    | crash => cases h
    | task u a =>
      rcases eq_or_ne t u with rfl | hu
      · by_cases hq : ∃ q, a = .start q
        · obtain ⟨q, rfl⟩ := hq
          rw [made, if_pos rfl] at h
          cases h
        · have hq : ∀ q, a ≠ .start q := fun q he => hq ⟨q, he⟩
          rw [made_self hq, Bool.or_eq_true] at h
          rcases h with h | h
          · exact ⟨a, [], l, rfl, h, hq, fun _ hx => by cases hx⟩
          · refine later ?_ h
            cases a with
            | start q => exact absurd rfl (hq q)
            | _ => exact trivial
      · rw [made_of_ne hu] at h
        refine later ?_ h
        cases a with
        | start q => exact Ne.symm hu
        | _ => exact trivial

/-- What happens during the task does not change when it was started. -/
theorem started_during {t : ℕ} {m : List LogItem} (h : ∀ x ∈ m, Item.During t x) (l : List LogItem) :
    started t (m ++ l) = started t l := by
  induction m with
  | nil => rfl
  | cons x m ih =>
    have ih := ih fun y hy => h y (List.mem_cons_of_mem _ hy)
    have hx : Item.During t x := h x List.mem_cons_self
    cases x with
    | task u a =>
      cases a with
      | start p => exact (if_neg hx).trans ih
      | _ => exact ih
    | drift d => exact ih
    | crash => exact hx.elim

/-! ### A request asks once -/

/-- A request of some key is admitted. -/
def ratesAny : LogEntry → Bool
  | .emit (.rate _) => true
  | _ => false

/-- Only entering the bucket sets the mark. -/
theorem Pc.rated_emit (pc : Pc) (e : Event) :
    (pc.emit e).rated = (ratesAny (.emit e) || pc.rated) ∧ (pc.emit e).call = pc.call := by
  cases e with
  | put w row =>
    cases w
    all_goals exact ⟨rfl, rfl⟩
  | putOperation w op =>
    cases w
    all_goals exact ⟨rfl, rfl⟩
  | attempt a =>
    simp only [Pc.emit]
    split
    all_goals exact ⟨rfl, rfl⟩
  | maintenance on =>
    cases on
    all_goals exact ⟨rfl, rfl⟩
  | spawn handle w =>
    cases w
    all_goals exact ⟨rfl, rfl⟩
  | _ => exact ⟨rfl, rfl⟩

/-- An operation that may fail leaves it. -/
theorem Pc.rated_toss (pc : Pc) (q : StoreCall) (b : Bool) :
    (pc.toss q b).rated = pc.rated ∧ (pc.toss q b).call = pc.call := by
  unfold Pc.toss
  split_ifs
  all_goals exact ⟨rfl, rfl⟩

/-- A task starts without it. -/
theorem Pc.enter_rated (p : Program) : (Pc.enter p).rated = false ∧
    ∀ call, (Pc.enter p).call = some call → p = .chat call := by
  cases p with
  | task handle w =>
    refine ⟨?_, fun call hc => ?_⟩
    · cases w <;> rfl
    · cases w <;> cases hc
  | chat call =>
    refine ⟨rfl, fun call' hc => ?_⟩
    obtain rfl := Option.some.inj hc
    rfl
  | _ => exact ⟨rfl, fun _ hc => (nomatch hc)⟩

/-- The control point knows whether the request was admitted, and which request it is. -/
theorem rated_eq_made {l : List LogItem} {t : ℕ} {pc : Pc} (at_ : pcAt l t = some pc) :
    pc.rated = made ratesAny t l ∧
      ∀ call, pc.call = some call → ∃ l₀, started t l = some (.chat call, l₀) := by
  induction l generalizing pc with
  | nil => cases at_
  | cons x l ih =>
    cases x with
    | drift d => exact ih at_
    | crash => cases at_
    | task u a =>
      rw [pcAt_task] at at_
      rcases eq_or_ne t u with rfl | hu
      · rw [Function.update_self] at at_
        cases a with
        | start q =>
          obtain rfl := Option.some.inj at_
          refine ⟨(Pc.enter_rated q).1.trans (if_pos rfl).symm, fun call hc => ?_⟩
          obtain rfl := (Pc.enter_rated q).2 call hc
          exact ⟨_, if_pos rfl⟩
        | stop => cases at_
        | emit e =>
          obtain ⟨q, hq, rfl⟩ := Option.map_eq_some_iff.1 at_
          obtain ⟨hr, hc⟩ := q.rated_emit e
          obtain ⟨ih, hs⟩ := ih hq
          have self : made ratesAny t (.task t (.emit e) :: l) = (ratesAny (.emit e) || made ratesAny t l) :=
            made_self fun _ h => (nomatch h)
          exact ⟨hr.trans (by rw [ih, self]), fun call hcall => hs call (hc.symm.trans hcall)⟩
        | toss c b =>
          obtain ⟨q, hq, rfl⟩ := Option.map_eq_some_iff.1 at_
          obtain ⟨hr, hc⟩ := q.rated_toss c b
          obtain ⟨ih, hs⟩ := ih hq
          have self : made ratesAny t (.task t (.toss c b) :: l) = (false || made ratesAny t l) :=
            made_self fun _ h => (nomatch h)
          exact ⟨hr.trans (by rw [ih, self, Bool.false_or]), fun call hcall => hs call (hc.symm.trans hcall)⟩
        | wake i r =>
          obtain ⟨q, hq, rfl⟩ := Option.map_eq_some_iff.1 at_
          obtain ⟨ih, hs⟩ := ih hq
          have self : made ratesAny t (.task t (.wake i r) :: l) = (false || made ratesAny t l) :=
            made_self fun _ h => (nomatch h)
          exact ⟨by rw [self, Bool.false_or]; exact ih, hs⟩
        | park i =>
          obtain ⟨q, hq, rfl⟩ := Option.map_eq_some_iff.1 at_
          obtain ⟨ih, hs⟩ := ih hq
          have self : made ratesAny t (.task t (.park i) :: l) = (false || made ratesAny t l) :=
            made_self fun _ h => (nomatch h)
          exact ⟨by rw [self, Bool.false_or]; exact ih, hs⟩
      · rw [Function.update_of_ne hu] at at_
        obtain ⟨ih, hs⟩ := ih at_
        refine ⟨ih.trans (made_of_ne hu).symm, fun call hc => ?_⟩
        obtain ⟨l₀, hl⟩ := hs call hc
        refine ⟨l₀, ?_⟩
        cases a with
        | start q => exact (if_neg (Ne.symm hu)).trans hl
        | _ => exact hl

/-- The limiter is asked, and admits, in a chat request that was not admitted before. -/
def AsksOnce : ItemRule := OnEvent fun _ l t e =>
  (∃ k, e = .trimRate k ∨ e = .rate k) → made ratesAny t l = false ∧
    ∃ call l₀, started t l = some (.chat call, l₀)

/-- A request asks once, in every run. -/
theorem asksOnce (cfg : Config) (C : ItemRule) : Ensures cfg C AsksOnce := by
  refine Ensures.emit fun {s P l t pc e} _ at_ ok _ ⟨k, he⟩ => ?_
  have ok : EventOk cfg pc s e := ok
  have mine : pc.call.isSome = true ∧ pc.rated = false := by
    rcases he with rfl | rfl
    · exact ok
    · exact ok
  obtain ⟨hr, hs⟩ := rated_eq_made at_
  obtain ⟨call, hcall⟩ := Option.isSome_iff_exists.1 mine.1
  obtain ⟨l₀, hl⟩ := hs call hcall
  exact ⟨hr.symm.trans mine.2, call, l₀, hl⟩

/-- After its admission a request asks no more. -/
theorem asks_during {id : String} {t : ℕ} {m l : List LogItem} (h : ∀ x ∈ m, Item.During t x)
    (once : ∀ {k l'}, .task t (.emit (.trimRate k)) :: l' <:+ m ++ l → made ratesAny t l' = false)
    (hl : made ratesAny t l = true) : made (asks id) t (m ++ l) = made (asks id) t l := by
  induction m with
  | nil => rfl
  | cons x m ih =>
    have hm : ∀ y ∈ m, Item.During t y := fun y hy => h y (List.mem_cons_of_mem _ hy)
    have ih := ih hm fun hs => once (hs.trans (List.suffix_cons ..))
    have hx : Item.During t x := h x List.mem_cons_self
    cases x with
    | task u a =>
      rcases eq_or_ne t u with rfl | hu
      · have ha : asks id a = false := by
          cases a with
          | emit e =>
            cases e with
            | trimRate k =>
              have none : made ratesAny t (m ++ l) = false := once (List.suffix_refl _)
              rw [made_during hm hl] at none
              cases none
            | _ => rfl
          | _ => rfl
        rw [List.cons_append, made_self, ha, ih, Bool.false_or]
        rintro q rfl
        exact hx rfl
      · exact (made_of_ne hu).trans ih
    | drift d => exact ih
    | crash => exact hx.elim

/-! ### The course of a request -/

section Course

variable {s : World} {t : ℕ} {l₀ l : List LogItem}

/-- A request of the key, begun at `l₀`, asks the limiter next. -/
structure Asking (cfg : Config) (s : World) (t : ℕ) (l₀ : List LogItem) (call : ChatCall)
    (key : ApiKey) (l : List LogItem) : Prop where
  began : l₀ <:+ l
  stored : (replay (gateway cfg) s l₀).store.keys.get call.token = some key
  asks : ∀ id, made (asks id) t l = false
  changes : made changes t l = false

/-- The request that began at `l₀` is validated for the limiter. -/
def Passes (cfg : Config) (s : World) (t : ℕ) (l₀ : List LogItem) (call : ChatCall)
    (l : List LogItem) : Prop :=
  ∃ key, (replay (gateway cfg) s l₀).store.keys.get call.token = some key ∧
    Validated (replay (gateway cfg) s l) l t call key

/-- The limiter refuses. -/
def Refuses (key : ApiKey) (s : World) : Prop :=
  key.requestsPerMinute ≤ (s.memory.rates key.id).length ∨
    key.concurrency ≤ s.memory.keyActive key.id

/-- What a request does once it is admitted. -/
def afterAdmission (cfg : Config) (call : ChatCall) (m : ModelPolicy) (stream : Bool) (key : ApiKey)
    (request : ℕ) : Op Unit := do
  let (c, served) ← (App.serve cfg call m stream { request, key := key.id }).tryCatch App.serveFailed
  match served with
  | .answer => return ()
  | .stream => App.respond c

/-- What a validated request does from the limiter on. -/
def fromLimiter (cfg : Config) (call : ChatCall) (m : ModelPolicy) (stream : Bool) (key : ApiKey) :
    Op Unit := do
  Coro.perform (.trimRate key.id)
  let memory ← memory id
  if key.requestsPerMinute ≤ (memory.rates key.id).length ∨
      key.concurrency ≤ memory.keyActive key.id then
    Coro.raise (refuse .rateLimit "API key rate or concurrency limit reached" 429)
  Coro.perform (.rate key.id)
  let request ← uuid
  Coro.perform (.admitted request key.id key.concurrency)
  afterAdmission cfg call m stream key request

/-- What the check of the key found in the store. -/
theorem ran_apiKey {token : String} {r : Except Exc ApiKey}
    (h : RanTo cfg s t (App.apiKey token) l₀ r l) :
    (∃ b, l = .task t (.toss .read b) :: l₀) ∧
      (∀ key, r = .ok key → (replay (gateway cfg) s l₀).store.keys.get token = some key) ∧
      ∀ e, r = .error e → l = .task t (.toss .read true) :: l₀ ∨
        ∀ key, (replay (gateway cfg) s l₀).store.keys.get token = some key → key.enabled = false := by
  rcases (leads_fetch _ _).1 ((leads_bind' _).1 h) with ⟨rfl, rfl⟩ | h
  · exact ⟨⟨true, rfl⟩, fun key hk => (nomatch hk), fun _ _ => .inl rfl⟩
  cases hget : (replay (gateway cfg) s l₀).store.keys.get token with
  | none =>
    rw [hget] at h
    obtain ⟨rfl, rfl⟩ := h
    exact ⟨⟨false, rfl⟩, fun key hk => (nomatch hk), fun _ _ => .inr fun key hk => (nomatch hk)⟩
  | some k =>
    rw [hget] at h
    rcases (leads_ite _ _ _).1 h with ⟨-, rfl, rfl⟩ | ⟨disabled, rfl, rfl⟩
    · refine ⟨⟨false, rfl⟩, fun key hr => ?_, fun _ he => (nomatch he)⟩
      rw [Except.ok.inj hr]
    · refine ⟨⟨false, rfl⟩, fun key hk => (nomatch hk), fun _ _ => .inr fun key hk => ?_⟩
      rw [← Option.some.inj hk]
      exact Bool.not_eq_true _ ▸ disabled

/-- It makes no entry but the read. -/
theorem not_meets_apiKey {token : String} {x : LogEntry} :
    ¬(protocol cfg).Meets (gateway cfg) s t (App.apiKey token) l₀ x l := by
  intro h
  rcases (leads_fetch _ _).1 ((leads_bind' _).1 h) with h | h
  · exact h
  cases hget : (replay (gateway cfg) s l₀).store.keys.get token with
  | none =>
    rw [hget] at h
    exact h
  | some k =>
    rw [hget] at h
    rcases (leads_ite _ _ _).1 h with ⟨-, h⟩ | ⟨-, h⟩
    · exact h
    · exact h

/-- **A chat request changes nothing before it comes to the limiter**, and comes to it if it is
validated. -/
theorem leads_completion {call : ChatCall} {Q : Except Exc Unit → List LogItem → Prop}
    {R : LogEntry → List LogItem → Prop} (fresh : ∀ p, made p t l₀ = false)
    (h : Leads cfg s t (App.completion cfg call) Q R l₀) :
    (∃ r m, Q r m ∧ (∀ id, made (asks id) t m = false) ∧ ¬Passes cfg s t l₀ call m) ∨
    (∃ m, R (.park .requestBody) m ∧ ∀ id, made (asks id) t m = false) ∨
    ∃ key m model stream, Asking cfg s t l₀ call key m ∧
      Leads cfg s t (fromLimiter cfg call model stream key) Q R m := by
  rcases (leads_iff _).1 ((leads_bind' _).1 h) with ⟨r, l₁, hran, h⟩ | ⟨x, l₁, hmet, -⟩
  swap
  · exact (not_meets_apiKey hmet).elim
  obtain ⟨⟨failed, rfl⟩, hkey, hfail⟩ := ran_apiKey hran
  cases r with
  | error e =>
    refine .inl ⟨_, _, h, fun id => by simp [made, asks, fresh], ?_⟩
    rintro ⟨key, hget, enabled, reads, -⟩
    rcases hfail e rfl with hl | disabled
    · simp [(Entry.toss.inj (Item.task.inj (List.cons.inj hl).1).2).2, made, readFails] at reads
    · rw [disabled key hget] at enabled
      cases enabled
  | ok key =>
    have hkey := hkey key rfl
    rcases (leads_suspend _).1 ((leads_bind' _).1 h) with h | ⟨m₁, a, hm₁, -, -, h⟩
    · exact .inr (.inl ⟨_, h, fun id => by simp [made, asks, fresh]⟩)
    cases a with
    | done =>
      cases hb : call.body with
      | none =>
        rw [hb] at h
        refine .inl ⟨_, _, h, fun id => by simp [made, asks, fresh, made_aside hm₁], ?_⟩
        rintro ⟨_, -, -, -, -, name, stream, m, hbody, -⟩
        cases hb.symm.trans hbody
      | some b =>
        obtain ⟨name, stream⟩ := b
        rw [hb] at h
        rcases (leads_fetch _ _).1 ((leads_bind' _).1 h) with h | h
        · refine .inl ⟨_, _, h, fun id => by simp [made, asks, fresh, made_aside hm₁], ?_⟩
          rintro ⟨_, -, -, reads, -⟩
          simp [made, readFails] at reads
        dsimp only at h
        generalize hp : (replay (gateway cfg) s _).store.policy = p at h
        cases hm : p.resolve name with
        | none =>
          rw [hm] at h
          refine .inl ⟨_, _, h, fun id => by simp [made, asks, fresh, made_aside hm₁], ?_⟩
          rintro ⟨_, -, -, -, -, name', stream', m, hbody, hres, -⟩
          obtain ⟨rfl, -⟩ := Prod.mk.inj (Option.some.inj (hb.symm.trans hbody))
          subst hp
          cases hm.symm.trans hres
        | some model =>
          rw [hm] at h
          rcases (leads_ite _ _ _).1 h with ⟨outside, h⟩ | ⟨-, h⟩
          · refine .inl ⟨_, _, h, fun id => by simp [made, asks, fresh, made_aside hm₁], ?_⟩
            rintro ⟨key', hkey', -, -, -, name', stream', m, hbody, hres, inside⟩
            obtain ⟨rfl, -⟩ := Prod.mk.inj (Option.some.inj (hb.symm.trans hbody))
            subst hp
            obtain rfl := Option.some.inj (hm.symm.trans hres)
            obtain rfl := Option.some.inj (hkey.symm.trans hkey')
            exact outside inside
          · refine .inr (.inr ⟨key, _, model, stream, ⟨?_, hkey, fun id => ?_, ?_⟩, h⟩)
            · exact ⟨.task t (.toss .read false) :: .task t (.wake .requestBody .done) ::
                (m₁ ++ [.task t (.park .requestBody), .task t (.toss .read failed)]), by simp⟩
            · simp [made, asks, fresh, made_aside hm₁]
            · simp [made, changes, fresh, made_aside hm₁]
    | _ =>
      refine .inl ⟨_, _, h, fun id => by simp [made, asks, fresh, made_aside hm₁], ?_⟩
      rintro ⟨_, -, -, -, body, -⟩
      simp [made, readsBody, fresh, made_aside hm₁] at body

/-- **The limiter refuses, or the request is admitted and counted in the same piece.** -/
theorem leads_fromLimiter {call : ChatCall} {model : ModelPolicy} {stream : Bool} {key : ApiKey}
    {Q : Except Exc Unit → List LogItem → Prop} {R : LogEntry → List LogItem → Prop}
    (h : Leads cfg s t (fromLimiter cfg call model stream key) Q R l) :
    R (.emit (.trimRate key.id)) l ∨
    (Refuses key (replay (gateway cfg) s (.task t (.emit (.trimRate key.id)) :: l)) ∧
      ∃ e, Q (.error e) (.task t (.emit (.trimRate key.id)) :: l)) ∨
    ¬Refuses key (replay (gateway cfg) s (.task t (.emit (.trimRate key.id)) :: l)) ∧
      (R (.emit (.rate key.id)) (.task t (.emit (.trimRate key.id)) :: l) ∨
      ∃ x m m', (∀ y ∈ m', Item.During t y) ∧
        m = m' ++ .task t (.emit (.rate key.id)) :: .task t (.emit (.trimRate key.id)) :: l ∧
        (R x m ∧ (∀ i, x = .park i → made (counts key.id) t m = true) ∨
          (∃ r, Q r m) ∧ made (counts key.id) t m = true)) := by
  rcases (leads_perform _).1 ((leads_bind' _).1 h) with h | h
  · exact .inl h
  rcases (leads_ite _ _ _).1 ((leads_memory _).1 ((leads_bind' _).1 h)) with ⟨full, h⟩ | ⟨room, h⟩
  · exact .inr (.inl ⟨full, _, h⟩)
  refine .inr (.inr ⟨room, ?_⟩)
  rcases (leads_perform _).1 ((leads_bind' _).1 h) with h | h
  · exact .inl h
  refine .inr ?_
  rcases (leads_perform _).1 ((leads_bind' _).1 ((leads_get).1 ((leads_bind' _).1 ((leads_bind' _).1 h)))) with h | h
  · exact ⟨_, _, [], fun _ hy => (nomatch hy), rfl, .inl ⟨h, fun i hi => (nomatch hi)⟩⟩
  rcases (leads_perform _).1 ((leads_bind' _).1 h) with h | h
  · exact ⟨_, _, [.task t (.emit (.uuid _))], by simp [Item.During], rfl, .inl ⟨h, fun i hi => (nomatch hi)⟩⟩
  have counted : ∀ {r m'}, (∀ y ∈ m', Item.During t y) → made (counts key.id) t (m' ++
      .task t (.emit (.admitted r key.id key.concurrency)) :: .task t (.emit (.uuid r)) ::
        .task t (.emit (.rate key.id)) :: .task t (.emit (.trimRate key.id)) :: l) = true :=
    fun hm' => made_during hm' (by simp [made, counts])
  have during : ∀ {r} {m' : List LogItem}, (∀ y ∈ m', Item.During t y) →
      ∀ y ∈ m' ++ [.task t (.emit (.admitted r key.id key.concurrency)), .task t (.emit (.uuid r))],
        Item.During t y := by
    intro r m' hm' y hy
    rcases List.mem_append.1 hy with hy | hy
    · exact hm' y hy
    · simp only [List.mem_cons, List.not_mem_nil, or_false] at hy
      rcases hy with rfl | rfl
      · exact trivial
      · exact trivial
  rcases (leads_iff _).1 (leads_during _ h) with ⟨r, _, -, ⟨m', hm', rfl⟩, hQ⟩ | ⟨x, _, -, ⟨m', hm', rfl⟩, hR⟩
  · exact ⟨.stop, _, _, during hm', (List.append_assoc ..).symm, .inr ⟨⟨r, hQ⟩, counted hm'⟩⟩
  · exact ⟨x, _, _, during hm', (List.append_assoc ..).symm, .inl ⟨hR, fun _ _ => counted hm'⟩⟩

/-- The request was admitted, and has gone on since. -/
def Beyond (cfg : Config) (s : World) (t : ℕ) (l₀ : List LogItem) (call : ChatCall) (key : ApiKey)
    (l : List LogItem) : Prop :=
  ∃ m l', Asking cfg s t l₀ call key l' ∧ (∀ x ∈ m, Item.During t x) ∧
    l = m ++ .task t (.emit (.rate key.id)) :: .task t (.emit (.trimRate key.id)) :: l'

/-- **The entries of a chat request** come before the limiter, from it or beyond it. -/
theorem meets_request {call : ChatCall} {x : LogEntry} (fresh : ∀ p, made p t l₀ = false)
    (h : (protocol cfg).Meets (gateway cfg) s t (body cfg t (.chat call)) l₀ x l) :
    ((∀ id, made (asks id) t l = false) ∧ (∀ k, x ≠ .emit (.rate k)) ∧
      ∀ i, x = .park i → i = .requestBody) ∨
    (∃ key l', Asking cfg s t l₀ call key l' ∧ l = .task t (.emit (.trimRate key.id)) :: l' ∧
      x = .emit (.rate key.id) ∧ ¬Refuses key (replay (gateway cfg) s l)) ∨
    ∃ key, Beyond cfg s t l₀ call key l ∧ ∀ i, x = .park i → made (counts key.id) t l = true := by
  rcases leads_completion fresh ((leads_attempt _).1 ((leads_discard _).1 h)) with
    ⟨_, _, h, -⟩ | ⟨_, ⟨rfl, rfl⟩, ha⟩ | ⟨key, l', model, stream, asking, h⟩
  · exact h.elim
  · exact .inl ⟨ha, fun _ hk => (nomatch hk), fun _ hi => (Entry.park.inj hi).symm⟩
  rcases leads_fromLimiter h with ⟨rfl, rfl⟩ | ⟨-, _, h⟩ |
    ⟨room, ⟨rfl, rfl⟩ | ⟨_, _, m, hm, rfl, ⟨⟨rfl, rfl⟩, hc⟩ | ⟨⟨_, h⟩, -⟩⟩⟩
  · exact .inl ⟨asking.asks, fun _ hk => (nomatch hk), fun _ hi => (nomatch hi)⟩
  · exact h.elim
  · exact .inr (.inl ⟨key, l', asking, rfl, rfl, room⟩)
  · exact .inr (.inr ⟨key, ⟨m, l', asking, hm, rfl⟩, hc⟩)
  · exact h.elim

/-- **A chat request ends** before the limiter, refused by it or beyond it. -/
theorem ran_request {call : ChatCall} (fresh : ∀ p, made p t l₀ = false)
    (h : RanTo cfg s t (body cfg t (.chat call)) l₀ (.ok ()) l) :
    ((∀ id, made (asks id) t l = false) ∧ ¬Passes cfg s t l₀ call l) ∨
    (∃ key l', Asking cfg s t l₀ call key l' ∧ l = .task t (.emit (.trimRate key.id)) :: l' ∧
      Refuses key (replay (gateway cfg) s l)) ∨
    ∃ key, Beyond cfg s t l₀ call key l ∧ made (counts key.id) t l = true := by
  rcases leads_completion fresh ((leads_attempt _).1 ((leads_discard _).1 h)) with
    ⟨_, _, ⟨-, rfl⟩, ha⟩ | ⟨_, h, -⟩ | ⟨key, l', model, stream, asking, h⟩
  · exact .inl ha
  · exact h.elim
  rcases leads_fromLimiter h with h | ⟨full, _, -, rfl⟩ |
    ⟨room, h | ⟨_, _, m, hm, rfl, ⟨h, -⟩ | ⟨⟨_, -, rfl⟩, hc⟩⟩⟩
  · exact h.elim
  · exact .inr (.inl ⟨key, l', asking, rfl, full⟩)
  · exact h.elim
  · exact h.elim
  · exact .inr (.inr ⟨key, ⟨m, l', asking, hm, rfl⟩, hc⟩)

end Course

/-! ### The records of the key -/

/-- Every stored record of the key has the limits. -/
def Keyed (id : String) (perMinute concurrency : ℕ) (s : World) : Prop :=
  ∀ k ∈ s.store.keys.rows, k.id = id → k.requestsPerMinute = perMinute ∧ k.concurrency = concurrency

/-- Only a key that is stored changes the keys. -/
theorem keys_apply (s : World) (t : ℕ) {e : Event} (he : ∀ k, e ≠ .key k) :
    (s.apply t e).store.keys = s.store.keys := by
  cases e with
  | key k => exact absurd rfl (he k)
  | _ => rfl

/-- **The stored keys with this ID have the fixed limits**, in every run. -/
theorem maintained_keyed {id : String} {perMinute concurrency : ℕ} :
    Maintained (gateway cfg) (protocol cfg) Installed (FixedLimits id perMinute concurrency)
      fun s _ => Keyed id perMinute concurrency s where
  init {s} h := by
    obtain ⟨_, _, rfl⟩ := h
    exact fun _ hk => (nomatch hk)
  start {s t p s' l} h _ may _ := by
    rw [Keyed, store_begin (t := t) may]
    exact h
  wake h _ _ _ _ := h
  emit {s t pc e l} h _ _ c := by
    by_cases he : ∃ k, e = .key k
    · obtain ⟨k, rfl⟩ := he
      intro k' hk' hid
      rcases Table.mem_put.1 hk' with rfl | ⟨hk', -⟩
      · exact c hid
      · exact h k' hk' hid
    · rw [Keyed, gateway_apply, keys_apply s t fun k hk => he ⟨k, hk⟩]
      exact h
  toss h _ _ := h
  park h _ _ _ := h
  stop h _ _ _ := h
  drift h _ := h
  crash h _ := h

/-- Only a key that is stored changes what is stored with its token. -/
theorem keyStored_task {token : String} {t : ℕ} {a : LogEntry} {l : List LogItem}
    (ha : ∀ k, a ≠ .emit (.key k)) : keyStored token (.task t a :: l) = keyStored token l := by
  cases a with
  | emit e =>
    cases e with
    | key k => exact absurd rfl (ha k)
    | _ => rfl
  | _ => rfl

/-- **The log tells which keys are stored.** -/
theorem maintained_keyStored : Maintained (gateway cfg) (protocol cfg) Installed C
    fun s l => ∀ token, s.store.keys.get token = keyStored token l where
  init {s} h := by
    obtain ⟨_, _, rfl⟩ := h
    exact fun _ => rfl
  start {s t p s' l} h _ may _ token := by
    rw [store_begin (t := t) may]
    exact h token
  wake h _ _ _ _ := h
  emit {s t pc e l} h _ _ _ token := by
    by_cases he : ∃ k, e = .key k
    · obtain ⟨k, rfl⟩ := he
      rw [gateway_apply, keyStored, ← h token]
      exact (Table.get_put ..).trans (by simp only [eq_comm])
    · rw [gateway_apply, keys_apply s t fun k hk => he ⟨k, hk⟩,
        keyStored_task fun k hk => he ⟨k, Entry.emit.inj hk⟩]
      exact h token
  toss h _ _ := h
  park h _ _ _ := h
  stop h _ _ _ := h
  drift h _ := h
  crash h _ := h

/-! ### All runs -/

/-- A list without repetitions has as many entries as there are numbers in it. -/
theorem encard_of_mem_iff {p : ℕ → Prop} {rs : List ℕ} (once : rs.Nodup) (h : ∀ r, r ∈ rs ↔ p r) :
    Set.encard {r | p r} = rs.length := by
  have : {r | p r} = (rs.toFinset : Set ℕ) := by
    ext r
    simp [h]
  rw [this, Set.encard_coe_eq_coe_finsetCard, List.toFinset_card_of_nodup once]

/-- The memory knows of the key what the log tells. -/
structure Informed (id : String) (perMinute concurrency : ℕ) (s : World) (l : List LogItem) : Prop where
  bucketed : Bucketed s l
  active : s.memory.keyActive id = (unfinished id l).length
  served : Set.encard {r | Served s l r id} = (unfinished id l).length
  keyed : Keyed id perMinute concurrency s
  stored : ∀ token, s.store.keys.get token = keyStored token l

/-- What is known wherever a request asks. -/
theorem informed (cfg : Config) (id : String) (perMinute concurrency : ℕ) :
    Ensures cfg (LimitsFixed id perMinute concurrency)
      fun s l _ => Informed id perMinute concurrency s l := by
  refine Ensures.always fun tr => ?_
  obtain ⟨active, once, served⟩ := Run.served (Traj.mono (fun _ _ _ c => c.2) tr) id
  exact ⟨Run.bucketed tr, active, encard_of_mem_iff once served,
    maintained_keyed.traj (Traj.mono (fun _ _ _ c => c.1) tr), maintained_keyStored.traj tr⟩

/-- **The limiter decides by what the log tells.** -/
theorem refuses_iff {s : World} {t perMinute concurrency : ℕ} {l : List LogItem} {key : ApiKey}
    (h : Informed key.id perMinute concurrency s l) (hp : key.requestsPerMinute = perMinute)
    (hc : key.concurrency = concurrency) : Refuses key (s.apply t (.trimRate key.id)) ↔
      ¬HasRoom key.id perMinute concurrency (s.apply t (.trimRate key.id)) l := by
  have kept : ((s.apply t (.trimRate key.id)).memory.rates key.id).length =
      Window.within (s.monotonic - 60) s.monotonic (admissions key.id s.monotonic l) := by
    rw [← (h.bucketed key.id).length_trim]
    exact congrArg List.length (Function.update_self ..)
  have active : (s.apply t (.trimRate key.id)).memory.keyActive key.id = (unfinished key.id l).length :=
    h.active
  have served : Set.encard {r | Served (s.apply t (.trimRate key.id)) l r key.id} =
      (unfinished key.id l).length := h.served
  rw [Refuses, HasRoom, kept, active, served, hp, hc, Nat.cast_lt]
  show _ ↔ ¬(Window.within (s.monotonic - 60) s.monotonic (admissions key.id s.monotonic l) < _ ∧ _)
  omega

/-- A part of the log was the log before some item. -/
theorem suffix_next {m l : List LogItem} (h : m <:+ l) (y : LogItem) : ∃ x, x :: m <:+ y :: l := by
  obtain ⟨pre, rfl⟩ := h
  rcases List.eq_nil_or_concat pre with rfl | ⟨pre, x, rfl⟩
  · exact ⟨y, List.suffix_refl _⟩
  · exact ⟨x, y :: pre, by simp⟩

section Decisions

variable {id : String} {perMinute concurrency : ℕ} {s₀ : World} {t : ℕ} {l₀ l : List LogItem}
  {y : LogItem} {q : Program}

/-- What is known of the items of a run whose log is `y :: l`. -/
def Logged (cfg : Config) (id : String) (perMinute concurrency : ℕ) (s₀ : World) (l : List LogItem) :
    Prop :=
  ∀ x m, x :: m <:+ l → Informed id perMinute concurrency (replay (gateway cfg) s₀ m) m ∧
    AsksOnce (replay (gateway cfg) s₀ m) m x

/-- A request that asks had entered no bucket, and was started as a chat request. -/
theorem Logged.once (known : Logged cfg id perMinute concurrency s₀ (y :: l)) {k : String}
    {l' : List LogItem} (h : .task t (.emit (.trimRate k)) :: l' <:+ l) :
    made ratesAny t l' = false ∧ ∃ call l₀, started t l' = some (.chat call, l₀) :=
  (known _ _ (h.trans (List.suffix_cons ..))).2 ⟨k, .inl rfl⟩

/-- Only a chat request asks. -/
theorem Logged.chat (known : Logged cfg id perMinute concurrency s₀ (y :: l))
    (hq : started t l = some (q, l₀)) (h : made (asks id) t l = true) : ∃ call, q = .chat call := by
  obtain ⟨a, m, l', rfl, ha, -, hm⟩ := exists_of_made h
  cases a with
  | emit e =>
    cases e with
    | trimRate k =>
      obtain ⟨-, call, l₁, hs⟩ := known.once (List.suffix_append m _)
      rw [started_during hm] at hq
      obtain ⟨rfl, -⟩ := Prod.mk.inj (Option.some.inj (hq.symm.trans hs))
      exact ⟨call, rfl⟩
    | _ => cases ha
  | _ => cases ha

/-- What was known before some item of the run. -/
theorem Logged.before (known : Logged cfg id perMinute concurrency s₀ (y :: l)) {m : List LogItem}
    (hm : m <:+ l) : Informed id perMinute concurrency (replay (gateway cfg) s₀ m) m := by
  obtain ⟨x, hx⟩ := suffix_next hm y
  exact (known _ _ hx).1

/-- The key of a request is the one stored with its token when it began. -/
theorem Logged.key (known : Logged cfg id perMinute concurrency s₀ (y :: l)) {call : ChatCall}
    {key key' : ApiKey} (hq : started t l = some (.chat call, l₀)) (hl : l₀ <:+ l)
    (hkey : (replay (gateway cfg) s₀ l₀).store.keys.get call.token = some key)
    (h : RequestOf l t call key') : key' = key := by
  obtain ⟨l₁, hq', hs⟩ := h
  obtain ⟨-, rfl⟩ := Prod.mk.inj (Option.some.inj (hq.symm.trans hq'))
  rw [← (known.before hl).stored, hkey] at hs
  exact (Option.some.inj hs).symm

/-- A request that is admitted asked the limiter of its own key. -/
theorem Logged.beyond (known : Logged cfg id perMinute concurrency s₀ (y :: l)) {call : ChatCall}
    {key : ApiKey} (h : Beyond cfg s₀ t l₀ call key l) (ha : made (asks id) t l = true) :
    key.id = id ∧ made (admits id) t l = true := by
  obtain ⟨m, l', asking, hm, rfl⟩ := h
  rw [asks_during hm (fun h => (known.once h).1) (by simp [made, ratesAny])] at ha
  obtain rfl : key.id = id := by simpa [made, asks, asking.asks] using ha
  exact ⟨rfl, made_during hm (by simp [made, admits])⟩

/-- The limiter is asked with the limits of the key. -/
theorem Logged.decision (known : Logged cfg id perMinute concurrency s₀ (y :: l)) {call : ChatCall}
    {key : ApiKey} {l' : List LogItem} (asking : Asking cfg s₀ t l₀ call key l')
    (hl : l = .task t (.emit (.trimRate key.id)) :: l') (hid : key.id = id) :
    Refuses key (replay (gateway cfg) s₀ l) ↔
      ¬HasRoom id perMinute concurrency (replay (gateway cfg) s₀ l) l' := by
  subst hl hid
  have before := known.before (asking.began.trans (List.suffix_cons ..))
  obtain ⟨hp, hc⟩ := before.keyed key (Table.get_eq_some.1 asking.stored).1 rfl
  exact refuses_iff (t := t) (known.before (List.suffix_cons ..)) hp hc

/-- What a task has made counts from its start on. -/
theorem fresh_of_started (hq : started t l = some (q, l₀)) (p : LogEntry → Bool) :
    made p t l₀ = false ∧ l₀ <:+ l := by
  induction l with
  | nil => cases hq
  | cons x l ih =>
    cases x with
    | task u a =>
      cases a with
      | start p' =>
        rcases eq_or_ne u t with rfl | hu
        · rw [started, if_pos rfl] at hq
          obtain ⟨rfl, rfl⟩ := Prod.mk.inj (Option.some.inj hq)
          exact ⟨if_pos rfl, List.suffix_refl _⟩
        · rw [started, if_neg hu] at hq
          exact (ih hq).imp_right fun h => h.trans (List.suffix_cons ..)
      | _ => exact (ih hq).imp_right fun h => h.trans (List.suffix_cons ..)
    | drift d => exact (ih hq).imp_right fun h => h.trans (List.suffix_cons ..)
    | crash => cases hq

end Decisions

/-- What is known of the items of every run. -/
theorem known (cfg : Config) (id : String) (perMinute concurrency : ℕ) :
    Ensures cfg (LimitsFixed id perMinute concurrency) fun s l x =>
      Informed id perMinute concurrency s l ∧ AsksOnce s l x :=
  (informed cfg id perMinute concurrency).and (asksOnce cfg _)

/-- **Every validated request asks.** -/
theorem asked (cfg : Config) (id : String) (perMinute concurrency : ℕ) :
    Ensures cfg (LimitsFixed id perMinute concurrency) (Asks id) := by
  refine (known cfg id perMinute concurrency).knowing ?_
  refine (Ensures.metPark fun {s₀ t i q l₀ l} _ hC hq met call key hr hid => ?_).and
    (Ensures.ran fun {s₀ t q l₀ l} _ hC hq ran call key hr hid valid => ?_)
  · have known : Logged cfg id perMinute concurrency s₀ (.task t (.park i) :: l) :=
      fun x m hx => (hC hx).2
    have ⟨l₁, hq', _⟩ := hr
    obtain ⟨rfl, rfl⟩ := Prod.mk.inj (Option.some.inj (hq.symm.trans hq'))
    rcases meets_request (fun p => (fresh_of_started hq p).1) met with ⟨-, -, hi⟩ | ⟨_, _, _, _, hx, -⟩ |
      ⟨key', ⟨m, l', asking, hm, hl⟩, -⟩
    · exact .inl (hi i rfl)
    · cases hx
    · obtain rfl := known.key hq (fresh_of_started hq fun _ => true).2 asking.stored hr
      subst hl hid
      exact .inr (made_during hm (by simp [made, asks]))
  · have known : Logged cfg id perMinute concurrency s₀ (.task t .stop :: l) :=
      fun x m hx => (hC hx).2
    have ⟨l₁, hq', hkey⟩ := hr
    obtain ⟨rfl, rfl⟩ := Prod.mk.inj (Option.some.inj (hq.symm.trans hq'))
    have begun : l₀ <:+ l := (fresh_of_started hq fun _ => true).2
    rcases ran_request (fun p => (fresh_of_started hq p).1) ran with ⟨-, hn⟩ |
      ⟨key', l', asking, hl, -⟩ | ⟨key', ⟨m, l', asking, hm, hl⟩, -⟩
    · refine absurd ⟨key, ?_, valid⟩ hn
      rw [(known.before begun).stored, hkey]
    · obtain rfl := known.key hq begun asking.stored hr
      subst hl hid
      simp [made, asks]
    · obtain rfl := known.key hq begun asking.stored hr
      subst hl hid
      exact made_during hm (by simp [made, asks])

/-- **The limiter decides exactly.** -/
theorem decides (cfg : Config) (id : String) (perMinute concurrency : ℕ) :
    Ensures cfg (LimitsFixed id perMinute concurrency) (Decides id perMinute concurrency) := by
  refine (known cfg id perMinute concurrency).knowing ?_
  refine (Ensures.met fun {s₀ t e q l₀ l} _ hC hq met => ?_).and
    ((Ensures.metPark fun {s₀ t i q l₀ l} _ hC hq met ha => ?_).and
      (Ensures.ran fun {s₀ t q l₀ l} _ hC hq ran ha => ?_))
  · have known : Logged cfg id perMinute concurrency s₀ (.task t (.emit e) :: l) :=
      fun x m hx => (hC hx).2
    have fresh := fun p => (fresh_of_started hq p).1
    constructor
    · rintro rfl
      obtain ⟨new, call, l₁, hs⟩ := (known _ _ (List.suffix_refl _)).2 ⟨id, .inr rfl⟩
      obtain ⟨rfl, -⟩ := Prod.mk.inj (Option.some.inj (hq.symm.trans hs))
      rcases meets_request fresh met with ⟨-, hne, -⟩ | ⟨key, l', asking, hl, hx, room⟩ |
        ⟨key, ⟨m, l', -, hm, rfl⟩, -⟩
      · exact absurd rfl (hne id)
      · have hid : id = key.id := Event.rate.inj (Entry.emit.inj hx)
        rw [known.decision asking hl hid.symm, not_not] at room
        exact ⟨l', by rw [hl, hid], room⟩
      · rw [made_during hm (by simp [made, ratesAny])] at new
        cases new
    · intro ha
      obtain ⟨call, rfl⟩ := known.chat hq ha
      rcases meets_request fresh met with ⟨hn, -⟩ | ⟨key, l', asking, rfl, hx, -⟩ |
        ⟨key, beyond, -⟩
      · cases (hn id).symm.trans ha
      · obtain rfl : key.id = id := by simpa [made, asks, asking.asks] using ha
        exact .inr (Entry.emit.inj hx)
      · exact .inl (known.beyond beyond ha).2
  · have known : Logged cfg id perMinute concurrency s₀ (.task t (.park i) :: l) :=
      fun x m hx => (hC hx).2
    obtain ⟨call, rfl⟩ := known.chat hq ha
    rcases meets_request (fun p => (fresh_of_started hq p).1) met with ⟨hn, -⟩ | ⟨_, _, _, _, hx, -⟩ |
      ⟨key, beyond, hc⟩
    · cases (hn id).symm.trans ha
    · cases hx
    · obtain ⟨rfl, hadmits⟩ := known.beyond beyond ha
      exact ⟨hadmits, hc i rfl⟩
  · have known : Logged cfg id perMinute concurrency s₀ (.task t .stop :: l) :=
      fun x m hx => (hC hx).2
    obtain ⟨call, rfl⟩ := known.chat hq ha
    rcases ran_request (fun p => (fresh_of_started hq p).1) ran with ⟨hn, -⟩ |
      ⟨key, l', asking, hl, full⟩ | ⟨key, beyond, hc⟩
    · cases (hn id).symm.trans ha
    · obtain rfl : key.id = id := by simpa [hl, made, asks, asking.asks] using ha
      refine .inr ⟨?_, l', hl, (known.decision asking hl rfl).1 full⟩
      simp [hl, made, changes, asking.changes]
    · obtain ⟨rfl, hadmits⟩ := known.beyond beyond ha
      exact .inl ⟨hadmits, hc⟩

/-- No minute of the log has more than `perMinute` admissions of the key. -/
def Windowed (id : String) (perMinute : ℕ) (s : World) (l : List LogItem) : Prop :=
  ∀ b, Window.within b (b + 60) (admissions id s.monotonic l) ≤ perMinute

/-- A step that neither enters the bucket nor takes time keeps the window. -/
theorem Windowed.same {id : String} {perMinute : ℕ} {s s' : World} {l : List LogItem} {t : ℕ}
    {a : LogEntry} (h : Windowed id perMinute s l) (ha : a ≠ .emit (.rate id))
    (hm : s'.monotonic = s.monotonic) : Windowed id perMinute s' (.task t a :: l) := by
  intro b
  rw [hm, admissions_task ha]
  exact h b

/-- **No more entries than the limit are in the window**, in every run. -/
theorem maintained_windowed {id : String} {perMinute concurrency : ℕ} (hC : ∀ {s l x}, C s l x →
    Decides id perMinute concurrency s l x ∧ Bucketed s l) :
    Maintained (gateway cfg) (protocol cfg) Installed C (Windowed id perMinute) where
  init _ := fun _ => Nat.zero_le _
  start {s t p s' l} h _ may _ := h.same (fun e => (nomatch e)) (rates_begin (t := t) may).2
  wake h _ _ _ _ := h.same (fun e => (nomatch e)) rfl
  emit {s t pc e l} h _ _ c := by
    rcases eq_or_ne e (.rate id) with rfl | he
    · obtain ⟨⟨hd, -, -⟩, bucketed⟩ := hC c
      obtain ⟨l', rfl, room, -⟩ := hd.1 rfl
      intro b
      show Window.within b (b + 60) (if id = id then
        admissions id s.monotonic l' ++ [s.monotonic] else _) ≤ perMinute
      rw [if_pos rfl]
      exact Window.within_push h (bucketed id).past room b
    · exact h.same (fun h => he (Entry.emit.inj h)) (monotonic_apply s t e)
  toss h _ _ := h.same (fun e => (nomatch e)) rfl
  park h _ _ _ := h.same (fun e => (nomatch e)) rfl
  stop h _ _ _ := h.same (fun e => (nomatch e)) rfl
  drift {s d l} h _ := by
    intro b
    show Window.within b (b + 60) (admissions id (s.monotonic + d.monotonic - d.monotonic) l) ≤ perMinute
    rw [add_sub_cancel_right]
    exact h b
  crash _ _ := fun _ => Nat.zero_le _

/-- **The key rate limiter is an exact sliding window**, while releases succeed. -/
theorem limitsExactly (cfg : Config) (id : String) (perMinute concurrency : ℕ) :
    Ensures cfg (LimitsFixed id perMinute concurrency) (LimitsExactly id perMinute concurrency) := by
  have decided := decides cfg id perMinute concurrency
  refine Ensures.and (decided.knowing (Ensures.always fun tr => ?_))
    ((asked cfg id perMinute concurrency).and decided)
  have known := Traj.knowing (I := Bucketed) Run.bucketed tr
  exact (maintained_windowed fun c => ⟨c.1.2, c.2⟩).traj known

/-! ### A request that is refused -/

/-- A key with one request at a time. -/
def narrow : ApiKey := { Sample.key with concurrency := 1 }

/-- The limits of the key are 60 and 1. -/
def keepsLimits (_ : World) (_ : List LogItem) : LogItem → Bool
  | .task _ (.emit (.key k)) => k.requestsPerMinute = 60 ∧ k.concurrency = 1
  | _ => true

/-- The check keeps the limits. -/
theorem fixedLimits_of_keeps {s : World} {l : List LogItem} {x : LogItem}
    (h : keepsLimits s l x = true) : FixedLimits "k" 60 1 s l x := by
  unfold keepsLimits at h
  split at h
  · exact fun _ => of_decide_eq_true h
  · rename_i hne
    cases x with
    | task t a =>
      cases a with
      | emit e =>
        cases e with
        | key k => exact absurd rfl (hne _ _)
        | _ => trivial
      | _ => trivial
    | _ => trivial

/-- They are kept by whoever is careful. -/
def keepsHeld (s : World) (l : List LogItem) (x : LogItem) : Bool :=
  keepsLimits s l x && careful s l x

/-- A request of the key was refused and ends. -/
def refused (l : List LogItem) : LogItem → Bool
  | .task t .stop => made (asks "k") t l && !made (admits "k") t l
  | _ => false

/-- The second of two requests is refused while the first one waits for a session. -/
theorem limitsExactly_refused :
    Exhibits {} (LimitsFixed "k" 60 1) (LimitsExactly "k" 60 1) refused := by
  refine (limitsExactly {} "k" 60 1).exhibit (exists_run keepsHeld (fun s l x h => ?_) _
    (Sample.boot Sample.policy narrow ++ [.start 3 (Sample.chat "m") [], .wake 3 .done [],
      .start 4 (Sample.chat "m") [], .wake 4 .done []])
    (by decide +kernel))
  obtain ⟨limits, held⟩ := Bool.and_eq_true_iff.1 h
  exact ⟨fixedLimits_of_keeps limits, releasesSucceed_of_careful held⟩

/-! ### A request that counts for ever -/

/-- Some task under way serves a request or is to clean up after one, or one is to start. -/
def serving (s : World) (l : List LogItem) : Bool :=
  (tasks l).any (fun t => (pcAt l t).any fun pc => pc.key.isSome || pc.pledge.isSome) ||
    s.memory.spawned.any fun x => match x.2 with
      | .cleanup _ => true
      | _ => false

/-- The check finds the request that counts. -/
theorem serving_of_served {s : World} {l : List LogItem} {r : ℕ} {key : String}
    (h : Served s l r key) : serving s l = true := by
  have underWay : ∀ {t pc}, pcAt l t = some pc → (pc.key.isSome || pc.pledge.isSome) = true →
      serving s l = true := by
    intro t pc hpc has
    refine Bool.or_eq_true_iff.2 (.inl (List.any_eq_true.2 ⟨t, mem_tasks hpc, ?_⟩))
    rw [hpc]
    exact has
  rcases h with ⟨t, pc, hpc, hk⟩ | ⟨c, -, -, ⟨handle, hh⟩ | ⟨t, pc, hpc, hp⟩⟩
  · exact underWay hpc (by rw [hk]; rfl)
  · exact Bool.or_eq_true_iff.2 (.inr (List.any_eq_true.2 ⟨_, hh, rfl⟩))
  · exact underWay hpc (by rw [hp]; simp)

/-- A request of the key is refused only while one is served, or sixty were admitted. -/
def refusedWithCause (s : World) (l : List LogItem) : LogItem → Bool
  | .task t .stop => !made (asks "k") t l || made (admits "k") t l || serving s l.tail ||
      decide (60 ≤ Window.within (s.monotonic - 60) s.monotonic (admissions "k" s.monotonic l.tail))
  | _ => true

/-- A request whose dispatch timed out stays counted when its session cannot be invalidated. -/
def timedOut : Sample.Script := Sample.reserved Sample.policy "m" narrow ++ [
  .wake 3 (Sample.session 0) [], .wake 3 .timeout [true], .start 5 (Sample.chat "m") []]

/-- **The next request is refused, although none is unfinished.** -/
theorem not_limitsExactly : ¬Ensures {} (FixedLimits "k" 60 1) (LimitsExactly "k" 60 1) := by
  refine not_ensures_while keepsLimits refusedWithCause (fun s l x hx => ?_) (fun {s l x} h => ?_) timedOut
    (.wake 5 .done []) (by decide +kernel)
  · exact fixedLimits_of_keeps hx
  · unfold refusedWithCause
    split
    · rename_i t
      have decided : made (asks "k") t l = true → _ := h.2.2.2.2
      by_cases ha : made (asks "k") t l = true
      · rcases decided ha with ⟨admitted, -⟩ | ⟨-, l', rfl, full⟩
        · simp [admitted]
        · rcases not_and_or.1 full with full | full
          · simp [not_lt.1 full]
          · rw [not_lt, Nat.cast_one, Set.one_le_encard_iff_nonempty] at full
            obtain ⟨r, hr⟩ := full
            simp [serving_of_served hr]
      · simp [ha]
    · rfl

end MorpheusGateway
