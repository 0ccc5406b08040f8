/-
# The helper's restart endpoint

`POST /restart` writes a record of the operation before it calls `Supervisor.restart`, and
again when that has ended; `GET /operations/…` reads it.  A request whose operation is
recorded is answered from the record.

The endpoints are coroutines of one event loop.  Their only await is the call of the
supervisor, which returns, raises or is cancelled at any later time.  The records are files
and survive a crash; a write replaces a whole file, or raises and leaves it as it was.

What the code takes the SHA-256 of stands for the digest.
-/

import MorpheusGateway.Coroutine.Interference

namespace MorpheusGateway
namespace NodeHelper

open Coro (fails perform raise suspend)

/-- `RestartRequest`. -/
structure RestartRequest (ρ : Type) where
  rating : Option ρ := none
  operationId : Option String := none
  deriving DecidableEq

/-- The `state` of an operation's record. -/
inductive RecordState : Type where
  | running | succeeded | failed | interrupted
  deriving DecidableEq

/-- The record of an operation: the request its fingerprint was taken of, and what became
of it. -/
structure OperationRecord (ρ α : Type) where
  state : RecordState := .running
  fingerprint : RestartRequest ρ
  result : Option α := none
  message : Option String := none
  deriving DecidableEq

/-- The records on disk, and the supervisor's `last_error`. -/
structure Helper (ρ α : Type) where
  operations : String → Option (OperationRecord ρ α) := fun _ => none
  lastError : Option String := none

/-- The responses of both endpoints. -/
inductive Response (ρ α : Type) : Type where
  /-- What the supervisor returned. -/
  | result (x : Option α)
  /-- 409, `Operation ID reused with different settings`. -/
  | reused
  /-- 409, `restart_already_attempted`. -/
  | alreadyAttempted (previous : OperationRecord ρ α)
  /-- 503, `restart_failed`. -/
  | restartFailed (message : Option String)
  /-- 500, an exception that the endpoint does not catch. -/
  | internalError
  /-- The record of an operation. -/
  | operation (record : OperationRecord ρ α)
  | invalidId
  | notRecorded
  deriving DecidableEq

/-- The requests. -/
inductive Endpoint (ρ : Type) : Type where
  | restart (body : RestartRequest ρ)
  | operation (id : String)

/-- A record is written, or a response is sent. -/
inductive HelperEvent (ρ α : Type) : Type where
  | write (id : String) (record : OperationRecord ρ α)
  | respond (r : Response ρ α)

/-- How the call of the supervisor ends. -/
inductive Outcome (α : Type) : Type where
  | returned (x : α)
  | raised
  | cancelled

/-- What an endpoint raises. -/
inductive Failure : Type where
  | exception
  | cancelled
  deriving DecidableEq

/-- A coroutine of the helper; its await is the call of `Supervisor.restart`, its fault a
failed write. -/
abbrev HelperOp (ρ α ε β : Type) :=
  Coro (Helper ρ α) (HelperEvent ρ α) Unit (RestartRequest ρ) (Outcome α) ε β

variable {ρ α : Type}

/-- `re.fullmatch(r"[a-f0-9]{32}", …)`. -/
def isOperationId (id : String) : Bool :=
  id.toList.length = 32 && id.toList.all fun c => ('a' ≤ c && c ≤ 'f') || ('0' ≤ c && c ≤ '9')

/-- `atomic_write` of the record, if the operation has an ID. -/
def save {ε : Type} (e : ε) (id : Option String) (record : OperationRecord ρ α) :
    HelperOp ρ α ε Unit :=
  match id with
  | none => return ()
  | some id => do
    if ← fails () then raise e else perform (.write id record)

/-- `supervisor.restart(body.rating.validated())`; `valid` are the ratings that pass. -/
def supervise (valid : ρ → Bool) (body : RestartRequest ρ) : HelperOp ρ α Failure α := do
  if body.rating.any fun r => !valid r then
    raise .exception
  match ← suspend body with
  | .returned x => return x
  | .raised => raise .exception
  | .cancelled => raise .cancelled

/-- The answer to a request whose operation is recorded. -/
def repeated [DecidableEq ρ] (body : RestartRequest ρ) (previous : OperationRecord ρ α) :
    Response ρ α :=
  if previous.fingerprint ≠ body then .reused
  else if previous.state = .succeeded then .result previous.result
  else .alreadyAttempted previous

/-- The `except` of `POST /restart`. -/
def recordFailure (body : RestartRequest ρ) (record : OperationRecord ρ α) (e : Failure) :
    HelperOp ρ α Failure (Response ρ α) := do
  let message := ((← Coro.get).lastError).getD "Restart interrupted"
  let record := { record with
    state := if e = .exception then .failed else .interrupted
    message := some message }
  save .exception body.operationId record
  if e = .exception then return .restartFailed record.message else raise e

/-- The `try` of `POST /restart`. -/
def recordRestart (valid : ρ → Bool) (body : RestartRequest ρ) (record : OperationRecord ρ α) :
    HelperOp ρ α (OperationRecord ρ α × Failure) (Response ρ α) := do
  let x ← (supervise valid body).mapError fun e => (record, e)
  let record := { record with state := .succeeded, result := some x }
  save (record, .exception) body.operationId record
  return .result (some x)

/-- `POST /restart` for an operation that is not recorded. -/
def firstRestart (valid : ρ → Bool) (body : RestartRequest ρ) :
    HelperOp ρ α Failure (Response ρ α) := do
  let record : OperationRecord ρ α := { fingerprint := body }
  save .exception body.operationId record
  (recordRestart valid body record).tryCatch fun (record, e) => recordFailure body record e

/-- `POST /restart`. -/
def restart [DecidableEq ρ] (valid : ρ → Bool) (body : RestartRequest ρ) :
    HelperOp ρ α Failure (Response ρ α) := do
  match body.operationId.bind (← Coro.get).operations with
  | some previous => return repeated body previous
  | none => firstRestart valid body

/-- `GET /operations/…`. -/
def operation (id : String) : HelperOp ρ α Failure (Response ρ α) := do
  if ¬ isOperationId id then return .invalidId
  match (← Coro.get).operations id with
  | none => return .notRecorded
  | some record => return .operation record

/-- A request is answered, unless it is cancelled. -/
def answered (c : HelperOp ρ α Failure (Response ρ α)) : HelperOp ρ α Empty Unit := do
  match ← c.attempt with
  | .ok r => perform (.respond r)
  | .error .exception => perform (.respond .internalError)
  | .error .cancelled => return ()

/-- The helper.  `last_error` is the supervisor's to change at any time; a start forgets it. -/
def helper [DecidableEq ρ] (valid : ρ → Bool) :
    System (Helper ρ α) (HelperEvent ρ α) Unit (RestartRequest ρ) (Outcome α) (Endpoint ρ)
      (Option String) where
  body _
    | .restart body => answered (restart valid body)
    | .operation id => answered (operation id)
  apply _ e s := match e with
    | .write id record => { s with operations := Function.update s.operations id (some record) }
    | .respond _ => s
  legal _ _ _ _ := true
  begin s _ _ := some s
  drift e s := { s with lastError := e }
  reset s := { s with lastError := none }

/-! ### Control points -/

/-- How far a request is: nothing written, its operation recorded, in the supervisor, or back
from it. -/
inductive Stage (ρ α : Type) : Type where
  | begun
  | recorded
  | calling (body : RestartRequest ρ)
  | ended (o : Outcome α)

/-- A request and how far it is, with the record that it has written last, whether a write of it
has failed, and its answer. -/
structure RequestPoint (ρ α : Type) where
  request : Endpoint ρ
  stage : Stage ρ α := .begun
  stored : Option (OperationRecord ρ α) := none
  failed : Bool := false
  answer : Option (Response ρ α) := none

namespace RequestPoint

/-- The first write records the operation. -/
def wrote (pc : RequestPoint ρ α) (record : OperationRecord ρ α) : RequestPoint ρ α :=
  { pc with
    stage := match pc.stage with
      | .begun => .recorded
      | stage => stage
    stored := some record }

/-- The request after an entry of its own. -/
def next (pc : RequestPoint ρ α) :
    Entry (HelperEvent ρ α) Unit (RestartRequest ρ) (Outcome α) (Endpoint ρ) → RequestPoint ρ α
  | .emit (.write _ record) => pc.wrote record
  | .emit (.respond r) => { pc with answer := some r }
  | .toss _ b => { pc with failed := pc.failed || b }
  | .park body => { pc with stage := .calling body }
  | .wake _ o => { pc with stage := .ended o }
  | _ => pc

end RequestPoint

/-- What a request records in the end: a success if the supervisor has returned and no write has
failed since, and otherwise that it has failed or was interrupted.  Without a call the rating was
invalid. -/
def Concludes (valid : ρ → Bool) (body : RestartRequest ρ) :
    Stage ρ α → Bool → OperationRecord ρ α → Prop
  | .ended (.returned x), false, record => record.state = .succeeded ∧ record.result = some x
  | .ended .cancelled, _, record => record.state = .interrupted
  | .recorded, _, record => record.state = .failed ∧ body.rating.any (fun r => !valid r) = true
  | _, _, record => record.state = .failed

/-- A write is of the request's own operation.  The first one finds none recorded; the second one
says what came of it. -/
def WriteOk (valid : ρ → Bool) (pc : RequestPoint ρ α) (s : Helper ρ α) (id : String)
    (record : OperationRecord ρ α) : Prop :=
  ∃ body, pc.request = .restart body ∧ body.operationId = some id ∧ record.fingerprint = body ∧
    match pc.stage with
    | .begun => s.operations id = none ∧ record = { fingerprint := body }
    | stage => pc.stored = some { fingerprint := body } ∧ Concludes valid body stage pc.failed record

/-- The answer of a request that has gone on tells what came of the call, unless a write has
failed, and its record says the same. -/
def Reports (pc : RequestPoint ρ α) (body : RestartRequest ρ) (r : Response ρ α) : Prop :=
  (match pc.stage, pc.failed with
    | .ended (.returned x), false => r = .result (some x)
    | .ended .cancelled, false => False
    | _, false => ∃ message, r = .restartFailed message
    | _, true => r = .internalError ∨ ∃ message, r = .restartFailed message) ∧
  (body.operationId.isSome = true → ∃ record, pc.stored = some record ∧ record.fingerprint = body ∧
    match r with
    | .result x => record.state = .succeeded ∧ record.result = x
    | .restartFailed message => record.state = .failed ∧ record.message = message
    | _ => record.state ≠ .succeeded)

/-- A request that has written nothing answers from the record; if there is none, its first write
has failed. -/
def RespondOk [DecidableEq ρ] (pc : RequestPoint ρ α) (s : Helper ρ α) (r : Response ρ α) : Prop :=
  match pc.request with
  | .operation id => r = if isOperationId id then
      match s.operations id with
      | none => .notRecorded
      | some record => .operation record
    else .invalidId
  | .restart body =>
    match pc.stage with
    | .begun => ∀ id, body.operationId = some id → match s.operations id with
        | some previous => r = repeated body previous
        | none => pc.failed = true ∧ r = .internalError
    | _ => Reports pc body r

/-- A request ends with an answer, unless it was cancelled in the supervisor. -/
def StopOk (pc : RequestPoint ρ α) : Prop :=
  pc.answer.isSome = true ∨ pc.stage = .ended .cancelled

/-- The order in which a request does things. -/
def requests [DecidableEq ρ] (valid : ρ → Bool) : Contract (Helper ρ α) (HelperEvent ρ α) Unit
    (RestartRequest ρ) (Outcome α) (Endpoint ρ) (RequestPoint ρ α) where
  enter p := { request := p }
  next := RequestPoint.next
  site pc := match pc.stage with
    | .calling body => some body
    | _ => none
  ok _ pc s
    | .emit (.write id record) => WriteOk valid pc s id record
    | .emit (.respond r) => RespondOk pc s r
    | .park body => pc.request = .restart body ∧
        (body.operationId.isSome = true → pc.stage = .recorded ∧ pc.stored = some { fingerprint := body })
    | .stop => StopOk pc
    | _ => True
  grows _ _ := True

open Contract

section Programs

variable [DecidableEq ρ] {valid : ρ → Bool}

variable {t : ℕ} {pc : RequestPoint ρ α} {s : Helper ρ α} {ε β : Type}

/-- `wp` of the helper. -/
abbrev Wp (valid : ρ → Bool) (t : ℕ) (c : HelperOp ρ α ε β)
    (Q : β → RequestPoint ρ α → Helper ρ α → Prop) (E : ε → RequestPoint ρ α → Helper ρ α → Prop)
    (pc : RequestPoint ρ α) (s : Helper ρ α) : Prop :=
  (requests valid).wp (helper valid) t c Q E pc s

/-- What an endpoint may raise: an exception is answered, and only a cancelled call ends the
request without an answer. -/
def RaiseOk (e : Failure) (pc : RequestPoint ρ α) (s : Helper ρ α) : Prop :=
  match e with
  | .exception => RespondOk pc s .internalError
  | .cancelled => pc.stage = .ended .cancelled

/-- What an endpoint returns is answered. -/
theorem wp_answered {c : HelperOp ρ α Failure (Response ρ α)} {E : Empty → _ → _ → Prop}
    (h : Wp valid t c (fun r pc s => RespondOk pc s r) RaiseOk pc s) :
    Wp valid t (answered c) (fun _ pc _ => StopOk pc) E pc s := by
  refine (wp_bind' _).2 ((wp_attempt _).2 (wp_mono (fun r pc s ok => ?_) (fun e pc s ok => ?_) _ h))
  · exact ⟨ok, .inl rfl⟩
  · cases e with
    | exception => exact ⟨ok, .inl rfl⟩
    | cancelled => exact .inr ok

/-- The state after a write. -/
def Helper.write (s : Helper ρ α) (id : String) (record : OperationRecord ρ α) : Helper ρ α :=
  { s with operations := Function.update s.operations id (some record) }

/-- A write fails, or replaces the record; without an ID nothing is written. -/
theorem wp_save {e : ε} {id : Option String} {record : OperationRecord ρ α}
    {Q : Unit → RequestPoint ρ α → Helper ρ α → Prop} {E : ε → RequestPoint ρ α → Helper ρ α → Prop}
    (hnone : id = none → Q () pc s) (hfail : id.isSome = true → E e { pc with failed := true } s)
    (hsome : ∀ i, id = some i → WriteOk valid pc s i record ∧ Q () (pc.wrote record) (s.write i record)) :
    Wp valid t (save e id record) Q E pc s := by
  cases id with
  | none => exact hnone rfl
  | some i =>
    refine (wp_bind' _).2 fun b => ?_
    cases b with
    | true =>
      have spoiled : (requests valid).next pc (.toss () true) = { pc with failed := true } := by
        show { pc with failed := pc.failed || true } = _
        rw [Bool.or_true]
      refine (wp_ite _ _ _).2 ⟨fun _ => ?_, fun h => absurd rfl h⟩
      rw [spoiled]
      exact hfail rfl
    | false =>
      have kept : (requests valid).next pc (.toss () false) = pc := by
        show { pc with failed := pc.failed || false } = _
        rw [Bool.or_false]
      refine (wp_ite _ _ _).2 ⟨fun h => (by cases h), fun _ => ?_⟩
      rw [kept]
      exact hsome i rfl

/-- The supervisor is called in order, and goes on from any of its ends. -/
theorem wp_supervise {body : RestartRequest ρ} {Q : α → RequestPoint ρ α → Helper ρ α → Prop}
    {E : Failure → RequestPoint ρ α → Helper ρ α → Prop}
    (hinvalid : body.rating.any (fun r => !valid r) = true → E .exception pc s)
    (hcall : (requests valid).ok t pc s (.park body))
    (hx : ∀ x s', Q x { pc with stage := .ended (.returned x) } s')
    (hraised : ∀ s', E .exception { pc with stage := .ended .raised } s')
    (hcancelled : ∀ s', E .cancelled { pc with stage := .ended .cancelled } s') :
    Wp valid t (supervise valid body) Q E pc s := by
  unfold supervise
  refine (wp_ite _ _ _).2 ⟨fun h => (wp_bind' _).2 (hinvalid h), fun _ => ?_⟩
  refine (wp_bind' _).2 ⟨hcall, fun s' o _ _ => ?_⟩
  cases o with
  | returned x => exact hx x s'
  | raised => exact hraised s'
  | cancelled => exact hcancelled s'

/-- The request for `body` has an outcome to record: its operation, if it has an ID, is recorded
as running. -/
structure RequestPoint.Open (pc : RequestPoint ρ α) (body : RestartRequest ρ) : Prop where
  request : pc.request = .restart body
  recorded : body.operationId.isSome = true →
    pc.stage ≠ .begun ∧ pc.stored = some { fingerprint := body }

namespace RequestPoint.Open

variable {body : RestartRequest ρ}

omit [DecidableEq ρ] in
/-- The call has come back. -/
theorem ended (h : pc.Open body) (o : Outcome α) : Open { pc with stage := .ended o } body :=
  ⟨h.request, fun hid => ⟨nofun, (h.recorded hid).2⟩⟩

omit [DecidableEq ρ] in
/-- A write has failed. -/
theorem spoil (h : pc.Open body) : Open { pc with failed := true } body := ⟨h.request, h.recorded⟩

omit [DecidableEq ρ] in
/-- It may record what came of it. -/
theorem write (h : pc.Open body) {id : String} (hid : body.operationId = some id)
    {record : OperationRecord ρ α} (hf : record.fingerprint = body)
    (hc : Concludes valid body pc.stage pc.failed record) : WriteOk valid pc s id record := by
  refine ⟨body, h.request, hid, hf, ?_⟩
  obtain ⟨hst, stored⟩ := h.recorded (by rw [hid]; rfl)
  cases hs : pc.stage with
  | begun => exact absurd hs hst
  | recorded | calling | ended =>
    rw [hs] at hc
    exact ⟨stored, hc⟩

omit [DecidableEq ρ] in
/-- A second write leaves the stage. -/
theorem wrote_stage (h : pc.Open body) {id : String} (hid : body.operationId = some id)
    (record : OperationRecord ρ α) : (pc.wrote record).stage = pc.stage := by
  obtain ⟨hst, -⟩ := h.recorded (by rw [hid]; rfl)
  unfold wrote
  cases hs : pc.stage with
  | begun => exact absurd hs hst
  | recorded | calling | ended => rfl

/-- An answer that reports is in order. -/
theorem respond (hr : pc.request = .restart body) (hb : pc.stage = .begun → body.operationId = none)
    {r : Response ρ α} (h : Reports pc body r) : RespondOk pc s r := by
  unfold RespondOk
  rw [hr]
  cases hs : pc.stage with
  | begun =>
    intro id hid
    rw [hb hs] at hid
    cases hid
  | _ => exact h

end RequestPoint.Open

/-- How a call ends that is answered with an exception, or that ends the request: it has not
returned, unless a write has failed since. -/
def Fails (valid : ρ → Bool) (body : RestartRequest ρ) (pc : RequestPoint ρ α) : Failure → Prop
  | .exception => match pc.stage with
    | .ended (.returned _) => pc.failed = true
    | .ended .cancelled => False
    | .ended .raised => True
    | _ => body.rating.any (fun r => !valid r) = true
  | .cancelled => pc.stage = .ended .cancelled

omit [DecidableEq ρ] in
/-- A failed restart is reported as such. -/
theorem reports_restartFailed {body : RestartRequest ρ} {message : Option String}
    (hf : Fails valid body pc .exception)
    (hrec : body.operationId.isSome = true → ∃ record, pc.stored = some record ∧
      record.fingerprint = body ∧ record.state = .failed ∧ record.message = message) :
    Reports pc body (.restartFailed message) := by
  refine ⟨?_, hrec⟩
  obtain ⟨request, stage, stored, failed, answer⟩ := pc
  cases failed with
  | true =>
    cases stage with
    | ended o =>
      cases o with
      | _ => exact .inr ⟨message, rfl⟩
    | _ => exact .inr ⟨message, rfl⟩
  | false =>
    cases stage with
    | ended o =>
      cases o with
      | returned x => cases hf
      | raised => exact ⟨message, rfl⟩
      | cancelled => exact hf.elim
    | _ => exact ⟨message, rfl⟩

omit [DecidableEq ρ] in
/-- After a failed write the request is answered with an internal error. -/
theorem reports_internalError {body : RestartRequest ρ} (failed : pc.failed = true)
    (hrec : body.operationId.isSome = true → pc.stored = some { fingerprint := body }) :
    Reports pc body .internalError := by
  refine ⟨?_, fun hid => ⟨_, hrec hid, rfl, nofun⟩⟩
  obtain ⟨request, stage, stored, failed', answer⟩ := pc
  obtain rfl : failed' = true := failed
  cases stage with
  | ended o =>
    cases o with
    | _ => exact .inl rfl
  | _ => exact .inl rfl

omit [DecidableEq ρ] in
/-- What is recorded of a failed call. -/
theorem Fails.concludes {body : RestartRequest ρ} {e : Failure} {record : OperationRecord ρ α}
    (h : Fails valid body pc e)
    (hs : record.state = if e = .exception then .failed else .interrupted) :
    Concludes valid body pc.stage pc.failed record := by
  obtain ⟨request, stage, stored, failed, answer⟩ := pc
  cases e with
  | cancelled =>
    obtain rfl : stage = .ended .cancelled := h
    cases failed with
    | _ => exact hs
  | exception =>
    rw [if_pos rfl] at hs
    cases stage with
    | ended o =>
      cases o with
      | returned x =>
        obtain rfl : failed = true := h
        exact hs
      | raised =>
        cases failed with
        | _ => exact hs
      | cancelled => exact h.elim
    | recorded =>
      cases failed with
      | _ => exact ⟨hs, h⟩
    | begun | calling =>
      cases failed with
      | _ => exact hs

/-- What was raised is recorded, and answered if it is an exception. -/
theorem RequestPoint.Open.fail {body : RestartRequest ρ} (h : pc.Open body)
    {record : OperationRecord ρ α} (hr : record.fingerprint = body) {e : Failure}
    (hf : Fails valid body pc e) (hb : pc.stage = .begun → body.operationId = none) :
    Wp valid t (recordFailure body record e) (fun r pc s => RespondOk pc s r) RaiseOk pc s := by
  unfold recordFailure
  refine (wp_bind' _).2 (wp_get.2 ((wp_bind' _).2 (wp_save (fun hid => ?_) (fun hid => ?_)
    fun i hid => ⟨h.write hid hr (hf.concludes rfl), ?_⟩)))
  · have none : body.operationId.isSome = true → False := by
      rw [hid]
      exact nofun
    refine (wp_ite _ _ _).2 ⟨fun he => ?_, fun he => ?_⟩
    · subst he
      exact respond h.request hb (reports_restartFailed hf fun hid => (none hid).elim)
    · cases e with
      | exception => exact absurd rfl he
      | cancelled => exact hf
  · have spoiled := h.spoil
    exact respond spoiled.request hb (reports_internalError rfl fun hid => (spoiled.recorded hid).2)
  · have stage := h.wrote_stage hid
    have recorded := h.recorded (by rw [hid]; rfl)
    refine (wp_ite _ _ _).2 ⟨fun he => ?_, fun he => ?_⟩
    · subst he
      have request : ∀ r, (pc.wrote r).request = .restart body := fun _ => h.request
      have fails : ∀ r, Fails valid body (pc.wrote r) .exception := by
        intro r
        unfold Fails
        rw [stage]
        exact hf
      exact respond (request _) (fun hs => absurd ((stage _).symm.trans hs) recorded.1)
        (reports_restartFailed (fails _) fun _ => ⟨_, rfl, hr, rfl, rfl⟩)
    · cases e with
      | exception => exact absurd rfl he
      | cancelled => exact (stage _).trans hf

/-- A request that has recorded its operation calls the supervisor, and records and answers what
came of it. -/
theorem RequestPoint.Open.run {body : RestartRequest ρ} (h : pc.Open body) (unspoiled : pc.failed = false)
    (hb : pc.stage = .begun → body.operationId = none)
    (hcall : body.operationId.isSome = true → pc.stage = .recorded)
    (hend : ∀ o, pc.stage ≠ .ended o) :
    Wp valid t ((recordRestart valid body { fingerprint := body }).tryCatch fun (record, e) =>
      recordFailure body record e) (fun r pc s => RespondOk pc s r) RaiseOk pc s := by
  refine (wp_tryCatch _).2 ((wp_bind' _).2 ((wp_mapError _ _).2 (wp_supervise (fun hv => ?_)
    ⟨h.request, fun hid => ⟨hcall hid, (h.recorded hid).2⟩⟩ (fun x s' => ?_) (fun s' => ?_) fun s' => ?_)))
  · refine h.fail rfl ?_ hb
    unfold Fails
    dsimp only
    split
    · rename_i hs
      exact absurd hs (hend _)
    · rename_i hs
      exact absurd hs (hend _)
    · trivial
    · exact hv
  · have hx := h.ended (.returned x)
    obtain ⟨request, stage, stored, failed, answer⟩ := pc
    obtain rfl : failed = false := unspoiled
    refine (wp_bind' _).2 (wp_save (fun hid => ?_) (fun hid => ?_) fun i hid =>
      ⟨hx.write hid rfl ⟨rfl, rfl⟩, ?_⟩)
    · have none : body.operationId.isSome = true → False := by
        rw [hid]
        exact nofun
      have reports : Reports (⟨request, .ended (.returned x), stored, false, answer⟩ : RequestPoint ρ α)
          body (.result (some x)) := ⟨rfl, fun hid => (none hid).elim⟩
      exact RequestPoint.Open.respond hx.request nofun reports
    · exact hx.spoil.fail rfl rfl nofun
    · have reports : Reports ((⟨request, .ended (.returned x), stored, false, answer⟩ : RequestPoint ρ α).wrote
          { fingerprint := body, state := .succeeded, result := some x }) body (.result (some x)) :=
        ⟨rfl, fun _ => ⟨_, rfl, rfl, rfl, rfl⟩⟩
      refine RequestPoint.Open.respond (by exact hx.request) ?_ reports
      exact nofun
  · exact (h.ended .raised).fail rfl trivial nofun
  · exact (h.ended .cancelled).fail rfl rfl nofun

/-- What the first request for an operation does is in order. -/
theorem wp_firstRestart {body : RestartRequest ρ}
    (hnew : body.operationId.bind s.operations = none) :
    Wp valid t (firstRestart valid body) (fun r pc s => RespondOk pc s r) RaiseOk
      { request := .restart body } s := by
  have absent : ∀ id, body.operationId = some id → s.operations id = none := by
    intro id hid
    rwa [hid] at hnew
  unfold firstRestart
  refine (wp_bind' _).2 (wp_save (fun hid => ?_) (fun _ id hid => ?_) fun id hid => ⟨?_, ?_⟩)
  · have none : body.operationId.isSome = true → False := by
      rw [hid]
      exact nofun
    exact RequestPoint.Open.run ⟨rfl, fun h => (none h).elim⟩ rfl (fun _ => hid)
      (fun h => (none h).elim) nofun
  · rw [absent id hid]
    exact ⟨rfl, rfl⟩
  · exact ⟨body, rfl, hid, rfl, absent id hid, rfl⟩
  · exact RequestPoint.Open.run ⟨rfl, fun _ => ⟨nofun, rfl⟩⟩ rfl nofun (fun _ => rfl) nofun

end Programs

/-- **Both endpoints keep the order.** -/
theorem requests_holds [DecidableEq ρ] {valid : ρ → Bool} :
    (requests valid : Contract _ _ _ _ (Outcome α) _ _).Holds (helper valid) where
  body {s t p s'} h := by
    cases p with
    | operation id =>
      refine wp_answered ?_
      unfold operation
      refine (wp_ite _ _ _).2 ⟨fun hid => ?_, fun hid => ?_⟩
      · exact (if_neg (by simpa using hid)).symm
      · refine (wp_bind' _).2 (wp_get.2 ?_)
        have hid : isOperationId id = true := by simpa using hid
        cases hr : s'.operations id with
        | none =>
          show Response.notRecorded = if isOperationId id then _ else _
          rw [if_pos hid, hr]
        | some record =>
          show Response.operation record = if isOperationId id then _ else _
          rw [if_pos hid, hr]
    | restart body =>
      refine wp_answered ?_
      unfold restart
      refine (wp_bind' _).2 (wp_get.2 ?_)
      cases hr : body.operationId.bind s'.operations with
      | none => exact wp_firstRestart hr
      | some previous =>
        intro id hid
        have hs : s'.operations id = some previous := by
          rw [hid] at hr
          exact hr
        rw [hs]
  site_park _ _ := rfl
  refl _ := trivial
  trans _ _ := trivial
  emit _ := trivial
  begin _ := trivial
  drift _ _ := trivial

/-! ### What the log tells -/

abbrev HelperItem (ρ α : Type) :=
  Item (HelperEvent ρ α) Unit (RestartRequest ρ) (Outcome α) (Endpoint ρ) (Option String)

/-- The request that the task `t` serves and how far it is, from the entries of the task. -/
abbrev requestAt [DecidableEq ρ] (valid : ρ → Bool) (l : List (HelperItem ρ α)) (t : ℕ) :
    Option (RequestPoint ρ α) := (requests valid).point t l

/-- A call of the supervisor for the operation `id` has returned `x`. -/
def Returned (id : String) (x : α) (l : List (HelperItem ρ α)) : Prop :=
  ∃ t body, Item.task t (.wake body (.returned x)) ∈ l ∧ body.operationId = some id

/-- A request for `body` was answered with the result `x`. -/
def Answered [DecidableEq ρ] (valid : ρ → Bool) (body : RestartRequest ρ) (x : α)
    (l : List (HelperItem ρ α)) : Prop :=
  ∃ t l' pc, Item.task t (.emit (.respond (.result (some x)))) :: l' <:+ l ∧
    requestAt valid l' t = some pc ∧ pc.request = .restart body

/-- **Restart requests are executed at most once.**  The supervisor is called once for an
operation, by the request that has recorded it as running.  That request alone writes the record
again, once, with what came of the call, and is answered the same.  Any other request changes
nothing and answers from the record, and none is answered with an error before it has recorded
the operation but where that write has failed.  Once a request was answered with a result, every
repeat is answered with it.  A record says `succeeded` only with what the supervisor has returned
for it, and only a cancelled call leaves its request without an answer. -/
def AtMostOnce [DecidableEq ρ] (valid : ρ → Bool) (s : Helper ρ α) (l : List (HelperItem ρ α)) :
    HelperItem ρ α → Prop
  | .task _ (.park body) => ∀ id, body.operationId = some id →
      s.operations id = some { fingerprint := body } ∧
      ∀ u body', Item.task u (.park body') ∈ l → body'.operationId ≠ some id
  | .task t (.emit (.write id record)) => ∃ pc body, requestAt valid l t = some pc ∧
      pc.request = .restart body ∧ body.operationId = some id ∧ record.fingerprint = body ∧
      match pc.stage with
      | .begun => s.operations id = none ∧ record = { fingerprint := body }
      | stage => s.operations id = some { fingerprint := body } ∧
          Concludes valid body stage pc.failed record
  | .task t (.emit (.respond r)) => ∃ pc, requestAt valid l t = some pc ∧
      match pc.request with
      | .operation id =>
        (r = if isOperationId id then
          match s.operations id with
          | none => .notRecorded
          | some record => .operation record
        else .invalidId) ∧
        ∀ record, r = .operation record → record.state = .succeeded →
          ∃ x, record.result = some x ∧ Returned id x l
      | .restart body => ∀ id, body.operationId = some id →
        (∀ x, Answered valid body x l → r = .result (some x)) ∧
        match pc.stage, s.operations id with
        | .begun, none => pc.failed = true ∧ r = .internalError
        | .begun, some previous =>
          (previous.fingerprint ≠ body → r = .reused) ∧
          (previous.fingerprint = body → previous.state ≠ .succeeded →
            r = .alreadyAttempted previous) ∧
          (previous.fingerprint = body → previous.state = .succeeded →
            ∃ x, r = .result (some x) ∧ Returned id x l)
        | _, record => record = pc.stored ∧ Reports pc body r
  | .task t .stop => ∃ pc, requestAt valid l t = some pc ∧ StopOk pc
  | _ => True

/-! ### Invariants -/

section Invariants

variable [DecidableEq ρ] {valid : ρ → Bool} {t u : ℕ} {l : List (HelperItem ρ α)}

/-- What the log tells of the call of a request. -/
structure Told (l : List (HelperItem ρ α)) (pc : RequestPoint ρ α) : Prop where
  calling : ∀ body, pc.stage = .calling body → pc.request = .restart body
  returned : ∀ body id x, pc.request = .restart body → body.operationId = some id →
    pc.stage = .ended (.returned x) → Returned id x l

omit [DecidableEq ρ] in
/-- What was returned stays so. -/
theorem Returned.cons {id : String} {x : α} (h : Returned id x l) (i : HelperItem ρ α) :
    Returned id x (i :: l) := by
  obtain ⟨t, body, hm, hid⟩ := h
  exact ⟨t, body, .tail _ hm, hid⟩

/-- An answer is older than the last item, or is that. -/
theorem Answered.elim {body : RestartRequest ρ} {x : α} {i : HelperItem ρ α}
    (h : Answered valid body x (i :: l)) : Answered valid body x l ∨
      ∃ t pc, i = .task t (.emit (.respond (.result (some x)))) ∧
        requestAt valid l t = some pc ∧ pc.request = .restart body := by
  obtain ⟨t, l', pc, hs, at_, hr⟩ := h
  rcases List.suffix_cons_iff.1 hs with he | hs
  · obtain ⟨rfl, rfl⟩ := List.cons.inj he
    exact .inr ⟨t, pc, rfl, at_, hr⟩
  · exact .inl ⟨t, l', pc, hs, at_, hr⟩

omit [DecidableEq ρ] in
/-- What the log tells it tells later too. -/
theorem Told.cons {pc : RequestPoint ρ α} (h : Told l pc) (i : HelperItem ρ α) : Told (i :: l) pc where
  calling := h.calling
  returned body id x hb hid hst := (h.returned body id x hb hid hst).cons i

/-- A suspended request has called the supervisor. -/
theorem stage_of_site {pc : RequestPoint ρ α} {body : RestartRequest ρ}
    (h : (requests valid).site pc = some body) : pc.stage = .calling body := by
  unfold requests at h
  dsimp only at h
  split at h
  · rename_i b hs
    rw [hs, Option.some.inj h]
  · cases h

omit [DecidableEq ρ] in
/-- A write changes the stage only where nothing was recorded. -/
theorem wrote_stage {pc : RequestPoint ρ α} {record : OperationRecord ρ α} {st : Stage ρ α}
    (h : (pc.wrote record).stage = st) (hne : st ≠ .recorded) : pc.stage = st := by
  unfold RequestPoint.wrote at h
  dsimp only at h
  split at h
  · exact absurd h.symm hne
  · exact h

/-- In every run the log tells of all calls. -/
theorem maintained_told {C} : (requests (α := α) valid).Maintained (helper valid)
    (fun s => s.operations = fun _ => none) C
    fun _ l => ∀ t pc, requestAt valid l t = some pc → Told l pc where
  init _ _ _ h := nomatch h
  start {s t p s' l} h _ _ _ := by
    refine forall_point (fun v hv => ?_) fun u q hu hq => (h u q hq).cons _
    obtain rfl := Option.some.inj hv
    exact ⟨fun _ h => (nomatch h), fun _ _ _ _ _ h => (nomatch h)⟩
  wake {s t pc i r l} h at_ site _ _ := by
    refine forall_point (fun v hv => ?_) fun u q hu hq => (h u q hq).cons _
    rw [at_] at hv
    obtain rfl := Option.some.inj hv
    have hst : pc.stage = .calling i := stage_of_site site
    refine ⟨fun _ h => (nomatch h), fun body id x hb hid hx => ?_⟩
    obtain rfl := Stage.ended.inj hx
    obtain rfl := Endpoint.restart.inj (((h t pc at_).calling i hst).symm.trans hb)
    exact ⟨t, i, .head _, hid⟩
  emit {s t pc e l} h at_ ok _ := by
    refine forall_point (fun v hv => ?_) fun u q hu hq => (h u q hq).cons _
    rw [at_] at hv
    obtain rfl := Option.some.inj hv
    have d := (h t pc at_).cons (.task t (.emit e))
    cases e with
    | respond r => exact ⟨d.calling, d.returned⟩
    | write id record =>
      exact ⟨fun body hb => d.calling body (wrote_stage hb nofun),
        fun body id x hb hid hx => d.returned body id x hb hid (wrote_stage hx nofun)⟩
  toss {s t pc q b l} h at_ _ := by
    refine forall_point (fun v hv => ?_) fun u q hu hq => (h u q hq).cons _
    rw [at_] at hv
    obtain rfl := Option.some.inj hv
    have d := (h t pc at_).cons (.task t (.toss q b))
    exact ⟨d.calling, d.returned⟩
  park {s t pc i l} h at_ ok _ := by
    refine forall_point (fun v hv => ?_) fun u q hu hq => (h u q hq).cons _
    rw [at_] at hv
    obtain rfl := Option.some.inj hv
    refine ⟨fun body hb => ?_, fun _ _ _ _ _ h => (nomatch h)⟩
    obtain rfl := Stage.calling.inj hb
    exact ok.1
  stop {s t pc l} h _ _ _ :=
    forall_point (fun _ hv => (nomatch hv)) fun u q hu hq => (h u q hq).cons _
  drift h _ := fun t pc hpc => (h t pc hpc).cons _
  crash _ _ _ _ h := nomatch h

/-- The record of the operation says that it has succeeded with `x`. -/
def Succeeded (s : Helper ρ α) (body : RestartRequest ρ) (id : String) (x : α) : Prop :=
  ∃ record, s.operations id = some record ∧ record.fingerprint = body ∧
    record.state = .succeeded ∧ record.result = some x

/-- What the records tell of the requests under way and of those that were made. -/
structure Recorded (valid : ρ → Bool) (s : Helper ρ α) (l : List (HelperItem ρ α)) : Prop where
  /-- A request that is not at its start has its operation recorded as it has written it, for
  itself alone. -/
  first : ∀ t pc body id, requestAt valid l t = some pc → pc.request = .restart body →
    body.operationId = some id → pc.stage ≠ .begun → s.operations id = pc.stored ∧
      pc.stored.isSome = true ∧ ∀ u q body', requestAt valid l u = some q →
        q.request = .restart body' → body'.operationId = some id → q.stage ≠ .begun → u = t
  /-- A called operation is recorded, and not about to be called. -/
  called : ∀ u body id, Item.task u (.park body) ∈ l → body.operationId = some id →
    s.operations id ≠ none ∧ ∀ t pc body', requestAt valid l t = some pc →
      pc.request = .restart body' → body'.operationId = some id → pc.stage ≠ .recorded
  succeeded : ∀ id record, s.operations id = some record → record.state = .succeeded →
    ∃ x, record.result = some x ∧ Returned id x l
  /-- What a request was answered stands in the record. -/
  answered : ∀ body id x, body.operationId = some id → Answered valid body x l →
    Succeeded s body id x

/-- A request with an operation that is not at its start was under way before. -/
def RequestPoint.Continues (q : RequestPoint ρ α) (before : Option (RequestPoint ρ α)) : Prop :=
  ∀ body id, q.request = .restart body → body.operationId = some id → q.stage ≠ .begun →
    ∃ p, before = some p ∧ p.request = q.request ∧ p.stage ≠ .begun ∧ p.stored = q.stored ∧
      (q.stage = .recorded → p.stage = .recorded)

omit [DecidableEq ρ] in

/-- A request that waits goes on as it is. -/
theorem RequestPoint.continues_self (q : RequestPoint ρ α) : q.Continues (some q) :=
  fun _ _ _ _ h => ⟨q, rfl, rfl, h, rfl, id⟩

/-- What happens without a write. -/
theorem Recorded.still {s s' : Helper ρ α} {l l' : List (HelperItem ρ α)} (h : Recorded valid s l)
    (hs : s'.operations = s.operations)
    (hp : ∀ u q, requestAt valid l' u = some q → q.Continues (requestAt valid l u))
    (hl : ∀ u body, Item.task u (.park body) ∈ l' → Item.task u (.park body) ∈ l ∨
      ∀ id, body.operationId = some id → s.operations id ≠ none ∧
        ∀ t pc body', requestAt valid l' t = some pc → pc.request = .restart body' →
          body'.operationId = some id → pc.stage ≠ .recorded)
    (hr : ∀ id x, Returned id x l → Returned id x l')
    (ha : ∀ body id x, body.operationId = some id → Answered valid body x l' →
      Answered valid body x l ∨ Succeeded s body id x) : Recorded valid s' l' where
  first t pc body id hpc hb hid hst := by
    obtain ⟨p, hp', hreq, hne, stored, -⟩ := hp t pc hpc body id hb hid hst
    obtain ⟨h1, h2, h3⟩ := h.first t p body id hp' (hreq.trans hb) hid hne
    refine ⟨by rw [hs, h1, stored], stored ▸ h2, fun u q body' hq hb' hid' hst' => ?_⟩
    obtain ⟨p', hp'', hreq', hne', -⟩ := hp u q hq body' id hb' hid' hst'
    exact h3 u p' body' hp'' (hreq'.trans hb') hid' hne'
  called u body id hm hid := by
    rcases hl u body hm with hm | hnew
    · obtain ⟨h1, h2⟩ := h.called u body id hm hid
      refine ⟨by rwa [hs], fun t pc body' hpc hb hid' hrec => ?_⟩
      obtain ⟨p, hp', hreq, -, -, hst⟩ := hp t pc hpc body' id hb hid' (by rw [hrec]; nofun)
      exact h2 t p body' hp' (hreq.trans hb) hid' (hst hrec)
    · obtain ⟨h1, h2⟩ := hnew id hid
      exact ⟨by rwa [hs], h2⟩
  succeeded id record hrec hst := by
    rw [hs] at hrec
    obtain ⟨x, hx, hret⟩ := h.succeeded id record hrec hst
    exact ⟨x, hx, hr id x hret⟩
  answered body id x hid hx := by
    have old : Succeeded s body id x := (ha body id x hid hx).elim (h.answered body id x hid) fun h => h
    unfold Succeeded
    rwa [hs]

omit [DecidableEq ρ] in
/-- Entries that are no calls add none. -/
theorem park_of_cons {l : List (HelperItem ρ α)} {i : HelperItem ρ α} {u : ℕ}
    {body : RestartRequest ρ} {p : Prop} (hi : ∀ u body, i ≠ .task u (.park body))
    (hm : Item.task u (.park body) ∈ i :: l) : Item.task u (.park body) ∈ l ∨ p :=
  .inl ((List.mem_cons.1 hm).resolve_left fun h => hi u body h.symm)

/-- Entries that are no answers add none. -/
theorem answer_of_cons {l : List (HelperItem ρ α)} {i : HelperItem ρ α} {body : RestartRequest ρ}
    {x : α} {p : Prop} (hi : ∀ t r, i ≠ .task t (.emit (.respond r)))
    (h : Answered valid body x (i :: l)) : Answered valid body x l ∨ p :=
  .inl (h.elim.resolve_right fun ⟨t, _, he, _⟩ => hi t _ he)

/-- What happens without a write, a call or an answer. -/
theorem Recorded.aside {s s' : Helper ρ α} {l : List (HelperItem ρ α)} {i : HelperItem ρ α}
    (h : Recorded valid s l) (hs : s'.operations = s.operations)
    (hcall : ∀ u body, i ≠ .task u (.park body))
    (hanswer : ∀ t r, i ≠ .task t (.emit (.respond r)))
    (hp : ∀ u q, requestAt valid (i :: l) u = some q → q.Continues (requestAt valid l u)) :
    Recorded valid s' (i :: l) :=
  h.still hs hp (fun _ _ => park_of_cons hcall) (fun _ _ hr => hr.cons _)
    fun _ _ _ _ => answer_of_cons hanswer

/-- A call of the supervisor: the request has recorded its operation. -/
theorem Recorded.park {s : Helper ρ α} {l : List (HelperItem ρ α)} {t : ℕ} {pc : RequestPoint ρ α}
    {body : RestartRequest ρ} (h : Recorded valid s l) (at_ : requestAt valid l t = some pc)
    (hreq : pc.request = .restart body)
    (hrec : body.operationId.isSome = true →
      pc.stage = .recorded ∧ pc.stored = some { fingerprint := body }) :
    Recorded valid s (.task t (.park body) :: l) := by
  have recorded : ∀ id, body.operationId = some id → pc.stage = .recorded :=
    fun id hid => (hrec (by rw [hid]; rfl)).1
  have next : requestAt valid (Item.task t (.park body) :: l) t =
      some { pc with stage := .calling body } := by
    unfold requestAt point
    rw [if_pos rfl, show (requests valid).point t l = some pc from at_]
    rfl
  have before : ∀ u q, requestAt valid (Item.task t (.park body) :: l) u = some q →
      q.Continues (requestAt valid l u) := by
    refine forall_point (fun v hv => ?_) fun u q _ hq => by rw [requestAt, hq]; exact q.continues_self
    rw [show (requests valid).point t l = some pc from at_] at hv
    obtain rfl := Option.some.inj hv
    intro body' id hb hid _
    obtain rfl := Endpoint.restart.inj (hreq.symm.trans hb)
    exact ⟨pc, at_, rfl, by simp [recorded id hid], rfl, fun h => by cases h⟩
  refine h.still rfl before (fun u b hm => ?_) (fun _ _ hr => hr.cons _)
    fun _ _ _ _ => answer_of_cons fun _ _ hx => by cases hx
  rcases List.mem_cons.1 hm with heq | hm
  · obtain ⟨rfl, hp⟩ := Item.task.inj heq
    obtain rfl := Entry.park.inj hp
    refine .inr fun id hid => ?_
    obtain ⟨h1, hsome, h2⟩ := h.first u pc b id at_ hreq hid (by simp [recorded id hid])
    refine ⟨fun hn => ?_, fun v q body' hq hb hid' hst => ?_⟩
    · rw [← h1, hn] at hsome
      cases hsome
    · obtain ⟨p, hp, hr, hne, -, -⟩ := before v q hq body' id hb hid' (by simp [hst])
      obtain rfl := h2 v p body' hp (hr.trans hb) hid' hne
      obtain rfl := Option.some.inj (next.symm.trans hq)
      cases hst
  · exact .inl hm

/-- After a write, a request is the writer or as it was. -/
theorem point_write {l : List (HelperItem ρ α)} {t : ℕ} {pc : RequestPoint ρ α} {id : String}
    {record : OperationRecord ρ α} (at_ : requestAt valid l t = some pc) :
    ∀ u q, requestAt valid (Item.task t (.emit (.write id record)) :: l) u = some q →
      u = t ∧ q = pc.wrote record ∨ u ≠ t ∧ requestAt valid l u = some q := by
  refine forall_point (fun v hv => ?_) fun u q hu hq => .inr ⟨hu, hq⟩
  rw [show (requests valid).point t l = some pc from at_] at hv
  exact .inl ⟨rfl, (Option.some.inj hv).symm⟩

omit [DecidableEq ρ] in
/-- A write leaves the other operations. -/
theorem write_of_ne {s : Helper ρ α} {id id' : String} {record : OperationRecord ρ α} (h : id' ≠ id) :
    (s.write id record).operations id' = s.operations id' := Function.update_of_ne h ..

omit [DecidableEq ρ] in

/-- The record is found. -/
theorem write_self {s : Helper ρ α} {id : String} {record : OperationRecord ρ α} :
    (s.write id record).operations id = some record := Function.update_self ..

omit [DecidableEq ρ] in

/-- No record is lost. -/
theorem write_ne_none {s : Helper ρ α} {id id' : String} {record : OperationRecord ρ α}
    (h : s.operations id' ≠ none) : (s.write id record).operations id' ≠ none := by
  by_cases he : id' = id
  · subst he
    rw [write_self]
    nofun
  · rwa [write_of_ne he]

/-- What the records say of success after a write. -/
theorem Recorded.succeeded_write {s : Helper ρ α} {l : List (HelperItem ρ α)} {id : String}
    {record : OperationRecord ρ α} {i : HelperItem ρ α} (h : Recorded valid s l)
    (hsucc : record.state = .succeeded → ∃ x, record.result = some x ∧ Returned id x l) :
    ∀ id' record', (s.write id record).operations id' = some record' →
      record'.state = .succeeded → ∃ x, record'.result = some x ∧ Returned id' x (i :: l) := by
  intro id' record' hrec hst
  by_cases he : id' = id
  · subst he
    rw [write_self] at hrec
    obtain rfl := Option.some.inj hrec
    obtain ⟨x, hx, hr⟩ := hsucc hst
    exact ⟨x, hx, hr.cons _⟩
  · rw [write_of_ne he] at hrec
    obtain ⟨x, hx, hr⟩ := h.succeeded id' record' hrec hst
    exact ⟨x, hx, hr.cons _⟩

/-- A write to an operation that has not succeeded leaves what was answered. -/
theorem Recorded.answered_write {s : Helper ρ α} {l : List (HelperItem ρ α)} {t : ℕ} {id : String}
    {record : OperationRecord ρ α} (h : Recorded valid s l)
    (hnot : ∀ r, s.operations id = some r → r.state ≠ .succeeded) (body : RestartRequest ρ)
    (id' : String) (x : α) (hid : body.operationId = some id')
    (ha : Answered valid body x (.task t (.emit (.write id record)) :: l)) :
    Succeeded (s.write id record) body id' x := by
  have ha : Answered valid body x l := ha.elim.resolve_right fun ⟨_, _, he, _⟩ => by cases he
  obtain ⟨r, hr, hf, hst, hx⟩ := h.answered body id' x hid ha
  refine ⟨r, ?_, hf, hst, hx⟩
  rw [write_of_ne]
  · exact hr
  · rintro rfl
    exact hnot r hr hst

/-- The first write of a request finds nothing recorded. -/
theorem Recorded.begin {s : Helper ρ α} {l : List (HelperItem ρ α)} {t : ℕ} {pc : RequestPoint ρ α}
    {body : RestartRequest ρ} {id : String} {record : OperationRecord ρ α} (h : Recorded valid s l)
    (at_ : requestAt valid l t = some pc) (hreq : pc.request = .restart body)
    (hid : body.operationId = some id) (hnone : s.operations id = none)
    (hrun : record.state = .running) :
    Recorded valid (s.write id record) (.task t (.emit (.write id record)) :: l) := by
  have own : ∀ {body' id'}, (pc.wrote record).request = .restart body' →
      body'.operationId = some id' → id' = id := by
    intro body' id' hb hid'
    obtain rfl := Endpoint.restart.inj (hreq.symm.trans hb)
    exact Option.some.inj (hid'.symm.trans hid)
  -- No other request for the operation is under way, because it is not recorded.
  have others : ∀ {u q body'}, requestAt valid l u = some q → q.request = .restart body' →
      body'.operationId = some id → q.stage = .begun := by
    intro u q body' hq hb hid'
    by_contra hne
    obtain ⟨h1, h2, -⟩ := h.first u q body' id hq hb hid' hne
    rw [← h1, hnone] at h2
    cases h2
  refine ⟨fun u q body' id' hq hb hid' hst => ?_, fun u b id' hm hid' => ?_,
    h.succeeded_write fun hs => (nomatch hrun.symm.trans hs),
    h.answered_write fun r hr => (nomatch hnone.symm.trans hr)⟩
  · rcases point_write at_ u q hq with ⟨rfl, rfl⟩ | ⟨-, hq₀⟩
    · obtain rfl := own hb hid'
      refine ⟨write_self, rfl, fun v q' b' hq' hb' hid'' hst' => ?_⟩
      rcases point_write at_ v q' hq' with ⟨hv, -⟩ | ⟨-, hq'⟩
      · exact hv
      · exact absurd (others hq' hb' hid'') hst'
    · obtain ⟨h1, h2, h3⟩ := h.first u q body' id' hq₀ hb hid' hst
      have other : id' ≠ id := by
        rintro rfl
        exact hst (others hq₀ hb hid')
      refine ⟨(write_of_ne other).trans h1, h2, fun v q' b' hq' hb' hid'' hst' => ?_⟩
      rcases point_write at_ v q' hq' with ⟨rfl, rfl⟩ | ⟨-, hq'⟩
      · exact absurd (own hb' hid'') other
      · exact h3 v q' b' hq' hb' hid'' hst'
  · have hm := (List.mem_cons.1 hm).resolve_left fun h => (nomatch h)
    obtain ⟨h1, h2⟩ := h.called u b id' hm hid'
    refine ⟨write_ne_none h1, fun v q body' hq hb hid'' => ?_⟩
    rcases point_write at_ v q hq with ⟨rfl, rfl⟩ | ⟨-, hq⟩
    · obtain rfl := own hb hid''
      exact absurd hnone h1
    · exact h2 v q body' hq hb hid''

/-- A later write keeps the operation recorded, and only what was returned is a success. -/
theorem Recorded.rewrite {s : Helper ρ α} {l : List (HelperItem ρ α)} {t : ℕ} {pc : RequestPoint ρ α}
    {body : RestartRequest ρ} {id : String} {record : OperationRecord ρ α} (h : Recorded valid s l)
    (at_ : requestAt valid l t = some pc) (hreq : pc.request = .restart body)
    (hid : body.operationId = some id) (hst : pc.stage ≠ .begun)
    (hrun : pc.stored = some { fingerprint := body })
    (hsucc : record.state = .succeeded → ∃ x, record.result = some x ∧ Returned id x l) :
    Recorded valid (s.write id record) (.task t (.emit (.write id record)) :: l) := by
  obtain ⟨mine, -, alone⟩ := h.first t pc body id at_ hreq hid hst
  have stage : (pc.wrote record).stage = pc.stage := by
    unfold RequestPoint.wrote
    cases hs : pc.stage with
    | begun => exact absurd hs hst
    | recorded | calling | ended => rfl
  have old : ∀ u q, requestAt valid (Item.task t (.emit (.write id record)) :: l) u = some q →
      ∃ p, requestAt valid l u = some p ∧ p.request = q.request ∧ p.stage = q.stage := by
    intro u q hq
    rcases point_write at_ u q hq with ⟨rfl, rfl⟩ | ⟨-, hq⟩
    · exact ⟨pc, at_, rfl, stage.symm⟩
    · exact ⟨q, hq, rfl, rfl⟩
  refine ⟨fun u q body' id' hq hb hid' hne => ?_, fun u b id' hm hid' => ?_, h.succeeded_write hsucc,
    h.answered_write fun r hr hs => ?_⟩
  · have unique : ∀ v q' b', requestAt valid (Item.task t (.emit (.write id record)) :: l) v = some q' →
        q'.request = .restart b' → b'.operationId = some id' → q'.stage ≠ .begun → v = u := by
      intro v q' b' hq' hb' hid'' hne'
      obtain ⟨p, hp, hr, hs⟩ := old u q hq
      obtain ⟨p', hp', hr', hs'⟩ := old v q' hq'
      exact (h.first u p body' id' hp (hr.trans hb) hid' (hs ▸ hne)).2.2 v p' b' hp' (hr'.trans hb') hid''
        (hs' ▸ hne')
    rcases point_write at_ u q hq with ⟨rfl, rfl⟩ | ⟨hu, hq'⟩
    · obtain rfl := Endpoint.restart.inj (hreq.symm.trans hb)
      obtain rfl := Option.some.inj (hid'.symm.trans hid)
      exact ⟨write_self, rfl, unique⟩
    · obtain ⟨h1, h2, -⟩ := h.first u q body' id' hq' hb hid' hne
      have other : id' ≠ id := by
        rintro rfl
        exact hu (alone u q body' hq' hb hid' hne)
      exact ⟨(write_of_ne other).trans h1, h2, unique⟩
  · have hm := (List.mem_cons.1 hm).resolve_left fun h => (nomatch h)
    obtain ⟨h1, h2⟩ := h.called u b id' hm hid'
    refine ⟨write_ne_none h1, fun v q body' hq hb hid'' => ?_⟩
    obtain ⟨p, hp, hr, hs⟩ := old v q hq
    rw [← hs]
    exact h2 v p body' hp (hr.trans hb) hid''
  · rw [mine, hrun] at hr
    obtain rfl := Option.some.inj hr
    cases hs

omit [DecidableEq ρ] in
/-- Only what the supervisor has returned is recorded as a success. -/
theorem Concludes.returned {body : RestartRequest ρ} {stage : Stage ρ α} {failed : Bool}
    {record : OperationRecord ρ α} (h : Concludes valid body stage failed record)
    (hs : record.state = .succeeded) : ∃ x, stage = .ended (.returned x) ∧ record.result = some x := by
  cases stage with
  | ended o =>
    cases o with
    | returned x =>
      cases failed with
      | false => exact ⟨x, rfl, h.2⟩
      | true => cases hs.symm.trans h
    | raised =>
      cases failed with
      | _ => cases hs.symm.trans h
    | cancelled =>
      cases failed with
      | _ => cases hs.symm.trans h
  | recorded =>
    cases failed with
    | _ => cases hs.symm.trans h.1
  | begun | calling =>
    cases failed with
    | _ => cases hs.symm.trans h

/-- A write: the first one finds nothing recorded, and only what was returned is a success. -/
theorem Recorded.write {s : Helper ρ α} {l : List (HelperItem ρ α)} {t : ℕ} {pc : RequestPoint ρ α}
    {id : String} {record : OperationRecord ρ α} (h : Recorded valid s l) (told : Told l pc)
    (at_ : requestAt valid l t = some pc) (ok : WriteOk valid pc s id record) :
    Recorded valid (s.write id record) (.task t (.emit (.write id record)) :: l) := by
  obtain ⟨body, hreq, hid, -, ok⟩ := ok
  have later : pc.stage ≠ .begun → pc.stored = some { fingerprint := body } ∧
      Concludes valid body pc.stage pc.failed record →
      Recorded valid (s.write id record) (.task t (.emit (.write id record)) :: l) := by
    rintro hst ⟨stored, hc⟩
    refine h.rewrite at_ hreq hid hst stored fun hs => ?_
    obtain ⟨x, hx, hres⟩ := hc.returned hs
    exact ⟨x, hres, told.returned body id x hreq hid hx⟩
  cases hst : pc.stage with
  | begun =>
    rw [hst] at ok
    obtain ⟨hnone, rfl⟩ := ok
    exact h.begin at_ hreq hid hnone rfl
  | recorded | calling | ended =>
    rw [hst] at ok later
    exact later nofun ok

omit [DecidableEq ρ] in
/-- A repeat is answered with a result only if the record has it. -/
theorem repeated_result [DecidableEq ρ] {body : RestartRequest ρ} {previous : OperationRecord ρ α}
    {x : Option α} (h : repeated body previous = .result x) :
    previous.fingerprint = body ∧ previous.state = .succeeded ∧ previous.result = x := by
  unfold repeated at h
  split_ifs at h with hf hs
  exact ⟨not_not.1 hf, hs, Response.result.inj h⟩

/-- A request that is answered with a result has it in its record. -/
theorem Recorded.respond {s : Helper ρ α} {pc : RequestPoint ρ α} {body : RestartRequest ρ}
    {id : String} {x : α} (h : Recorded valid s l) (at_ : requestAt valid l t = some pc)
    (hreq : pc.request = .restart body) (hid : body.operationId = some id)
    (ok : RespondOk pc s (.result (some x))) : Succeeded s body id x := by
  unfold RespondOk at ok
  rw [hreq] at ok
  have later : pc.stage ≠ .begun → Reports pc body (.result (some x)) → Succeeded s body id x := by
    rintro hst ⟨-, hrec⟩
    obtain ⟨record, hs, hf, hstate, hres⟩ := hrec (by rw [hid]; rfl)
    exact ⟨record, (h.first t pc body id at_ hreq hid hst).1.trans hs, hf, hstate, hres⟩
  cases hst : pc.stage with
  | begun =>
    rw [hst] at ok
    have ok := ok id hid
    cases hop : s.operations id with
    | none =>
      rw [hop] at ok
      cases ok.2
    | some previous =>
      rw [hop] at ok
      obtain ⟨hf, hstate, hres⟩ := repeated_result (Eq.symm ok)
      exact ⟨previous, hop, hf, hstate, hres⟩
  | recorded | calling | ended =>
    rw [hst] at ok later
    exact later nofun ok

/-- A request whose record has succeeded is answered with the result. -/
theorem Recorded.repeats {s : Helper ρ α} {pc : RequestPoint ρ α} {body : RestartRequest ρ}
    {id : String} {x : α} {r : Response ρ α} (h : Recorded valid s l)
    (at_ : requestAt valid l t = some pc) (hreq : pc.request = .restart body)
    (hid : body.operationId = some id) (hs : Succeeded s body id x) (ok : RespondOk pc s r) :
    r = .result (some x) := by
  obtain ⟨record, hrec, hf, hstate, hres⟩ := hs
  unfold RespondOk at ok
  rw [hreq] at ok
  have later : pc.stage ≠ .begun → Reports pc body r → r = .result (some x) := by
    rintro hst ⟨-, hrec'⟩
    obtain ⟨record', hs', -, hr⟩ := hrec' (by rw [hid]; rfl)
    have mine := (h.first t pc body id at_ hreq hid hst).1
    rw [hrec, hs'] at mine
    obtain rfl := Option.some.inj mine
    cases r with
    | result y => rw [← hr.2, hres]
    | restartFailed message => cases hstate.symm.trans hr.1
    | _ => exact absurd hstate hr
  cases hst : pc.stage with
  | begun =>
    rw [hst] at ok
    have ok := ok id hid
    rw [hrec] at ok
    have ok : r = repeated body record := ok
    rw [ok, repeated, if_neg (not_not_intro hf), if_pos hstate, hres]
  | recorded | calling | ended =>
    rw [hst] at ok later
    exact later nofun ok

/-- In every run the records tell of all requests. -/
theorem maintained_recorded {C : Helper ρ α → List (HelperItem ρ α) → HelperItem ρ α → Prop}
    (hC : ∀ {s l x}, C s l x → ∀ t pc, requestAt valid l t = some pc → Told l pc) :
    (requests (α := α) valid).Maintained (helper valid) (fun s => s.operations = fun _ => none) C
      (Recorded valid) where
  init {s} h := ⟨fun _ _ _ _ h => (nomatch h), fun _ _ _ h => (nomatch h),
    fun id record hr => (by rw [h] at hr; cases hr),
    fun _ _ _ _ ⟨_, _, _, hs, _⟩ => (by cases List.suffix_nil.1 hs)⟩
  start {s t p s' l} h _ may _ := by
    obtain rfl := Option.some.inj may
    refine h.aside rfl (fun _ _ h => (by cases h)) (fun _ _ h => (by cases h)) ?_
    refine forall_point (fun v hv => ?_) fun u q _ hq => by rw [requestAt, hq]; exact q.continues_self
    obtain rfl := Option.some.inj hv
    exact fun _ _ _ _ h => absurd rfl h
  wake {s t pc i r l} h at_ site _ _ := by
    refine h.aside rfl (fun _ _ h => (by cases h)) (fun _ _ h => (by cases h)) ?_
    refine forall_point (fun v hv => ?_) fun u q _ hq => by rw [requestAt, hq]; exact q.continues_self
    rw [at_] at hv
    obtain rfl := Option.some.inj hv
    exact fun _ _ _ _ _ => ⟨pc, at_, rfl, by rw [stage_of_site site]; nofun, rfl, nofun⟩
  emit {s t pc e l} h at_ ok c := by
    cases e with
    | write id record => exact h.write (hC c t pc at_) at_ ok
    | respond r =>
      refine h.still rfl ?_ (fun u body => park_of_cons fun _ _ h => (nomatch h))
        (fun _ _ hr => hr.cons _) fun body id x hid ha => ?_
      · refine forall_point (fun v hv => ?_) fun u q _ hq => by rw [requestAt, hq]; exact q.continues_self
        rw [at_] at hv
        obtain rfl := Option.some.inj hv
        exact fun _ _ _ _ hst => ⟨pc, at_, rfl, hst, rfl, id⟩
      · refine ha.elim.imp_right ?_
        rintro ⟨u, q, he, hq, hreq⟩
        obtain ⟨rfl, hemit⟩ := Item.task.inj he
        obtain rfl := HelperEvent.respond.inj (Entry.emit.inj hemit)
        obtain rfl := Option.some.inj (at_.symm.trans hq)
        exact h.respond at_ hreq hid ok
  toss {s t pc q b l} h at_ _ := by
    refine h.aside rfl (fun _ _ h => (by cases h)) (fun _ _ h => (by cases h)) ?_
    refine forall_point (fun v hv => ?_) fun u q _ hq => by rw [requestAt, hq]; exact q.continues_self
    rw [at_] at hv
    obtain rfl := Option.some.inj hv
    exact fun _ _ _ _ hst => ⟨pc, at_, rfl, hst, rfl, id⟩
  park h at_ ok _ := h.park at_ ok.1 ok.2
  stop {s t pc l} h at_ _ _ := by
    refine h.aside rfl (fun _ _ h => (by cases h)) (fun _ _ h => (by cases h)) ?_
    exact forall_point (fun _ hv => (nomatch hv)) fun u q _ hq => by
      rw [requestAt, hq]
      exact q.continues_self
  drift {s d l} h _ := by
    refine h.aside rfl (fun _ _ h => (by cases h)) (fun _ _ h => (by cases h)) fun u q hq => ?_
    rw [show requestAt valid l u = some q from hq]
    exact q.continues_self
  crash {s l} h _ :=
    h.aside rfl (fun _ _ h => (by cases h)) (fun _ _ h => (by cases h)) fun _ _ hq => by cases hq

/-- What holds in every run of the helper from a directory without records. -/
theorem invariants {s : Helper ρ α} {P : ℕ → Option (RequestPoint ρ α)} {run : Option ℕ}
    {l : List (HelperItem ρ α)} {C : Helper ρ α → List (HelperItem ρ α) → HelperItem ρ α → Prop}
    (tr : (requests valid).Traj (helper valid) (fun s => s.operations = fun _ => none) C s P run l) :
    (∀ t pc, requestAt valid l t = some pc → Told l pc) ∧ Recorded valid s l :=
  ⟨maintained_told.traj tr, (maintained_recorded fun c => c.2).traj
    (Traj.knowing (I := fun _ l => ∀ t pc, requestAt valid l t = some pc → Told l pc)
      (fun tr => maintained_told.traj tr) tr)⟩

/-- The entries of every run of the helper satisfy `Good`, whatever ratings are `valid`. -/
def HelperEnsures (valid : ρ → Bool)
    (Good : Helper ρ α → List (HelperItem ρ α) → HelperItem ρ α → Prop) : Prop :=
  ∀ ⦃m a m'⦄, (helper valid).Reach (fun s => s.operations = fun _ => none) (fun _ _ _ => True) m →
    (helper valid).Step m a m' → ∀ x ∈ a, Good m.state m.log x

/-- **Restart requests are executed at most once**, over all lifetimes of the helper. -/
theorem restarts_at_most_once (valid : ρ → Bool) :
    HelperEnsures valid
      (AtMostOnce valid : Helper ρ α → List (HelperItem ρ α) → HelperItem ρ α → Prop) := by
  intro m a m' reach st x hx
  obtain rfl : a = some x := hx
  match x with
  | .task t (.park body) =>
    obtain ⟨P, pc, tr, hP, hreq, hrec⟩ := ok_of_park requests_holds reach st
    obtain ⟨told, rec⟩ := invariants tr
    rw [tr.point_eq] at hP
    intro id hid
    obtain ⟨hst, stored⟩ := hrec (by rw [hid]; rfl)
    refine ⟨(rec.first t pc body id hP hreq hid (by rw [hst]; nofun)).1.trans stored,
      fun u body' hm hid' => ?_⟩
    exact (rec.called u body' id hm hid').2 t pc body hP hreq hid hst
  | .task t (.emit (.write id record)) =>
    obtain ⟨P, pc, tr, hP, body, hreq, hid, hf, ok⟩ := ok_of_emit requests_holds reach st
    obtain ⟨told, rec⟩ := invariants tr
    rw [tr.point_eq] at hP
    refine ⟨pc, body, hP, hreq, hid, hf, ?_⟩
    have first := rec.first t pc body id hP hreq hid
    cases hst : pc.stage with
    | begun =>
      rw [hst] at ok
      exact ok
    | recorded | calling | ended =>
      rw [hst] at ok first
      exact ⟨(first nofun).1.trans ok.1, ok.2⟩
  | .task t (.emit (.respond r)) =>
    obtain ⟨P, pc, tr, hP, ok⟩ := ok_of_emit requests_holds reach st
    obtain ⟨told, rec⟩ := invariants tr
    rw [tr.point_eq] at hP
    have ok : RespondOk pc m.state r := ok
    refine ⟨pc, hP, ?_⟩
    cases hreq : pc.request with
    | operation id =>
      unfold RespondOk at ok
      rw [hreq] at ok
      refine ⟨ok, fun record hr hs => ?_⟩
      have stored : m.state.operations id = some record := by
        have ok : r = if isOperationId id then _ else _ := ok
        rw [hr] at ok
        split_ifs at ok
        cases hop : m.state.operations id with
        | none =>
          rw [hop] at ok
          cases ok
        | some previous =>
          rw [hop] at ok
          rw [Response.operation.inj ok]
      exact rec.succeeded id record stored hs
    | restart body =>
      intro id hid
      refine ⟨fun x ha => rec.repeats hP hreq hid (rec.answered body id x hid ha) ok, ?_⟩
      unfold RespondOk at ok
      rw [hreq] at ok
      have first := rec.first t pc body id hP hreq hid
      cases hst : pc.stage with
      | begun =>
        rw [hst] at ok
        have ok := ok id hid
        cases hop : m.state.operations id with
        | none => rwa [hop] at ok
        | some previous =>
          rw [hop] at ok
          have ok : r = repeated body previous := ok
          subst ok
          refine ⟨fun hne => if_pos hne, fun heq hs => ?_, fun heq hs => ?_⟩
          · exact (if_neg (not_not_intro heq)).trans (if_neg hs)
          · obtain ⟨x, hx, hret⟩ := rec.succeeded id previous hop hs
            refine ⟨x, ?_, hret⟩
            rw [← hx]
            exact (if_neg (not_not_intro heq)).trans (if_pos hs)
      | recorded | calling | ended =>
        rw [hst] at ok first
        exact ⟨(first nofun).1, ok⟩
  | .task t .stop =>
    obtain ⟨P, pc, tr, hP, ok⟩ := ok_of_stop requests_holds reach st
    rw [tr.point_eq] at hP
    exact ⟨pc, hP, ok⟩
  | .task t (.start _) | .task t (.wake ..) | .task t (.toss ..) | .drift _ | .crash =>
    exact trivial

end Invariants

end NodeHelper
end MorpheusGateway
