/-
# The connection limit and the upload limit

The middleware `boundary` is a coroutine of each request around the endpoint.  It counts the
requests that it has let in, refuses those above the limit, and reads a body of at most 2 MiB
before it calls the endpoint.  A request awaits the messages of its body, each within the time
that is left, and the endpoint; the client may go away and the task may be cancelled at any of
these.

The counter is a variable of the process.  A request counts from its `enter` to its `leave`,
and what a crash leaves is a new process.
-/

import MorpheusGateway.Coroutine.Interference
import Mathlib.Data.Int.Notation

namespace MorpheusGateway
namespace Boundary

open Coro (perform raise suspend)

/-- The bytes of a body. -/
abbrev Body := List UInt8

/-- A request: whether its method is POST, PUT or PATCH, and in how many messages the client
sends its body. -/
structure Incoming where
  upload : Bool
  messages : ℕ

/-- The answers to a request. -/
inductive Reply (α : Type) : Type where
  /-- 429, `connection_limit`. -/
  | limited
  /-- 413, `payload_too_large`. -/
  | tooLarge
  /-- 408, `upload_timeout`. -/
  | timedOut
  /-- What the endpoint returned. -/
  | endpoint (a : α)

/-- What a request does. -/
inductive GateEvent (α : Type) : Type where
  | enter
  | leave
  | reply (r : Reply α)

/-- What a request awaits: a message of its body, or the endpoint, which is given the body. -/
inductive GateSite : Type where
  | message
  | endpoint (body : Option Body)

/-- What it gets. -/
inductive GateAnswer (α : Type) : Type where
  | message (b : Body)
  | timeout
  | returned (a : α)
  /-- The client is gone, the task is cancelled, or the endpoint raises. -/
  | raised

/-- The counter of the requests that are let in. -/
structure Gate where
  connections : ℤ := 0

/-- A coroutine of the middleware. -/
abbrev GateOp (α ε β : Type) :=
  Coro Gate (GateEvent α) Unit GateSite (GateAnswer α) ε β

variable {α : Type}

/-- 2 MiB. -/
def bodyLimit : ℕ := 2 * 1024 * 1024

/-- The messages of a body that are still to come. -/
def receive (limit : ℕ) (body : Body) : ℕ → GateOp α Unit (Except (Reply α) Body)
  | 0 => return .ok body
  | n + 1 => do
    match ← suspend .message with
    | .message b =>
      if limit < body.length + b.length then return .error .tooLarge
      receive limit (body ++ b) n
    | .timeout => return .error .timedOut
    | _ => raise ()

/-- `call_next`. -/
def callNext (body : Option Body) : GateOp α Unit (Reply α) := do
  match ← suspend (.endpoint body) with
  | .returned a => return .endpoint a
  | _ => raise ()

/-- The `try` of `boundary`. -/
def admitted (p : Incoming) : GateOp α Unit (Reply α) := do
  if p.upload then
    match ← receive bodyLimit [] p.messages with
    | .ok body => callNext (some body)
    | .error r => return r
  else callNext none

/-- `boundary`. -/
def boundary (maxConnections : ℕ) (p : Incoming) : GateOp α Unit (Reply α) := do
  if (maxConnections : ℤ) ≤ (← Coro.get).connections then return .limited
  perform .enter
  (admitted p).tryFinally (perform .leave)

/-- A request is answered, unless the middleware raises. -/
def served (c : GateOp α Unit (Reply α)) : GateOp α Empty Unit := do
  match ← c.attempt with
  | .ok r => perform (.reply r)
  | .error () => return ()

/-- The requests of a process. -/
def gate (maxConnections : ℕ) :
    System Gate (GateEvent α) Unit GateSite (GateAnswer α) Incoming Unit where
  body _ p := served (boundary maxConnections p)
  apply _ e s := match e with
    | .enter => { s with connections := s.connections + 1 }
    | .leave => { s with connections := s.connections - 1 }
    | .reply _ => s
  legal _ _ _ _ := true
  begin s _ _ := some s
  drift _ s := s
  reset _ := {}

/-! ### Control points -/

/-- A request: whether it is let in, what it has received in how many messages, and what it
awaits. -/
structure GatePoint where
  request : Incoming
  inside : Bool := false
  received : Body := []
  arrived : ℕ := 0
  site : Option GateSite := none

namespace GatePoint

/-- How a request goes on. -/
def next (pc : GatePoint) : Entry (GateEvent α) Unit GateSite (GateAnswer α) Incoming → GatePoint
  | .emit .enter => { pc with inside := true }
  | .emit .leave => { pc with inside := false }
  | .park i => { pc with site := some i }
  | .wake .message (.message b) =>
    { pc with site := none, received := pc.received ++ b, arrived := pc.arrived + 1 }
  | .wake .. => { pc with site := none }
  | _ => pc

/-- The body is the endpoint's: received to its end, and not too long. -/
def Complete (pc : GatePoint) : Option Body → Prop
  | some body => pc.request.upload = true ∧ body = pc.received ∧ pc.arrived = pc.request.messages ∧
      body.length ≤ bodyLimit
  | none => pc.request.upload = false

end GatePoint

/-- What is in order for a request. -/
def GateOk (maxConnections : ℕ) (pc : GatePoint) (s : Gate) :
    Entry (GateEvent α) Unit GateSite (GateAnswer α) Incoming → Prop
  | .emit .enter => pc.inside = false ∧ s.connections < maxConnections
  | .emit .leave => pc.inside = true
  | .emit (.reply r) => pc.inside = false ∧ match r with
      | .limited => (maxConnections : ℤ) ≤ s.connections
      | .tooLarge => bodyLimit < pc.received.length
      | _ => True
  | .park .message => pc.inside = true ∧ pc.received.length ≤ bodyLimit ∧
      pc.arrived < pc.request.messages
  | .park (.endpoint body) => pc.inside = true ∧ pc.Complete body
  | .stop => pc.inside = false
  | _ => True

/-- The order in which a request does things. -/
def order (maxConnections : ℕ) :
    Contract Gate (GateEvent α) Unit GateSite (GateAnswer α) Incoming GatePoint where
  enter p := { request := p }
  next := GatePoint.next
  site := GatePoint.site
  ok _ pc s a := GateOk maxConnections pc s a
  grows _ _ := True

open Contract

variable {maxConnections : ℕ} {t : ℕ} {pc : GatePoint} {s : Gate} {ε β : Type}

/-- `wp` of the middleware. -/
abbrev Wp (maxConnections t : ℕ) (c : GateOp α ε β) (Q : β → GatePoint → Gate → Prop)
    (E : ε → GatePoint → Gate → Prop) (pc : GatePoint) (s : Gate) : Prop :=
  (order maxConnections).wp (gate maxConnections) t c Q E pc s

/-- What a request that is let in may return: it is let in still, and what is too long is. -/
def Outcome (r : Reply α) (pc : GatePoint) (_ : Gate) : Prop :=
  pc.inside = true ∧ match r with
    | .limited => False
    | .tooLarge => bodyLimit < pc.received.length
    | _ => True

/-- What it raises, it raises inside. -/
def Raises (_ : Unit) (pc : GatePoint) (_ : Gate) : Prop := pc.inside = true

/-- The endpoint is called with the complete body. -/
theorem wp_callNext {body : Option Body} (hi : pc.inside = true) (hb : pc.Complete body) :
    Wp maxConnections t (callNext body : GateOp α Unit (Reply α)) Outcome Raises pc s := by
  unfold callNext
  refine (wp_bind' _).2 ⟨⟨hi, hb⟩, fun s' r _ _ => ?_⟩
  cases r with
  | returned a => exact ⟨hi, trivial⟩
  | message b => exact hi
  | timeout => exact hi
  | raised => exact hi

/-- What is received is what the messages were, in their order. -/
theorem wp_receive (n : ℕ) : ∀ (pc : GatePoint) (s : Gate), pc.inside = true →
    pc.request.upload = true → pc.arrived + n = pc.request.messages → pc.received.length ≤ bodyLimit →
    Wp maxConnections t (receive bodyLimit pc.received n : GateOp α Unit (Except (Reply α) Body))
      (fun x pc s => match x with
        | .ok body => pc.inside = true ∧ pc.Complete (some body)
        | .error r => Outcome r pc s) Raises pc s := by
  induction n with
  | zero => exact fun pc s hi hu ha hl => ⟨hi, hu, rfl, ha, hl⟩
  | succ n ih =>
    intro pc s hi hu ha hl
    refine (wp_bind' _).2 ⟨⟨hi, hl, by omega⟩, fun s' r _ _ => ?_⟩
    cases r with
    | message b =>
      refine (wp_ite _ _ _).2 ⟨fun hlong => ⟨hi, ?_⟩, fun hshort => ?_⟩
      · show bodyLimit < (pc.received ++ b).length
        rw [List.length_append]
        exact hlong
      · refine ih { pc with site := none, received := pc.received ++ b, arrived := pc.arrived + 1 } s'
          hi hu ?_ ?_
        · show pc.arrived + 1 + n = pc.request.messages
          omega
        · show (pc.received ++ b).length ≤ bodyLimit
          rw [List.length_append]
          omega
    | timeout => exact ⟨hi, trivial⟩
    | returned a => exact hi
    | raised => exact hi

/-- What happens inside is in order, and ends with a reply or an error. -/
theorem wp_admitted {p : Incoming} :
    Wp maxConnections t (admitted p : GateOp α Unit (Reply α)) Outcome Raises
      { request := p, inside := true } s := by
  unfold admitted
  refine (wp_ite _ _ _).2 ⟨fun hu => ?_, fun hu => ?_⟩
  · refine (wp_bind' _).2 (wp_mono (fun x pc' s' hx => ?_) (fun _ _ _ hx => hx) _
      (wp_receive p.messages { request := p, inside := true } s rfl hu (Nat.zero_add _) (Nat.zero_le _)))
    cases x with
    | ok body => exact wp_callNext hx.1 hx.2
    | error r => exact hx
  · exact wp_callNext rfl (Bool.eq_false_iff.2 hu)

/-- **The middleware keeps the order.** -/
theorem order_holds : (order maxConnections).Holds (gate (α := α) maxConnections) where
  body {s t p s'} h := by
    refine (wp_bind' _).2 ((wp_attempt _).2 ?_)
    unfold boundary
    refine (wp_bind' _).2 (wp_get.2 ((wp_ite _ _ _).2 ⟨fun hfull => ?_, fun hroom => ?_⟩))
    · exact ⟨⟨rfl, hfull⟩, rfl⟩
    · refine (wp_bind' _).2 ⟨⟨rfl, Int.not_le.1 hroom⟩, (wp_tryFinally _).2 ?_⟩
      refine wp_mono (fun r pc s hr => ?_) (fun _ pc s hi => ?_) _ wp_admitted
      · refine ⟨hr.1, ⟨rfl, ?_⟩, rfl⟩
        cases r with
        | limited => exact hr.2.elim
        | tooLarge => exact hr.2
        | timedOut => trivial
        | endpoint a => trivial
      · exact ⟨hi, rfl⟩
  site_park _ _ := rfl
  refl _ := trivial
  trans _ _ := trivial
  emit _ := trivial
  begin _ := trivial
  drift _ _ := trivial

/-! ### What the log tells -/

abbrev GateItem (α : Type) := Item (GateEvent α) Unit GateSite (GateAnswer α) Incoming Unit

/-- The requests that were let in and have not left, since the last crash. -/
def inside : List (GateItem α) → List ℕ
  | [] | .crash :: _ => []
  | .task t (.emit .enter) :: l => t :: inside l
  | .task t (.emit .leave) :: l => (inside l).erase t
  | _ :: l => inside l

/-- The request of the task `t`, while it is under way. -/
def underWay (t : ℕ) : List (GateItem α) → Option Incoming
  | [] | .crash :: _ => none
  | .task u (.start p) :: l => if u = t then some p else underWay t l
  | .task u .stop :: l => if u = t then none else underWay t l
  | _ :: l => underWay t l

/-- The messages that the task `t` has received. -/
def uploaded (t : ℕ) : List (GateItem α) → List Body
  | [] | .crash :: _ => []
  | .task u (.start _) :: l => if u = t then [] else uploaded t l
  | .task u (.wake .message (.message b)) :: l =>
    if u = t then uploaded t l ++ [b] else uploaded t l
  | _ :: l => uploaded t l

/-- The counter is the number of the requests inside, all of them under way and no more than the
limit. -/
structure Counted (maxConnections : ℕ) (s : Gate) (l : List (GateItem α)) : Prop where
  connections : s.connections = (inside l).length
  few : (inside l).length ≤ maxConnections
  once : (inside l).Nodup
  live : ∀ t ∈ inside l, (underWay t l).isSome

/-- A request is refused for the limit only when the limit is reached, and never let in then; for
its length only when it is too long.  The endpoint is called by a request that is inside, with
all of its body and no more than the limit. -/
def Guards (maxConnections : ℕ) (s : Gate) (l : List (GateItem α)) (x : GateItem α) : Prop :=
  Counted maxConnections s l ∧ match x with
    | .task _ (.emit .enter) => (inside l).length < maxConnections
    | .task t (.emit (.reply .limited)) => t ∉ inside l ∧ (inside l).length = maxConnections
    | .task t (.emit (.reply .tooLarge)) => bodyLimit < (uploaded t l).flatten.length
    | .task t (.park (.endpoint body)) => t ∈ inside l ∧ ∃ p, underWay t l = some p ∧
        match body with
        | some b => p.upload = true ∧ b = (uploaded t l).flatten ∧
            (uploaded t l).length = p.messages ∧ b.length ≤ bodyLimit
        | none => p.upload = false
    | _ => True

section Log

variable {u : ℕ} {l : List (GateItem α)}
  {a : Entry (GateEvent α) Unit GateSite (GateAnswer α) Incoming}

/-- What others do leaves the request that is under way. -/
theorem underWay_of_ne (h : u ≠ t) : underWay u (.task t a :: l) = underWay u l := by
  cases a with
  | start p => exact if_neg (Ne.symm h)
  | stop => exact if_neg (Ne.symm h)
  | _ => rfl

/-- It leaves what was uploaded. -/
theorem uploaded_of_ne (h : u ≠ t) : uploaded u (.task t a :: l) = uploaded u l := by
  cases a with
  | start p => exact if_neg (Ne.symm h)
  | wake i r =>
    cases i with
    | message =>
      cases r with
      | message b => exact if_neg (Ne.symm h)
      | _ => rfl
    | endpoint body => rfl
  | _ => rfl

/-- What the log tells of a request. -/
structure Tells (l : List (GateItem α)) (t : ℕ) (pc : GatePoint) : Prop where
  request : underWay t l = some pc.request
  received : pc.received = (uploaded t l).flatten
  arrived : pc.arrived = (uploaded t l).length

/-- It leaves what the control point tells. -/
theorem Tells.of_ne (h : Tells l u pc) (hu : u ≠ t) : Tells (.task t a :: l) u pc where
  request := (underWay_of_ne hu).trans h.request
  received := by rw [uploaded_of_ne hu, h.received]
  arrived := by rw [uploaded_of_ne hu, h.arrived]

/-- What holds of the counter, the log and the requests. -/
structure Agrees (maxConnections : ℕ) (s : Gate) (l : List (GateItem α)) : Prop where
  connections : s.connections = (inside l).length
  few : (inside l).length ≤ maxConnections
  once : (inside l).Nodup
  mem : ∀ t, t ∈ inside l ↔ ∃ pc, (order maxConnections).point t l = some pc ∧ pc.inside = true
  tells : ∀ t pc, (order maxConnections).point t l = some pc → Tells l t pc

/-- An entry moves the control point of its task. -/
theorem point_self : (order maxConnections).point t (.task t a :: l) =
    (order maxConnections).advance a ((order maxConnections).point t l) := if_pos rfl

/-- It moves no other. -/
theorem point_of_ne (h : u ≠ t) : (order maxConnections).point u (.task t a :: l) =
    (order maxConnections).point u l := if_neg (Ne.symm h)

/-- An entry that changes no request's place. -/
theorem Agrees.still (h : Agrees maxConnections s l) (hl : inside (.task t a :: l) = inside l)
    (own : ∀ pc, (order maxConnections).advance a ((order maxConnections).point t l) = some pc →
      Tells (.task t a :: l) t pc)
    (place : t ∈ inside l ↔ ∃ pc,
      (order maxConnections).advance a ((order maxConnections).point t l) = some pc ∧ pc.inside = true) :
    Agrees maxConnections s (.task t a :: l) where
  connections := by rw [hl, h.connections]
  few := by rw [hl]; exact h.few
  once := by rw [hl]; exact h.once
  mem u := by
    rw [hl]
    rcases eq_or_ne u t with rfl | hu
    · rw [point_self]
      exact place
    · rw [point_of_ne hu]
      exact h.mem u
  tells := forall_point own fun u q hu hq => (h.tells u q hq).of_ne hu

/-- A request goes on at its place. -/
theorem Agrees.goes (h : Agrees maxConnections s l) {pc' : GatePoint}
    (at_ : (order maxConnections).point t l = some pc) (hl : inside (.task t a :: l) = inside l)
    (ha : (order maxConnections).advance a (some pc) = some pc') (hin : pc'.inside = pc.inside)
    (own : Tells (.task t a :: l) t pc') : Agrees maxConnections s (.task t a :: l) := by
  refine h.still hl (fun q hq => ?_) ?_
  · rw [at_, ha] at hq
    obtain rfl := Option.some.inj hq
    exact own
  · rw [at_, ha, h.mem t, at_]
    constructor
    · rintro ⟨q, hq, hi⟩
      obtain rfl := Option.some.inj hq
      exact ⟨pc', rfl, hin.trans hi⟩
    · rintro ⟨q, hq, hi⟩
      obtain rfl := Option.some.inj hq
      exact ⟨pc, rfl, hin ▸ hi⟩

/-- A request comes in. -/
theorem Agrees.enter (h : Agrees maxConnections s l)
    (at_ : (order maxConnections).point t l = some pc) (hi : pc.inside = false)
    (room : s.connections < maxConnections) :
    Agrees maxConnections { s with connections := s.connections + 1 } (.task t (.emit .enter) :: l) := by
  have out : t ∉ inside l := by
    intro hm
    obtain ⟨q, hq, hin⟩ := (h.mem t).1 hm
    obtain rfl := Option.some.inj (at_.symm.trans hq)
    exact Bool.false_ne_true (hi.symm.trans hin)
  have own := h.tells t pc at_
  have next : (order maxConnections).point t (.task t (.emit (.enter : GateEvent α)) :: l) =
      some { pc with inside := true } := by
    rw [point_self, at_]
    rfl
  refine ⟨?_, ?_, List.nodup_cons.2 ⟨out, h.once⟩, fun u => ?_, fun u q hq => ?_⟩
  · show s.connections + 1 = ((inside l).length + 1 : ℕ)
    rw [h.connections]
    rfl
  · show (inside l).length + 1 ≤ maxConnections
    have := h.connections
    omega
  · rcases eq_or_ne u t with rfl | hu
    · exact iff_of_true List.mem_cons_self ⟨_, next, rfl⟩
    · rw [point_of_ne hu, ← h.mem u]
      exact List.mem_cons.trans (or_iff_right hu)
  · rcases eq_or_ne u t with rfl | hu
    · obtain rfl := Option.some.inj (next.symm.trans hq)
      exact ⟨own.request, own.received, own.arrived⟩
    · rw [point_of_ne hu] at hq
      exact (h.tells u q hq).of_ne hu

/-- A request leaves. -/
theorem Agrees.leave (h : Agrees maxConnections s l)
    (at_ : (order maxConnections).point t l = some pc) (hi : pc.inside = true) :
    Agrees maxConnections { s with connections := s.connections - 1 } (.task t (.emit .leave) :: l) := by
  have mine : t ∈ inside l := (h.mem t).2 ⟨pc, at_, hi⟩
  have own := h.tells t pc at_
  have pos := List.length_pos_of_mem mine
  have next : (order maxConnections).point t (.task t (.emit (.leave : GateEvent α)) :: l) =
      some { pc with inside := false } := by
    rw [point_self, at_]
    rfl
  refine ⟨?_, Nat.le_trans (List.length_erase_le ..) h.few, h.once.erase t, fun u => ?_, fun u q hq => ?_⟩
  · show s.connections - 1 = (((inside l).erase t).length : ℕ)
    rw [h.connections, List.length_erase_of_mem mine]
    omega
  · rcases eq_or_ne u t with rfl | hu
    · refine iff_of_false (h.once.not_mem_erase) ?_
      rintro ⟨q, hq, hin⟩
      obtain rfl := Option.some.inj (next.symm.trans hq)
      cases hin
    · rw [point_of_ne hu, ← h.mem u]
      exact List.mem_erase_of_ne hu
  · rcases eq_or_ne u t with rfl | hu
    · obtain rfl := Option.some.inj (next.symm.trans hq)
      exact ⟨own.request, own.received, own.arrived⟩
    · rw [point_of_ne hu] at hq
      exact (h.tells u q hq).of_ne hu

end Log

/-- **The counter and the control points agree with the log**, in every run. -/
theorem maintained_agrees {C : Gate → List (GateItem α) → GateItem α → Prop} :
    (order maxConnections).Maintained (gate maxConnections) (fun s => s = {}) C
      (Agrees (α := α) maxConnections) where
  init h := by
    subst h
    exact ⟨rfl, Nat.zero_le _, .nil, fun _ => iff_of_false (fun h => by cases h) (fun ⟨_, h, _⟩ => by cases h),
      fun _ _ h => by cases h⟩
  start {s t p s' l} h fresh may _ := by
    obtain rfl := Option.some.inj may
    refine h.still rfl (fun q hq => ?_) ?_
    · obtain rfl := Option.some.inj hq
      refine ⟨if_pos rfl, ?_, ?_⟩
      · rw [uploaded, if_pos rfl]
        rfl
      · rw [uploaded, if_pos rfl]
        rfl
    · rw [h.mem t, fresh]
      refine iff_of_false (fun ⟨_, h, _⟩ => by cases h) ?_
      rintro ⟨q, hq, hi⟩
      obtain rfl := Option.some.inj hq
      cases hi
  wake {s t pc i r l} h at_ _ _ _ := by
    have own := h.tells t pc at_
    cases i with
    | message =>
      cases r with
      | message b =>
        refine h.goes at_ rfl rfl rfl ⟨own.request, ?_, ?_⟩
        · rw [uploaded, if_pos rfl, List.flatten_append, ← own.received]
          exact congrArg (pc.received ++ ·) (List.append_nil b).symm
        · rw [uploaded, if_pos rfl, List.length_append, ← own.arrived]
          rfl
      | _ => exact h.goes at_ rfl rfl rfl ⟨own.request, own.received, own.arrived⟩
    | endpoint body => exact h.goes at_ rfl rfl rfl ⟨own.request, own.received, own.arrived⟩
  emit {s t pc e l} h at_ ok _ := by
    have own := h.tells t pc at_
    cases e with
    | enter => exact h.enter at_ ok.1 ok.2
    | leave => exact h.leave at_ ok
    | reply r => exact h.goes at_ rfl rfl rfl ⟨own.request, own.received, own.arrived⟩
  toss {s t pc q b l} h at_ _ := by
    have own := h.tells t pc at_
    exact h.goes at_ rfl rfl rfl ⟨own.request, own.received, own.arrived⟩
  park {s t pc i l} h at_ _ _ := by
    have own := h.tells t pc at_
    exact h.goes at_ rfl rfl rfl ⟨own.request, own.received, own.arrived⟩
  stop {s t pc l} h at_ ok _ := by
    refine h.still rfl (fun q hq => by cases hq) ?_
    rw [h.mem t, at_]
    refine iff_of_false ?_ (fun ⟨_, h, _⟩ => by cases h)
    rintro ⟨q, hq, hi⟩
    obtain rfl := Option.some.inj hq
    exact Bool.false_ne_true (Eq.trans (Eq.symm ok) hi)
  drift h _ := ⟨h.connections, h.few, h.once, h.mem, fun t pc hp =>
    ⟨(h.tells t pc hp).request, (h.tells t pc hp).received, (h.tells t pc hp).arrived⟩⟩
  crash _ _ := ⟨rfl, Nat.zero_le _, .nil,
    fun _ => iff_of_false (fun h => by cases h) (fun ⟨_, h, _⟩ => by cases h), fun _ _ h => by cases h⟩

/-- So the counter is as promised. -/
theorem Agrees.counted {l : List (GateItem α)} (h : Agrees maxConnections s l) :
    Counted maxConnections s l where
  connections := h.connections
  few := h.few
  once := h.once
  live t ht := by
    obtain ⟨pc, hp, -⟩ := (h.mem t).1 ht
    rw [(h.tells t pc hp).request]
    rfl

/-- The entries of every run of the middleware satisfy `Good`. -/
def GateEnsures (maxConnections : ℕ) (Good : Gate → List (GateItem α) → GateItem α → Prop) : Prop :=
  ∀ ⦃m a m'⦄, (gate maxConnections).Reach (fun s => s = {}) (fun _ _ _ => True) m →
    (gate maxConnections).Step m a m' → ∀ x ∈ a, Good m.state m.log x

/-- **The connection counter never leaks, and no endpoint gets a partial or an oversized body.**
Whatever requests come, in any interleaving, and however they end, the counter is the number of
the requests that are inside, and there are never more than the limit. -/
theorem countsConnections (maxConnections : ℕ) :
    GateEnsures (α := α) maxConnections (Guards maxConnections) := by
  intro m a m' reach st x hx
  obtain rfl : a = some x := hx
  obtain ⟨P, tr, -⟩ := reach_traj order_holds reach
  have agrees := maintained_agrees.traj tr
  refine ⟨agrees.counted, ?_⟩
  match x with
  | .task t (.emit .enter) =>
    obtain ⟨P, pc, tr, hP, ok⟩ := ok_of_emit order_holds reach st
    have := ok.2
    have := agrees.connections
    show (inside m.log).length < maxConnections
    omega
  | .task t (.emit (.reply .limited)) =>
    obtain ⟨P, pc, tr, hP, ok⟩ := ok_of_emit order_holds reach st
    rw [tr.point_eq] at hP
    refine ⟨fun hm => ?_, ?_⟩
    · obtain ⟨q, hq, hi⟩ := (agrees.mem t).1 hm
      obtain rfl := Option.some.inj (hP.symm.trans hq)
      exact Bool.false_ne_true (ok.1.symm.trans hi)
    · have full : (maxConnections : ℤ) ≤ m.state.connections := ok.2
      have := agrees.connections
      have := agrees.few
      omega
  | .task t (.emit (.reply .tooLarge)) =>
    obtain ⟨P, pc, tr, hP, ok⟩ := ok_of_emit order_holds reach st
    rw [tr.point_eq] at hP
    have long : bodyLimit < pc.received.length := ok.2
    rwa [(agrees.tells t pc hP).received] at long
  | .task t (.park (.endpoint body)) =>
    obtain ⟨P, pc, tr, hP, ok⟩ := ok_of_park order_holds reach st
    rw [tr.point_eq] at hP
    have told := agrees.tells t pc hP
    refine ⟨(agrees.mem t).2 ⟨pc, hP, ok.1⟩, pc.request, told.request, ?_⟩
    have complete : pc.Complete body := ok.2
    cases body with
    | some b =>
      obtain ⟨hu, hb, ha, hl⟩ := complete
      exact ⟨hu, hb.trans told.received, told.arrived.symm.trans ha, hl⟩
    | none => exact complete
  | .task t (.emit .leave) | .task t (.emit (.reply .timedOut)) | .task t (.emit (.reply (.endpoint _)))
  | .task t (.park .message) | .task t (.start _) | .task t (.wake ..) | .task t (.toss ..)
  | .task t .stop | .drift _ | .crash => exact trivial

end Boundary
end MorpheusGateway
