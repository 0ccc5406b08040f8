/-
# The journal of a native operation

The patched node keeps a `GatewayProgress` for each wallet operation, in memory and in
a file.  `GatewayAttempt` moves its stage forward before a transaction is built,
`GatewayBuildFailure` moves it back when nothing can have been sent, and every call
writes the file, of which only the first looks at the error.  The gateway believes a
stage `not_submitted`: it releases the escrow.

`step` is one call of an operation, cut where a crash may come: the attempt, the
builder, and what follows the builder.  A failed write leaves the file as it was or
replaced, and a crash may show either, so `disk` has every content that the file may
show.  `sent` has the kinds of which a transaction may have been broadcast.
-/

import Mathlib.Data.List.Basic

namespace MorpheusGateway
namespace Native

/-! ### The calls of `gateway_progress.go` -/

/-- The kinds of transactions; `open` is the source's word for `opening`. -/
inductive Kind : Type where
  | approval | opening | close | withdraw
  deriving DecidableEq

/-- `GatewayProgress.Stage`. -/
inductive Stage : Type where
  | notSubmitted
  | submitting (kind : Kind)
  deriving DecidableEq

/-- `GatewayTransaction`. -/
structure Transaction where
  kind : Kind
  hash : String
  deriving DecidableEq

/-- `GatewayProgress`, without its clock. -/
structure Progress where
  stage : Stage := .notSubmitted
  completed : Bool := false
  httpStatus : ℕ := 0
  sessionId : String := ""
  transactions : List Transaction := []
  deriving DecidableEq

/-- How `persist` ends: it fails before or after its rename, or not at all. -/
inductive Write : Type where
  | done | unwritten | written
  deriving DecidableEq

/-- The progress in memory, whether it has a file, and what the file may show. -/
structure Journal where
  memory : Progress := {}
  hasFile : Bool
  disk : List Progress := []
  deriving DecidableEq

namespace Journal

/-- `persist`, and whether it returns no error. -/
def persist (j : Journal) (w : Write) : Journal × Bool :=
  if ¬j.hasFile then (j, true)
  else match w with
    | .done => ({ j with disk := [j.memory] }, true)
    | .unwritten => (j, false)
    | .written => ({ j with disk := j.memory :: j.disk }, false)

/-- Change the progress and write it, whatever comes of the write. -/
def record (j : Journal) (f : Progress → Progress) (w : Write) : Journal :=
  ({ j with memory := f j.memory }.persist w).1

/-- `GatewayAttempt`, and whether the call may go on. -/
def gatewayAttempt (j : Journal) (kind : Kind) (w : Write) : Journal × Bool :=
  let previous := j.memory.stage
  let (j, ok) := { j with memory := { j.memory with stage := .submitting kind } }.persist w
  if ok then (j, true)
  else ({ j with memory := { j.memory with stage := previous } }, false)

/-- `GatewayRecord`; `none` is a nil transaction. -/
def gatewayRecord (j : Journal) (kind : Kind) (tx : Option String) (w : Write) : Journal :=
  match tx with
  | some hash => j.record (fun p => { p with transactions := p.transactions ++ [⟨kind, hash⟩] }) w
  | none => j

/-- A transaction of this kind is recorded. -/
def Recorded (j : Journal) (kind : Kind) : Prop := ∃ tx ∈ j.memory.transactions, tx.kind = kind

instance (j : Journal) (kind : Kind) : Decidable (j.Recorded kind) := List.decidableBEx _ _

/-- `GatewayBuildFailure`. -/
def gatewayBuildFailure (j : Journal) (kind : Kind) (w : Write) : Journal :=
  if j.Recorded kind then j else j.record (fun p => { p with stage := .notSubmitted }) w

/-- `GatewaySession`. -/
def gatewaySession (j : Journal) (id : String) (w : Write) : Journal :=
  j.record (fun p => { p with sessionId := id }) w

/-- `Finish`. -/
def finish (j : Journal) (status : ℕ) (w : Write) : Journal :=
  j.record (fun p => { p with completed := true, httpStatus := status }) w

end Journal

/-- `BeginGatewayOperation` for a given ID: an operation whose file exists, or whose first
write fails, does not begin. -/
def beginGatewayOperation (exists_ : Bool) (w : Write) : Option Journal :=
  if exists_ then none
  else match ({ hasFile := true } : Journal).persist w with
    | (j, true) => some j
    | (_, false) => none

/-! ### An operation -/

/-- A call of a builder: the kind of its transaction, and whether it only builds it. -/
structure Call where
  kind : Kind
  noSend : Bool
  deriving DecidableEq

/-- Where an operation is. -/
inductive Phase : Type where
  | idle
  | building (c : Call)
  | returned (c : Call) (tx : Option String)
  | crashed
  deriving DecidableEq

/-- An operation: the kind of transaction it is for, its journal, the kinds of the calls
it has begun, and the kinds of which a transaction may have been broadcast. -/
structure Operated where
  mutation : Kind
  journal : Journal
  phase : Phase := .idle
  called : List Kind := []
  sent : List Kind := []
  deriving DecidableEq

/-- What can happen. -/
inductive Action : Type where
  | attempt (c : Call) (w : Write)
  /-- The builder returns a transaction or an error, and a sending one has or has not
  broadcast its transaction. -/
  | build (tx : Option String) (broadcast : Bool)
  | settle (w : Write)
  | session (id : String) (w : Write)
  | finish (status : ℕ) (w : Write)
  | crash
  deriving DecidableEq

namespace Operated

/-- The calls of an operation are of its own kind, or approvals before its first opening. -/
def allowed (o : Operated) (kind : Kind) : Bool :=
  kind = o.mutation || (kind = .approval && o.mutation = .opening && .opening ∉ o.called)

/-- One step of an operation. -/
def step (o : Operated) : Action → Option Operated
  | .attempt c w =>
    if o.phase = .idle ∧ o.allowed c.kind then
      match o.journal.gatewayAttempt c.kind w with
      | (j, true) => some { o with
          journal := j, phase := .building c, called := c.kind :: o.called }
      | (j, false) => some { o with journal := j }
    else none
  | .build tx broadcast =>
    match o.phase with
    | .building c =>
      if c.noSend ∧ broadcast then none
      else some { o with
        phase := .returned c tx, sent := if broadcast then c.kind :: o.sent else o.sent }
    | _ => none
  | .settle w =>
    match o.phase with
    | .returned c tx =>
      let j := if c.noSend ∧ tx = none then o.journal.gatewayBuildFailure c.kind w else o.journal
      some { o with journal := j.gatewayRecord c.kind tx w, phase := .idle }
    | _ => none
  | .session id w =>
    if o.phase = .idle then some { o with journal := o.journal.gatewaySession id w } else none
  | .finish status w =>
    if o.phase = .idle then some { o with journal := o.journal.finish status w } else none
  | .crash => some { o with phase := .crashed }

/-- An operation that begins, with a file or, without an ID, none. -/
inductive Begun : Operated → Prop
  | named {mutation w j} (h : beginGatewayOperation false w = some j) : Begun { mutation, journal := j }
  | unnamed {mutation} : Begun { mutation, journal := { hasFile := false } }

/-- The operations reached by steps that satisfy `C`. -/
inductive Reach (C : Operated → Action → Prop) : Operated → Prop
  | begun {o} (h : Begun o) : Reach C o
  | step {o a o'} (reach : Reach C o) (ok : C o a) (step : o.step a = some o') : Reach C o'

/-- **The journal fails closed**: where the file or the memory says `not_submitted`, no
transaction of the operation's kind can have been broadcast. -/
def FailsClosed (o : Operated) : Prop :=
  o.mutation ∈ o.sent → (∀ p ∈ o.journal.disk, p.stage ≠ .notSubmitted) ∧
    (o.phase ≠ .crashed → o.journal.memory.stage ≠ .notSubmitted)

/-- The step does not forget a transaction: when a call of the operation's kind fails to
build, none may have been broadcast before, or one is recorded. -/
def Remembers (o : Operated) : Action → Prop
  | .settle _ => ∀ c, o.phase = .returned c none → c.noSend = true → c.kind = o.mutation →
      o.mutation ∈ o.sent → o.journal.Recorded o.mutation
  | _ => True

end Operated

/-! ### What the calls do to the journal -/

namespace Journal

variable {j : Journal} {p : Progress} {kind : Kind} {w : Write}

/-- What the file may show after a write: the progress that was written, or what it showed
before. -/
theorem mem_disk_persist (hp : p ∈ (j.persist w).1.disk) : p = j.memory ∨ p ∈ j.disk := by
  unfold persist at hp
  split at hp
  · exact .inr hp
  · cases w with
    | done => exact .inl (List.mem_singleton.1 hp)
    | unwritten => exact .inr hp
    | written => exact List.mem_cons.1 hp

/-- Persisting leaves the memory. -/
theorem persist_memory (j : Journal) (w : Write) : (j.persist w).1.memory = j.memory := by
  unfold persist
  split
  · rfl
  · cases w <;> rfl

/-- A write that returns no error leaves no other content behind, if there is a file. -/
theorem mem_disk_of_persisted (h : (j.persist w).2 = true) (hp : p ∈ (j.persist w).1.disk)
    (hfile : j.hasFile = false → j.disk = []) : p = j.memory := by
  unfold persist at h hp
  split at hp
  · rename_i hf
    rw [hfile (by simpa using hf)] at hp
    exact absurd hp List.not_mem_nil
  · rename_i hf
    rw [if_neg hf] at h
    cases w with
    | done => exact List.mem_singleton.1 hp
    | unwritten => exact nomatch h
    | written => exact nomatch h

/-- It leaves no entries without a file. -/
theorem persist_file (hfile : j.hasFile = false → j.disk = []) :
    (j.persist w).1.hasFile = false → (j.persist w).1.disk = [] := by
  unfold persist
  split
  · exact hfile
  · rename_i hf
    cases w <;> exact fun h => absurd (by simpa using hf) (Bool.eq_false_iff.1 h)

/-- An attempt that may go on is on disk; the others leave the stage as it was. -/
theorem gatewayAttempt_ok (hfile : j.hasFile = false → j.disk = []) {j' : Journal}
    (h : j.gatewayAttempt kind w = (j', true)) :
    j'.memory.stage = .submitting kind ∧ j'.memory.transactions = j.memory.transactions ∧
      (∀ p ∈ j'.disk, p.stage = .submitting kind) ∧ (j'.hasFile = false → j'.disk = []) := by
  set k : Journal := { j with memory := { j.memory with stage := .submitting kind } } with hk
  have hkf : k.hasFile = false → k.disk = [] := hfile
  rw [gatewayAttempt, ← hk] at h
  cases hw : k.persist w with
  | mk l ok =>
    cases ok with
    | false => rw [hw] at h; exact nomatch (congrArg Prod.snd h)
    | true =>
      rw [hw] at h
      obtain rfl : l = j' := congrArg Prod.fst h
      have hok : (k.persist w).2 = true := by rw [hw]
      have hmem : l.memory = k.memory := by rw [← persist_memory k w, hw]
      have hl : l = (k.persist w).1 := by rw [hw]
      refine ⟨by rw [hmem], by rw [hmem], fun p hp => ?_, ?_⟩
      · have shown : p = k.memory := mem_disk_of_persisted hok (hl ▸ hp) hkf
        rw [shown]
      · rw [hl]
        exact persist_file hkf

/-- An attempt that fails may leave the file with the submission. -/
theorem gatewayAttempt_failed (hfile : j.hasFile = false → j.disk = []) {j' : Journal}
    (h : j.gatewayAttempt kind w = (j', false)) :
    j'.memory = j.memory ∧ (∀ p ∈ j'.disk, p.stage = .submitting kind ∨ p ∈ j.disk) ∧
      (j'.hasFile = false → j'.disk = []) := by
  set k : Journal := { j with memory := { j.memory with stage := .submitting kind } } with hk
  have hkf : k.hasFile = false → k.disk = [] := hfile
  rw [gatewayAttempt, ← hk] at h
  cases hw : k.persist w with
  | mk l ok =>
    cases ok with
    | true => rw [hw] at h; exact nomatch (congrArg Prod.snd h)
    | false =>
      rw [hw] at h
      have hj : { l with memory := { l.memory with stage := j.memory.stage } } = j' :=
        congrArg Prod.fst h
      have hmem : l.memory = k.memory := by rw [← persist_memory k w, hw]
      have hl : l = (k.persist w).1 := by rw [hw]
      subst hj
      refine ⟨by simp only [hmem, hk], fun p hp => ?_, ?_⟩
      · rcases mem_disk_persist (hl ▸ hp : p ∈ (k.persist w).1.disk) with rfl | hp
        · exact .inl rfl
        · exact .inr hp
      · show l.hasFile = false → l.disk = []
        rw [hl]
        exact persist_file hkf

/-- What is recorded is in memory, and the file may show it. -/
theorem record_memory (j : Journal) (f : Progress → Progress) (w : Write) :
    (j.record f w).memory = f j.memory := persist_memory _ _

/-- What is in the file after a record is the record, or was there. -/
theorem mem_disk_record {f : Progress → Progress} (hp : p ∈ (j.record f w).disk) :
    p = f j.memory ∨ p ∈ j.disk := mem_disk_persist hp

/-- A record leaves no entries without a file. -/
theorem record_file {f : Progress → Progress} (hfile : j.hasFile = false → j.disk = []) :
    (j.record f w).hasFile = false → (j.record f w).disk = [] :=
  persist_file (j := { j with memory := f j.memory }) hfile

end Journal

namespace Operated

/-! ### The invariant -/

/-- The call that is between its attempt and what follows its builder. -/
def call (o : Operated) : Option Call :=
  match o.phase with
  | .building c | .returned c _ => some c
  | _ => none

/-- What every step keeps: while a call is under way, its attempt is all that the memory
and the file show, and an approval comes before every opening. -/
structure Inv (o : Operated) : Prop where
  closed : o.FailsClosed
  file : o.journal.hasFile = false → o.journal.disk = []
  called : o.mutation ∈ o.sent → o.mutation ∈ o.called
  stage : ∀ c, o.call = some c → o.journal.memory.stage = .submitting c.kind ∧
    ∀ p ∈ o.journal.disk, p.stage = .submitting c.kind
  order : ∀ c, o.call = some c → c.kind = o.mutation ∧ o.mutation ∈ o.called ∨
    c.kind ≠ o.mutation ∧ o.mutation ∉ o.called

variable {o o' : Operated}

/-- The invariant holds at the beginning. -/
theorem Begun.inv (h : Begun o) : o.Inv := by
  cases h with
  | @named mutation w j h =>
    unfold beginGatewayOperation at h
    have hfile : ({ hasFile := true } : Journal).hasFile = false →
        ({ hasFile := true } : Journal).disk = [] := nofun
    split at h
    · exact nomatch h
    · split at h
      · rename_i j' hj
        obtain rfl := Option.some.inj h
        refine ⟨nofun, ?_, nofun, nofun, nofun⟩
        have := Journal.persist_file (w := w) hfile
        rwa [hj] at this
      · exact nomatch h
  | unnamed => exact ⟨nofun, fun _ => rfl, nofun, nofun, nofun⟩

/-- Recording more of the progress keeps the invariant between calls, unless it takes the
stage back after a transaction may have been broadcast. -/
theorem Inv.record (h : o.Inv) (f : Progress → Progress) (w : Write) (ph : Phase)
    (hph : ph = .idle)
    (hf : o.mutation ∈ o.sent → (f o.journal.memory).stage ≠ .notSubmitted) :
    Inv { o with journal := o.journal.record f w, phase := ph } where
  closed hs := by
    refine ⟨fun p hp => ?_, fun _ => ?_⟩
    · rcases Journal.mem_disk_record hp with rfl | hp
      · exact hf hs
      · exact (h.closed hs).1 p hp
    · show (o.journal.record f w).memory.stage ≠ .notSubmitted
      rw [Journal.record_memory]
      exact hf hs
  file := Journal.record_file h.file
  called := h.called
  stage c hc := by subst hph; exact nomatch hc
  order c hc := by subst hph; exact nomatch hc

/-- An attempt keeps it. -/
theorem Inv.attempt (h : o.Inv) {c : Call} {w : Write}
    (hs : o.step (.attempt c w) = some o') : o'.Inv := by
  simp only [step] at hs
  split at hs
  · rename_i ok
    obtain ⟨hph, hallowed⟩ := ok
    have order : c.kind = o.mutation ∨ c.kind ≠ o.mutation ∧ o.mutation ∉ o.called := by
      rw [allowed, Bool.or_eq_true, decide_eq_true_eq] at hallowed
      rcases hallowed with hk | hk
      · exact .inl hk
      · obtain ⟨⟨hk, hm⟩, hn⟩ : (c.kind = .approval ∧ o.mutation = .opening) ∧ .opening ∉ o.called := by
          simpa using hk
        refine .inr ⟨?_, hm ▸ hn⟩
        rw [hk, hm]
        nofun
    have idle : o.phase ≠ .crashed := by rw [hph]; nofun
    split at hs
    · rename_i j hj
      obtain rfl := Option.some.inj hs
      obtain ⟨hstage, -, hdisk, hfile⟩ := Journal.gatewayAttempt_ok h.file hj
      refine ⟨fun _ => ⟨fun p hp => ?_, fun _ => ?_⟩, hfile, fun hm => .tail _ (h.called hm),
        fun d hd => ?_, fun d hd => ?_⟩
      · rw [hdisk p hp]
        nofun
      · show j.memory.stage ≠ .notSubmitted
        rw [hstage]
        nofun
      · obtain rfl : c = d := Option.some.inj hd
        exact ⟨hstage, hdisk⟩
      · obtain rfl : c = d := Option.some.inj hd
        rcases order with hk | ⟨hne, hn⟩
        · exact .inl ⟨hk, hk ▸ .head _⟩
        · exact .inr ⟨hne, fun hm => (List.mem_cons.1 hm).elim (hne ∘ Eq.symm) hn⟩
    · rename_i j hj
      obtain rfl := Option.some.inj hs
      obtain ⟨hmem, hdisk, hfile⟩ := Journal.gatewayAttempt_failed h.file hj
      refine ⟨fun hm => ⟨fun p hp => ?_, fun _ => ?_⟩, hfile, h.called, fun d hd => ?_, fun d hd => ?_⟩
      · rcases hdisk p hp with hp | hp
        · rw [hp]
          nofun
        · exact (h.closed hm).1 p hp
      · show j.memory.stage ≠ .notSubmitted
        rw [hmem]
        exact (h.closed hm).2 idle
      · rw [call, hph] at hd
        exact nomatch hd
      · rw [call, hph] at hd
        exact nomatch hd
  · exact nomatch hs

/-- A builder sends only what its attempt has put on disk. -/
theorem Inv.build (h : o.Inv) {tx : Option String} {broadcast : Bool}
    (hs : o.step (.build tx broadcast) = some o') : o'.Inv := by
  simp only [step] at hs
  split at hs
  · rename_i c hph
    have hcall : o.call = some c := by rw [call, hph]
    split at hs
    · exact nomatch hs
    · obtain rfl := Option.some.inj hs
      obtain ⟨hstage, hdisk⟩ := h.stage c hcall
      refine ⟨fun _ => ⟨fun p hp => ?_, fun _ => ?_⟩, h.file, fun hm => ?_, fun d hd => ?_, fun d hd => ?_⟩
      · rw [hdisk p hp]
        nofun
      · show o.journal.memory.stage ≠ .notSubmitted
        rw [hstage]
        nofun
      · cases broadcast with
        | false => exact h.called hm
        | true =>
          rcases List.mem_cons.1 hm with hk | hm
          · rcases h.order c hcall with ⟨-, hc⟩ | ⟨hne, -⟩
            · exact hc
            · exact absurd hk.symm hne
          · exact h.called hm
      · obtain rfl : c = d := Option.some.inj hd
        exact ⟨hstage, hdisk⟩
      · obtain rfl : c = d := Option.some.inj hd
        exact h.order c hcall
  · exact nomatch hs

/-- What follows the builder takes the stage back only if it remembers. -/
theorem Inv.settle (h : o.Inv) {w : Write} (hr : o.Remembers (.settle w))
    (hs : o.step (.settle w) = some o') : o'.Inv := by
  simp only [step] at hs
  split at hs
  · rename_i c tx hph
    obtain rfl := Option.some.inj hs
    have hcall : o.call = some c := by rw [call, hph]
    have live : o.phase ≠ .crashed := by rw [hph]; nofun
    have kept : Inv { o with phase := .idle } :=
      ⟨fun hm => ⟨(h.closed hm).1, fun _ => (h.closed hm).2 live⟩, h.file, h.called, nofun, nofun⟩
    cases tx with
    | some hash =>
      simp only [reduceCtorEq, and_false, if_false]
      exact h.record (fun p => { p with transactions := p.transactions ++ [⟨c.kind, hash⟩] }) w .idle
        rfl fun hm => (h.closed hm).2 live
    | none =>
      by_cases hn : c.noSend = true
      · simp only [hn, and_self, if_true, Journal.gatewayRecord, Journal.gatewayBuildFailure]
        split
        · exact kept
        · rename_i hrec
          refine h.record _ w .idle rfl fun hm => ?_
          rcases h.order c hcall with ⟨hk, -⟩ | ⟨-, hnot⟩
          · exact absurd (hk ▸ hr c hph hn hk hm) hrec
          · exact absurd (h.called hm) hnot
      · simp only [hn, Journal.gatewayRecord]
        exact kept
  · exact nomatch hs

/-- **One step keeps the invariant**, if it remembers what may have been broadcast. -/
theorem Inv.step (h : o.Inv) {a : Action} (hr : o.Remembers a) (hs : o.step a = some o') :
    o'.Inv := by
  cases a with
  | attempt c w => exact h.attempt hs
  | build tx broadcast => exact h.build hs
  | settle w => exact h.settle hr hs
  | session id w =>
    simp only [Operated.step, Option.ite_none_right_eq_some] at hs
    obtain ⟨hph, hs⟩ := hs
    obtain rfl := Option.some.inj hs
    have live : o.phase ≠ .crashed := by rw [hph]; nofun
    exact h.record _ w o.phase hph fun hm => (h.closed hm).2 live
  | finish status w =>
    simp only [Operated.step, Option.ite_none_right_eq_some] at hs
    obtain ⟨hph, hs⟩ := hs
    obtain rfl := Option.some.inj hs
    have live : o.phase ≠ .crashed := by rw [hph]; nofun
    exact h.record _ w o.phase hph fun hm => (h.closed hm).2 live
  | crash =>
    obtain rfl := Option.some.inj hs
    exact ⟨fun hm => ⟨(h.closed hm).1, fun hne => absurd rfl hne⟩, h.file, h.called, nofun, nofun⟩

/-! ### Runs -/

/-- **The journal fails closed on every run that remembers.** -/
theorem failsClosed_of_reach (h : Reach Remembers o) :
    o.mutation ∈ o.sent → (∀ p ∈ o.journal.disk, p.stage ≠ .notSubmitted) ∧
      (o.phase ≠ .crashed → o.journal.memory.stage ≠ .notSubmitted) := by
  have inv : o.Inv := by
    induction h with
    | begun hb => exact hb.inv
    | step _ ok hs ih => exact ih.step ok hs
  exact inv.closed

/-- A step that forgets breaks the promise at once. -/
theorem not_failsClosed_of_forgets {w : Write} (hr : ¬o.Remembers (.settle w))
    (hs : o.step (.settle w) = some o') : ¬o'.FailsClosed := by
  simp only [Remembers, not_forall] at hr
  obtain ⟨c, hph, hn, hk, hm, hrec⟩ := hr
  simp only [Operated.step, hph, hn, and_self, if_true, Journal.gatewayRecord,
    Journal.gatewayBuildFailure, hk, hrec, if_false] at hs
  obtain rfl := Option.some.inj hs
  intro hc
  refine (hc hm).2 nofun ?_
  rw [Journal.record_memory]

/-- An opening that is sent and returns no transaction, and one that fails to build. -/
def forgetful : List Action :=
  [.attempt ⟨.opening, false⟩ .done, .build none true, .settle .done,
    .attempt ⟨.opening, true⟩ .done, .build none false, .settle .done]

/-- Run the actions. -/
def run (o : Operated) (as : List Action) : Option Operated := as.foldlM step o

/-- What actions lead to is reached. -/
theorem reach_run {l : List Action} : ∀ {o o' : Operated}, Reach (fun _ _ => True) o →
    o.run l = some o' → Reach (fun _ _ => True) o' := by
  induction l with
  | nil =>
    intro o o' r h
    obtain rfl := Option.some.inj h
    exact r
  | cons a as ih =>
    intro o o' r h
    rw [run, List.foldlM_cons] at h
    obtain ⟨o1, h1, h2⟩ := Option.bind_eq_some_iff.1 h
    exact ih (.step r trivial h1) h2

/-- The journal of this operation says `not_submitted` although it was sent. -/
theorem not_failsClosed : ¬∀ o, Reach (fun _ _ => True) o → o.FailsClosed := by
  intro h
  have begun : Begun { mutation := .opening, journal := { hasFile := true, disk := [{}] } } :=
    .named (w := .done) rfl
  have reached := reach_run (l := forgetful) (.begun begun) rfl
  exact (h _ reached (by decide)).1 _ (.head _) rfl

/-- A plain opening that is sent, and whose hash is lost by a failed write. -/
theorem failsClosed_of_lost_write :
    let o : Operated := { mutation := .opening, journal := { hasFile := true, disk := [{}] } }
    ∃ o', o.run [.attempt ⟨.opening, false⟩ .done, .build (some "0x1") true, .settle .unwritten] = some o' ∧
      (o'.mutation ∈ o'.sent → (∀ p ∈ o'.journal.disk, p.stage ≠ .notSubmitted) ∧
        (o'.phase ≠ .crashed → o'.journal.memory.stage ≠ .notSubmitted)) := by
  refine ⟨_, rfl, failsClosed_of_reach ?_⟩
  have begun : Begun { mutation := .opening, journal := { hasFile := true, disk := [{}] } } :=
    .named (w := .done) rfl
  have attempted : Reach Remembers _ :=
    .step (.begun begun) (a := .attempt ⟨.opening, false⟩ .done) trivial rfl
  have built : Reach Remembers _ := .step attempted (a := .build (some "0x1") true) trivial rfl
  refine .step built (a := .settle .unwritten) ?_ rfl
  exact fun c h => nomatch h

end Operated
end Native
end MorpheusGateway
