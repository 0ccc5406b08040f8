/-
# What an error of the node says about the submission

An error labelled `notSubmitted` gives a reservation back and lets the gateway try again,
so the label has to be earned: the body's progress must not show that the mutation was
sent.  The progress is read for most errors.  The errors that are known by the beginning
of their text are labelled by it alone, whatever the progress says, and `not_submitted`
as the stage counts even beside a listed transaction.

`request_truthful_iff` finds the answers that are misread, among them the data of a
status that is no error for the HTTP client and no success either.
-/

import MorpheusGateway.Node

namespace MorpheusGateway

/-! ### Evidence -/

/-- The kind under which the node's journal lists the transaction a `POST` is made for. -/
def NodeCall.kind : NodeCall → String
  | openSession .. => "open"
  | closeSession .. => "close"
  | withdraw _ => "withdraw"
  | _ => ""

/-- The stage is one in which a transaction is being submitted. -/
def submitting (data : Json) : Bool :=
  match (data.getD "progress" (.obj [])).get "stage" with
  | .str stage => startsWithAny stage ["submitting_"]
  | _ => false

/-- The progress lists a transaction of the call's own kind. -/
def listed (call : NodeCall) (data : Json) : Bool :=
  match progressTransactions data with
  | .arr transactions => transactions.any fun t => t.get "kind" = .str call.kind
  | _ => false

/-- The body's progress shows a submission. -/
def showsSubmission (call : NodeCall) (data : Json) : Bool :=
  submitting data || listed call data

/-- **No answer to a `POST` is misread:** only an object is returned, of a status below
400 or naming the opened session; and an error says `notSubmitted` only for an object
that shows no submission. -/
structure Truthful (call : NodeCall) (a : Answer) : Prop where
  data : ∀ data, request call a = .ok data → data.isObject = true ∧
    ∃ status, a = .response status (some data) ∧
      (status < 400 ∨ call.isOpening = true ∧ (sessionId? data).isSome = true)
  label : ∀ e, request call a = .error (.gateway e) → e.outcome = .notSubmitted →
    ∃ status data, a = .response status (some data) ∧ data.isObject = true ∧
      showsSubmission call data = false

/-! ### Labels by the text -/

/-- The body's error text satisfies `f`. -/
def errorText (data : Json) (f : String → Bool) : Bool :=
  match data.getD "error" (.str "") with
  | .str m => f m
  | _ => false

/-- The contract's refusal of the duration, which is recognised before the texts below. -/
def tooShort (data : Json) : Bool :=
  errorText data fun m => hasText m "SessionTooShort" ||
    hasText m "gateway session duration below contract minimum"

/-- How the texts begin after which an opening is tried with the next provider. -/
def declinedTexts : List String :=
  ["provider healthcheck ping failed", "provider self-reports model as not serviceable",
    "failed to initiate session", "TEE attestation failed"]

/-- How the texts begin that end an opening before it is submitted. -/
def preflightTexts : List String :=
  ["failed to parse token supply", "failed to parse token budget", "failed to get bid",
    "failed to get provider", "failed to get my address", "cannot open session with own bid",
    "gateway stake limit exceeded", "invalid token supply", "invalid emissions budget"]

/-- How the texts begin that end a close before it is submitted. -/
def closeTexts : List String := ["cannot get private key", "failed to get session report from user"]

/-- The text alone makes the error of the call one of before the submission. -/
def unsentByText (call : NodeCall) (data : Json) : Bool :=
  (call.isOpening && !tooShort data &&
    errorText data (startsWithAny · (declinedTexts ++ preflightTexts))) ||
  (call.isClosing && errorText data (startsWithAny · closeTexts))

/-- A text that begins as one of two lists has it begins as one of either. -/
theorem errorText_append (data : Json) (ps qs : List String) :
    errorText data (startsWithAny · (ps ++ qs)) =
      (errorText data (startsWithAny · ps) || errorText data (startsWithAny · qs)) := by
  unfold errorText
  split
  · exact List.any_append
  · rfl

/-- **The label of a rejected `POST`** comes from the stage or from the text. -/
theorem rejection_outcome {call : NodeCall} (hp : call.isPost = true) (status : ℕ) (data : Json) :
    (rejection call status data).outcome = .notSubmitted ↔
      progressUnsent data = true ∨ unsentByText call data = true := by
  unfold rejection
  extract_lets transactions outcome message text
  have ht : ∀ f, text f = errorText data f := fun f => by
    simp only [text, message, errorText]
    cases data.getD "error" (.str "") <;> rfl
  have ho : outcome = .notSubmitted ↔ progressUnsent data = true := by
    simp only [outcome]
    split_ifs with h
    · exact iff_of_true rfl h
    · exact iff_of_false (fun h => by cases h) h
  clear_value text outcome
  simp only [ht]
  show (if (call.isOpening && tooShort data) = true then _
    else if (call.isOpening && errorText data (startsWithAny · declinedTexts)) = true then _
    else if (call.isOpening && errorText data (startsWithAny · preflightTexts)) = true then _
    else _ : GatewayError).outcome = _ ↔ _
  unfold unsentByText
  rw [errorText_append]
  have hc : errorText data (startsWithAny ·
      ["cannot get private key", "failed to get session report from user"]) =
    errorText data (startsWithAny · closeTexts) := rfl
  simp only [hc]
  generalize tooShort data = short, errorText data (startsWithAny · declinedTexts) = declined,
    errorText data (startsWithAny · preflightTexts) = preflight,
    errorText data (startsWithAny · closeTexts) = close
  cases call with
  | openSession =>
    cases short <;> cases declined <;> cases preflight <;>
      simp [NodeCall.isOpening, NodeCall.isClosing, NodeCall.isPost, ho]
  | closeSession =>
    cases close <;> simp [NodeCall.isOpening, NodeCall.isClosing, NodeCall.isPost, ho]
  | withdraw => simp [NodeCall.isOpening, NodeCall.isClosing, NodeCall.isPost, ho]
  | _ => cases hp

/-! ### Every answer -/

/-- The data of a response that is an object: it is returned, or rejected. -/
theorem request_object {call : NodeCall} {status : ℕ} {data : Json} (ho : data.isObject = true) :
    request call (.response status (some data)) =
      if ¬(400 ≤ status ∧ status ≤ 599) ∨
          call.isOpening = true ∧ (sessionId? data).isSome = true then .ok data
      else .error (.gateway (rejection call status data)) := by
  have hobj : objectResponse data = .ok data := if_pos ho
  simp only [request, hobj]
  show (if ¬(400 ≤ status ∧ status ≤ 599) then Except.ok data
    else if (call.isOpening && (sessionId? data).isSome) = true then Except.ok data
    else Except.error (Exc.gateway (rejection call status data))) = _
  simp only [Bool.and_eq_true]
  by_cases hs : 400 ≤ status ∧ status ≤ 599
  · by_cases hi : call.isOpening = true ∧ (sessionId? data).isSome = true
    · rw [if_neg (not_not_intro hs), if_pos hi, if_pos (.inr hi)]
    · rw [if_neg (not_not_intro hs), if_neg hi, if_neg (not_or_intro (not_not_intro hs) hi)]
  · rw [if_pos hs, if_pos (.inl hs)]

/-- Every other answer to a `POST` is an error, and none that says `notSubmitted`. -/
theorem request_other {call : NodeCall} (hp : call.isPost = true) {a : Answer}
    (hr : ∀ e, a ≠ .raised e)
    (hn : ∀ status data, a = .response status (some data) → data.isObject = false) :
    (∀ data, request call a ≠ .ok data) ∧
      ∀ e, request call a = .error (.gateway e) → e.outcome = .unknown := by
  have unknown : ∀ {x : Exc}, (∀ e, x = .gateway e → e.outcome = .unknown) →
      request call a = .error x → (∀ data, request call a ≠ .ok data) ∧
        ∀ e, request call a = .error (.gateway e) → e.outcome = .unknown := by
    intro x hx hq
    rw [hq]
    exact ⟨fun _ h => (by cases h), fun e he => hx e (Except.error.inj he)⟩
  have unreachable : (if call.isPost = true then Outcome.unknown else .notSubmitted) = .unknown :=
    if_pos hp
  cases a with
  | response status body =>
    cases body with
    | none => exact unknown (fun e he => by cases he; rfl) rfl
    | some data =>
      have hobj : objectResponse data =
          .error (refuse .nodeProtocol "Node returned an invalid object" 502) :=
        if_neg (by rw [hn status data rfl]; nofun)
      refine unknown (x := refuse .nodeProtocol "Node returned an invalid object" 502)
        (fun e he => by cases he; rfl) ?_
      simp only [request, hobj]
      rfl
  | oversized => exact unknown (fun e he => by cases he; rfl) rfl
  | transport => exact unknown (fun e he => by cases he; exact unreachable) rfl
  | timeout => exact unknown (fun e he => by cases he; exact unreachable) rfl
  | raised e => exact absurd rfl (hr e)
  | nested => exact unknown (x := .recursionError) (fun _ h => by cases h) rfl
  | cancelled | done => exact unknown (x := .cancelled) (fun _ h => by cases h) rfl

/-- **No answer to a `POST` is misread, exactly if** the status of an object is at most 599,
or it names the opened session, and an object of an error status that shows a submission
neither has the stage `not_submitted` nor a text that is taken for one of before the
submission. -/
theorem request_truthful_iff (call : NodeCall) (hp : call.isPost = true) (a : Answer)
    (hr : ∀ e, a ≠ .raised e) :
    Truthful call a ↔ ∀ status data, a = .response status (some data) → data.isObject = true →
      ¬(call.isOpening = true ∧ (sessionId? data).isSome = true) → 400 ≤ status →
        status ≤ 599 ∧ (showsSubmission call data = true →
          progressUnsent data = false ∧ unsentByText call data = false) := by
  constructor
  · intro h status data ha ho hi hs
    subst ha
    have h599 : status ≤ 599 := by
      by_contra hgt
      have hq : request call (.response status (some data)) = _ := request_object ho
      rw [if_pos (.inl fun hc => hgt hc.2)] at hq
      obtain ⟨-, st, hst, hlt | hop⟩ := h.data data hq
      · obtain ⟨rfl, -⟩ := Answer.response.inj hst
        omega
      · exact hi hop
    have hq : request call (.response status (some data)) = _ := request_object ho
    rw [if_neg (not_or_intro (not_not_intro ⟨hs, h599⟩) hi)] at hq
    have clean : (rejection call status data).outcome = .notSubmitted →
        showsSubmission call data = false := by
      intro hout
      obtain ⟨st, d, hst, -, hd⟩ := h.label _ hq hout
      obtain ⟨-, h2⟩ := Answer.response.inj hst
      obtain rfl := Option.some.inj h2
      exact hd
    refine ⟨h599, fun hsub => ?_⟩
    rw [rejection_outcome hp] at clean
    rw [hsub] at clean
    exact ⟨Bool.eq_false_iff.2 fun h1 => (nomatch clean (.inl h1)),
      Bool.eq_false_iff.2 fun h1 => (nomatch clean (.inr h1))⟩
  · intro h
    have other : (∀ status data, a = .response status (some data) → data.isObject = false) →
        Truthful call a := by
      intro hn
      obtain ⟨hd, hl⟩ := request_other hp hr hn
      exact ⟨fun data hq => absurd hq (hd data),
        fun e hq hout => nomatch (hl e hq).symm.trans hout⟩
    by_cases hobj : ∃ status data, a = .response status (some data) ∧ data.isObject = true
    · obtain ⟨status, data, rfl, ho⟩ := hobj
      have good := h status data rfl ho
      have hq : request call (.response status (some data)) = _ := request_object ho
      by_cases hdata : ¬(400 ≤ status ∧ status ≤ 599) ∨
          call.isOpening = true ∧ (sessionId? data).isSome = true
      · rw [if_pos hdata] at hq
        refine ⟨fun d hd => ?_, fun e he => nomatch hq.symm.trans he⟩
        obtain rfl := Except.ok.inj (hq.symm.trans hd)
        refine ⟨ho, status, rfl, ?_⟩
        by_contra hbad
        obtain ⟨hge, hi⟩ := not_or.1 hbad
        have hle := (good hi (by omega)).1
        exact hdata.elim (fun hn => hn ⟨by omega, hle⟩) hi
      · rw [if_neg hdata] at hq
        obtain ⟨herr, hi⟩ := not_or.1 hdata
        refine ⟨fun d hd => (nomatch hq.symm.trans hd), fun e he hout => ?_⟩
        obtain rfl := Exc.gateway.inj (Except.error.inj (hq.symm.trans he))
        refine ⟨status, data, rfl, ho, Bool.eq_false_iff.2 fun hsub => ?_⟩
        obtain ⟨hstage, htext⟩ := (good hi (not_not.1 herr).1).2 hsub
        rcases (rejection_outcome hp status data).1 hout with h1 | h1
        · exact nomatch hstage.symm.trans h1
        · exact nomatch htext.symm.trans h1
    · refine other fun status data ha => Bool.eq_false_iff.2 fun ho => hobj ⟨status, data, ha, ho⟩

/-- A declined opening whose progress says that its transaction is being submitted and
lists it. -/
def declinedWhileSubmitting : Json := .obj
  [("error", .str "failed to initiate session: connection reset"),
    ("progress", .obj [("stage", .str "submitting_open"),
      ("transactions", .arr [.obj [("kind", .str "open"), ("hash", .str "0x01")]])])]

/-- It is labelled `notSubmitted`. -/
theorem not_request_truthful : ¬∀ call : NodeCall, call.isPost = true → ∀ a : Answer,
    (∀ e, a ≠ .raised e) → Truthful call a := by
  intro h
  have sent : ∀ e, Answer.response 500 (some declinedWhileSubmitting) ≠ .raised e :=
    fun _ he => Answer.noConfusion he
  have t := h (.openSession "" 0 0 0) rfl (.response 500 (some declinedWhileSubmitting)) sent
  have good := (request_truthful_iff _ rfl _ sent).1 t 500 declinedWhileSubmitting rfl rfl
    (by decide +kernel) (by decide)
  exact absurd (good.2 (by decide +kernel)).2 (by decide +kernel)

/-- An opening that was rejected after its transaction was sent. -/
def reverted : Json := .obj
  [("error", .str "execution reverted"), ("progress", .obj [("stage", .str "submitting_open"),
    ("transactions", .arr [.obj [("kind", .str "open"), ("hash", .str "0x01")]])])]

/-- It is read truthfully. -/
theorem request_truthful_reverted :
    Truthful (.openSession "" 0 0 0) (.response 500 (some reverted)) := by
  refine (request_truthful_iff (.openSession "" 0 0 0) rfl _ fun e he => ?_).2 fun status data ha _ _ _ => ?_
  · cases he
  · obtain ⟨rfl, hd⟩ := Answer.response.inj ha
    obtain rfl := Option.some.inj hd
    exact ⟨by decide, fun _ => ⟨by decide +kernel, by decide +kernel⟩⟩

end MorpheusGateway
