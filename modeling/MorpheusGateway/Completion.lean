/-
# Chat completions

`validate_completion` over the values that `strict_json` makes, and the event of a stream:
read, validated and written again.  Every check that fails raises the same error with a
message of its own, so the checks compute the message.
-/

import MorpheusGateway.StrictJson
import MorpheusGateway.Transport

namespace MorpheusGateway
namespace Text

/-! ### What Python asks of a value -/

namespace Value

/-- `isinstance(x, dict)`. -/
def isDict : Value → Bool
  | .obj _ => true
  | _ => false

/-- `isinstance(x, list)`. -/
def isList : Value → Bool
  | .arr _ => true
  | _ => false

/-- `isinstance(x, str)`. -/
def isStr : Value → Bool
  | .str _ => true
  | _ => false

/-- `x is None`. -/
def isNone : Value → Bool
  | .null => true
  | _ => false

/-- `x == text`. -/
def eqStr (x : Value) (text : String) : Bool :=
  match x with
  | .str s => s = chars text
  | _ => false

/-- `type(x) is int and x >= 0`. -/
def isCount : Value → Bool
  | .int n => 0 ≤ n
  | _ => false

/-- The items of a list. -/
def items : Value → List Value
  | .arr xs => xs
  | _ => []

/-- `x.get(key)` of a dictionary: `None` where there is no such member. -/
def get (x : Value) (key : String) : Value :=
  match x with
  | .obj ms => (ms.lookup (chars key)).getD .null
  | _ => .null

/-- `key in x`. -/
def has (x : Value) (key : String) : Bool :=
  match x with
  | .obj ms => ms.any fun m => m.1 = chars key
  | _ => false

end Value

/-! ### The checks -/

/-- A check: the message of the error where the condition holds. -/
def failIf (condition : Bool) (message : String) : Except String Unit :=
  if condition then .error message else .ok ()

/-- What the checks refuse as a function call. -/
def badFunction (stream : Bool) (fn : Value) : Bool :=
  !fn.isDict || ["name", "arguments"].any fun k => (!stream || fn.has k) && !(fn.get k).isStr

/-- The checks of a tool call. -/
def checkCall (stream : Bool) (call : Value) : Except String Unit := do
  failIf (!call.isDict) "Provider returned an invalid tool call"
  failIf (stream && !(call.get "index").isCount) "Provider returned an invalid tool index"
  failIf (!stream && (!(call.get "id").isStr || !(call.get "type").eqStr "function"))
    "Provider returned an invalid tool identity"
  let fn := call.get "function"
  failIf ((!stream || !fn.isNone) && badFunction stream fn)
    "Provider returned an invalid function call"

/-- The checks of a choice. -/
def checkChoice (stream : Bool) (choice : Value) : Except String Unit := do
  let message := choice.get (if stream then "delta" else "message")
  failIf (!choice.isDict || !message.isDict) "Provider returned an invalid choice"
  failIf (!stream && !(message.get "role").eqStr "assistant")
    "Provider returned an invalid assistant role"
  failIf (message.has "role" && !(message.get "role").eqStr "assistant")
    "Provider returned an invalid assistant role"
  failIf (["content", "refusal", "reasoning_content", "reasoning"].any fun field =>
      !(message.get field).isNone && !(message.get field).isStr)
    "Provider returned invalid assistant text"
  failIf (!stream && !(["content", "refusal", "reasoning_content", "reasoning", "tool_calls",
      "function_call"].any fun k => !(message.get k).isNone))
    "Provider returned an empty assistant message"
  failIf (choice.has "index" && !(choice.get "index").isCount)
    "Provider returned an invalid choice index"
  failIf (!(choice.get "finish_reason").isNone && !(choice.get "finish_reason").isStr)
    "Provider returned an invalid finish reason"
  let calls := message.get "tool_calls"
  unless calls.isNone do
    failIf (!calls.isList) "Provider returned invalid tool calls"
    calls.items.forM (checkCall stream)
  let fn := message.get "function_call"
  failIf (!fn.isNone && badFunction stream fn) "Provider returned an invalid function call"

/-- The checks of a completion. -/
def checkCompletion (stream : Bool) (value : Value) : Except String Unit := do
  let _ ← (validJsonTree value).mapError fun _ => "Provider returned invalid JSON values"
  let expected := if stream then "chat.completion.chunk" else "chat.completion"
  failIf (!value.isDict || value.has "error" || !(value.get "object").eqStr expected ||
      !(value.get "id").isStr || !(value.get "choices").isList)
    "Provider returned an invalid chat response"
  let choices := (value.get "choices").items
  failIf (!stream && choices.isEmpty) "Provider returned no completion choices"
  choices.forM (checkChoice stream)
  let usage := value.get "usage"
  unless usage.isNone do
    failIf (!usage.isDict) "Provider returned invalid usage"
    failIf (["prompt_tokens", "completion_tokens", "total_tokens"].any fun field =>
        usage.has field && !(usage.get field).isCount)
      "Provider returned invalid token counts"
  failIf (stream && choices.isEmpty && !usage.isDict) "Provider returned an empty stream event"

/-- The error of an answer that is no completion. -/
def protocolError (message : String) : Exc := refuse .providerProtocol message 502

/-- `validate_completion`. -/
def validateCompletion (stream : Bool) (value : Value) : Except Exc Value :=
  ((checkCompletion stream value).mapError protocolError).map fun _ => value

/-- A completion that is accepted is unchanged. -/
theorem validateCompletion_ok {stream : Bool} {x y : Value}
    (h : validateCompletion stream x = .ok y) : x = y := by
  unfold validateCompletion at h
  cases hc : checkCompletion stream x with
  | error m =>
    rw [hc] at h
    exact nomatch h
  | ok u =>
    rw [hc] at h
    exact Except.ok.inj h

/-- One that is refused is a protocol error. -/
theorem validateCompletion_error {stream : Bool} {x : Value} {e : Exc}
    (h : validateCompletion stream x = .error e) : ∃ m, e = protocolError m := by
  unfold validateCompletion at h
  cases hc : checkCompletion stream x with
  | error m =>
    rw [hc] at h
    exact ⟨m, (Except.error.inj h).symm⟩
  | ok u =>
    rw [hc] at h
    exact nomatch h

/-! ### Events -/

/-- `separators=(",", ":")`. -/
def compact : Style := ⟨true, chars ",", chars ":"⟩

/-- What `chat_events` makes of the value of an event. -/
def event (L : Loader) (value : Transport.Bytes) : Except Exc Transport.Bytes :=
  match strictJson L value with
  | .error _ => .error (protocolError "Provider stream contained an invalid event")
  | .ok parsed => do
    let _ ← validateCompletion true parsed
    match (write compact parsed).bind utf8 with
    | some text => .ok text
    | none => .error .valueError

end Text
end MorpheusGateway
