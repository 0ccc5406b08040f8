/-
# Provider streams

`chat_events` decodes a provider's stream of events as its chunks arrive.  `reference` is
the decoder that sees the whole stream; `Guarantees/Decoding.lean` compares the two.

What an event is, how it is checked and how it is written again is the parameter
`event` here: the decoder does not look into it.
-/

import MorpheusGateway.Node

namespace MorpheusGateway
namespace Transport

abbrev Bytes := List UInt8

/-- The bytes of an ASCII text. -/
def ascii (s : String) : Bytes := s.toList.map fun c => UInt8.ofNat c.toNat

/-! ### Frames -/

/-- `buffer.replace(b"\r\n", b"\n")`. -/
def normalize : Bytes → Bytes
  | 13 :: 10 :: bs => 10 :: normalize bs
  | b :: bs => b :: normalize bs
  | [] => []

/-- No CR LF begins at the first byte. -/
theorem normalize_cons {b : UInt8} {bs : Bytes} (h : ∀ cs, b = 13 → bs ≠ 10 :: cs) :
    normalize (b :: bs) = b :: normalize bs := by
  rw [normalize.eq_2]
  rintro cs rfl rfl
  exact h _ rfl rfl

/-- The frames that a blank line ends, and what is left: `buffer.split(b"\n\n", 1)` as long
as there is a blank line. -/
def frames : Bytes → List Bytes × Bytes
  | 10 :: 10 :: bs =>
    let (fs, rest) := frames bs
    ([] :: fs, rest)
  | b :: bs =>
    match frames bs with
    | ([], rest) => ([], b :: rest)
    | (f :: fs, rest) => ((b :: f) :: fs, rest)
  | [] => ([], [])

/-- No blank line begins at the first byte. -/
theorem frames_cons {b : UInt8} {bs : Bytes} (h : ∀ cs, b = 10 → bs ≠ 10 :: cs) :
    frames (b :: bs) = match frames bs with
      | ([], rest) => ([], b :: rest)
      | (f :: fs, rest) => ((b :: f) :: fs, rest) := by
  rw [frames.eq_2]
  rintro cs rfl rfl
  exact h _ rfl rfl

/-- `frame.split(b"\n")`, after the part `line` of the first line. -/
def linesFrom : Bytes → Bytes → List Bytes
  | line, 10 :: bs => line :: linesFrom [] bs
  | line, b :: bs => linesFrom (line ++ [b]) bs
  | line, [] => [line]

/-- The values of the frame's `data:` lines. -/
def dataValues (frame : Bytes) : List Bytes :=
  ((linesFrom [] frame).filter fun line => (ascii "data:").isPrefixOf line).map fun line =>
    (line.drop 5).dropWhile (· = 32)

/-- `b"\n".join(values)`. -/
def joinLines (values : List Bytes) : Bytes := [10].intercalate values

/-- The last frame of a stream that is complete. -/
def doneFrame : Bytes := ascii "data: [DONE]\n\n"

/-- How `chat_events` ends. -/
inductive Ending : Type where
  | done
  | raised (e : Exc)
  deriving DecidableEq

section Decoder

-- What a frame's value becomes: an event that was parsed, validated and written again.
variable (event : Bytes → Except Exc Bytes)

/-- The frames in turn: what is yielded, and the end if there is one. -/
def yieldFrames : List Bytes → List Bytes × Option Ending
  | [] => ([], none)
  | frame :: rest =>
    match dataValues frame with
    | [] => yieldFrames rest
    | values =>
      let value := joinLines values
      if value = ascii "[DONE]" then
        ([doneFrame], some .done)
      else match event value with
        | .error e => ([], some (.raised e))
        | .ok text =>
          let (ys, ending) := yieldFrames rest
          ((ascii "data: " ++ text ++ ascii "\n\n") :: ys, ending)

/-- The error of a stream that is too large. -/
def tooLarge : Exc :=
  refuse .providerResponseTooLarge "Provider stream exceeded the configured limit" 502

/-- The error of a stream that is not complete. -/
def interrupted : Exc :=
  refuse .streamInterrupted "Provider stream ended before completion" 502

/-- The largest buffer. -/
def bufferLimit : ℕ := 2 * 1024 * 1024

/-- The loop of `chat_events` over the chunks. -/
def chatLoop (limit : ℕ) : Bytes → ℕ → List Bytes → List Bytes × Ending
  | _, _, [] => ([], .raised interrupted)
  | buffer, total, chunk :: rest =>
    let total := total + chunk.length
    if limit < total ∨ bufferLimit < buffer.length + chunk.length then
      ([], .raised tooLarge)
    else
      let (fs, buffer) := frames (normalize (buffer ++ chunk))
      match yieldFrames event fs with
      | (ys, some ending) => (ys, ending)
      | (ys, none) =>
        let (zs, ending) := chatLoop limit buffer total rest
        (ys ++ zs, ending)

/-- `chat_events`. -/
def chatEvents (limit : ℕ) (chunks : List Bytes) : List Bytes × Ending :=
  chatLoop event limit [] 0 chunks

/-- The decoder that sees the whole stream. -/
def reference (stream : Bytes) : List Bytes × Ending :=
  match yieldFrames event (frames (normalize stream)).1 with
  | (ys, some ending) => (ys, ending)
  | (ys, none) => (ys, .raised interrupted)

end Decoder

/-- Frames that do not end the stream are followed by the next ones. -/
theorem yieldFrames_append {event : Bytes → Except Exc Bytes} {fs gs : List Bytes} :
    yieldFrames event (fs ++ gs) = match yieldFrames event fs with
      | (ys, some ending) => (ys, some ending)
      | (ys, none) => (ys ++ (yieldFrames event gs).1, (yieldFrames event gs).2) := by
  induction fs with
  | nil => rfl
  | cons f fs ih =>
    simp only [List.cons_append, yieldFrames]
    split
    · exact ih
    · split_ifs
      · rfl
      · split
        · rfl
        · rw [ih]
          cases hy : yieldFrames event fs with
          | mk ys ending => cases ending <;> rfl

end Transport
end MorpheusGateway
