/-
# What leaves a stream

The frames of a provider's stream are cut from its chunks before any of them is looked at,
so what `chat_events` forwards is a matter of the list of its frames: one frame for each
event in turn, up to the first that is refused or ends the stream.  A frame that is
forwarded is written from a value that passed the checks, in one line, and is read as that
value again.
-/

import MorpheusGateway.Completion
import MorpheusGateway.Guarantees.Forwarding

namespace MorpheusGateway
namespace Text

open Transport

/-! ### The frames of the chunks -/

/-- The frames `chat_events` cuts from the chunks, as long as none ends the stream, and the
error it raises after them. -/
def cut (limit : ℕ) : Bytes → ℕ → List Bytes → List Bytes × Exc
  | _, _, [] => ([], interrupted)
  | buffer, total, chunk :: rest =>
    let total := total + chunk.length
    if limit < total ∨ bufferLimit < buffer.length + chunk.length then ([], tooLarge)
    else
      let (fs, buffer) := frames (normalize (buffer ++ chunk))
      let (gs, e) := cut limit buffer total rest
      (fs ++ gs, e)

/-- The values of the events among frames. -/
def eventValues (fs : List Bytes) : List Bytes :=
  ((fs.map dataValues).filter fun values => !values.isEmpty).map joinLines

/-- A frame without data is no event. -/
theorem eventValues_cons (f : Bytes) (fs : List Bytes) : eventValues (f :: fs) =
    if dataValues f = [] then eventValues fs else joinLines (dataValues f) :: eventValues fs := by
  cases h : dataValues f <;> simp [eventValues, h]

section

variable {ev : Bytes → Except Exc Bytes} {limit : ℕ}

/-- **The chunks matter only through their frames.** -/
theorem chatLoop_eq_cut : ∀ {buffer : Bytes} {total : ℕ} (chunks : List Bytes),
    chatLoop ev limit buffer total chunks =
      ((yieldFrames ev (cut limit buffer total chunks).1).1,
        ((yieldFrames ev (cut limit buffer total chunks).1).2).getD
          (.raised (cut limit buffer total chunks).2))
  | _, _, [] => rfl
  | buffer, total, chunk :: rest => by
    unfold chatLoop cut
    dsimp only
    split_ifs
    · rfl
    · have ih := @chatLoop_eq_cut (frames (normalize (buffer ++ chunk))).2 (total + chunk.length) rest
      simp only [yieldFrames_append, ih]
      rcases yieldFrames ev (frames (normalize (buffer ++ chunk))).1 with ⟨ys, _ | e⟩ <;> rfl

/-- The chunks that `chat_events` has not asked for when it ends. -/
def unread (ev : Bytes → Except Exc Bytes) (limit : ℕ) : Bytes → ℕ → List Bytes → List Bytes
  | _, _, [] => []
  | buffer, total, chunk :: rest =>
    let total := total + chunk.length
    if limit < total ∨ bufferLimit < buffer.length + chunk.length then rest
    else
      let (fs, buffer) := frames (normalize (buffer ++ chunk))
      match (yieldFrames ev fs).2 with
      | some _ => rest
      | none => unread ev limit buffer total rest

/-- **No chunk is read past the limit**: all but the last of those that are read are within
it, and either they are all there are and the stream is not complete, or those that follow
make no difference. -/
theorem unread_spec : ∀ {buffer : Bytes} {total : ℕ} (chunks : List Bytes), total ≤ limit →
    ∃ read, chunks = read ++ unread ev limit buffer total chunks ∧
      total + read.dropLast.flatten.length ≤ limit ∧
      (read = chunks ∧ (chatLoop ev limit buffer total chunks).2 = .raised interrupted ∨
        ∀ more, chatLoop ev limit buffer total (read ++ more) =
          chatLoop ev limit buffer total chunks)
  | _, _, [], h => ⟨[], rfl, h, .inl ⟨rfl, rfl⟩⟩
  | buffer, total, chunk :: rest, h => by
    unfold unread
    dsimp only
    by_cases hl : limit < total + chunk.length ∨ bufferLimit < buffer.length + chunk.length
    · refine ⟨[chunk], by simp [hl], by simpa using h, .inr fun more => ?_⟩
      simp [chatLoop, hl]
    rw [if_neg hl]
    rcases hy : yieldFrames ev (frames (normalize (buffer ++ chunk))).1 with ⟨ys, _ | ending⟩
    · have within : total + chunk.length ≤ limit := by omega
      obtain ⟨read, hr, ht, hm⟩ := @unread_spec (frames (normalize (buffer ++ chunk))).2 _ rest within
      refine ⟨chunk :: read, congrArg (chunk :: ·) hr, ?_, ?_⟩
      · cases read with
        | nil => simpa using h
        | cons c cs =>
          simp only [List.dropLast_cons_cons, List.flatten_cons, List.length_append] at ht ⊢
          omega
      · rcases hm with ⟨he, hi⟩ | hm
        · exact .inl ⟨congrArg (chunk :: ·) he, by simp [chatLoop, hl, hy, hi]⟩
        · exact .inr fun more => by simp [chatLoop, hl, hy, hm]
    · refine ⟨[chunk], rfl, by simpa using h, .inr fun more => ?_⟩
      simp [chatLoop, hl, hy]

end

/-! ### Lines -/

/-- A code that is a character is its code. -/
theorem toNat_of_toChar {c : ℕ} {ch : Char} (h : toChar c = some ch) : ch.val.toNat = c := by
  unfold toChar at h
  by_cases hc : c.isValidChar
  · rw [dif_pos hc] at h
    obtain rfl := Option.some.inj h
    rfl
  · rw [dif_neg hc] at h
    cases h

/-- The bytes of a character are no control characters if it is none. -/
theorem le_of_mem_encode {ch : Char} {b : UInt8} (hb : b ∈ String.utf8EncodeChar ch)
    (hc : 32 ≤ ch.val.toNat) : 32 ≤ b := by
  have hof : ∀ n : ℕ, n < 256 → 32 ≤ n → 32 ≤ UInt8.ofNat n := fun n h1 h2 => by
    rw [UInt8.le_iff_toNat_le]
    simpa [Nat.mod_eq_of_lt h1] using h2
  unfold String.utf8EncodeChar at hb
  dsimp only at hb
  split_ifs at hb
  all_goals
    simp only [List.mem_cons, List.not_mem_nil, or_false] at hb
  · exact hb ▸ hof _ (by omega) hc
  · rcases hb with rfl | rfl <;> exact hof _ (by omega) (by omega)
  · rcases hb with rfl | rfl | rfl <;> exact hof _ (by omega) (by omega)
  · rcases hb with rfl | rfl | rfl | rfl <;> exact hof _ (by omega) (by omega)

/-- A text without control characters is encoded without them. -/
theorem visible_utf8 : ∀ {t : Text} {bs : Bytes}, Visible t → utf8 t = some bs → ∀ b ∈ bs, 32 ≤ b
  | [], _, _, rfl => nofun
  | c :: t, bs, hv, h => by
    obtain ⟨hc, hv⟩ := visible_cons.1 hv
    obtain ⟨cs, hcs, rfl⟩ := Option.map_eq_some_iff.1 h
    rw [List.mapM_cons] at hcs
    obtain ⟨ch, hch, hcs⟩ := Option.bind_eq_some_iff.1 hcs
    obtain ⟨ds, hds, hcs⟩ := Option.bind_eq_some_iff.1 hcs
    obtain rfl := Option.some.inj hcs
    have ih := visible_utf8 hv (by rw [utf8, hds]; rfl)
    rw [List.flatMap_cons]
    exact List.forall_mem_append.2
      ⟨fun b hb => le_of_mem_encode hb (by rw [toNat_of_toChar hch]; exact hc), ih⟩

/-! ### The frames that are forwarded -/

section

variable {L : Loader}

/-- What `strict_json` accepts has a text in one line, which it accepts again. -/
theorem strictJson_line {bs : Bytes} {x : Value} (h : strictJson L bs = .ok x) :
    ∃ text, (write compact x).bind utf8 = some text ∧ (∀ b ∈ text, 32 ≤ b) ∧
      strictJson L text = .ok x := by
  obtain ⟨hl, hb⟩ := lasting_of_strictJson h
  have comma : Separates 44 compact.item := ⟨[], [], blank_nil, blank_nil, rfl⟩
  have colon : Separates 58 compact.key := ⟨[], [], blank_nil, blank_nil, rfl⟩
  have hi : Visible compact.item := by unfold Visible; decide
  have hk : Visible compact.key := by unfold Visible; decide
  obtain ⟨t, ht⟩ := write_some compact hl.printable
  obtain ⟨text, hu, hs⟩ := strictJson_written hl hb comma colon ht
  exact ⟨text, by rw [ht]; exact hu, visible_utf8 (visible_write hi hk hl.printable ht) hu, hs⟩

/-- The frame carries the event of a value: in one line, a text that is read as the value of
the event and passes the checks. -/
def Forwards (L : Loader) (value frame : Bytes) : Prop :=
  ∃ x text, strictJson L value = .ok x ∧ validateCompletion true x = .ok x ∧
    frame = ascii "data: " ++ text ++ ascii "\n\n" ∧ (∀ b ∈ text, 32 ≤ b) ∧
    strictJson L text = .ok x

/-- An event that is accepted is forwarded. -/
theorem event_ok {value text : Bytes} (h : event L value = .ok text) :
    Forwards L value (ascii "data: " ++ text ++ ascii "\n\n") := by
  unfold event at h
  split at h
  · exact nomatch h
  · next x hx =>
    obtain ⟨bs, hw, hv, hs⟩ := strictJson_line hx
    rw [hw] at h
    cases hc : validateCompletion true x with
    | error e =>
      rw [hc] at h
      exact nomatch h
    | ok y =>
      rw [hc] at h
      obtain rfl := validateCompletion_ok hc
      obtain rfl := Except.ok.inj h
      exact ⟨x, bs, hx, hc, rfl, hv, hs⟩

/-- An event is refused with one kind of error. -/
theorem event_error {value : Bytes} {e : Exc} (h : event L value = .error e) :
    ∃ m, e = protocolError m := by
  unfold event at h
  split at h
  · exact ⟨_, (Except.error.inj h).symm⟩
  · next x hx =>
    obtain ⟨bs, hw, -⟩ := strictJson_line hx
    rw [hw] at h
    cases hc : validateCompletion true x with
    | error e' =>
      rw [hc] at h
      obtain rfl := Except.error.inj h
      exact validateCompletion_error hc
    | ok y =>
      rw [hc] at h
      exact nomatch h

/-- `[DONE]` is no JSON. -/
theorem strictJson_done : strictJson L (ascii "[DONE]") = .error .malformed := by
  have hd : L.decode (ascii "[DONE]") = some (chars "[DONE]") :=
    L.decode_utf8 _ _ (by decide +kernel) (by decide +kernel) (by decide +kernel)
  have hp : parse (chars "[DONE]") = none := Option.isNone_iff_eq_none.1 (by decide +kernel)
  simp [strictJson, spell, hd, hp]

/-- A frame that carries an event is not the last one. -/
theorem Forwards.ne_done {value frame : Bytes} (h : Forwards L value frame) : frame ≠ doneFrame := by
  obtain ⟨x, text, -, -, rfl, -, hs⟩ := h
  intro he
  have hd : doneFrame = ascii "data: " ++ ascii "[DONE]" ++ ascii "\n\n" := by decide +kernel
  rw [hd] at he
  obtain rfl := List.append_cancel_left (List.append_cancel_right he)
  rw [strictJson_done] at hs
  exact nomatch hs

/-- `[DONE]` is not among frames that carry events. -/
theorem not_mem_of_forwards {vs gs : List Bytes} (h : List.Forall₂ (Forwards L) vs gs) :
    doneFrame ∉ gs := by
  induction h with
  | nil => simp
  | cons hg _ ih =>
    rw [List.mem_cons, not_or]
    exact ⟨fun he => hg.ne_done he.symm, ih⟩

/-- **The frames that are yielded**: one for each event in turn, up to the event that ends the
stream or the first that is refused. -/
theorem yieldFrames_forwards : ∀ fs : List Bytes, ∃ gs,
    List.Forall₂ (Forwards L) ((eventValues fs).take gs.length) gs ∧
    ((eventValues fs)[gs.length]? = some (ascii "[DONE]") ∧
        yieldFrames (event L) fs = (gs ++ [doneFrame], some .done) ∨
      yieldFrames (event L) fs = (gs, none) ∨
      ∃ m, yieldFrames (event L) fs = (gs, some (.raised (protocolError m))))
  | [] => ⟨[], .nil, .inr (.inl rfl)⟩
  | f :: fs => by
    obtain ⟨gs, hf, hy⟩ := yieldFrames_forwards fs
    rw [eventValues_cons]
    unfold yieldFrames
    cases hv : dataValues f with
    | nil => exact ⟨gs, hf, hy⟩
    | cons v vs =>
      dsimp only
      rw [if_neg (List.cons_ne_nil v vs)]
      by_cases hd : joinLines (v :: vs) = ascii "[DONE]"
      · exact ⟨[], .nil, .inl ⟨congrArg some hd, if_pos hd⟩⟩
      rw [if_neg hd]
      cases ht : event L (joinLines (v :: vs)) with
      | error e =>
        obtain ⟨m, rfl⟩ := event_error ht
        exact ⟨[], .nil, .inr (.inr ⟨m, rfl⟩)⟩
      | ok text =>
        refine ⟨(ascii "data: " ++ text ++ ascii "\n\n") :: gs, .cons (event_ok ht) hf, ?_⟩
        rcases hy with ⟨hn, hy⟩ | hy | ⟨m, hy⟩
        · exact .inl ⟨hn, by rw [hy]; rfl⟩
        · exact .inr (.inl (by rw [hy]))
        · exact .inr (.inr ⟨m, by rw [hy]⟩)

/-- The errors of a stream. -/
def StreamError (e : Exc) : Prop := (∃ m, e = protocolError m) ∨ e = tooLarge ∨ e = interrupted

/-- The chunks end with the error of a limit, or of a stream that is not complete. -/
theorem cut_error {limit : ℕ} : ∀ {buffer : Bytes} {total : ℕ} (chunks : List Bytes),
    StreamError (cut limit buffer total chunks).2
  | _, _, [] => .inr (.inr rfl)
  | _, _, chunk :: rest => by
    unfold cut
    dsimp only
    split_ifs
    · exact .inr (.inl rfl)
    · exact cut_error rest

/-- **Only validated events leave the stream.**  For all chunks and every limit, the frames
that are forwarded carry the events of the provider's frames in turn, each in one line that
is read as the event's value and passes the checks; the last frame may be `[DONE]`, and it is
the next event of the provider then.  The stream ends normally exactly where it is, else with
one of three errors, and no chunk is read behind one that exceeds the limit. -/
theorem onlyValidatedLeave (L : Loader) (limit : ℕ) (chunks : List Bytes) :
    (∃ gs, List.Forall₂ (Forwards L)
        ((eventValues (cut limit [] 0 chunks).1).take gs.length) gs ∧
      ((eventValues (cut limit [] 0 chunks).1)[gs.length]? = some (ascii "[DONE]") ∧
          chatEvents (event L) limit chunks = (gs ++ [doneFrame], .done) ∨
        ∃ e, StreamError e ∧ chatEvents (event L) limit chunks = (gs, .raised e))) ∧
    ((chatEvents (event L) limit chunks).2 = .done ↔
      (chatEvents (event L) limit chunks).1.getLast? = some doneFrame) ∧
    ∃ read, chunks = read ++ unread (event L) limit [] 0 chunks ∧
      read.dropLast.flatten.length ≤ limit ∧
      (read = chunks ∧ (chatEvents (event L) limit chunks).2 = .raised interrupted ∨
        ∀ more, chatEvents (event L) limit (read ++ more) =
          chatEvents (event L) limit chunks) := by
  have hc : chatEvents (event L) limit chunks = _ := chatLoop_eq_cut chunks
  obtain ⟨gs, hf, hy⟩ := yieldFrames_forwards (L := L) (cut limit [] 0 chunks).1
  have ends : (eventValues (cut limit [] 0 chunks).1)[gs.length]? = some (ascii "[DONE]") ∧
        chatEvents (event L) limit chunks = (gs ++ [doneFrame], .done) ∨
      ∃ e, StreamError e ∧ chatEvents (event L) limit chunks = (gs, .raised e) := by
    rcases hy with ⟨hn, hy⟩ | hy | ⟨m, hy⟩
    · exact .inl ⟨hn, by rw [hc, hy]; rfl⟩
    · exact .inr ⟨_, cut_error chunks, by rw [hc, hy]; rfl⟩
    · exact .inr ⟨_, .inl ⟨m, rfl⟩, by rw [hc, hy]; rfl⟩
  refine ⟨⟨gs, hf, ends⟩, ?_, ?_⟩
  · rcases ends with ⟨-, h⟩ | ⟨e, -, h⟩
    · simp [h]
    · rw [h]
      refine iff_of_false (fun h => by cases h) fun hl => ?_
      exact not_mem_of_forwards hf (List.mem_of_getLast? hl)
  · obtain ⟨read, hr, ht, hm⟩ := @unread_spec (event L) limit [] 0 chunks (Nat.zero_le limit)
    exact ⟨read, hr, by omega, hm⟩

end

end Text
end MorpheusGateway
