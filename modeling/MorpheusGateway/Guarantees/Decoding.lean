/-
# Streams in chunks

The buffer of `chat_events` is normalised again with every chunk, so a CR LF that one pass
made out of CR CR LF is taken for a line end by the next.  Whether that matters is read off
the data lines: `Steady` says that it changes no data value of the incomplete frame and
completes no frame that has one.  `chatEvents_eq_reference` says that as long as the buffer
is steady at the chunk boundaries the decoder is the one that sees the whole stream, and that
it is not whatever comes next once the buffer is not.

Frames are compared line by line.  `gather` collects the values of the data lines; its state
is all that matters of an incomplete frame, and it goes on from chunk to chunk.
-/

import MorpheusGateway.Transport

namespace MorpheusGateway
namespace Transport

/-! ### Line ends -/

/-- Two texts are normalised apart, unless a CR LF lies across them. -/
theorem normalize_append {x y : Bytes} (h : ∀ x' y', x = x' ++ [13] → y ≠ 10 :: y') :
    normalize (x ++ y) = normalize x ++ normalize y := by
  induction x using normalize.induct with
  | case1 bs ih =>
    have hbs : ∀ x' y', bs = x' ++ [13] → y ≠ 10 :: y' := fun x' y' hx =>
      h (13 :: 10 :: x') y' (by rw [hx]; rfl)
    show 10 :: normalize (bs ++ y) = 10 :: normalize bs ++ normalize y
    rw [ih hbs, List.cons_append]
  | case2 b bs hb ih =>
    have hbs : ∀ x' y', bs = x' ++ [13] → y ≠ 10 :: y' := fun x' y' hx =>
      h (b :: x') y' (by rw [hx]; rfl)
    have hy : ∀ cs, b = 13 → bs ++ y ≠ 10 :: cs := by
      rintro cs rfl hc
      cases bs with
      | nil => exact h [] cs rfl hc
      | cons c cs' =>
        obtain rfl : c = 10 := (List.cons.inj hc).1
        exact hb _ rfl rfl
    rw [List.cons_append, normalize_cons hy, ih hbs, normalize_cons fun cs h1 h2 => hb cs h1 h2,
      List.cons_append]
  | case3 => rfl

/-- A CR LF across two texts becomes a line end. -/
theorem normalize_across (x y : Bytes) :
    normalize (x ++ [13] ++ 10 :: y) = normalize x ++ 10 :: normalize y := by
  have hx : normalize (x ++ 13 :: 10 :: y) = normalize x ++ normalize (13 :: 10 :: y) :=
    normalize_append fun _ _ _ he => nomatch (List.cons.inj he).1
  rw [List.append_assoc]
  exact hx

/-- A carriage return at the end of a text stays. -/
theorem normalize_concat_cr (x : Bytes) : normalize (x ++ [13]) = normalize x ++ [13] :=
  normalize_append fun _ _ _ he => nomatch (List.cons.inj he).1

/-- The normalised text ends in a CR only if the text does. -/
theorem concat_cr_of_normalize {x z : Bytes} (h : normalize x = z ++ [13]) :
    ∃ x', x = x' ++ [13] ∧ normalize x' = z := by
  rcases List.eq_nil_or_concat x with rfl | ⟨x', b, rfl⟩
  · exact absurd h (by simp [normalize])
  · by_cases hb : b = 13
    · subst hb
      rw [List.concat_eq_append, normalize_concat_cr] at h
      exact ⟨x', List.concat_eq_append, (List.append_inj' h rfl).1⟩
    · exfalso
      have last : ∃ w, normalize (x' ++ [b]) = w ++ [b] := by
        by_cases hx : ∃ x'', x' = x'' ++ [13] ∧ b = 10
        · obtain ⟨x'', rfl, rfl⟩ := hx
          exact ⟨_, normalize_across x'' []⟩
        · have one : normalize [b] = [b] := normalize_cons fun cs _ hc => by cases hc
          refine ⟨normalize x', ?_⟩
          rw [normalize_append fun w y' hw hy => hx ⟨w, hw, (List.cons.inj hy).1⟩, one]
      obtain ⟨w, hw⟩ := last
      rw [List.concat_eq_append, hw] at h
      exact hb (List.cons.inj (List.append_inj' h rfl).2).1

/-- The text with the normal form `u` goes on with `y`: a CR LF across them is a line end. -/
def join (u y : Bytes) : Bytes :=
  (if u.getLast? = some 13 ∧ y.head? = some 10 then u.dropLast else u) ++ normalize y

/-- **A text that goes on is normalised apart, but for a CR LF across the boundary.** -/
theorem normalize_append_eq (x y : Bytes) : normalize (x ++ y) = join (normalize x) y := by
  by_cases hx : ∃ x' y', x = x' ++ [13] ∧ y = 10 :: y'
  · obtain ⟨x', y', rfl, rfl⟩ := hx
    rw [normalize_across, normalize_concat_cr, join, if_pos ⟨by simp, rfl⟩, List.dropLast_concat]
    rfl
  · rw [normalize_append fun x' y' h1 h2 => hx ⟨x', y', h1, h2⟩, join, if_neg]
    rintro ⟨h1, h2⟩
    obtain ⟨z, hz⟩ := List.getLast?_eq_some_iff.1 h1
    obtain ⟨x', hx', -⟩ := concat_cr_of_normalize hz
    obtain ⟨y', hy'⟩ := List.head?_eq_some_iff.1 h2
    exact hx ⟨x', y', hx', hy'⟩

/-- A text gets no longer. -/
theorem length_normalize_le (x : Bytes) : (normalize x).length ≤ x.length := by
  induction x using normalize.induct with
  | case1 bs ih =>
    show (normalize bs).length + 1 ≤ bs.length + 2
    omega
  | case2 b bs hb ih =>
    rw [normalize_cons fun cs h1 h2 => hb cs h1 h2]
    simpa using ih
  | case3 => exact le_rfl

/-! ### Frames -/

/-- A blank line. -/
def blank : Bytes := [10, 10]

/-- A text has no blank line, or a frame up to its first. -/
theorem frames_cases (x : Bytes) : frames x = ([], x) ∧ ¬blank <:+: x ∨
    ∃ f z, x = f ++ 10 :: 10 :: z ∧ ¬blank <:+: f ++ [10] ∧
      frames x = (f :: (frames z).1, (frames z).2) := by
  induction x using frames.induct with
  | case1 bs fs rest he ih => exact .inr ⟨[], bs, rfl, by decide, rfl⟩
  | case2 b bs hb rest he ih =>
    rcases ih with ⟨hf, hn⟩ | ⟨f, z, -, -, hf⟩
    · refine .inl ⟨by rw [frames_cons fun cs h1 h2 => hb cs h1 h2, hf], ?_⟩
      rw [List.infix_cons_iff]
      rintro (hp | hi)
      · obtain ⟨rfl, t, ht⟩ := List.cons_prefix_cons.1 hp
        exact hb t rfl ht.symm
      · exact hn hi
    · rw [he] at hf
      cases hf
  | case3 b bs hb f fs rest he ih =>
    rcases ih with ⟨hf, -⟩ | ⟨f', z, rfl, hn, hf⟩
    · rw [he] at hf
      cases hf
    · refine .inr ⟨b :: f', z, rfl, ?_, by rw [frames_cons fun cs h1 h2 => hb cs h1 h2, hf]⟩
      rw [List.cons_append, List.infix_cons_iff]
      rintro (hp | hi)
      · obtain ⟨rfl, t, ht⟩ := List.cons_prefix_cons.1 hp
        cases f' with
        | nil => exact hb _ rfl rfl
        | cons c f' =>
          obtain rfl : 10 = c := (List.cons.inj ht).1
          exact hb _ rfl rfl
      · exact hn hi
  | case4 => exact .inl ⟨rfl, by decide⟩

/-- What is left of a text is a part of it without blank lines. -/
theorem rest_spec (x : Bytes) : (frames x).2 <:+ x ∧ ¬blank <:+: (frames x).2 := by
  induction hn : x.length using Nat.strong_induction_on generalizing x with
  | _ n ih =>
    rcases frames_cases x with ⟨hf, hx⟩ | ⟨f, z, rfl, -, hf⟩
    · rw [hf]
      exact ⟨List.suffix_refl x, hx⟩
    · obtain ⟨hz, hp⟩ := ih z.length (by simp at hn; omega) z rfl
      rw [hf]
      exact ⟨hz.trans ⟨f ++ [10, 10], by simp⟩, hp⟩

/-! ### Line by line -/

/-- The value of a line that is a data line. -/
def lineValue (line : Bytes) : List Bytes :=
  if (ascii "data:").isPrefixOf line then [(line.drop 5).dropWhile (· = 32)] else []

/-- The data values of a frame are those of its lines. -/
theorem dataValues_eq (frame : Bytes) : dataValues frame = (linesFrom [] frame).flatMap lineValue := by
  unfold dataValues
  induction linesFrom [] frame with
  | nil => rfl
  | cons line lines ih =>
    rw [List.flatMap_cons, ← ih, lineValue, List.filter_cons]
    split
    · rfl
    · rfl

/-- The data values of the frames that a blank line ends, but for those without any; and the
values and the line at which the text ends, from the values `vs` and the line `line` on. -/
def gather : List Bytes → Bytes → Bytes → List (List Bytes) × List Bytes × Bytes
  | vs, line, 10 :: bs =>
    if line = [] then
      let (events, state) := gather [] [] bs
      (if vs = [] then events else vs :: events, state)
    else gather (vs ++ lineValue line) [] bs
  | vs, line, b :: bs => gather vs (line ++ [b]) bs
  | vs, line, [] => ([], vs, line)

/-- At an empty line the values come out, if there are any. -/
theorem gather_blank (vs : List Bytes) (bs : Bytes) : gather vs [] (10 :: bs) =
    (if vs = [] then (gather [] [] bs).1 else vs :: (gather [] [] bs).1, (gather [] [] bs).2) := rfl

/-- At the end of a line its values are added. -/
theorem gather_line {vs : List Bytes} {line bs : Bytes} (h : line ≠ []) :
    gather vs line (10 :: bs) = gather (vs ++ lineValue line) [] bs := by
  rw [gather, if_neg h]

/-- Any other byte belongs to the line. -/
theorem gather_byte {vs : List Bytes} {line bs : Bytes} {b : UInt8} (h : b ≠ 10) :
    gather vs line (b :: bs) = gather vs (line ++ [b]) bs := by
  rw [gather.eq_2]
  exact h

/-- **A text is gathered in parts.** -/
theorem gather_append (vs : List Bytes) (line x y : Bytes) : gather vs line (x ++ y) =
    ((gather vs line x).1 ++ (gather (gather vs line x).2.1 (gather vs line x).2.2 y).1,
      (gather (gather vs line x).2.1 (gather vs line x).2.2 y).2) := by
  induction x generalizing vs line with
  | nil => rfl
  | cons b x ih =>
    by_cases hb : b = 10
    · subst hb
      by_cases hl : line = []
      · subst hl
        rw [List.cons_append, gather_blank, gather_blank, ih]
        split_ifs
        · rfl
        · rfl
      · rw [List.cons_append, gather_line hl, gather_line hl, ih]
    · rw [List.cons_append, gather_byte hb, gather_byte hb, ih]

/-- Without a blank line nothing is complete, and the state says which lines there are. -/
theorem gather_plain {x : Bytes} (h : ¬blank <:+: x) : ∀ (vs : List Bytes) (line : Bytes),
    (line = [] → vs = [] ∨ x.head? ≠ some 10) → ∃ lines last, linesFrom line x = lines ++ [last] ∧
      gather vs line x = ([], vs ++ lines.flatMap lineValue, last) := by
  induction x with
  | nil => exact fun vs line _ => ⟨[], line, rfl, by rw [List.flatMap_nil, List.append_nil]; rfl⟩
  | cons b x ih =>
    intro vs line hl
    have hx : ¬blank <:+: x := fun hi => h (hi.trans (List.suffix_cons b x).isInfix)
    by_cases hb : b = 10
    · subst hb
      have next : x.head? ≠ some 10 := by
        intro hh
        obtain ⟨t, rfl⟩ := List.head?_eq_some_iff.1 hh
        exact h ⟨[], t, rfl⟩
      by_cases he : line = []
      · subst he
        obtain rfl : vs = [] := (hl rfl).resolve_right fun hn => hn rfl
        obtain ⟨lines, last, h1, h2⟩ := ih hx [] [] fun _ => .inl rfl
        refine ⟨[] :: lines, last, congrArg ([] :: ·) h1, ?_⟩
        rw [gather_blank, h2]
        rfl
      · obtain ⟨lines, last, h1, h2⟩ := ih hx (vs ++ lineValue line) [] fun _ => .inr next
        refine ⟨line :: lines, last, congrArg (line :: ·) h1, ?_⟩
        rw [gather_line he, h2, List.flatMap_cons, List.append_assoc]
    · obtain ⟨lines, last, h1, h2⟩ := ih hx vs (line ++ [b]) fun he => by simp at he
      refine ⟨lines, last, ?_, by rw [gather_byte hb, h2]⟩
      rw [← h1, linesFrom.eq_2]
      exact hb

/-- Behind the last line break there is an empty line. -/
theorem linesFrom_concat (line f : Bytes) : linesFrom line (f ++ [10]) = linesFrom line f ++ [[]] := by
  induction f generalizing line with
  | nil => rfl
  | cons b f ih =>
    by_cases hb : b = 10
    · subst hb
      exact congrArg (line :: ·) (ih [])
    · rw [List.cons_append, linesFrom.eq_2 _ _ _ hb, linesFrom.eq_2 _ _ _ hb, ih]

/-- The data values of the frames that have any. -/
def frameValues (fs : List Bytes) : List (List Bytes) := (fs.map dataValues).filter (· ≠ [])

/-- The values of two lists of frames follow each other. -/
theorem frameValues_append (fs gs : List Bytes) : frameValues (fs ++ gs) = frameValues fs ++ frameValues gs := by
  rw [frameValues, List.map_append, List.filter_append, frameValues, frameValues]

/-- A frame, and what is gathered from it. -/
theorem gather_frame {f : Bytes} (h : ¬blank <:+: f ++ [10]) (z : Bytes) :
    gather [] [] (f ++ 10 :: 10 :: z) =
      (frameValues [f] ++ (gather [] [] z).1, (gather [] [] z).2) := by
  obtain ⟨lines, last, h1, h2⟩ := gather_plain h [] [] fun _ => .inl rfl
  rw [linesFrom_concat] at h1
  obtain ⟨hlines, hlast⟩ := List.append_inj' h1 rfl
  obtain rfl : [] = last := (List.cons.inj hlast).1
  rw [List.append_cons, gather_append, h2, ← hlines, List.nil_append, ← dataValues_eq, gather_blank]
  by_cases hv : dataValues f = []
  · simp [frameValues, hv]
  · simp [frameValues, hv]

/-- **The frames of a text are what is gathered from it**, and what is left goes on as it does. -/
theorem gather_frames (x : Bytes) : (gather [] [] x).1 = frameValues (frames x).1 ∧
    (gather [] [] x).2 = (gather [] [] (frames x).2).2 ∧ (gather [] [] (frames x).2).1 = [] := by
  induction hn : x.length using Nat.strong_induction_on generalizing x with
  | _ n ih =>
    rcases frames_cases x with ⟨hf, hx⟩ | ⟨f, z, rfl, hx, hf⟩
    · obtain ⟨lines, last, -, h2⟩ := gather_plain hx [] [] fun _ => .inl rfl
      rw [hf, h2]
      exact ⟨rfl, rfl, rfl⟩
    · obtain ⟨he, hs, hr⟩ := ih z.length (by simp at hn; omega) z rfl
      rw [hf, gather_frame hx, he]
      exact ⟨(frameValues_append [f] _).symm, hs, hr⟩

/-- The values of an incomplete frame are those gathered, and that of its last line. -/
theorem dataValues_gather {b : Bytes} (h : ¬blank <:+: b) :
    dataValues b = (gather [] [] b).2.1 ++ lineValue (gather [] [] b).2.2 := by
  obtain ⟨lines, last, h1, h2⟩ := gather_plain h [] [] fun _ => .inl rfl
  rw [dataValues_eq, h1, h2, List.flatMap_append, List.flatMap_singleton, List.nil_append]

/-- The line at which a text ends does not depend on the values before it. -/
theorem gather_values (x : Bytes) : ∀ (vs ws : List Bytes) (line : Bytes),
    (gather vs line x).2.2 = (gather ws line x).2.2 := by
  induction x with
  | nil => exact fun _ _ _ => rfl
  | cons b x ih =>
    intro vs ws line
    by_cases hb : b = 10
    · subst hb
      by_cases hl : line = []
      · subst hl
        rfl
      · rw [gather_line hl, gather_line hl]
        exact ih ..
    · rw [gather_byte hb, gather_byte hb]
      exact ih ..

/-- A line end begins a new line. -/
theorem gather_lineEnd (vs : List Bytes) (line bs : Bytes) :
    (gather vs line (10 :: bs)).2.2 = (gather [] [] bs).2.2 := by
  by_cases hl : line = []
  · subst hl
    rfl
  · rw [gather_line hl]
    exact gather_values ..

/-- The line at which a text ends is the same in its normal form. -/
theorem gather_normalize_line (x : Bytes) : ∀ line : Bytes,
    (gather [] line (normalize x)).2.2 = (gather [] line x).2.2 := by
  induction x using normalize.induct with
  | case1 bs ih =>
    intro line
    have hx : gather [] line (13 :: 10 :: bs) = gather [] (line ++ [13]) (10 :: bs) :=
      gather_byte (by decide)
    rw [hx, gather_lineEnd, normalize, gather_lineEnd]
    exact ih []
  | case2 b bs hb ih =>
    intro line
    rw [normalize_cons fun cs h1 h2 => hb cs h1 h2]
    by_cases h : b = 10
    · subst h
      rw [gather_lineEnd, gather_lineEnd]
      exact ih []
    · rw [gather_byte h, gather_byte h]
      exact ih _
  | case3 => exact fun _ => rfl

/-! ### A text that goes on -/

/-- Only the line at which a text ends says whether it ends in a CR. -/
theorem gather_getLast? (x : Bytes) : (gather [] [] x).2.2.getLast? = some 13 ↔ x.getLast? = some 13 := by
  rcases List.eq_nil_or_concat x with rfl | ⟨x', b, rfl⟩
  · rfl
  rw [List.concat_eq_append, gather_append, List.getLast?_concat]
  by_cases hb : b = 10
  · subst hb
    by_cases hl : (gather [] [] x').2.2 = []
    · rw [hl]
      exact ⟨nofun, nofun⟩
    · rw [gather_line hl]
      exact ⟨nofun, nofun⟩
  · rw [gather_byte hb]
    simp [gather]

/-- What is gathered from `y` behind a text that left this state. -/
def resume (state : List Bytes × Bytes) (y : Bytes) : List (List Bytes) × List Bytes × Bytes :=
  gather state.1 (if state.2.getLast? = some 13 ∧ y.head? = some 10 then state.2.dropLast else state.2)
    (normalize y)

/-- **The state is all that matters of a text** for what is gathered behind it. -/
theorem gather_join (u y : Bytes) : gather [] [] (join u y) =
    ((gather [] [] u).1 ++ (resume (gather [] [] u).2 y).1, (resume (gather [] [] u).2 y).2) := by
  rw [join, resume]
  by_cases h : u.getLast? = some 13 ∧ y.head? = some 10
  · rw [if_pos h, if_pos ⟨(gather_getLast? u).2 h.1, h.2⟩, gather_append]
    obtain ⟨u', rfl⟩ := List.getLast?_eq_some_iff.1 h.1
    have hu : gather [] [] (u' ++ [13]) = ((gather [] [] u').1, (gather [] [] u').2.1,
        (gather [] [] u').2.2 ++ [13]) := by
      rw [gather_append, gather_byte (by decide)]
      simp [gather]
    rw [hu, List.dropLast_concat]
    simp
  · rw [if_neg h, if_neg fun hl => h ⟨(gather_getLast? u).1 hl.1, hl.2⟩, gather_append]

/-- The buffer `b` goes on as the text `x` does. -/
structure InStep (x b : Bytes) : Prop where
  plain : ¬blank <:+: b
  gathered : gather [] [] b = ([], (gather [] [] (normalize x)).2)
  short : b.length ≤ x.length

/-- Normalising the buffer again completes no frame with data and changes no data value of the
incomplete one. -/
def Steady (buffer : Bytes) : Prop :=
  (∀ f ∈ (frames (normalize buffer)).1, dataValues f = []) ∧
    dataValues (frames (normalize buffer)).2 = dataValues buffer

instance (buffer : Bytes) : Decidable (Steady buffer) := inferInstanceAs (Decidable (_ ∧ _))

/-- There are none where no frame has any. -/
theorem frameValues_eq_nil {fs : List Bytes} : frameValues fs = [] ↔ ∀ f ∈ fs, dataValues f = [] := by
  simp [frameValues]

/-- **A buffer is steady** when the same is gathered from it once it is normalised again. -/
theorem steady_iff {b : Bytes} (h : ¬blank <:+: b) (hb : (gather [] [] b).1 = []) :
    Steady b ↔ gather [] [] (normalize b) = gather [] [] b := by
  obtain ⟨events, state, -⟩ := gather_frames (normalize b)
  have last : (gather [] [] (normalize b)).2.2 = (gather [] [] b).2.2 := gather_normalize_line b []
  rw [Steady, ← frameValues_eq_nil, ← events, dataValues_gather (rest_spec (normalize b)).2,
    dataValues_gather h, ← state, last, List.append_left_inj]
  constructor
  · rintro ⟨he, hv⟩
    exact Prod.ext (he.trans hb.symm) (Prod.ext hv last)
  · intro he
    rw [he]
    exact ⟨hb, rfl⟩

/-- **From a steady buffer the next chunk gives what it gives behind the text.** -/
theorem InStep.next {x b : Bytes} (h : InStep x b) (steady : Steady b) (c : Bytes) :
    InStep (x ++ c) (frames (normalize (b ++ c))).2 ∧
      (gather [] [] (normalize (x ++ c))).1 =
        (gather [] [] (normalize x)).1 ++ frameValues (frames (normalize (b ++ c))).1 := by
  obtain ⟨events, state, rest⟩ := gather_frames (normalize (b ++ c))
  have chunk := gather_join (normalize b) c
  rw [(steady_iff h.plain (congrArg Prod.fst h.gathered)).1 steady, h.gathered, List.nil_append,
    ← normalize_append_eq] at chunk
  have text := gather_join (normalize x) c
  rw [← normalize_append_eq] at text
  rw [chunk] at events state
  rw [text, ← events]
  refine ⟨⟨(rest_spec _).2, Prod.ext rest ?_, ?_⟩, rfl⟩
  · rw [text]
    exact state.symm
  · have h1 := (rest_spec (normalize (b ++ c))).1.length_le
    have h2 := length_normalize_le (b ++ c)
    have h3 := h.short
    rw [List.length_append] at h2 ⊢
    omega

/-! ### What is yielded -/

section

variable {event : Bytes → Except Exc Bytes}

/-- What the data values of the frames yield. -/
def yieldValues (event : Bytes → Except Exc Bytes) : List (List Bytes) → List Bytes × Option Ending
  | [] => ([], none)
  | values :: rest =>
    if joinLines values = ascii "[DONE]" then
      ([doneFrame], some .done)
    else match event (joinLines values) with
      | .error e => ([], some (.raised e))
      | .ok text =>
        let (ys, ending) := yieldValues event rest
        ((ascii "data: " ++ text ++ ascii "\n\n") :: ys, ending)

/-- **Frames yield what their data values yield.** -/
theorem yieldFrames_eq (fs : List Bytes) : yieldFrames event fs = yieldValues event (frameValues fs) := by
  induction fs with
  | nil => rfl
  | cons f fs ih =>
    rw [yieldFrames]
    cases hf : dataValues f with
    | nil =>
      have hv : frameValues (f :: fs) = frameValues fs := by simp [frameValues, hf]
      rw [hv]
      exact ih
    | cons v vs =>
      have hv : frameValues (f :: fs) = (v :: vs) :: frameValues fs := by simp [frameValues, hf]
      rewrite [hv, yieldValues, ← ih]
      rfl

/-- Values that do not end the stream are followed by the next ones. -/
theorem yieldValues_append (vs ws : List (List Bytes)) (h : (yieldValues event vs).2 = none) :
    yieldValues event (vs ++ ws) =
      ((yieldValues event vs).1 ++ (yieldValues event ws).1, (yieldValues event ws).2) := by
  induction vs with
  | nil => rfl
  | cons v vs ih =>
    rw [yieldValues] at h
    rw [List.cons_append, yieldValues, yieldValues]
    by_cases hd : joinLines v = ascii "[DONE]"
    · rw [if_pos hd] at h
      cases h
    · rw [if_neg hd] at h
      rw [if_neg hd, if_neg hd]
      cases he : event (joinLines v) with
      | error e =>
        rw [he] at h
        cases h
      | ok text =>
        rw [he] at h
        simp only [ih h, List.cons_append]

/-- Once the stream has ended the next values do not matter. -/
theorem yieldValues_append_of_end (vs ws : List (List Bytes)) (h : (yieldValues event vs).2 ≠ none) :
    yieldValues event (vs ++ ws) = yieldValues event vs := by
  induction vs with
  | nil => exact absurd rfl h
  | cons v vs ih =>
    rw [yieldValues] at h
    rw [List.cons_append, yieldValues, yieldValues]
    by_cases hd : joinLines v = ascii "[DONE]"
    · rw [if_pos hd, if_pos hd]
    · rw [if_neg hd] at h
      rw [if_neg hd, if_neg hd]
      cases he : event (joinLines v) with
      | error e => rfl
      | ok text =>
        rw [he] at h
        simp only [ih h]

end

/-! ### The decoder and its reference -/

section

variable {event : Bytes → Except Exc Bytes}

/-- At every chunk boundary that the decoder comes to, the buffer is steady. -/
def Settled (event : Bytes → Except Exc Bytes) : Bytes → List Bytes → Prop
  | _, [] => True
  | buffer, chunk :: rest => Steady buffer ∧
    ((yieldFrames event (frames (normalize (buffer ++ chunk))).1).2 = none →
      Settled event (frames (normalize (buffer ++ chunk))).2 rest)

/-- What is gathered from a text yields what the reference yields. -/
theorem reference_eq (stream : Bytes) : reference event stream =
    ((yieldValues event (gather [] [] (normalize stream)).1).1,
      (yieldValues event (gather [] [] (normalize stream)).1).2.getD (.raised interrupted)) := by
  rw [reference, yieldFrames_eq, (gather_frames _).1]
  cases yieldValues event (frameValues (frames (normalize stream)).1) with
  | mk ys ending => cases ending <;> rfl

/-- The stream `x` and then the chunks yield what `x` yields, and then the loop over the
chunks. -/
def Continues (event : Bytes → Except Exc Bytes) (limit : ℕ) (x b : Bytes) (chunks : List Bytes) : Prop :=
  reference event (x ++ chunks.flatten) =
    ((yieldValues event (gather [] [] (normalize x)).1).1 ++ (chatLoop event limit b x.length chunks).1,
      (chatLoop event limit b x.length chunks).2)

/-- **One chunk from a steady buffer.**  The stream ends in it for the decoder and for its
reference, or goes on for both. -/
theorem continues_cons {limit : ℕ} {x b c : Bytes} {rest : List Bytes} (h : InStep x b) (steady : Steady b)
    (going : (yieldValues event (gather [] [] (normalize x)).1).2 = none)
    (room : (x ++ (c :: rest).flatten).length ≤ min limit bufferLimit) :
    Continues event limit x b (c :: rest) ↔
      ((yieldFrames event (frames (normalize (b ++ c))).1).2 = none →
        Continues event limit (x ++ c) (frames (normalize (b ++ c))).2 rest) := by
  obtain ⟨-, events⟩ := h.next steady c
  have small : ¬(limit < x.length + c.length ∨ bufferLimit < b.length + c.length) := by
    have := h.short
    simp only [List.flatten_cons, List.length_append] at room
    omega
  have hflat : x ++ (c :: rest).flatten = x ++ c ++ rest.flatten := by
    rw [List.flatten_cons, List.append_assoc]
  obtain ⟨more, hmore⟩ : ∃ more, (gather [] [] (normalize (x ++ c ++ rest.flatten))).1 =
      (gather [] [] (normalize (x ++ c))).1 ++ more :=
    ⟨_, by rw [normalize_append_eq, gather_join]⟩
  rw [Continues, Continues, hflat, chatLoop, if_neg small, reference_eq, hmore, events, List.append_assoc,
    yieldValues_append _ _ going, yieldValues_append _ (frameValues _) going, yieldFrames_eq, List.length_append]
  cases hy : yieldValues event (frameValues (frames (normalize (b ++ c))).1) with
  | mk zs ending =>
    cases ending with
    | some e =>
      have ended : yieldValues event (frameValues (frames (normalize (b ++ c))).1 ++ more) = _ :=
        yieldValues_append_of_end _ more (by rw [hy]; nofun)
      simp [ended, hy, (yieldFrames_eq _).trans hy]
    | none => simp [(yieldFrames_eq _).trans hy, List.append_assoc]

/-- **The loop over the chunks**, from a buffer in step. -/
theorem continues_of_settled {limit : ℕ} (chunks : List Bytes) : ∀ {x b : Bytes}, InStep x b →
    (yieldValues event (gather [] [] (normalize x)).1).2 = none → Settled event b chunks →
    (x ++ chunks.flatten).length ≤ min limit bufferLimit → Continues event limit x b chunks := by
  induction chunks with
  | nil =>
    intro x b h going _ _
    rw [Continues, List.flatten_nil, List.append_nil, reference_eq, going]
    simp [chatLoop]
  | cons c rest ih =>
    intro x b h going settled room
    obtain ⟨steady, later⟩ := settled
    obtain ⟨next, events⟩ := h.next steady c
    refine (continues_cons h steady going room).2 fun on => ih next ?_ (later on) ?_
    · rw [events, yieldValues_append _ _ going, ← yieldFrames_eq]
      exact on
    · rw [List.flatten_cons, ← List.append_assoc] at room
      exact room

end

/-! ### A buffer that is not steady -/

/-- A text without line ends. -/
def OneLine (value : Bytes) : Prop := (10 : UInt8) ∉ value

/-- A text without a line break is one line. -/
theorem linesFrom_oneLine {value : Bytes} (h : OneLine value) (line : Bytes) (rest : Bytes) :
    linesFrom line (value ++ 10 :: rest) = (line ++ value) :: linesFrom [] rest ∧
      linesFrom line value = [line ++ value] := by
  induction value generalizing line with
  | nil => exact ⟨by rw [List.append_nil]; rfl, by rw [List.append_nil]; rfl⟩
  | cons b value ih =>
    obtain ⟨hb, hv⟩ := not_or.1 fun hm => h (List.mem_cons.2 hm)
    have hb : b ≠ 10 := fun he => hb he.symm
    obtain ⟨h1, h2⟩ := ih hv (line ++ [b])
    rw [List.append_assoc] at h1 h2
    exact ⟨(linesFrom.eq_2 _ _ _ hb).trans h1, (linesFrom.eq_2 _ _ _ hb).trans h2⟩

/-- The lines of joined values are the values. -/
theorem linesFrom_joinLines {vs : List Bytes} (h : ∀ v ∈ vs, OneLine v) (hne : vs ≠ []) :
    linesFrom [] (joinLines vs) = vs := by
  induction vs with
  | nil => exact absurd rfl hne
  | cons v vs ih =>
    obtain ⟨hv, hvs⟩ := List.forall_mem_cons.1 h
    cases vs with
    | nil =>
      have hj : joinLines [v] = v := by simp [joinLines]
      rw [hj, (linesFrom_oneLine hv [] []).2, List.nil_append]
    | cons w vs =>
      have hj : joinLines (v :: w :: vs) = v ++ 10 :: joinLines (w :: vs) := by
        simp [joinLines, List.intercalate, List.intersperse]
      rw [hj, (linesFrom_oneLine hv [] _).1, ih hvs (List.cons_ne_nil w vs), List.nil_append]

/-- The value of a line is one line. -/
theorem oneLine_lineValue {line : Bytes} (h : OneLine line) : ∀ v ∈ lineValue line, OneLine v := by
  intro v hv
  unfold lineValue at hv
  split at hv
  · obtain rfl := List.mem_singleton.1 hv
    exact fun hm => h (List.mem_of_mem_drop ((List.dropWhile_sublist _).subset hm))
  · cases hv

/-- What is gathered are parts of lines. -/
theorem gather_oneLine (x : Bytes) : ∀ (vs : List Bytes) (line : Bytes), (∀ v ∈ vs, OneLine v) →
    OneLine line → (∀ v ∈ (gather vs line x).2.1, OneLine v) ∧ OneLine (gather vs line x).2.2 := by
  induction x with
  | nil => exact fun _ _ hvs hline => ⟨hvs, hline⟩
  | cons b x ih =>
    intro vs line hvs hline
    have none : OneLine [] := List.not_mem_nil
    by_cases hb : b = 10
    · subst hb
      by_cases hl : line = []
      · subst hl
        exact ih [] [] (fun _ hv => nomatch hv) none
      · rw [gather_line hl]
        refine ih _ [] (fun v hv => ?_) none
        rcases List.mem_append.1 hv with hv | hv
        · exact hvs v hv
        · exact oneLine_lineValue hline v hv
    · rw [gather_byte hb]
      refine ih vs _ hvs fun hm => ?_
      rcases List.mem_append.1 hm with hm | hm
      · exact hline hm
      · exact hb (List.mem_singleton.1 hm).symm

/-- The end of the incomplete frame, behind one more byte. -/
def probe : Bytes := [120, 10, 10]

/-- The event of these values, if there are any. -/
def one (vs : List Bytes) : List (List Bytes) := if vs = [] then [] else [vs]

/-- Behind the probe the values that were gathered come out. -/
theorem resume_probe (state : List Bytes × Bytes) :
    (resume state probe).1 = one (state.1 ++ lineValue (state.2 ++ [120])) := by
  have hp : gather state.1 state.2 probe = gather (state.1 ++ lineValue (state.2 ++ [120])) [] [10] := by
    rw [probe, gather_byte (by decide), gather_line (by simp)]
  rw [resume, if_neg fun h => absurd h.2 (by decide), show normalize probe = probe from by decide, hp]
  rfl

/-- The stream with each event as it comes. -/
abbrev plainly : Bytes → Except Exc Bytes := .ok

/-- Read plainly, values end a stream only normally. -/
theorem yieldValues_plainly (vs : List (List Bytes)) :
    (yieldValues plainly vs).2 = none ∨ (yieldValues plainly vs).2 = some .done := by
  induction vs with
  | nil => exact .inl rfl
  | cons v vs ih =>
    rw [yieldValues]
    split_ifs
    · exact .inr rfl
    · exact ih

/-- Nothing is yielded of no values only. -/
theorem eq_nil_of_yieldValues {vs : List (List Bytes)} (h : (yieldValues plainly vs).1 = []) : vs = [] := by
  cases vs with
  | nil => rfl
  | cons v vs =>
    rw [yieldValues] at h
    split_ifs at h

/-- Read plainly, an event is forwarded as it is. -/
theorem yieldValues_one (vs : List Bytes) : yieldValues plainly [vs] =
    if joinLines vs = ascii "[DONE]" then ([doneFrame], some .done)
    else ([ascii "data: " ++ joinLines vs ++ ascii "\n\n"], none) := rfl

/-- What is yielded tells the values. -/
theorem one_injective {vs ws : List Bytes} (hvs : ∀ v ∈ vs, OneLine v) (hws : ∀ v ∈ ws, OneLine v)
    (h : yieldValues plainly (one vs) = yieldValues plainly (one ws)) : vs = ws := by
  by_cases hv : vs = []
  · subst hv
    by_contra hw
    rw [one, one, if_pos rfl, if_neg fun he => hw he.symm] at h
    cases eq_nil_of_yieldValues (congrArg Prod.fst h.symm)
  by_cases hw : ws = []
  · subst hw
    rw [one, one, if_pos rfl, if_neg hv] at h
    cases eq_nil_of_yieldValues (congrArg Prod.fst h)
  have joined : joinLines vs = joinLines ws := by
    rw [one, one, if_neg hv, if_neg hw, yieldValues_one, yieldValues_one] at h
    by_cases h1 : joinLines vs = ascii "[DONE]"
    · by_cases h2 : joinLines ws = ascii "[DONE]"
      · rw [h1, h2]
      · rw [if_pos h1, if_neg h2] at h
        cases congrArg Prod.snd h
    · by_cases h2 : joinLines ws = ascii "[DONE]"
      · rw [if_neg h1, if_pos h2] at h
        cases congrArg Prod.snd h
      · rw [if_neg h1, if_neg h2] at h
        have line := (List.cons.inj (congrArg Prod.fst h)).1
        exact List.append_cancel_left (List.append_cancel_right line)
  rw [← linesFrom_joinLines hvs hv, joined, linesFrom_joinLines hws hw]

/-- The last chunk yields what its bytes yield behind the text. -/
theorem continues_singleton {event : Bytes → Except Exc Bytes} {limit : ℕ} {x b c : Bytes}
    (h : InStep x b) (going : (yieldValues event (gather [] [] (normalize x)).1).2 = none)
    (room : (x ++ c).length ≤ min limit bufferLimit) (hc : Continues event limit x b [c]) :
    (yieldValues event (resume (gather [] [] (normalize x)).2 c).1).1 =
        (yieldValues event (gather [] [] (normalize (b ++ c))).1).1 ∧
      (yieldValues event (resume (gather [] [] (normalize x)).2 c).1).2.getD (.raised interrupted) =
        (yieldValues event (gather [] [] (normalize (b ++ c))).1).2.getD (.raised interrupted) := by
  have small : ¬(limit < x.length + c.length ∨ bufferLimit < b.length + c.length) := by
    have := h.short
    rw [List.length_append] at room
    omega
  have text := gather_join (normalize x) c
  rw [← normalize_append_eq] at text
  rw [Continues, List.flatten_singleton, reference_eq, text, yieldValues_append _ _ going, chatLoop,
    if_neg small] at hc
  have chunk : yieldFrames event (frames (normalize (b ++ c))).1 = _ := yieldFrames_eq _
  rw [← (gather_frames _).1] at chunk
  cases hy : yieldValues event (gather [] [] (normalize (b ++ c))).1 with
  | mk zs ending =>
    rw [hy] at chunk
    cases ending with
    | some e => simpa [chunk] using hc
    | none => simpa [chunk, chatLoop] using hc

/-- **A buffer that goes on as the text does is steady**: an empty chunk shows that it completes
no event, the probe that it has the same values. -/
theorem steady_of_continues {limit : ℕ} {x b : Bytes} (h : InStep x b)
    (going : (yieldValues plainly (gather [] [] (normalize x)).1).2 = none)
    (room : x.length + 3 ≤ min limit bufferLimit)
    (hc : ∀ c, (x ++ c).length ≤ min limit bufferLimit → Continues plainly limit x b [c]) : Steady b := by
  have ending : ∀ {vs ws : List (List Bytes)}, (yieldValues plainly vs).2.getD (.raised interrupted) =
      (yieldValues plainly ws).2.getD (.raised interrupted) →
        (yieldValues plainly vs).2 = (yieldValues plainly ws).2 := by
    intro vs ws he
    rcases yieldValues_plainly vs with hv | hv
    · rcases yieldValues_plainly ws with hw | hw
      · rw [hv, hw]
      · rw [hv, hw] at he
        cases he
    · rcases yieldValues_plainly ws with hw | hw
      · rw [hv, hw] at he
        cases he
      · rw [hv, hw]
  have state : gather [] [] b = ([], (gather [] [] (normalize x)).2) := h.gathered
  have last : (gather [] [] (normalize b)).2.2 = (gather [] [] (normalize x)).2.2 :=
    (gather_normalize_line b []).trans (congrArg (·.2.2) state)
  -- Nothing is complete once the buffer is normalised again.
  have complete : (gather [] [] (normalize b)).1 = [] := by
    have empty : (x ++ []).length ≤ min limit bufferLimit := by
      rw [List.append_nil]
      omega
    obtain ⟨h1, -⟩ := continues_singleton h going empty (hc [] empty)
    rw [List.append_nil] at h1
    exact eq_nil_of_yieldValues h1.symm
  have values : (gather [] [] (normalize b)).2.1 = (gather [] [] (normalize x)).2.1 := by
    have small : (x ++ probe).length ≤ min limit bufferLimit := by
      rw [List.length_append]
      exact room
    obtain ⟨h1, h2⟩ := continues_singleton h going small (hc probe small)
    have parts : ∀ y : Bytes, ∀ v ∈ (gather [] [] y).2.1 ++ lineValue ((gather [] [] y).2.2 ++ [120]),
        OneLine v := by
      intro y v hv
      obtain ⟨hvs, hline⟩ := gather_oneLine y [] [] (fun _ hv => nomatch hv) List.not_mem_nil
      rcases List.mem_append.1 hv with hv | hv
      · exact hvs v hv
      · refine oneLine_lineValue (fun hm => ?_) v hv
        rcases List.mem_append.1 hm with hm | hm
        · exact hline hm
        · cases List.mem_singleton.1 hm
    rw [normalize_append_eq, gather_join, complete, List.nil_append, resume_probe, resume_probe] at h1 h2
    have same := one_injective (parts _) (parts _) (Prod.ext h1 (ending h2))
    rw [last] at same
    exact (List.append_cancel_right same).symm
  refine (steady_iff h.plain (congrArg Prod.fst state)).2 ?_
  rw [state]
  exact Prod.ext complete (Prod.ext values last)

/-- A stream that no event ends is not ended by itself. -/
theorem going_plainly {event : Bytes → Except Exc Bytes} {vs : List (List Bytes)}
    (h : (yieldValues event vs).2 = none) : (yieldValues plainly vs).2 = none := by
  induction vs with
  | nil => rfl
  | cons v vs ih =>
    rw [yieldValues] at h ⊢
    by_cases hd : joinLines v = ascii "[DONE]"
    · rw [if_pos hd] at h
      cases h
    · rw [if_neg hd] at h
      rw [if_neg hd]
      cases he : event (joinLines v) with
      | error e =>
        rw [he] at h
        cases h
      | ok text =>
        rw [he] at h
        exact ih h

/-- **Where every next chunk is decoded as behind the text, the buffers are steady.** -/
theorem settled_of_continues (chunks : List Bytes) : ∀ {x b : Bytes}, InStep x b →
    (yieldValues plainly (gather [] [] (normalize x)).1).2 = none →
    (x ++ chunks.flatten).length + 3 ≤ bufferLimit →
    (∀ pre next, pre <+: chunks → (x ++ (pre ++ [next]).flatten).length ≤ bufferLimit →
      Continues plainly bufferLimit x b (pre ++ [next])) →
    ∀ event next, Settled event b (chunks ++ [next]) := by
  induction chunks with
  | nil =>
    intro x b h going room hc event next
    rw [List.flatten_nil, List.append_nil] at room
    refine ⟨steady_of_continues h going (by rwa [min_self]) fun c hl => ?_, fun _ => trivial⟩
    rw [min_self] at hl
    exact hc [] c (List.prefix_refl _) (by rwa [List.nil_append, List.flatten_singleton])
  | cons c cs ih =>
    intro x b h going room hc event next
    have short : x.length + 3 ≤ min bufferLimit bufferLimit := by
      rw [List.length_append] at room
      omega
    have steady : Steady b := by
      refine steady_of_continues h going short fun c' hl => ?_
      rw [min_self] at hl
      exact hc [] c' (List.nil_prefix) (by rwa [List.nil_append, List.flatten_singleton])
    obtain ⟨next', events⟩ := h.next steady c
    refine ⟨steady, fun on => ih next' ?_ ?_ ?_ event next⟩
    · rw [events, yieldValues_append _ _ going]
      rw [yieldFrames_eq] at on
      exact going_plainly on
    · rwa [List.flatten_cons, ← List.append_assoc] at room
    · intro pre last hp hl
      have on' : (yieldFrames plainly (frames (normalize (b ++ c))).1).2 = none := by
        rw [yieldFrames_eq] at on ⊢
        exact going_plainly on
      have hflat : x ++ (c :: pre ++ [last]).flatten = x ++ c ++ (pre ++ [last]).flatten := by
        rw [List.cons_append, List.flatten_cons, List.append_assoc]
      have whole := hc (c :: pre) last (List.cons_prefix_cons.2 ⟨rfl, hp⟩) (by rwa [hflat])
      exact (continues_cons h steady going (by rwa [min_self, ← List.cons_append, hflat])).1 whole on'

/-- The boundaries before a chunk do not depend on it. -/
theorem Settled.before {event : Bytes → Except Exc Bytes} {chunks : List Bytes} : ∀ {b : Bytes} {pre : List Bytes}
    {next next' : Bytes}, Settled event b (chunks ++ [next]) → pre <+: chunks → Settled event b (pre ++ [next']) := by
  induction chunks with
  | nil =>
    intro b pre next next' h hp
    obtain rfl := List.prefix_nil.1 hp
    exact ⟨h.1, fun _ => trivial⟩
  | cons c cs ih =>
    intro b pre next next' h hp
    cases pre with
    | nil => exact ⟨h.1, fun _ => trivial⟩
    | cons c' pre =>
      obtain ⟨rfl, hpre⟩ := List.cons_prefix_cons.1 hp
      exact ⟨h.1, fun on => ih (h.2 on) hpre⟩

/-- At the start the buffer is in step. -/
theorem inStep_nil : InStep [] [] where
  plain := by decide
  gathered := rfl
  short := le_rfl

/-- There the decoder is to be its reference. -/
theorem continues_nil {event : Bytes → Except Exc Bytes} {limit : ℕ} {chunks : List Bytes} :
    Continues event limit [] [] chunks ↔ chatEvents event limit chunks = reference event chunks.flatten := by
  rw [Continues, eq_comm]
  rfl

/-- As long as the buffer is steady at the chunk boundaries, the decoder is its reference. -/
theorem chatEvents_of_settled {event : Bytes → Except Exc Bytes} {limit : ℕ} {chunks : List Bytes}
    (room : chunks.flatten.length ≤ min limit bufferLimit) (settled : Settled event [] chunks) :
    chatEvents event limit chunks = reference event chunks.flatten :=
  continues_nil.1 (continues_of_settled chunks inStep_nil rfl settled room)

/-- **The decoder is its reference** as long as the buffer is steady at the chunk boundaries.  And
only then: where whatever chunk comes next is decoded as the reference decodes it, however the
events are read, the buffers are steady. -/
theorem chatEvents_eq_reference (chunks : List Bytes) :
    (∀ event limit, chunks.flatten.length ≤ min limit bufferLimit → Settled event [] chunks →
      chatEvents event limit chunks = reference event chunks.flatten) ∧
    (chunks.flatten.length + 3 ≤ bufferLimit →
      ((∀ event limit pre next, pre <+: chunks →
          (pre ++ [next]).flatten.length ≤ min limit bufferLimit →
          chatEvents event limit (pre ++ [next]) = reference event (pre ++ [next]).flatten) ↔
        ∀ event next, Settled event [] (chunks ++ [next]))) := by
  refine ⟨fun event limit room settled => chatEvents_of_settled room settled, fun room =>
    ⟨fun h => ?_, fun settled event limit pre next hp hl => ?_⟩⟩
  · refine settled_of_continues chunks inStep_nil rfl room fun pre next hp hl => continues_nil.2 ?_
    exact h plainly bufferLimit pre next hp (by rwa [min_self])
  · exact chatEvents_of_settled hl ((settled event next).before hp)

/-- A comment whose line end is normalised twice, an event that ends the stream, and more. -/
def commented : List Bytes :=
  [ascii ": ping" ++ [13, 13, 10], ascii "data: [DONE]\n\ndata: x" ++ [13, 13, 10], [10]]

/-- Its boundaries are settled. -/
theorem settled_commented {event : Bytes → Except Exc Bytes} : Settled event [] commented :=
  ⟨by decide +kernel, fun _ => ⟨by decide +kernel, fun on => (nomatch on)⟩⟩

/-- Neither the comment matters nor what comes behind the end. -/
theorem chatEvents_eq_commented :
    chatEvents (fun _ => .error interrupted) 100 commented =
      reference (fun _ => .error interrupted) commented.flatten ∧
    chatEvents plainly 100 (commented.take 1 ++ [[10]]) =
      reference plainly (commented.take 1 ++ [[10]]).flatten := by
  refine ⟨(chatEvents_eq_reference _).1 _ _ (by decide +kernel) settled_commented, ?_⟩
  refine ((chatEvents_eq_reference (commented.take 1)).2 (by decide +kernel)).2 (fun event next => ?_)
    plainly 100 (commented.take 1) [10] (List.prefix_refl _) (by decide +kernel)
  exact ⟨by decide +kernel, fun _ => ⟨by decide +kernel, fun _ => trivial⟩⟩

/-! ### Streams that may be cut anywhere -/

/-- CR LF. -/
def crlf : Bytes := [13, 10]

/-- A text without CR LF stays as it is. -/
theorem normalize_of_plain {x : Bytes} (h : ¬crlf <:+: x) : normalize x = x := by
  induction x using normalize.induct with
  | case1 bs ih => exact absurd ⟨[], bs, rfl⟩ h
  | case2 b bs hb ih =>
    have hbs : ¬crlf <:+: bs := fun hi => h (hi.trans (List.suffix_cons b bs).isInfix)
    rw [normalize_cons fun cs h1 h2 => hb cs h1 h2, ih hbs]
  | case3 => rfl

/-- A text without CR CR LF has no CR LF once it is normalised. -/
theorem plain_normalize {x : Bytes} (h : ¬[13, 13, 10] <:+: x) : ¬crlf <:+: normalize x := by
  induction x using normalize.induct with
  | case1 bs ih =>
    have hbs : ¬[13, 13, 10] <:+: bs := fun hi =>
      h (hi.trans ((List.suffix_cons 10 bs).trans (List.suffix_cons 13 _)).isInfix)
    intro hi
    rcases List.infix_cons_iff.1 (show crlf <:+: 10 :: normalize bs from hi) with hp | hi
    · exact nomatch (List.cons_prefix_cons.1 hp).1
    · exact ih hbs hi
  | case2 b bs hb ih =>
    have hbs : ¬[13, 13, 10] <:+: bs := fun hi => h (hi.trans (List.suffix_cons b bs).isInfix)
    rw [normalize_cons fun cs h1 h2 => hb cs h1 h2, List.infix_cons_iff]
    rintro (hp | hi)
    · obtain ⟨rfl, hp⟩ := List.cons_prefix_cons.1 hp
      obtain ⟨t, ht⟩ := hp
      -- A line end that comes first is the text's own, or was a CR LF.
      cases bs with
      | nil => exact nomatch ht
      | cons c cs =>
        by_cases hc : ∃ ds, c = 13 ∧ cs = 10 :: ds
        · obtain ⟨ds, rfl, rfl⟩ := hc
          exact h ⟨[], ds, rfl⟩
        · rw [normalize_cons fun ds h1 h2 => hc ⟨ds, h1, h2⟩] at ht
          obtain rfl : 10 = c := (List.cons.inj (List.cons.inj ht).2).1
          exact hb cs rfl rfl
    · exact ih hbs hi
  | case3 => decide

/-- A buffer without CR LF is steady. -/
theorem steady_of_plain {b : Bytes} (h : ¬blank <:+: b) (hc : ¬crlf <:+: b) : Steady b := by
  rcases frames_cases b with ⟨hf, -⟩ | ⟨f, z, rfl, -, -⟩
  · rw [Steady, normalize_of_plain hc, hf]
    exact ⟨fun _ hm => (nomatch hm), rfl⟩
  · exact absurd ⟨f, z, by simp [blank]⟩ h

/-- What goes on behind a last part is the last part of what goes on. -/
theorem join_suffix {u v : Bytes} (h : u <:+ v) (y : Bytes) : join u y <:+ join v y := by
  obtain ⟨w, rfl⟩ := h
  rcases List.eq_nil_or_concat u with rfl | ⟨u', b, rfl⟩
  · exact ⟨_, rfl⟩
  · refine ⟨w, ?_⟩
    have hw : w ++ (u' ++ [b]) = w ++ u' ++ [b] := (List.append_assoc ..).symm
    rw [List.concat_eq_append, join, join, hw, List.getLast?_concat, List.getLast?_concat,
      List.dropLast_concat, List.dropLast_concat]
    split_ifs
    · simp
    · simp

/-- **A stream without CR CR LF may be cut anywhere.** -/
theorem settled_of_plain {event : Bytes → Except Exc Bytes} (chunks : List Bytes) : ∀ {x b : Bytes},
    b <:+ normalize x → ¬blank <:+: b → ¬[13, 13, 10] <:+: x ++ chunks.flatten →
    Settled event b chunks := by
  induction chunks with
  | nil => exact fun _ _ _ => trivial
  | cons c cs ih =>
    intro x b hb plain h
    have hx : ¬[13, 13, 10] <:+: x := fun hi => h (hi.trans (List.prefix_append _ _).isInfix)
    have hc : ¬crlf <:+: b := fun hi => plain_normalize hx (hi.trans hb.isInfix)
    refine ⟨steady_of_plain plain hc, fun _ => ih (x := x ++ c) ?_ (rest_spec _).2 ?_⟩
    · refine (rest_spec (normalize (b ++ c))).1.trans ?_
      rw [normalize_append_eq, normalize_append_eq, normalize_of_plain hc]
      exact join_suffix hb c
    · rwa [List.append_assoc, ← List.flatten_cons]

/-- **The chunks matter**: in one piece this stream ends with an invalid event, cut before
its last line end it is complete. -/
theorem chatEvents_ne_reference : ¬∀ (event : Bytes → Except Exc Bytes) (limit : ℕ)
    (chunks : List Bytes), chunks.flatten.length ≤ min limit bufferLimit →
      chatEvents event limit chunks = reference event chunks.flatten := by
  intro h
  have := h (fun _ => .error interrupted) 100
    [ascii "data: [DONE]" ++ [13, 13, 10], [13, 10]] (by decide +kernel)
  exact absurd this (by decide +kernel)

end Transport
end MorpheusGateway
