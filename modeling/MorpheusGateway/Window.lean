/-
# Sliding windows

A limiter keeps the times of what it admitted, oldest first.  When it is asked, and only
then, it forgets from the front what is older than its window.  `Kept` relates the bucket it
is left with to the whole history: nothing that the window still needs is missing, and after
a trim nothing else is there (`Kept.length_trim`).

If nothing was admitted while the window behind it was full, no interval of the window's
length ever held more (`within_push`).
-/

import Mathlib.Algebra.Order.Group.Basic
import Mathlib.Data.List.TakeWhile

namespace MorpheusGateway
namespace Window

variable {τ : Type*} [LinearOrder τ]

/-- The number of times from `b` to `c`, both included. -/
def within (b c : τ) (times : List τ) : ℕ := times.countP fun a => b ≤ a ∧ a ≤ c

/-- What is left of the times when those before `b` are dropped from the front. -/
def trim (b : τ) (times : List τ) : List τ := times.dropWhile fun a => a < b

/-- Two lists have the times of both. -/
theorem within_append (b c : τ) (times times' : List τ) :
    within b c (times ++ times') = within b c times + within b c times' :=
  List.countP_append

/-- A list has none that are all earlier. -/
theorem within_eq_zero {b c : τ} {times : List τ} (h : ∀ a ∈ times, a < b) :
    within b c times = 0 := by
  refine List.countP_eq_zero.2 fun a ha => ?_
  simp [not_le.2 (h a ha)]

/-- It has all that are in the window. -/
theorem within_eq_length {b c : τ} {times : List τ} (h : ∀ a ∈ times, b ≤ a ∧ a ≤ c) :
    within b c times = times.length := by
  refine List.countP_eq_length.2 fun a ha => ?_
  simpa using h a ha

/-- A time that is not after `c` and lies in one interval lies in the other. -/
theorem within_le_within {b b' c c' : τ} {times : List τ} (hb : b' ≤ b)
    (hc : ∀ a ∈ times, a ≤ c') : within b c times ≤ within b' c' times := by
  refine List.countP_mono_left fun a ha h => ?_
  have h : b ≤ a ∧ a ≤ c := by simpa using h
  simpa using ⟨hb.trans h.1, hc a ha⟩

/-- Of times in order, a trim leaves those that are not before `b`. -/
theorem le_of_mem_trim {b a : τ} {times : List τ} (sorted : times.Pairwise (· ≤ ·))
    (h : a ∈ trim b times) : b ≤ a := by
  induction times with
  | nil => cases h
  | cons x times ih =>
    obtain ⟨hx, sorted⟩ := List.pairwise_cons.1 sorted
    by_cases hb : x < b
    · rw [trim, List.dropWhile_cons_of_pos (by simpa using hb)] at h
      exact ih sorted h
    · rw [trim, List.dropWhile_cons_of_neg (by simpa using hb)] at h
      rcases List.mem_cons.1 h with rfl | h
      · exact not_lt.1 hb
      · exact (not_lt.1 hb).trans (hx a h)

section Kept

variable [AddCommGroup τ]

/-- `bucket` is what is left of the history of a window of length `w`: the times are in
order, none is after `now`, and what was dropped is older than the window. -/
structure Kept (w now : τ) (history bucket : List τ) : Prop where
  sorted : history.Pairwise (· ≤ ·)
  past : ∀ a ∈ history, a ≤ now
  dropped : ∃ old, history = old ++ bucket ∧ ∀ a ∈ old, a < now - w

/-- Of no times none are kept. -/
theorem Kept.nil (w now : τ) : Kept w now [] [] :=
  ⟨.nil, fun _ h => (nomatch h), [], rfl, fun _ h => (nomatch h)⟩

/-- The limiter forgets. -/
theorem Kept.trim {w now : τ} {history bucket : List τ} (h : Kept w now history bucket) :
    Kept w now history (trim (now - w) bucket) := by
  obtain ⟨old, ho, hold⟩ := h.dropped
  refine ⟨h.sorted, h.past, old ++ bucket.takeWhile fun a => a < now - w, ?_, fun a ha => ?_⟩
  · rw [List.append_assoc, Window.trim, List.takeWhile_append_dropWhile, ho]
  · rcases List.mem_append.1 ha with ha | ha
    · exact hold a ha
    · simpa using List.mem_takeWhile_imp ha

/-- The limiter admits. -/
theorem Kept.push {w now : τ} {history bucket : List τ} (h : Kept w now history bucket) :
    Kept w now (history ++ [now]) (bucket ++ [now]) := by
  obtain ⟨old, ho, hold⟩ := h.dropped
  refine ⟨?_, fun a ha => ?_, old, by rw [ho, List.append_assoc], hold⟩
  · refine List.pairwise_append.2 ⟨h.sorted, List.pairwise_singleton .., fun a ha b hb => ?_⟩
    obtain rfl := List.mem_singleton.1 hb
    exact h.past a ha
  · rcases List.mem_append.1 ha with ha | ha
    · exact h.past a ha
    · exact (List.mem_singleton.1 ha).le

/-- **After a trim the bucket is what was admitted in the window.** -/
theorem Kept.length_trim {w now : τ} {history bucket : List τ} (h : Kept w now history bucket) :
    (Window.trim (now - w) bucket).length = within (now - w) now history := by
  obtain ⟨old, ho, hold⟩ := h.trim.dropped
  have sorted : bucket.Pairwise (· ≤ ·) := by
    obtain ⟨_, rfl, -⟩ := h.dropped
    exact (List.pairwise_append.1 h.sorted).2.1
  have kept : ∀ a ∈ Window.trim (now - w) bucket, now - w ≤ a ∧ a ≤ now := fun a ha =>
    ⟨le_of_mem_trim sorted ha, h.past a (ho ▸ List.mem_append_right _ ha)⟩
  rw [ho, within_append, within_eq_zero hold, within_eq_length kept, Nat.zero_add]

variable [IsOrderedAddMonoid τ]

/-- Time passes. -/
theorem Kept.later {w now now' : τ} {history bucket : List τ} (h : Kept w now history bucket)
    (hle : now ≤ now') : Kept w now' history bucket := by
  obtain ⟨old, ho, hold⟩ := h.dropped
  exact ⟨h.sorted, fun a ha => (h.past a ha).trans hle, old, ho, fun a ha =>
    (hold a ha).trans_le (sub_le_sub_right hle w)⟩

/-- **No interval of the window's length holds more than `n`**, if what is admitted finds
fewer in the window behind it. -/
theorem within_push {w now : τ} {n : ℕ} {history : List τ}
    (bound : ∀ b, within b (b + w) history ≤ n) (past : ∀ a ∈ history, a ≤ now)
    (room : within (now - w) now history < n) (b : τ) :
    within b (b + w) (history ++ [now]) ≤ n := by
  rw [within_append]
  by_cases hb : b ≤ now ∧ now ≤ b + w
  · have fewer : within b (b + w) history ≤ within (now - w) now history :=
      within_le_within (sub_le_iff_le_add.2 hb.2) past
    have one : within b (b + w) [now] ≤ 1 := List.countP_le_length
    omega
  · have none : within b (b + w) [now] = 0 := by
      refine List.countP_eq_zero.2 fun a ha => ?_
      obtain rfl := List.mem_singleton.1 ha
      simpa using hb
    rw [none]
    exact bound b

end Kept

end Window
end MorpheusGateway
