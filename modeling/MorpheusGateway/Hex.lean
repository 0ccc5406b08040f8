/-
# Hexadecimal text in either case

`str.lower` changes what a text looks like and not what it says: the lower case of a
hexadecimal number is one, of the same value, and is its own lower case.
-/

import MorpheusGateway.Json
import Mathlib.Data.List.Basic

namespace MorpheusGateway

/-! ### Characters -/

/-- What holds of the characters up to `Z`, of the Kelvin sign and of a character that stays
as it is holds of every character and its lower case. -/
theorem forall_lowerChar {P : Char → Char → Prop}
    (small : ∀ n < 91, P (Char.ofNat n) (lowerChar (Char.ofNat n)))
    (kelvin : P (Char.ofNat 0x212a) 'k') (same : ∀ c, P c c) (c : Char) : P c (lowerChar c) := by
  by_cases hc : c.toNat < 91
  · have h := small c.toNat hc
    rwa [Char.ofNat_toNat] at h
  · have hl : c.toLower = c := dif_neg fun h => by
      have hz : c.toNat ≤ 90 := UInt32.le_iff_toNat_le.1 h.2
      omega
    unfold lowerChar
    rw [hl]
    split_ifs with hk
    · rw [← hk, Char.ofNat_toNat] at kelvin
      exact kelvin
    · exact same c

/-- A lower case has no lower one. -/
@[simp] theorem lowerChar_lowerChar (c : Char) : lowerChar (lowerChar c) = lowerChar c :=
  forall_lowerChar (P := fun c d => lowerChar d = lowerChar c) (by decide +kernel) (by decide)
    (fun _ => rfl) c

/-- Hexadecimal digits have two cases. -/
@[simp] theorem isHexDigit_lowerChar (c : Char) : isHexDigit (lowerChar c) = isHexDigit c :=
  forall_lowerChar (P := fun c d => isHexDigit d = isHexDigit c) (by decide +kernel) (by decide)
    (fun _ => rfl) c

/-- They have one value. -/
@[simp] theorem digitValue_lowerChar (c : Char) : digitValue 16 (lowerChar c) = digitValue 16 c :=
  forall_lowerChar (P := fun c d => digitValue 16 d = digitValue 16 c) (by decide +kernel)
    (by decide +kernel) (fun _ => rfl) c

/-- A hexadecimal digit is neither a blank nor an underscore. -/
theorem isHexDigit_plain {c : Char} (h : isHexDigit c = true) : c ≠ '_' ∧ isBlank c = false := by
  have hlt : c.toNat < 103 := by
    simp only [isHexDigit, Bool.or_eq_true, Bool.and_eq_true, decide_eq_true_eq, Char.le_def,
      UInt32.le_iff_toNat_le] at h
    rcases h with (⟨-, h⟩ | ⟨-, h⟩) | ⟨-, h⟩
    · exact lt_of_le_of_lt h (by decide)
    · exact lt_of_le_of_lt h (by decide)
    · exact lt_of_le_of_lt h (by decide)
  have all : ∀ n < 103, isHexDigit (Char.ofNat n) = true →
      Char.ofNat n ≠ '_' ∧ isBlank (Char.ofNat n) = false := by decide +kernel
  have hc := all c.toNat hlt
  rw [Char.ofNat_toNat] at hc
  exact hc h

/-! ### Numbers -/

/-- A text is lowered character by character. -/
theorem toList_lower (s : String) : (lower s).toList = s.toList.map lowerChar :=
  String.toList_ofList

/-- Once. -/
@[simp] theorem lower_lower (s : String) : lower (lower s) = lower s := by
  refine String.toList_injective ?_
  simp only [toList_lower, List.map_map]
  exact List.map_congr_left fun c _ => lowerChar_lowerChar c

/-- The text of a number in hexadecimal. -/
theorem isHex_iff {n : ℕ} {s : String} : isHex n s = true ↔
    ∃ cs, s.toList = '0' :: 'x' :: cs ∧ cs.length = n ∧ ∀ c ∈ cs, isHexDigit c = true := by
  unfold isHex
  split
  · next cs h => simp [h]
  · next h =>
    refine iff_of_false (by simp) ?_
    rintro ⟨cs, hs, -⟩
    exact h cs hs

/-- It stays one in lower case. -/
theorem isHex_lower {n : ℕ} {s : String} (h : isHex n s = true) : isHex n (lower s) = true := by
  obtain ⟨cs, hs, hn, hc⟩ := isHex_iff.1 h
  refine isHex_iff.2 ⟨cs.map lowerChar, ?_, by rw [List.length_map, hn], fun c hm => ?_⟩
  · rw [toList_lower, hs]
    rfl
  · obtain ⟨d, hd, rfl⟩ := List.mem_map.1 hm
    rw [isHexDigit_lowerChar]
    exact hc d hd

/-- Hexadecimal digits are read one by one. -/
theorem readDigits_hex : ∀ {cs : List Char}, cs ≠ [] → (∀ c ∈ cs, isHexDigit c = true) →
    readDigits 16 cs = (cs.map (digitValue 16)).mapM id
  | [], h, _ => absurd rfl h
  | [c], _, _ => by
    rw [readDigits, List.map_singleton, List.mapM_cons]
    cases digitValue 16 c <;> rfl
  | c :: d :: cs, _, h => by
    have hd : d ≠ '_' := (isHexDigit_plain (h d (.tail _ (.head _)))).1
    have ih := readDigits_hex (List.cons_ne_nil d cs) fun x hx => h x (.tail _ hx)
    rw [readDigits.eq_4 _ _ _ (by simp) (by simpa using hd), List.map_cons,
      List.mapM_cons, ih]
    cases digitValue 16 c with
    | none => rfl
    | some a => cases ((d :: cs).map (digitValue 16)).mapM id <;> rfl

section Hex

variable {s t : String} {cs ds : List Char}

/-- There is nothing to strip from a hexadecimal text. -/
theorem strip_hex (hs : s.toList = '0' :: 'x' :: cs) (hne : cs ≠ [])
    (hc : ∀ c ∈ cs, isHexDigit c = true) :
    ((s.toList.dropWhile isBlank).reverse.dropWhile isBlank).reverse = '0' :: 'x' :: cs := by
  have first : s.toList.dropWhile isBlank = '0' :: 'x' :: cs := by
    rw [hs]
    rfl
  obtain ⟨init, last, rfl⟩ := List.eq_nil_or_concat cs |>.resolve_left hne
  have hl : isBlank last = false := (isHexDigit_plain (hc last (by simp))).2
  rw [first]
  simp [hl]

/-- Its radix is dropped. -/
theorem dropRadix_hex (hc : ∀ c ∈ cs, isHexDigit c = true) :
    dropRadix 16 ('0' :: 'x' :: cs) = cs := by
  cases cs with
  | nil => rfl
  | cons c cs =>
    have hu : c ≠ '_' := (isHexDigit_plain (hc c (.head _))).1
    rw [dropRadix.eq_2 _ _ _ (by simpa using hu)]
    rfl

/-- The value of a number in hexadecimal is that of its digits. -/
theorem readInt_hex (hs : s.toList = '0' :: 'x' :: cs) (ht : t.toList = '0' :: 'x' :: ds)
    (hne : cs ≠ []) (hc : ∀ c ∈ cs, isHexDigit c = true) (hd : ∀ c ∈ ds, isHexDigit c = true)
    (h : cs.map (digitValue 16) = ds.map (digitValue 16)) : readInt 16 s = readInt 16 t := by
  have hne' : ds ≠ [] := by
    rintro rfl
    exact hne (List.map_eq_nil_iff.1 h)
  unfold readInt
  rw [strip_hex hs hne hc, strip_hex ht hne' hd]
  change (readDigits 16 (dropRadix 16 ('0' :: 'x' :: cs))).bind _ =
    (readDigits 16 (dropRadix 16 ('0' :: 'x' :: ds))).bind _
  rw [dropRadix_hex hc, dropRadix_hex hd, readDigits_hex hne hc, readDigits_hex hne' hd, h]
  rfl

/-- The value of a hash does not depend on the case of its digits. -/
theorem hexValue_lower (h : isHash s = true) : hexValue (lower s) = hexValue s := by
  obtain ⟨cs, hs, hn, hc⟩ := isHex_iff.1 h
  have hne : cs.map lowerChar ≠ [] := by
    intro h
    rw [List.map_eq_nil_iff.1 h] at hn
    exact absurd hn (by decide)
  have hl : (lower s).toList = '0' :: 'x' :: cs.map lowerChar := by
    rw [toList_lower, hs]
    rfl
  unfold hexValue
  rw [readInt_hex hl hs hne (fun c hm => ?_) hc (by simp)]
  obtain ⟨d, hd, rfl⟩ := List.mem_map.1 hm
  rw [isHexDigit_lowerChar]
  exact hc d hd

end Hex
end MorpheusGateway
