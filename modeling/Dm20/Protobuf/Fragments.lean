import Dm20.Protobuf.Integration

open Slots

namespace IS

namespace StringUtil

private theorem splitStr_eq_chunk {target : Str} {size : UInt32} {k : Nat} :
    (target.drop (size.toNat * k)).take
      (if size.toNat < target.length - size.toNat * k then size.toNat else target.length - size.toNat * k) =
      chunk size.toNat target k := by
  rw [chunk]
  split
  · rfl
  · rw [List.take_of_length_le (by rw [List.length_drop]), List.take_of_length_le (by rw [List.length_drop]; omega)]

/-- The loop from the position behind some of the pieces. -/
theorem splitBySizeLoop_eq {target : Str} {size : UInt32} (hsize : 0 < size.toNat) (hlength : target.length < 2 ^ 32)
    {fuel k : Nat} (hk : k ≤ count size.toNat target) (hfuel : count size.toNat target < fuel + k) {sumLen : UInt32}
    (hsum : sumLen.toNat = min (size.toNat * k) target.length) :
    splitBySizeLoop target size fuel sumLen ((List.range k).map (chunk size.toNat target)) =
      some (chunks size.toNat target) := by
  induction fuel generalizing k sumLen with
  | zero => omega
  | succ fuel ih =>
    rw [splitBySizeLoop]
    by_cases hlast : k = count size.toNat target
    · have hall := le_mul_count hsize target
      rw [← hlast] at hall
      rw [if_neg (by omega), chunks, hlast]
    · have hlt : size.toNat * k < target.length := mul_lt_length (by omega)
      have hpos : sumLen.toNat = size.toNat * k := by omega
      rw [if_pos (by omega), hpos]
      dsimp only
      rw [splitStr_eq_chunk]
      have hrange : (List.range k).map (chunk size.toNat target) ++ [chunk size.toNat target k] =
          (List.range (k + 1)).map (chunk size.toNat target) := by
        rw [List.range_succ, List.map_append]
        rfl
      rw [hrange]
      refine ih (by omega) (by omega) ?_
      have hchunk := @length_chunk _ size.toNat target k
      have hnext : (UInt32.ofNat (chunk size.toNat target k).length).toNat = (chunk size.toNat target k).length :=
        UInt32.toNat_ofNat_of_lt' (by simp only [UInt32.size]; omega)
      rw [UInt32.toNat_add, hnext, hpos, Nat.mul_add, Nat.mul_one, Nat.mod_eq_of_lt (by omega)]
      omega

/-- A text that is not too long is cut into its parts. -/
theorem splitBySize_eq {target : Str} {size : UInt32} (hsize : 0 < size.toNat) (hlength : target.length < 2 ^ 32) :
    splitBySize target size = some (chunks size.toNat target) := by
  have hcount := count_le_length hsize target
  exact splitBySizeLoop_eq (k := 0) hsize hlength (Nat.zero_le _) (by omega) (by simp)

/-- The loop has no end for a size of 0 and for a text that is too long. -/
theorem splitBySizeLoop_eq_none {target : Str} {size : UInt32}
    (h : (size.toNat = 0 ∧ target ≠ []) ∨ 2 ^ 32 ≤ target.length) (fuel : Nat) {sumLen : UInt32}
    (hsum : size.toNat = 0 → sumLen = 0) (result : List Str) : splitBySizeLoop target size fuel sumLen result =
    none := by
  induction fuel generalizing sumLen result with
  | zero => rfl
  | succ fuel ih =>
    have hne : sumLen.toNat ≠ target.length := by
      obtain ⟨hzero, hne⟩ | hlong := h
      · rw [hsum hzero]
        exact fun heq => hne (List.length_eq_zero_iff.mp heq.symm)
      · have hlt := sumLen.toNat_lt
        omega
    rw [splitBySizeLoop, if_pos hne]
    refine ih (fun hzero => ?_) _
    rw [hsum hzero, hzero]
    by_cases hrest : 0 < target.length
    · simp [hrest]
    · simp at hrest
      simp [hrest]

/-- What a text is cut into, where the loop ends. -/
theorem splitBySize_eq_some {target : Str} (htarget : target ≠ []) {size : UInt32} {pieces : List Str}
    (h : splitBySize target size = some pieces) :
    0 < size.toNat ∧ target.length < 2 ^ 32 ∧ pieces = chunks size.toNat target := by
  have hsize : 0 < size.toNat := by
    by_contra hzero
    rw [splitBySize, splitBySizeLoop_eq_none (.inl ⟨by omega, htarget⟩) _ (fun _ => rfl)] at h
    cases h
  have hlength : target.length < 2 ^ 32 := by
    by_contra hlong
    rw [splitBySize, splitBySizeLoop_eq_none (.inr (by omega)) _ (fun _ => rfl)] at h
    cases h
  rw [splitBySize_eq hsize hlength] at h
  exact ⟨hsize, hlength, (Option.some.inj h).symm⟩

end StringUtil

end IS
