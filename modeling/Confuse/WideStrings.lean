import Confuse.Strings

/-!
# What a lossy conversion keeps

A conversion to a string replaces the surrogates that stand alone. Nothing else is lost: the string
encodes to the units with the replacement character in these places.
-/

namespace Confuse

/-- The replacement character where a surrogate stands alone. -/
def replaceUnit (u : UInt16) : UInt16 := if isLead u || isTrail u then 0xFFFD else u

/-- The units with every unpaired surrogate replaced. -/
def replaceUnpaired : List UInt16 → List UInt16
  | [] => []
  | [u] => [replaceUnit u]
  | u :: v :: rest =>
      if isLead u && isTrail v then u :: v :: replaceUnpaired rest
      else replaceUnit u :: replaceUnpaired (v :: rest)

theorem isLead_iff {u : UInt16} : isLead u = true ↔ 0xD800 ≤ u.toNat ∧ u.toNat < 0xDC00 := by
  simp [isLead]

theorem isTrail_iff {u : UInt16} : isTrail u = true ↔ 0xDC00 ≤ u.toNat ∧ u.toNat < 0xE000 := by
  simp [isTrail]

theorem toNat_ofNat_valid {n : ℕ} (h : n.isValidChar) : (Char.ofNat n).toNat = n := by
  unfold Char.ofNat
  rw [dif_pos h]
  rfl

theorem encodeChar_lossy_decodeUnit (u : UInt16) :
    encodeChar (decodeUnit u).lossy = [replaceUnit u] := by
  have hu := u.toNat_lt
  unfold decodeUnit replaceUnit
  split_ifs with hsurrogate
  · rfl
  · rw [Bool.or_eq_true, isLead_iff, isTrail_iff] at hsurrogate
    have hvalid : u.toNat.isValidChar := by
      unfold Nat.isValidChar
      omega
    have hchar : (Char.ofNat u.toNat).toNat = u.toNat := toNat_ofNat_valid hvalid
    change encodeChar (Char.ofNat u.toNat) = [u]
    unfold encodeChar
    rw [hchar, if_pos (by omega)]
    simp

theorem encodeChar_joinPair {u v : UInt16} (hu : isLead u = true) (hv : isTrail v = true) :
    encodeChar (joinPair u v) = [u, v] := by
  rw [isLead_iff] at hu
  rw [isTrail_iff] at hv
  set n := 0x10000 + (u.toNat - 0xD800) * 0x400 + (v.toNat - 0xDC00) with hn
  have hvalid : n.isValidChar := by
    unfold Nat.isValidChar
    omega
  have hchar : (joinPair u v).toNat = n := toNat_ofNat_valid hvalid
  have hlead : 0xD800 + (n - 0x10000) / 0x400 = u.toNat := by omega
  have htrail : 0xDC00 + (n - 0x10000) % 0x400 = v.toNat := by omega
  unfold encodeChar
  rw [hchar, if_neg (by omega), hlead, htrail]
  simp

/-- The lossy string encodes to the units with the unpaired surrogates replaced. -/
theorem encode_lossy_decode (us : List UInt16) :
    encodeUtf16 ((decodeUtf16 us).map CodePoint.lossy) = replaceUnpaired us := by
  induction us using decodeUtf16.induct with
  | case1 => rfl
  | case2 u =>
      exact (List.append_nil _).trans (encodeChar_lossy_decodeUnit u)
  | case3 u v rest hpair ih =>
      obtain ⟨hu, hv⟩ := Bool.and_eq_true_iff.mp hpair
      rw [decodeUtf16, replaceUnpaired, if_pos hpair, if_pos hpair, ← ih]
      exact congrArg (· ++ encodeUtf16 ((decodeUtf16 rest).map CodePoint.lossy))
        (encodeChar_joinPair hu hv)
  | case4 u v rest hpair ih =>
      rw [decodeUtf16, replaceUnpaired, if_neg hpair, if_neg hpair, ← ih]
      exact congrArg (· ++ encodeUtf16 ((decodeUtf16 (v :: rest)).map CodePoint.lossy))
        (encodeChar_lossy_decodeUnit u)

theorem encodeUtf16_injective : Function.Injective encodeUtf16 := by
  intro s t h
  have hdecoded := congrArg (fun us => (decodeUtf16 us).map CodePoint.lossy) h
  simpa [decode_encode, Function.comp_def, CodePoint.lossy] using hdecoded

theorem replaceUnpaired_nonzero {us : List UInt16} (h : ∀ u ∈ us, u ≠ 0) :
    ∀ u ∈ replaceUnpaired us, u ≠ 0 := by
  have hunit : ∀ u : UInt16, u ≠ 0 → replaceUnit u ≠ 0 := by
    intro u hu
    unfold replaceUnit
    split_ifs
    · decide
    · exact hu
  induction us using replaceUnpaired.induct with
  | case1 => exact h
  | case2 u => simpa [replaceUnpaired] using hunit u (h u (by simp))
  | case3 u v rest hpair ih =>
      rw [replaceUnpaired, if_pos hpair]
      simp only [List.forall_mem_cons] at h ⊢
      exact ⟨h.1, h.2.1, ih h.2.2⟩
  | case4 u v rest hpair ih =>
      rw [replaceUnpaired, if_neg hpair]
      simp only [List.forall_mem_cons] at h ⊢
      exact ⟨hunit u h.1, ih (List.forall_mem_cons.mpr h.2)⟩

namespace U16CStr

theorem encode_toStringLossy (s : U16CStr) :
    encodeUtf16 s.toStringLossy = replaceUnpaired s.units := encode_lossy_decode s.units

/-- A C string has no NUL in its lossy form. -/
theorem nul_not_mem_toStringLossy (s : U16CStr) : '\x00' ∉ s.toStringLossy := by
  intro hnul
  have hzero : (0 : UInt16) ∈ encodeUtf16 s.toStringLossy :=
    List.mem_flatMap.mpr ⟨_, hnul, List.mem_singleton.mpr rfl⟩
  rw [encode_toStringLossy] at hzero
  exact replaceUnpaired_nonzero s.nonzero 0 hzero rfl

end U16CStr
end Confuse
