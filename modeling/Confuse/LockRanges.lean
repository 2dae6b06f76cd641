import Confuse.CallbackCalls
import Mathlib

/-!
# Byte ranges of locks

A lock request names an offset and a length, a record lock its first and its last byte.
`checked_lock_range` passes the byte behind the requested range as the last one, so a record lock is
one byte longer than the request.
-/

namespace Confuse

open Interaction

/-- The range that a lock call names. -/
def FsCall.lockRange : FsCall → Option (UInt64 × UInt64)
  | .getlk _ _ _ _ start «end» _ _ => some (start, «end»)
  | .setlk _ _ _ _ start «end» _ _ _ => some (start, «end»)
  | _ => none

/-- The bytes of a record lock, whose end is inclusive. -/
def recordBytes (range : UInt64 × UInt64) : Set ℤ := Set.Icc range.1.toNat range.2.toNat

/-- The bytes that a lock request asks for. -/
def requestedBytes (offset length : Int64) : Set ℤ :=
  Set.Ico offset.toInt (offset.toInt + length.toInt)

/-- One requested range begins where the other one stops. -/
def Touching (offset length offset' length' : Int64) : Prop :=
  offset.toInt + length.toInt = offset'.toInt ∨ offset'.toInt + length'.toInt = offset.toInt

/-- The offset and the length of a lock or unlock request. -/
def Callback.lockRequest : Callback → Option (Int64 × Int64)
  | .lockFile _ offset length _ => some (offset, length)
  | .unlockFile _ offset length _ => some (offset, length)
  | _ => none

/-! ## The accepted ranges -/

section Checked
variable {offset length offset' length' : Int64} {range range' : UInt64 × UInt64}

theorem toInt_add_of_lt (hoffset : ¬ offset < 0) (hlength : ¬ length < 0)
    (hsum : offset.toInt + length.toInt < 2 ^ 63) :
    (offset + length).toInt = offset.toInt + length.toInt := by
  have hoffset' : (0 : ℤ) ≤ offset.toInt := Int64.le_iff_toInt_le.mp (Int64.not_lt.mp hoffset)
  have hlength' : (0 : ℤ) ≤ length.toInt := Int64.le_iff_toInt_le.mp (Int64.not_lt.mp hlength)
  rw [Int64.toInt_add]
  exact Int.bmod_eq_of_le (by omega) (by omega)

/-- An accepted range names the first byte of the request and the byte behind it. -/
theorem checkedLockRange_ends (hrange : checkedLockRange offset length = .ok range) :
    (range.1.toNat : ℤ) = offset.toInt ∧
      (range.2.toNat : ℤ) = offset.toInt + length.toInt := by
  unfold checkedLockRange at hrange
  by_cases hnegative : offset < 0 ∨ length < 0
  · rw [if_pos hnegative] at hrange
    cases hrange
  rw [if_neg hnegative] at hrange
  obtain ⟨hoffset, hlength⟩ := not_or.mp hnegative
  rw [nonnegativeI64ToU64_ok hoffset] at hrange
  by_cases hsum : offset.toInt + length.toInt < 2 ^ 63
  · have hend := toInt_add_of_lt hoffset hlength hsum
    have hend' : ¬ offset + length < 0 := by
      have hoffset' : (0 : ℤ) ≤ offset.toInt := Int64.le_iff_toInt_le.mp (Int64.not_lt.mp hoffset)
      have hlength' : (0 : ℤ) ≤ length.toInt := Int64.le_iff_toInt_le.mp (Int64.not_lt.mp hlength)
      refine Int64.not_lt.mpr (Int64.le_iff_toInt_le.mpr ?_)
      rw [hend]
      exact Int.add_nonneg hoffset' hlength'
    simp only [if_pos hsum, nonnegativeI64ToU64_ok hend'] at hrange
    obtain rfl : (offset.toUInt64, (offset + length).toUInt64) = range := Except.ok.inj hrange
    exact ⟨toNat_toUInt64 hoffset, (toNat_toUInt64 hend').trans hend⟩
  · simp only [if_neg hsum] at hrange
    cases hrange

theorem recordBytes_eq (hrange : checkedLockRange offset length = .ok range) :
    recordBytes range = Set.Icc offset.toInt (offset.toInt + length.toInt) := by
  obtain ⟨hstart, hend⟩ := checkedLockRange_ends hrange
  rw [recordBytes, hstart, hend]

theorem recordBytes_meet_iff (hrange : checkedLockRange offset length = .ok range)
    (hrange' : checkedLockRange offset' length' = .ok range') :
    (recordBytes range ∩ recordBytes range').Nonempty ↔
      max offset.toInt offset'.toInt
        ≤ min (offset.toInt + length.toInt) (offset'.toInt + length'.toInt) := by
  rw [recordBytes_eq hrange, recordBytes_eq hrange', Set.Icc_inter_Icc, Set.nonempty_Icc]

theorem requestedBytes_meet_iff :
    (requestedBytes offset length ∩ requestedBytes offset' length').Nonempty ↔
      max offset.toInt offset'.toInt
        < min (offset.toInt + length.toInt) (offset'.toInt + length'.toInt) := by
  rw [requestedBytes, requestedBytes, Set.Ico_inter_Ico, Set.nonempty_Ico]

end Checked

/-! ## The calls -/

/-- The lock calls of a routine name the range of the request. -/
def namesRange (offset length : Int64) (c : FsCall) : Bool :=
  c.lockRange.all fun range => (checkedLockRange offset length).toOption = some range

theorem setlkWithContext_names {offset length : Int64} {start «end» : UInt64}
    (hrange : checkedLockRange offset length = .ok (start, «end»)) (req : Request)
    (resolved : AdapterContext) (typ : Int32) :
    Calls (namesRange offset length) (setlkWithContext req resolved start «end» typ) := by
  have hnames : namesRange offset length (.setlk req resolved.ino resolved.fh (requestOwner resolved)
      start «end» typ req.pid false) = true := by
    simp [namesRange, FsCall.lockRange, hrange, Except.toOption]
  exact .bind (.fs hnames) fun _ => .bind (.drainResolverForgets _) fun _ => .onReply fun _ => .pure _

theorem lockFile_names (pf : Platform) (fileName : U16CStr) (offset length : Int64)
    (context : AdapterContext) :
    Calls (namesRange offset length) (lockFile pf fileName offset length context) := by
  refine .bind (.of_madeOf (MadeOf.resolveContextOrPath pf _ _ _)) fun resolved => ?_
  cases resolved with
  | error err => exact .pure _
  | ok resolved =>
      cases hrange : checkedLockRange offset length with
      | error status => exact .pure _
      | ok range =>
          obtain ⟨start, «end»⟩ := range
          have hnames : namesRange offset length (.getlk (requestFromIds context.requestIds)
              resolved.ino resolved.fh (requestOwner resolved) start «end» LOCK_TYPE_WRLCK
              (requestFromIds context.requestIds).pid) = true := by
            simp [namesRange, FsCall.lockRange, hrange, Except.toOption]
          refine .bind (.fs hnames) fun query => ?_
          rcases query with _ | ⟨err⟩ | ⟨lock⟩
          · exact setlkWithContext_names hrange _ _ _
          · exact .pure _
          · dsimp only
            split_ifs
            · exact .pure _
            · exact setlkWithContext_names hrange _ _ _

theorem unlockFile_names (pf : Platform) (fileName : U16CStr) (offset length : Int64)
    (context : AdapterContext) :
    Calls (namesRange offset length) (unlockFile pf fileName offset length context) := by
  refine .bind (.of_madeOf (MadeOf.resolveContextOrPath pf _ _ _)) fun resolved => ?_
  cases resolved with
  | error err => exact .pure _
  | ok resolved =>
      cases hrange : checkedLockRange offset length with
      | error status => exact .pure _
      | ok range => exact setlkWithContext_names hrange _ _ _

theorem Callback.names_range (pf : Platform) {c : Callback} {offset length : Int64}
    (hc : c.lockRequest = some (offset, length)) :
    Calls (namesRange offset length) (c.routine pf) := by
  cases c with
  | lockFile fileName o l context =>
      obtain ⟨rfl, rfl⟩ : o = offset ∧ l = length := by simpa [Callback.lockRequest] using hc
      exact lockFile_names pf fileName o l context
  | unlockFile fileName o l context =>
      obtain ⟨rfl, rfl⟩ : o = offset ∧ l = length := by simpa [Callback.lockRequest] using hc
      exact unlockFile_names pf fileName o l context
  | _ => cases hc

/-- Every lock call in the events of a lock or unlock request names the range of the request. -/
theorem World.lockRange_of_call {β φ : Type} (pf : Platform) (h : Host β φ) (notices : Notices)
    {c : Callback} {offset length : Int64} (hc : c.lockRequest = some (offset, length))
    (w : World β φ) {call : FsCall} {reply : call.Reply}
    (hcall : .call call reply ∈ w.newEvents pf h notices (c.routine pf)) {range : UInt64 × UInt64}
    (hlock : call.lockRange = some range) : checkedLockRange offset length = .ok range := by
  rcases Calls.every (Callback.names_range pf hc) _ _ (newEvents_traces pf h notices _ w) call reply
    hcall with hwalk | hnames
  · have hnone : call.lockRange = none := by
      cases call <;> first | rfl | cases hwalk
    rw [hnone] at hlock
    cases hlock
  · rw [namesRange, hlock] at hnames
    cases hrange : checkedLockRange offset length with
    | error status => simp [hrange, Except.toOption] at hnames
    | ok range' => simpa [hrange, Except.toOption] using hnames

/-! ## Exactness -/

/-- The lock calls of two requests name ranges that meet when the requested ones do, exactly when the
requested ranges do not touch; touching requests conflict, and no unlock keeps to its request. -/
theorem lock_ranges_exact_iff {β φ : Type} (pf : Platform) (h : Host β φ) (notices : Notices)
    {c c' : Callback} {offset length offset' length' : Int64}
    (hc : c.lockRequest = some (offset, length)) (hc' : c'.lockRequest = some (offset', length'))
    (hlength : 0 < length) (hlength' : 0 < length') {range range' : UInt64 × UInt64}
    (hrange : checkedLockRange offset length = .ok range)
    (hrange' : checkedLockRange offset' length' = .ok range') :
    (∀ (w : World β φ) (call : FsCall) (reply : call.Reply) (named : UInt64 × UInt64),
      .call call reply ∈ w.newEvents pf h notices (c.routine pf) → call.lockRange = some named →
        named = range) ∧
    (∀ (w : World β φ) (call : FsCall) (reply : call.Reply) (named : UInt64 × UInt64),
      .call call reply ∈ w.newEvents pf h notices (c'.routine pf) → call.lockRange = some named →
        named = range') ∧
    (((recordBytes range ∩ recordBytes range').Nonempty ↔
        (requestedBytes offset length ∩ requestedBytes offset' length').Nonempty) ↔
      ¬ Touching offset length offset' length') ∧
    (Touching offset length offset' length' → (recordBytes range ∩ recordBytes range').Nonempty) ∧
    ¬ recordBytes range ⊆ requestedBytes offset length := by
  have hpositive : (0 : ℤ) < length.toInt := Int64.lt_iff_toInt_lt.mp hlength
  have hpositive' : (0 : ℤ) < length'.toInt := Int64.lt_iff_toInt_lt.mp hlength'
  refine ⟨fun w call reply named hcall hlock => ?_, fun w call reply named hcall hlock => ?_, ?_, ?_,
    fun hsubset => ?_⟩
  · have hnamed := World.lockRange_of_call pf h notices hc w hcall hlock
    exact Except.ok.inj (hnamed.symm.trans hrange)
  · have hnamed := World.lockRange_of_call pf h notices hc' w hcall hlock
    exact Except.ok.inj (hnamed.symm.trans hrange')
  · rw [recordBytes_meet_iff hrange hrange', requestedBytes_meet_iff, Touching]
    omega
  · rw [recordBytes_meet_iff hrange hrange', Touching]
    omega
  · have hbehind : offset.toInt + length.toInt ∈ recordBytes range := by
      rw [recordBytes_eq hrange]
      exact ⟨by omega, le_rfl⟩
    exact absurd (hsubset hbehind).2 (lt_irrefl _)

theorem lock_ranges_exact_iff_apart :
    (((recordBytes (0, 10) ∩ recordBytes (20, 30)).Nonempty ↔
        (requestedBytes 0 10 ∩ requestedBytes 20 10).Nonempty) ↔ ¬ Touching 0 10 20 10) ∧
      ¬ recordBytes (0, 10) ⊆ requestedBytes 0 10 := by
  have hrequest : (Callback.lockFile fileF 0 10 {}).lockRequest = some (0, 10) := rfl
  have hrequest' : (Callback.unlockFile fileF 20 10 {}).lockRequest = some (20, 10) := rfl
  have hrange : checkedLockRange 0 10 = .ok (0, 10) := rfl
  have hrange' : checkedLockRange 20 10 = .ok (20, 30) := rfl
  have hexact := lock_ranges_exact_iff .ascii (.stateless (oneFile (.fromSecs 1))) undisturbed hrequest
    hrequest' (by decide) (by decide) hrange hrange'
  exact ⟨hexact.2.2.1, hexact.2.2.2.2⟩

/-- The requests for the bytes 0 to 9 and 10 to 14 name ranges that share byte 10. -/
theorem adjacent_locks_conflict :
    ¬ ∀ (offset length offset' length' : Int64) (range range' : UInt64 × UInt64),
      0 < length → 0 < length' → checkedLockRange offset length = .ok range →
        checkedLockRange offset' length' = .ok range' →
        ((recordBytes range ∩ recordBytes range').Nonempty ↔
          (requestedBytes offset length ∩ requestedBytes offset' length').Nonempty) := by
  intro hall
  have hrange : checkedLockRange 0 10 = .ok (0, 10) := rfl
  have hrange' : checkedLockRange 10 5 = .ok (10, 15) := rfl
  have hranges := hall 0 10 10 5 (0, 10) (10, 15) (by decide) (by decide) hrange hrange'
  rw [recordBytes_meet_iff hrange hrange', requestedBytes_meet_iff] at hranges
  exact absurd hranges (by decide)

end Confuse
