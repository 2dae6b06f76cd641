import Confuse.Callbacks
import Mathlib.Data.Set.Basic
import Mathlib.Order.Interval.Set.Defs

/-!
# Planning a write

`dokan_write_plan` turns an offset, a buffer length and two flags into the range to write, asking the
file system for the size where the flags need it. A paging write is cut off at the end of the file.
The last part makes the panics of the source explicit: a subtraction below zero and a slice that is
longer than the buffer.
-/

namespace Confuse

open Interaction

/-- The size that a reply to `getattr` carries. -/
def Reply.size? : Reply ReplyAttrPayload → Option UInt64
  | some (.ok payload) => some payload.attr.size
  | _ => none

/-- A plan for `len` bytes at `offset` in a file for whose size `getattr` answers `size`. -/
structure PlansWrite (offset : Int64) (len : ℕ) (writeToEof pagingIo : Bool) (size : Option UInt64)
    (result : Except NtStatus (UInt64 × ℕ)) : Prop where
  fails : (∃ status, result = .error status) ↔
    (writeToEof = false ∧ offset < 0) ∨ ((writeToEof = true ∨ pagingIo = true) ∧ size = none)
  within : ∀ start n, result = .ok (start, n) → n ≤ len
  atEof : ∀ start n, result = .ok (start, n) → writeToEof = true → size = some start
  atOffset : ∀ start n, result = .ok (start, n) → writeToEof = false →
    (start.toNat : ℤ) = offset.toInt
  paging : ∀ start n, result = .ok (start, n) → pagingIo = true → ∃ s, size = some s ∧
    Set.Ico start.toNat (start.toNat + n)
      = Set.Ico start.toNat (start.toNat + len) ∩ Set.Ico 0 s.toNat
  whole : ∀ start n, result = .ok (start, n) → pagingIo = false → n = len

namespace PlansWrite
variable {offset : Int64} {len : ℕ} {writeToEof pagingIo : Bool} {size : Option UInt64}

theorem error {status : NtStatus}
    (h : (writeToEof = false ∧ offset < 0) ∨ ((writeToEof = true ∨ pagingIo = true) ∧ size = none)) :
    PlansWrite offset len writeToEof pagingIo size (.error status) where
  fails := iff_of_true ⟨status, rfl⟩ h
  within := nofun
  atEof := nofun
  atOffset := nofun
  paging := nofun
  whole := nofun

/-- A plan that starts at the right place and covers the part of the request that may be written. -/
theorem ok {start : UInt64} {n : ℕ} (hoffset : writeToEof = false → ¬ offset < 0)
    (hsize : writeToEof = true ∨ pagingIo = true → size ≠ none) (hwithin : n ≤ len)
    (heof : writeToEof = true → size = some start)
    (hstart : writeToEof = false → (start.toNat : ℤ) = offset.toInt)
    (hpaging : pagingIo = true → ∃ s, size = some s ∧
      Set.Ico start.toNat (start.toNat + n)
        = Set.Ico start.toNat (start.toNat + len) ∩ Set.Ico 0 s.toNat)
    (hwhole : pagingIo = false → n = len) :
    PlansWrite offset len writeToEof pagingIo size (.ok (start, n)) where
  fails := by
    refine iff_of_false nofun ?_
    rintro (⟨hplain, hnegative⟩ | ⟨hneeded, hnone⟩)
    · exact hoffset hplain hnegative
    · exact hsize hneeded hnone
  within := by
    rintro _ _ ⟨⟩
    exact hwithin
  atEof := by
    rintro _ _ ⟨⟩
    exact heof
  atOffset := by
    rintro _ _ ⟨⟩
    exact hstart
  paging := by
    rintro _ _ ⟨⟩
    exact hpaging
  whole := by
    rintro _ _ ⟨⟩
    exact hwhole

end PlansWrite

/-! ## What a paging write keeps of the range -/

theorem ico_min {start size : ℕ} (len : ℕ) (h : start < size) :
    Set.Ico start (start + min len (size - start))
      = Set.Ico start (start + len) ∩ Set.Ico 0 size := by
  ext byte
  simp only [Set.mem_Ico, Set.mem_inter_iff]
  omega

theorem ico_past {start size : ℕ} (len : ℕ) (h : size ≤ start) :
    Set.Ico start (start + 0) = Set.Ico start (start + len) ∩ Set.Ico 0 size := by
  ext byte
  simp only [Set.mem_Ico, Set.mem_inter_iff]
  omega

theorem toNat_sub_of_lt {start size : UInt64} (h : ¬ start ≥ size) :
    (size - start).toNat = size.toNat - start.toNat :=
  UInt64.toNat_sub_of_le _ _ (UInt64.le_of_lt (UInt64.not_le.mp h))

/-- The part of `dokan_write_plan` after the answer of `getattr`. -/
theorem plansWrite_sized {offset : Int64} (len : ℕ) {writeToEof pagingIo : Bool} {size : UInt64}
    (hneeded : writeToEof = true ∨ pagingIo = true) (hoffset : writeToEof = false → ¬ offset < 0)
    {start : UInt64}
    (hstart : (if writeToEof then .ok size else nonnegativeI64ToU64 offset) = Except.ok start) :
    PlansWrite offset len writeToEof pagingIo (some size)
      (if pagingIo then if start ≥ size then .ok (start, 0)
        else .ok (start, min len (size - start).toNat) else .ok (start, len)) := by
  have heof : writeToEof = true → some size = some start := by
    rintro rfl
    exact congrArg some (Except.ok.inj hstart)
  have hat : writeToEof = false → (start.toNat : ℤ) = offset.toInt := by
    intro hplain
    subst hplain
    have hnonneg := hoffset rfl
    rw [if_neg Bool.false_ne_true, nonnegativeI64ToU64_ok hnonneg] at hstart
    rw [← Except.ok.inj hstart]
    exact toNat_toUInt64 hnonneg
  cases pagingIo with
  | false =>
      exact .ok hoffset (fun _ => nofun) le_rfl heof hat nofun fun _ => rfl
  | true =>
      by_cases hpast : start ≥ size
      · rw [if_pos rfl, if_pos hpast]
        exact .ok hoffset (fun _ => nofun) (Nat.zero_le len) heof hat
          (fun _ => ⟨size, rfl, ico_past len (UInt64.le_iff_toNat_le.mp hpast)⟩) nofun
      · rw [if_pos rfl, if_neg hpast, toNat_sub_of_lt hpast]
        exact .ok hoffset (fun _ => nofun) (min_le_left _ _) heof hat
          (fun _ => ⟨size, rfl, ico_min len (UInt64.lt_iff_toNat_lt.mp (UInt64.not_le.mp hpast))⟩)
          nofun

section Runs
variable {β φ : Type} (pf : Platform) (h : Host β φ) (notices : Notices)

/-- The size that the file system reports when it is asked in this world. -/
def World.sizeAt (req : Request) (context : AdapterContext) (w : World β φ) : Option UInt64 :=
  Reply.size? (h.reply (.getattr req context.ino (some context.fh)) w.backend).1

theorem run_dokanWritePlan (req : Request) (context : AdapterContext) (offset : Int64) (len : ℕ)
    (writeToEof pagingIo : Bool) (w : World β φ) :
    PlansWrite offset len writeToEof pagingIo (w.sizeAt h req context)
      ((dokanWritePlan req context offset len writeToEof pagingIo).run (machine pf h notices) w).1 := by
  unfold dokanWritePlan
  by_cases hnegative : (!writeToEof && decide (offset < 0)) = true
  · rw [if_pos hnegative]
    exact .error (.inl (by simpa using hnegative))
  rw [if_neg hnegative]
  have hoffset : writeToEof = false → ¬ offset < 0 := by
    rintro rfl
    simpa using hnegative
  by_cases hplain : (!writeToEof && !pagingIo) = true
  · obtain ⟨rfl, rfl⟩ : writeToEof = false ∧ pagingIo = false := by simpa using hplain
    rw [if_pos hplain, nonnegativeI64ToU64_ok (hoffset rfl)]
    exact .ok hoffset (by simp) le_rfl nofun (fun _ => toNat_toUInt64 (hoffset rfl)) nofun
      fun _ => rfl
  rw [if_neg hplain]
  have hneeded : writeToEof = true ∨ pagingIo = true := by
    cases writeToEof <;> simp_all
  obtain ⟨w', -, hrun⟩ := World.run_fs_bind pf h notices
    (.getattr req context.ino (some context.fh)) (fun status : Reply ReplyAttrPayload =>
      onReply status errnoToNtstatus fun payload =>
        onOk (if writeToEof then .ok payload.attr.size else nonnegativeI64ToU64 offset) fun start =>
          if pagingIo then
            if start ≥ payload.attr.size then pure (.ok (start, 0))
            else pure (.ok (start, min len (payload.attr.size - start).toNat))
          else pure (.ok (start, len))) w
  refine (congrArg (fun r => PlansWrite offset len writeToEof pagingIo _ r.1) hrun).mpr ?_
  unfold World.sizeAt
  rcases (h.reply (.getattr req context.ino (some context.fh)) w.backend).1 with _ | ⟨err⟩ | ⟨payload⟩
  · exact .error (.inr ⟨hneeded, rfl⟩)
  · exact .error (.inr ⟨hneeded, rfl⟩)
  · obtain ⟨start, hstart⟩ : ∃ start, (if writeToEof then .ok payload.attr.size
        else nonnegativeI64ToU64 offset) = Except.ok start := by
      cases writeToEof with
      | true => exact ⟨_, rfl⟩
      | false => exact ⟨_, nonnegativeI64ToU64_ok (hoffset rfl)⟩
    have hplan := plansWrite_sized len hneeded hoffset hstart
    change PlansWrite _ _ _ _ (some payload.attr.size)
      ((onOk (if writeToEof then .ok payload.attr.size else nonnegativeI64ToU64 offset) _).run _ w').1
    rw [hstart]
    refine (congrArg (PlansWrite offset len writeToEof pagingIo _) ?_).mpr hplan
    simp only [onOk]
    split_ifs <;> rfl

end Runs

/-! ## No panic -/

/-- `a - b`, which panics below zero. -/
def subOrPanic (a b : UInt64) : Option UInt64 := if b ≤ a then some (a - b) else none

/-- `&buffer[..len]`, which panics behind the end of the buffer. -/
def sliceOrPanic (buffer : List UInt8) (len : ℕ) : Option (List UInt8) :=
  if len ≤ buffer.length then some (buffer.take len) else none

/-- `dokan_write_plan`, or nothing when it panics. -/
def dokanWritePlanOrPanic (req : Request) (context : AdapterContext) (offset : Int64) (len : ℕ)
    (writeToEof pagingIo : Bool) : Routine (Option (Except NtStatus (UInt64 × ℕ))) :=
  if !writeToEof && offset < 0 then pure (some (.error STATUS_INVALID_PARAMETER))
  else if !writeToEof && !pagingIo then
    pure (some ((nonnegativeI64ToU64 offset).map fun start => (start, len)))
  else do
    let status : Reply ReplyAttrPayload ←
      Routine.fs (.getattr req context.ino (some context.fh))
    match status with
    | none => pure (some (.error missingReplyStatus))
    | some (.error err) => pure (some (.error (errnoToNtstatus err)))
    | some (.ok payload) =>
        let size := payload.attr.size
        match if writeToEof then .ok size else nonnegativeI64ToU64 offset with
        | .error status => pure (some (.error status))
        | .ok start =>
            if pagingIo then
              if start ≥ size then pure (some (.ok (start, 0)))
              else match subOrPanic size start with
                | none => pure none
                | some remaining => pure (some (.ok (start, min len remaining.toNat)))
            else pure (some (.ok (start, len)))

/-- What `write_file` does with the slice of its buffer. -/
def writeSlice (pf : Platform) (req : Request) (fileName : U16CStr) (resolved : AdapterContext)
    (offset : UInt64) (data : List UInt8) : Routine (Except NtStatus UInt32) := do
  let written : Reply UInt32 ← Routine.fs (.write req resolved.ino resolved.fh offset data ⟨0⟩
    (openFlagsFromFopenFlags resolved.flags) (lockOwnerFromContext resolved))
  drainResolverForgets req
  onReply written errnoToNtstatus fun n => do
    finishMetadataMutation pf req fileName resolved.ino
    pure (.ok n)

/-- `write_file`, or nothing when it panics. -/
def writeFileOrPanic (pf : Platform) (fileName : U16CStr) (offset : Int64) (buffer : List UInt8)
    (writeToEof pagingIo : Bool) (context : AdapterContext) :
    Routine (Option (Except NtStatus UInt32)) := do
  let req := requestFromIds context.requestIds
  match ← resolveContextOrPath pf req fileName context with
  | .error err => pure (some (.error (errnoToNtstatus err)))
  | .ok resolved =>
      match ← dokanWritePlanOrPanic req resolved offset buffer.length writeToEof pagingIo with
      | none => pure none
      | some (.error status) => pure (some (.error status))
      | some (.ok (offset, len)) =>
          match sliceOrPanic buffer len with
          | none => pure none
          | some data => some <$> writeSlice pf req fileName resolved offset data

theorem dokanWritePlan_within (req : Request) (context : AdapterContext) (offset : Int64) (len : ℕ)
    (writeToEof pagingIo : Bool) :
    (dokanWritePlan req context offset len writeToEof pagingIo).Returns fun plan =>
      ∀ start n, plan = .ok (start, n) → n ≤ len := by
  unfold dokanWritePlan
  by_cases hnegative : (!writeToEof && decide (offset < 0)) = true
  · rw [if_pos hnegative]
    exact .pure nofun
  rw [if_neg hnegative]
  by_cases hplain : (!writeToEof && !pagingIo) = true
  · rw [if_pos hplain]
    refine .pure fun start n hn => ?_
    cases hoffset : nonnegativeI64ToU64 offset with
    | error status => simp [hoffset, Except.map] at hn
    | ok v =>
        rw [hoffset] at hn
        cases hn
        exact le_rfl
  rw [if_neg hplain]
  refine .last fun status => onReply_cases (fun _ => .pure nofun) fun payload _ =>
    onOk_cases (fun _ => .pure nofun) fun start => ?_
  split_ifs
  · refine .pure ?_
    rintro _ _ ⟨⟩
    exact Nat.zero_le len
  · refine .pure ?_
    rintro _ _ ⟨⟩
    exact min_le_left _ _
  · refine .pure ?_
    rintro _ _ ⟨⟩
    exact le_rfl

theorem dokanWritePlanOrPanic_eq (req : Request) (context : AdapterContext) (offset : Int64) (len : ℕ)
    (writeToEof pagingIo : Bool) :
    dokanWritePlanOrPanic req context offset len writeToEof pagingIo
      = some <$> dokanWritePlan req context offset len writeToEof pagingIo := by
  unfold dokanWritePlanOrPanic dokanWritePlan
  by_cases hnegative : (!writeToEof && decide (offset < 0)) = true
  · rw [if_pos hnegative, if_pos hnegative]
    rfl
  rw [if_neg hnegative, if_neg hnegative]
  by_cases hplain : (!writeToEof && !pagingIo) = true
  · rw [if_pos hplain, if_pos hplain]
    rfl
  rw [if_neg hplain, if_neg hplain]
  refine Prog.bind_eq_bind fun status => ?_
  rcases status with _ | ⟨err⟩ | ⟨payload⟩
  · rfl
  · rfl
  dsimp only [onReply]
  generalize (if writeToEof then Except.ok payload.attr.size else nonnegativeI64ToU64 offset) = at'
  cases at' with
  | error status => rfl
  | ok start =>
      dsimp only [onOk]
      cases pagingIo with
      | false => rfl
      | true =>
          by_cases hpast : start ≥ payload.attr.size
          · rw [if_pos rfl, if_pos rfl, if_pos hpast, if_pos hpast]
            rfl
          · have hsub : subOrPanic payload.attr.size start = some (payload.attr.size - start) :=
              if_pos (UInt64.le_of_lt (UInt64.not_le.mp hpast))
            rw [if_pos rfl, if_pos rfl, if_neg hpast, if_neg hpast, hsub]
            rfl

theorem writeFileOrPanic_eq (pf : Platform) (fileName : U16CStr) (offset : Int64)
    (buffer : List UInt8) (writeToEof pagingIo : Bool) (context : AdapterContext) :
    writeFileOrPanic pf fileName offset buffer writeToEof pagingIo context
      = some <$> writeFile pf fileName offset buffer writeToEof pagingIo context := by
  refine Prog.bind_eq_bind fun resolved => ?_
  cases resolved with
  | error err => rfl
  | ok resolved =>
      dsimp only
      rw [dokanWritePlanOrPanic_eq]
      refine (Prog.bind_assoc _ _ _).trans (.trans ?_ (Prog.bind_assoc _ _ _).symm)
      refine (dokanWritePlan_within _ resolved offset buffer.length writeToEof pagingIo).bind_congr
        fun plan hplan => ?_
      rcases plan with status | ⟨start, n⟩
      · rfl
      · have hslice : sliceOrPanic buffer n = some (buffer.take n) := if_pos (hplan start n rfl)
        change (match sliceOrPanic buffer n with
          | none => pure none
          | some data => some <$> writeSlice pf _ fileName resolved start data) = _
        rw [hslice]
        rfl

/-- A plan fails exactly when it must, otherwise it is the range asked for, cut off at the end of the
file for a paging write; and neither the plan nor the write panics. -/
theorem write_plan_exact {β φ : Type} (pf : Platform) (h : Host β φ) (notices : Notices) :
    (∀ (req : Request) (context : AdapterContext) (offset : Int64) (len : ℕ)
      (writeToEof pagingIo : Bool) (w : World β φ),
      PlansWrite offset len writeToEof pagingIo (w.sizeAt h req context)
        ((dokanWritePlan req context offset len writeToEof pagingIo).run (machine pf h notices) w).1) ∧
    (∀ (req : Request) (context : AdapterContext) (offset : Int64) (len : ℕ)
      (writeToEof pagingIo : Bool),
      dokanWritePlanOrPanic req context offset len writeToEof pagingIo
        = some <$> dokanWritePlan req context offset len writeToEof pagingIo) ∧
    ∀ (fileName : U16CStr) (offset : Int64) (buffer : List UInt8) (writeToEof pagingIo : Bool)
      (context : AdapterContext),
      writeFileOrPanic pf fileName offset buffer writeToEof pagingIo context
        = some <$> writeFile pf fileName offset buffer writeToEof pagingIo context :=
  ⟨run_dokanWritePlan pf h notices, dokanWritePlanOrPanic_eq, writeFileOrPanic_eq pf⟩

end Confuse
