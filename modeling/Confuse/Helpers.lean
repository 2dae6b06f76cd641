import Confuse.Adapter

/-!
# Helpers of the handler methods

Conversions between the Windows and the FUSE side, and the short sequences of file system calls that
several handler methods share.
-/

namespace Confuse

open Interaction

/-! ## Conversions -/

def inoFromContextOrPath (context : AdapterContext) : Option INodeNo :=
  if context.ino ≠ ⟨0⟩ then some context.ino else none

def errnoToNtstatus (err : Errno) : NtStatus :=
  if err = ENOSYS then STATUS_NOT_IMPLEMENTED
  else if err = ENOENT then STATUS_OBJECT_NAME_NOT_FOUND
  else if err = EEXIST then STATUS_OBJECT_NAME_COLLISION
  else if err = ENOSPC then STATUS_DISK_FULL
  else if err = EACCES ∨ err = EPERM then STATUS_ACCESS_DENIED
  else if err = EINVAL then STATUS_INVALID_PARAMETER
  else if err = EBUSY then STATUS_ALREADY_COMMITTED
  else STATUS_UNSUCCESSFUL

inductive OptionalProbeError
  | unsupported (ntstatus : NtStatus)
  | requestError (ntstatus : NtStatus)
  deriving DecidableEq, Repr

def OptionalProbeError.ntstatus : OptionalProbeError → NtStatus
  | .unsupported ntstatus => ntstatus
  | .requestError ntstatus => ntstatus

def classifyOptionalProbeError (err : Errno) : OptionalProbeError :=
  if err = ENOSYS then .unsupported (errnoToNtstatus err) else .requestError (errnoToNtstatus err)

def missingReplyStatus : NtStatus := STATUS_UNSUCCESSFUL

def openFlagsFromFopenFlags (flags : FopenFlags) : OpenFlags := ⟨flags.bits.toInt32⟩

def filetypeToWindowsAttr (kind : FileType) (perm : UInt16) : UInt32 :=
  let attr := if kind = .directory then FILE_ATTRIBUTE_DIRECTORY else FILE_ATTRIBUTE_NORMAL
  if perm &&& 0o222 = 0 then attr ||| FILE_ATTRIBUTE_READONLY else attr

def findFilesAttrFromKindAndPerm (kind : FileType) (permFromGetattr : Option UInt16) : UInt32 :=
  filetypeToWindowsAttr kind (permFromGetattr.getD 0o666)

inductive CreateDispositionPlan
  | createOnly
  | supersede
  | openOnly
  | createThenOpenOnExists
  deriving DecidableEq, Repr

def createDispositionPlan (disposition : UInt32) : CreateDispositionPlan :=
  if disposition = FILE_CREATE then .createOnly
  else if disposition = FILE_SUPERSEDE then .supersede
  else if disposition = FILE_OPEN_IF ∨ disposition = FILE_OVERWRITE_IF then .createThenOpenOnExists
  else .openOnly

namespace CreateDispositionPlan

def createsEntry : CreateDispositionPlan → Bool
  | .createOnly | .supersede | .createThenOpenOnExists => true
  | .openOnly => false

def opensExistingAfterCollision (plan : CreateDispositionPlan) (err : Errno) : Bool :=
  err = EEXIST && (plan = .createThenOpenOnExists || plan = .supersede)

end CreateDispositionPlan

def isDirectoryOpen (createOptions : UInt32) : Bool := createOptions &&& FILE_DIRECTORY_FILE ≠ 0

def resolveCtx (fileName : U16CStr) (context : AdapterContext) : Option AdapterContext :=
  if context.ino ≠ ⟨0⟩ then some context
  else if fileName.toStringLossy = ['\\'] then
    some {
      fh := ⟨0⟩, flags := ⟨0⟩, ino := .ROOT, isDir := true, lockOwner := none
      requestIds := context.requestIds }
  else none

def filetimeOpToOption : FileTimeOperation → Option SystemTime
  | .setTime t => some t
  | .dontChange | .disableUpdate | .resumeUpdate => none

def accessMaskToOpenFlags (desiredAccess : AccessMask) : Int32 :=
  let canRead := desiredAccess &&& GENERIC_READ ≠ 0 || desiredAccess &&& FILE_READ_DATA ≠ 0
  let canWrite := desiredAccess &&& GENERIC_WRITE ≠ 0 || desiredAccess &&& FILE_WRITE_DATA ≠ 0 ||
    desiredAccess &&& FILE_APPEND_DATA ≠ 0
  match canRead, canWrite with
  | true, true => O_RDWR
  | false, true => O_WRONLY
  | _, _ => O_RDONLY

def lockOwnerFromContext (context : AdapterContext) : Option LockOwner := context.lockOwner

def nonnegativeI64ToU64 (value : Int64) : Except NtStatus UInt64 :=
  if 0 ≤ value then .ok value.toUInt64 else .error STATUS_INVALID_PARAMETER

theorem nonnegativeI64ToU64_error {value : Int64} (hvalue : value < 0) :
    nonnegativeI64ToU64 value = .error STATUS_INVALID_PARAMETER := if_neg (Int64.not_le.mpr hvalue)

theorem nonnegativeI64ToU64_ok {value : Int64} (hvalue : ¬ value < 0) :
    nonnegativeI64ToU64 value = .ok value.toUInt64 := if_pos (Int64.not_lt.mp hvalue)

theorem toNat_toUInt64 {value : Int64} (hvalue : ¬ value < 0) :
    (value.toUInt64.toNat : ℤ) = value.toInt := by
  have hle : 0 ≤ value := Int64.not_lt.mp hvalue
  have hint : (0 : ℤ) ≤ value.toInt := Int64.le_iff_toInt_le.mp hle
  rw [Int64.toNat_toUInt64_of_le hle]
  exact Int.toNat_of_nonneg hint

def checkedDokanLen (value : ℕ) : Except NtStatus UInt32 :=
  if value < 2 ^ 32 then .ok (.ofNat value) else .error STATUS_INVALID_PARAMETER

def checkedLockRange (offset length : Int64) : Except NtStatus (UInt64 × UInt64) :=
  if offset < 0 ∨ length < 0 then .error STATUS_INVALID_PARAMETER
  else do
    let start ← nonnegativeI64ToU64 offset
    -- `checked_add` fails outside the range of `i64`
    if offset.toInt + length.toInt < 2 ^ 63 then
      let «end» ← nonnegativeI64ToU64 (offset + length)
      .ok (start, «end»)
    else .error STATUS_INVALID_PARAMETER

def advanceOffsetOnEmitted (current : Int64) (emittedOffset : Option Int64) : Int64 :=
  emittedOffset.getD current

def saturatingMul (a b : UInt64) : UInt64 := .ofNat (min (a.toNat * b.toNat) (2 ^ 64 - 1))

def modeFromFileAttributes (fileAttributes : UInt32) : UInt32 :=
  if fileAttributes &&& FILE_ATTRIBUTE_READONLY ≠ 0 then 0o444 else 0o644

/-! ## Extended attributes and security descriptors -/

def SECURITY_DESCRIPTOR_XATTR : Str := "user.dokan.security_descriptor".toList

def xattrReportedLen (dataLen : ℕ) : Option UInt32 → Except NtStatus UInt32
  | some size => .ok size
  | none => checkedDokanLen dataLen

def xattrNeedsDataFetch (data : List UInt8) (sizeHint : Option UInt32) : Option UInt32 :=
  if data.isEmpty then sizeHint.filter fun size => 0 < size else none

/-- `std::str::from_utf8`. -/
def fromUtf8 (bytes : List UInt8) : Option Str :=
  (String.fromUTF8? ⟨bytes.toArray⟩).map String.toList

def streamNameFromXattr (name : List UInt8) : Option Str := do
  let name ← fromUtf8 name
  let stream ← if "user.".toList.isPrefixOf name then some (name.drop 5) else none
  if stream.isEmpty ∨ stream = "dokan.security_descriptor".toList then none
  else some (':' :: stream ++ ":$DATA".toList)

def leBytes16 (value : UInt16) : List UInt8 := [value.toUInt8, (value >>> 8).toUInt8]

def leBytes32 (value : UInt32) : List UInt8 :=
  [value.toUInt8, (value >>> 8).toUInt8, (value >>> 16).toUInt8, (value >>> 24).toUInt8]

def unixSid (kind id : UInt32) : List UInt8 :=
  [1, 2, 0, 0, 0, 0, 0, 22] ++ leBytes32 kind ++ leBytes32 id

def worldSid : List UInt8 := [1, 1, 0, 0, 0, 0, 0, 1] ++ leBytes32 0

def FILE_GENERIC_READ : UInt32 := 0x120089
def FILE_GENERIC_WRITE : UInt32 := 0x120116
def FILE_GENERIC_EXECUTE : UInt32 := 0x1200A0

def permToFileAccess (perm shift : UInt16) : UInt32 :=
  let bits := (perm >>> shift) &&& 0o7
  (if bits &&& 0o4 ≠ 0 then FILE_GENERIC_READ else 0) |||
    (if bits &&& 0o2 ≠ 0 then FILE_GENERIC_WRITE else 0) |||
    (if bits &&& 0o1 ≠ 0 then FILE_GENERIC_EXECUTE else 0)

/-- The access-allowed entry for a SID; no entry for no access. -/
def allowAce (access : UInt32) (sid : List UInt8) : List UInt8 :=
  if access = 0 then []
  else [0, 0] ++ leBytes16 (.ofNat (8 + sid.length)) ++ leBytes32 access ++ sid

def synthesizedSecurityDescriptor (attr : FileAttr) : List UInt8 :=
  let ownerSid := unixSid 1 attr.uid
  let groupSid := unixSid 2 attr.gid
  let entries := [allowAce (permToFileAccess attr.perm 6) ownerSid,
    allowAce (permToFileAccess attr.perm 3) groupSid,
    allowAce (permToFileAccess attr.perm 0) worldSid]
  let aces := entries.flatten
  let aceCount := (entries.filter fun ace => ace ≠ []).length
  let descriptorLen := 20
  let ownerOffset := descriptorLen
  let groupOffset := ownerOffset + ownerSid.length
  let daclOffset := groupOffset + groupSid.length
  let aclLen := 8 + aces.length
  [1, 0] ++ leBytes16 0x8004 ++ leBytes32 (.ofNat ownerOffset) ++ leBytes32 (.ofNat groupOffset) ++
    leBytes32 0 ++ leBytes32 (.ofNat daclOffset) ++ ownerSid ++ groupSid ++
    [2, 0] ++ leBytes16 (.ofNat aclLen) ++ leBytes16 (.ofNat aceCount) ++ leBytes16 0 ++ aces

/-- The length that is needed, and what is written to the caller's buffer. -/
structure DescriptorCopy where
  needed : UInt32
  written : Option (List UInt8)
  deriving DecidableEq

/-- `buffer` is absent for a null descriptor pointer. -/
def copySecurityDescriptor (data : List UInt8) (hasBuffer : Bool) (bufferLength : UInt32) :
    Except NtStatus DescriptorCopy := do
  let needed ← checkedDokanLen data.length
  if bufferLength < needed then .ok ⟨needed, none⟩
  else .ok ⟨needed, if hasBuffer then some data else none⟩

/-! ## Sequences of file system calls -/

/-- The payload of a reply that carries one. -/
def Reply.toOption {α : Type} : Reply α → Option α
  | some (.ok payload) => some payload
  | _ => none

/-- The `?` operator on a status result. -/
def onOk {α γ : Type} (result : Except NtStatus γ) (f : γ → Routine (Except NtStatus α)) :
    Routine (Except NtStatus α) :=
  match result with
  | .ok v => f v
  | .error status => pure (.error status)

/-- Go on with a reply's payload; an error or a missing reply ends the callback. -/
def onReply {α γ : Type} (reply : Reply γ) (toNtstatus : Errno → NtStatus)
    (f : γ → Routine (Except NtStatus α)) : Routine (Except NtStatus α) :=
  match reply with
  | some (.ok payload) => f payload
  | some (.error err) => pure (.error (toNtstatus err))
  | none => pure (.error missingReplyStatus)

section Early
variable {α γ : Type} {P : Routine (Except NtStatus α) → Prop}

/-- What holds of every failure and of the rest holds of both together. -/
theorem onOk_cases (herror : ∀ status, P (pure (.error status))) {result : Except NtStatus γ}
    {f : γ → Routine (Except NtStatus α)} (hf : ∀ v, P (f v)) : P (onOk result f) := by
  cases result with
  | error status => exact herror status
  | ok v => exact hf v

theorem onReply_cases (herror : ∀ status, P (pure (.error status))) {reply : Reply γ}
    {toNtstatus : Errno → NtStatus} {f : γ → Routine (Except NtStatus α)}
    (hf : ∀ v, reply = some (.ok v) → P (f v)) : P (onReply reply toNtstatus f) := by
  rcases reply with _ | ⟨err⟩ | ⟨v⟩
  · exact herror _
  · exact herror _
  · exact hf v rfl

end Early

def probeNtstatus (err : Errno) : NtStatus := (classifyOptionalProbeError err).ntstatus

def synthesizedSecurityDescriptorFromFs (req : Request) (ino : INodeNo) (fh : FileHandle) :
    Routine (Except NtStatus (List UInt8)) := do
  let status : Reply ReplyAttrPayload ← Routine.fs (.getattr req ino (some fh))
  onReply status errnoToNtstatus fun payload =>
    pure (.ok (synthesizedSecurityDescriptor payload.attr))

def statusResult : Reply Unit → Except NtStatus Unit
  | some (.ok ()) => .ok ()
  | some (.error err) => .error (errnoToNtstatus err)
  | none => .error missingReplyStatus

def precheckFileDelete (req : Request) (ino : INodeNo) : Routine (Except NtStatus Unit) := do
  let status : Reply ReplyAttrPayload ← Routine.fs (.getattr req ino none)
  onReply status errnoToNtstatus fun payload =>
    if payload.attr.kind = .directory then pure (.error STATUS_FILE_IS_A_DIRECTORY)
    else do
      let access : Reply Unit ← Routine.fs (.access req ino ⟨2⟩)
      match access with
      | some (.error err) =>
          if err = ENOSYS then pure (.ok ()) else pure (.error (errnoToNtstatus err))
      | some (.ok ()) => pure (.ok ())
      | none => pure (.error missingReplyStatus)

def isDotName (name : OsStr) : Bool :=
  name.toStringLossy = ['.'] || name.toStringLossy = ['.', '.']

def precheckDirectoryDelete (req : Request) (ino : INodeNo) : Routine (Except NtStatus Unit) := do
  let status : Reply ReplyAttrPayload ← Routine.fs (.getattr req ino none)
  onReply status errnoToNtstatus fun payload =>
    if payload.attr.kind ≠ .directory then pure (.error STATUS_NOT_A_DIRECTORY)
    else do
      let reply : ReplyDirectory ← Routine.fs (.readdir req ino ⟨0⟩ 0)
      if reply.entries.any fun entry => !isDotName entry.name then
        pure (.error STATUS_DIRECTORY_NOT_EMPTY)
      else pure (statusResult reply.status)

def renameWithReplacePolicy (req : Request) (oldParentIno : INodeNo) (oldName : OsStr)
    (newParentIno : INodeNo) (newName : OsStr) : Routine (Except NtStatus Unit) := do
  let status : Reply Unit ←
    Routine.fs (.rename req oldParentIno oldName newParentIno newName ⟨0⟩)
  pure (statusResult status)

def closeWithContext (req : Request) (context : AdapterContext) : Routine Unit := do
  if context.isDir then
    let _ ← Routine.fs (.releasedir req context.ino context.fh
      (openFlagsFromFopenFlags context.flags))
  else
    let _ ← Routine.fs (.release req context.ino context.fh
      (openFlagsFromFopenFlags context.flags) (lockOwnerFromContext context) false)

def flushWithContext (req : Request) (context : AdapterContext) : Routine (Reply Unit) :=
  if context.isDir then Routine.fs (.fsyncdir req context.ino context.fh false)
  else Routine.fs (.fsync req context.ino context.fh false)

def FALLOC_FL_KEEP_SIZE : Int32 := 1

def allocationSizeWithContext (req : Request) (context : AdapterContext) (allocSize : Int64) :
    Routine (Except NtStatus (Reply Unit)) :=
  onOk (nonnegativeI64ToU64 allocSize) fun length => do
    let status : Reply Unit ←
      Routine.fs (.fallocate req context.ino context.fh 0 length FALLOC_FL_KEEP_SIZE)
    pure (.ok status)

/-- The offset to write at and the number of bytes of the buffer to write. -/
def dokanWritePlan (req : Request) (context : AdapterContext) (offset : Int64) (len : ℕ)
    (writeToEof pagingIo : Bool) : Routine (Except NtStatus (UInt64 × ℕ)) :=
  if !writeToEof && offset < 0 then pure (.error STATUS_INVALID_PARAMETER)
  else if !writeToEof && !pagingIo then
    pure ((nonnegativeI64ToU64 offset).map fun start => (start, len))
  else do
    let status : Reply ReplyAttrPayload ←
      Routine.fs (.getattr req context.ino (some context.fh))
    onReply status errnoToNtstatus fun payload =>
      let size := payload.attr.size
      onOk (if writeToEof then .ok size else nonnegativeI64ToU64 offset) fun start =>
        if pagingIo then
          if start ≥ size then pure (.ok (start, 0))
          else pure (.ok (start, min len (size - start).toNat))
        else pure (.ok (start, len))

end Confuse
