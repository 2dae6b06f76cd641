import Confuse.FailedCallbacks

/-!
# Statuses of failed callbacks

An errno and an NTSTATUS are both a 32-bit integer, and to the driver a status that is not negative
is a success. Every error that a callback returns is one of a few constants, all of error severity:
an errno always goes through a conversion.
-/

namespace Confuse

open Interaction

/-- The statuses of the adapter's errors. -/
def errorStatuses : List NtStatus :=
  [STATUS_UNSUCCESSFUL, STATUS_NOT_IMPLEMENTED, STATUS_INVALID_PARAMETER, STATUS_ALREADY_COMMITTED,
    STATUS_ACCESS_DENIED, STATUS_OBJECT_NAME_NOT_FOUND, STATUS_OBJECT_NAME_COLLISION,
    STATUS_DISK_FULL, STATUS_FILE_IS_A_DIRECTORY, STATUS_DIRECTORY_NOT_EMPTY,
    STATUS_NOT_A_DIRECTORY]

theorem errorStatuses_neg (status : NtStatus) (h : status ∈ errorStatuses) : status < 0 := by
  have hall : errorStatuses.all (fun status => decide (status < 0)) = true := by rfl
  exact of_decide_eq_true (List.all_eq_true.mp hall status h)

/-- An error has one of the error statuses. -/
def Severe {α : Type} (r : Except NtStatus α) : Prop :=
  ∀ status, failureOf r = some status → status ∈ errorStatuses

@[simp] theorem severe_ok {α : Type} (v : α) : Severe (.ok v : Except NtStatus α) := by
  intro status heq
  cases heq

@[simp] theorem severe_error {α : Type} {status : NtStatus} :
    Severe (.error status : Except NtStatus α) ↔ status ∈ errorStatuses :=
  ⟨fun h => h status rfl, fun h _ heq => Option.some.inj heq ▸ h⟩

theorem Severe.map {α γ : Type} {r : Except NtStatus α} (hr : Severe r) (f : α → γ) :
    Severe (r.map f) := by
  cases r with
  | ok v => exact severe_ok (f v)
  | error status => exact severe_error.mpr (severe_error.mp hr)

/-! ## Conversions -/

theorem errnoToNtstatus_mem (err : Errno) : errnoToNtstatus err ∈ errorStatuses := by
  unfold errnoToNtstatus
  split_ifs <;> decide

theorem probeNtstatus_mem (err : Errno) : probeNtstatus err ∈ errorStatuses := by
  unfold probeNtstatus classifyOptionalProbeError
  split_ifs <;> exact errnoToNtstatus_mem err

theorem missingReplyStatus_mem : missingReplyStatus ∈ errorStatuses := by decide

theorem statusResult_severe (reply : Reply Unit) : Severe (statusResult reply) := by
  rcases reply with _ | ⟨err⟩ | ⟨⟩
  · exact severe_error.mpr missingReplyStatus_mem
  · exact severe_error.mpr (errnoToNtstatus_mem err)
  · exact severe_ok ()

theorem nonnegativeI64ToU64_severe (value : Int64) : Severe (nonnegativeI64ToU64 value) := by
  unfold nonnegativeI64ToU64
  split_ifs
  · exact severe_ok _
  · exact severe_error.mpr (by decide)

theorem checkedDokanLen_severe (value : ℕ) : Severe (checkedDokanLen value) := by
  unfold checkedDokanLen
  split_ifs
  · exact severe_ok _
  · exact severe_error.mpr (by decide)

theorem Severe.bind {α γ : Type} {r : Except NtStatus α} (hr : Severe r)
    {f : α → Except NtStatus γ} (hf : ∀ v, Severe (f v)) : Severe (r >>= f) := by
  cases r with
  | ok v => exact hf v
  | error status => exact severe_error.mpr (severe_error.mp hr)

theorem checkedLockRange_severe (offset length : Int64) :
    Severe (checkedLockRange offset length) := by
  unfold checkedLockRange
  split_ifs
  · exact severe_error.mpr (by decide)
  · refine (nonnegativeI64ToU64_severe offset).bind fun start => ?_
    exact (nonnegativeI64ToU64_severe (offset + length)).bind fun «end» => severe_ok _
  · exact (nonnegativeI64ToU64_severe offset).bind fun start => severe_error.mpr (by decide)

/-! ## Handlers without a routine -/

structure VolumeInfo where
  name : U16CStr
  serialNumber : UInt32
  maxComponentLength : UInt32
  fsFlags : UInt32
  fsName : U16CStr

def getVolumeInformation (volumeName fsName : Str) (volumeFlags : UInt32) :
    Except NtStatus VolumeInfo :=
  match U16CStr.fromStr volumeName, U16CStr.fromStr fsName with
  | some name, some fsName => .ok {
      name := name
      serialNumber := 0xC0FFEE
      maxComponentLength := 255
      fsFlags := volumeFlags
      fsName := fsName }
  | _, _ => .error STATUS_NOT_IMPLEMENTED

/-- The answer to `mounted`, by what `Filesystem::init` returns; an error of it may have an errno. -/
def facadeMountedWith : Except (Option Errno) Unit → Except NtStatus Unit
  | .ok () => .ok ()
  | .error err => .error (err.elim STATUS_UNSUCCESSFUL errnoToNtstatus)

theorem getVolumeInformation_severe (volumeName fsName : Str) (volumeFlags : UInt32) :
    Severe (getVolumeInformation volumeName fsName volumeFlags) := by
  unfold getVolumeInformation
  split
  · exact severe_ok _
  · exact severe_error.mpr (by decide)

theorem facadeMountedWith_severe (answer : Except (Option Errno) Unit) :
    Severe (facadeMountedWith answer) := by
  rcases answer with (_ | err) | ⟨⟩
  · exact severe_error.mpr (by decide)
  · exact severe_error.mpr (errnoToNtstatus_mem err)
  · exact severe_ok ()

/-! ## Routines -/

/-- However it is answered, the routine fails with one of the error statuses only. -/
abbrev FailsSeverely {α : Type} (p : Routine (Except NtStatus α)) : Prop := p.Returns Severe

namespace FailsSeverely
variable {α γ : Type} (pf : Platform) (req : Request) (fileName : U16CStr) (context : AdapterContext)

theorem pure {r : Except NtStatus α} (hr : Severe r) :
    FailsSeverely (Pure.pure r : Routine (Except NtStatus α)) := hr

theorem ok (v : α) : FailsSeverely (Pure.pure (.ok v) : Routine (Except NtStatus α)) := severe_ok v

theorem error {status : NtStatus} (h : status ∈ errorStatuses) :
    FailsSeverely (Pure.pure (.error status) : Routine (Except NtStatus α)) := severe_error.mpr h

theorem after {p : Routine γ} {f : γ → Routine (Except NtStatus α)}
    (hf : ∀ a, FailsSeverely (f a)) : FailsSeverely (p >>= f) := Prog.Returns.last hf

theorem onOk {r : Except NtStatus γ} (hr : Severe r) {f : γ → Routine (Except NtStatus α)}
    (hf : ∀ v, FailsSeverely (f v)) : FailsSeverely (onOk r f) := by
  cases r with
  | error status => exact error (severe_error.mp hr)
  | ok v => exact hf v

/-- The first part may fail, and so may the rest. -/
theorem bindOk {p : Routine (Except NtStatus γ)} (hp : FailsSeverely p)
    {f : γ → Routine (Except NtStatus α)} (hf : ∀ v, FailsSeverely (f v)) :
    FailsSeverely (p >>= fun r => Confuse.onOk r f) :=
  Prog.Returns.bind hp fun _ hr => onOk hr hf

theorem onReply {reply : Reply γ} {toNtstatus : Errno → NtStatus}
    (hmem : ∀ err, toNtstatus err ∈ errorStatuses) {f : γ → Routine (Except NtStatus α)}
    (hf : ∀ v, FailsSeverely (f v)) : FailsSeverely (onReply reply toNtstatus f) := by
  rcases reply with _ | ⟨err⟩ | ⟨v⟩
  · exact error missingReplyStatus_mem
  · exact error (hmem err)
  · exact hf v

theorem withResolved {f : AdapterContext → Routine (Except NtStatus α)}
    (hf : ∀ resolved, FailsSeverely (f resolved)) :
    FailsSeverely (withResolved pf req fileName context f) := by
  refine after fun resolved => ?_
  cases resolved with
  | error err => exact error (errnoToNtstatus_mem err)
  | ok resolved => exact hf resolved

/-! ### Delete and move -/

theorem deleteFile : FailsSeverely (deleteFile pf fileName context) := by
  refine withResolved pf _ fileName context fun resolved => ?_
  have hcheck : FailsSeverely (precheckFileDelete (requestFromIds context.requestIds)
      resolved.ino) := by
    refine after fun status => onReply errnoToNtstatus_mem fun payload => ?_
    split_ifs
    · exact error (by decide)
    · refine after fun access => ?_
      rcases access with _ | ⟨err⟩ | ⟨⟩
      · exact error missingReplyStatus_mem
      · dsimp only
        split_ifs
        · exact ok ()
        · exact error (errnoToNtstatus_mem err)
      · exact ok ()
  exact Prog.Returns.bind hcheck fun result hresult => after fun _ => pure hresult

theorem deleteDirectory : FailsSeverely (deleteDirectory pf fileName context) := by
  refine withResolved pf _ fileName context fun resolved => ?_
  have hcheck : FailsSeverely (precheckDirectoryDelete (requestFromIds context.requestIds)
      resolved.ino) := by
    refine after fun status => onReply errnoToNtstatus_mem fun payload => ?_
    split_ifs
    · exact error (by decide)
    · refine after fun reply => ?_
      split_ifs
      · exact error (by decide)
      · exact pure (statusResult_severe _)
  exact Prog.Returns.bind hcheck fun result hresult => after fun _ => pure hresult

theorem precheckRename (newFileName : U16CStr) (replaceIfExisting : Bool) :
    FailsSeverely (precheckRename pf req newFileName replaceIfExisting) := by
  unfold Confuse.precheckRename
  split_ifs
  · exact ok ()
  · refine after fun found => ?_
    cases found with
    | ok ino => exact after fun _ => error (by decide)
    | error err =>
        refine after fun _ => ?_
        split_ifs
        · exact ok ()
        · exact error (errnoToNtstatus_mem err)

theorem moveFile (newFileName : U16CStr) (replaceIfExisting : Bool) :
    FailsSeverely (moveFile pf fileName newFileName replaceIfExisting context) := by
  refine after fun oldParent => ?_
  cases oldParent with
  | error err => exact error (errnoToNtstatus_mem err)
  | ok oldParentIno =>
      refine after fun newParent => ?_
      cases newParent with
      | error err => exact error (errnoToNtstatus_mem err)
      | ok newParentIno =>
          refine after fun moved => bindOk (precheckRename pf _ newFileName _) fun _ => ?_
          have hrename : FailsSeverely (renameWithReplacePolicy (requestFromIds context.requestIds)
              oldParentIno (splitParentAndName fileName).2 newParentIno
              (splitParentAndName newFileName).2) := after fun status => pure (statusResult_severe _)
          exact Prog.Returns.bind hrename fun result hresult => after fun _ => onOk hresult fun _ =>
            after fun _ => ok ()

/-! ### Listings -/

theorem directoryIno (pathKey : Str) : FailsSeverely (directoryIno pf req pathKey context) := by
  unfold Confuse.directoryIno
  split
  · exact ok _
  · refine after fun found => ?_
    cases found with
    | error err => exact error (errnoToNtstatus_mem err)
    | ok ino => exact ok ino

theorem emitReaddirEntries (emittedOffset : Option Int64) (entries : List DirectoryEntryPayload) :
    FailsSeverely (emitReaddirEntries req emittedOffset entries) := by
  induction entries generalizing emittedOffset with
  | nil => exact ok emittedOffset
  | cons entry rest ih =>
      refine after fun attr => ?_
      cases U16CStr.fromStr entry.name.toStringLossy with
      | none => exact error (by decide)
      | some fileName =>
          refine after fun accepted => ?_
          cases accepted with
          | true => exact ih _
          | false => exact ok emittedOffset

theorem emitReaddirPatternEntries (pattern : U16CStr) (emittedOffset : Option Int64)
    (entries : List DirectoryEntryPayload) :
    FailsSeverely (emitReaddirPatternEntries pf req pattern emittedOffset entries) := by
  induction entries generalizing emittedOffset with
  | nil => exact ok emittedOffset
  | cons entry rest ih =>
      unfold Confuse.emitReaddirPatternEntries
      cases U16CStr.fromStr entry.name.toStringLossy with
      | none => exact error (by decide)
      | some fileName =>
          dsimp only
          split_ifs
          · exact ih emittedOffset
          · refine after fun attr => after fun accepted => ?_
            cases accepted with
            | true => exact ih _
            | false => exact ok emittedOffset

theorem emitReaddirplusPatternEntries (pattern : U16CStr) (ino : INodeNo)
    (emittedOffset : Option Int64) (entries : List DirectoryPlusEntryPayload) :
    FailsSeverely
      (emitReaddirplusPatternEntries pf req fileName pattern ino emittedOffset entries) := by
  induction entries generalizing emittedOffset with
  | nil => exact ok emittedOffset
  | cons entry rest ih =>
      unfold Confuse.emitReaddirplusPatternEntries
      cases U16CStr.fromStr (joinChildPath fileName entry.name) with
      | none => exact error (by decide)
      | some path =>
          refine after fun _ => ?_
          cases U16CStr.fromStr entry.name.toStringLossy with
          | none => exact error (by decide)
          | some name =>
              dsimp only
              split_ifs
              · exact ih emittedOffset
              · refine after fun accepted => ?_
                cases accepted with
                | true => exact ih _
                | false => exact ok emittedOffset

theorem findFiles : FailsSeverely (findFiles pf fileName context) :=
  bindOk (directoryIno pf _ context _) fun _ => after fun _ => after fun _ => after fun _ =>
    bindOk (emitReaddirEntries _ _ _) fun _ => after fun _ => pure (statusResult_severe _)

theorem findFilesWithPattern (pattern : U16CStr) :
    FailsSeverely (findFilesWithPattern pf fileName pattern context) := by
  refine bindOk (directoryIno pf _ context _) fun ino => after fun reqOffset => after fun reply =>
    after fun _ => ?_
  split_ifs
  · exact after fun _ => after fun _ => bindOk (emitReaddirPatternEntries pf _ _ _ _) fun _ =>
      after fun _ => pure (statusResult_severe _)
  · exact bindOk (emitReaddirplusPatternEntries pf _ fileName _ _ _ _) fun _ =>
      after fun _ => pure (statusResult_severe _)

/-! ### Creating -/

theorem finishCreatedFile (create : CreateEntryRequest) (payload : ReplyCreatePayload) :
    FailsSeverely (finishCreatedFile create payload) := after fun _ => ok _

theorem openResolvedPath (request : OpenEntryRequest) (actualIno : INodeNo) :
    FailsSeverely (openResolvedPath request actualIno) :=
  after fun _ => after fun _ => onReply errnoToNtstatus_mem fun _ => after fun _ => ok _

theorem resolveOpenIno (request : OpenEntryRequest) :
    FailsSeverely (resolveOpenIno pf request) := by
  unfold Confuse.resolveOpenIno
  split_ifs
  · exact ok _
  · refine after fun found => ?_
    cases found with
    | ok ino => exact ok ino
    | error err => exact after fun _ => error (errnoToNtstatus_mem err)

theorem openExistingEntry (request : OpenEntryRequest) :
    FailsSeverely (openExistingEntry pf request) :=
  bindOk (resolveOpenIno pf request) fun _ => openResolvedPath request _

theorem openCollisionEntry (request : OpenEntryRequest) :
    FailsSeverely (openCollisionEntry pf request) := by
  unfold Confuse.openCollisionEntry
  split_ifs
  · exact after fun _ => openExistingEntry pf request
  · exact openExistingEntry pf request

theorem createDirectoryEntry (create : CreateEntryRequest) :
    FailsSeverely (createDirectoryEntry create) :=
  after fun _ => after fun _ => onReply errnoToNtstatus_mem fun _ => after fun _ => ok _

theorem createFileEntryOrOpenExisting (create : CreateEntryRequest) (plan : CreateDispositionPlan)
    (openFlags : Int32) :
    FailsSeverely (createFileEntryOrOpenExisting pf create plan openFlags) := by
  refine after fun state => after fun _ => ?_
  rcases state with _ | ⟨err⟩ | ⟨payload⟩
  · exact error missingReplyStatus_mem
  · dsimp only
    split_ifs
    · exact openCollisionEntry pf _
    · exact error (errnoToNtstatus_mem err)
  · exact finishCreatedFile create payload

theorem createFile (desiredAccess : AccessMask)
    (fileAttributes createDisposition createOptions : UInt32) (requestIds : RequestIds) :
    FailsSeverely (createFile pf fileName desiredAccess fileAttributes createDisposition
      createOptions requestIds) := by
  refine after fun parent => ?_
  cases parent with
  | error err => exact after fun _ => error (errnoToNtstatus_mem err)
  | ok parentIno =>
      dsimp only [createInParent]
      split_ifs
      · exact after fun _ => ok _
      · exact openExistingEntry pf _
      · exact createDirectoryEntry _
      · exact createFileEntryOrOpenExisting pf _ _ _

/-! ### Metadata -/

theorem flushFileBuffers : FailsSeverely (flushFileBuffers pf fileName context) :=
  withResolved pf _ fileName context fun _ => after fun _ => after fun _ =>
    pure (statusResult_severe _)

theorem setattrRoute {args : Except NtStatus SetattrArgs} (hargs : Severe args) :
    FailsSeverely (setattrRoute pf fileName context args) :=
  withResolved pf _ fileName context fun _ => onOk hargs fun _ => after fun _ => after fun _ =>
    onReply errnoToNtstatus_mem fun _ => after fun _ => ok ()

theorem setAllocationSize (allocSize : Int64) :
    FailsSeverely (setAllocationSize pf fileName allocSize context) := by
  refine withResolved pf _ fileName context fun resolved => ?_
  have hcall : FailsSeverely (allocationSizeWithContext (requestFromIds context.requestIds) resolved
      allocSize) := onOk (nonnegativeI64ToU64_severe allocSize) fun _ => after fun _ => ok _
  exact bindOk hcall fun _ => after fun _ => onReply probeNtstatus_mem fun _ => after fun _ => ok ()

theorem getDiskFreeSpace (pid : UInt32) : FailsSeverely (getDiskFreeSpace pid) :=
  after fun _ => onReply errnoToNtstatus_mem fun _ => ok _

theorem getFileInformation : FailsSeverely (getFileInformation pf fileName context) := by
  refine withResolved pf _ fileName context fun resolved => after fun cachedAttr => ?_
  cases cachedAttr with
  | some attr => exact after fun _ => ok _
  | none =>
      exact after fun _ => after fun _ => onReply errnoToNtstatus_mem fun _ => after fun _ => ok _

/-! ### Reading and writing -/

theorem readFile (offset : Int64) (bufferLen : ℕ) :
    FailsSeverely (readFile pf fileName offset bufferLen context) :=
  withResolved pf _ fileName context fun _ => onOk (nonnegativeI64ToU64_severe offset) fun _ =>
    onOk (checkedDokanLen_severe bufferLen) fun _ => after fun _ => after fun _ =>
      onReply errnoToNtstatus_mem fun _ => pure ((checkedDokanLen_severe _).map _)

theorem dokanWritePlan (offset : Int64) (len : ℕ) (writeToEof pagingIo : Bool) :
    FailsSeverely (dokanWritePlan req context offset len writeToEof pagingIo) := by
  unfold Confuse.dokanWritePlan
  by_cases hmemative : (!writeToEof && decide (offset < 0)) = true
  · rw [if_pos hmemative]
    exact error (by decide)
  rw [if_neg hmemative]
  by_cases hplain : (!writeToEof && !pagingIo) = true
  · rw [if_pos hplain]
    exact pure ((nonnegativeI64ToU64_severe offset).map _)
  rw [if_neg hplain]
  refine after fun status => onReply errnoToNtstatus_mem fun payload => onOk ?_ fun start => ?_
  · cases writeToEof with
    | true => exact severe_ok _
    | false => exact nonnegativeI64ToU64_severe offset
  · split_ifs
    · exact ok _
    · exact ok _
    · exact ok _

theorem writeFile (offset : Int64) (buffer : List UInt8) (writeToEof pagingIo : Bool) :
    FailsSeverely (writeFile pf fileName offset buffer writeToEof pagingIo context) :=
  withResolved pf _ fileName context fun resolved =>
    bindOk (dokanWritePlan _ resolved offset _ _ _) fun _ => after fun _ => after fun _ =>
      onReply errnoToNtstatus_mem fun _ => after fun _ => ok _

/-! ### Security descriptors -/

theorem synthesizedSecurityDescriptorFromFs (ino : INodeNo) (fh : FileHandle) :
    FailsSeverely (synthesizedSecurityDescriptorFromFs req ino fh) :=
  after fun _ => onReply errnoToNtstatus_mem fun _ => ok _

theorem fetchSecurityDescriptorData (data : List UInt8) (sizeHint : Option UInt32)
    (bufferLength : UInt32) :
    FailsSeverely (fetchSecurityDescriptorData req context data sizeHint bufferLength) := by
  unfold Confuse.fetchSecurityDescriptorData
  cases xattrNeedsDataFetch data sizeHint with
  | none => exact ok data
  | some fetchSize =>
      refine after fun fetch => ?_
      rcases fetch.status with _ | ⟨err⟩ | ⟨data⟩
      · exact error missingReplyStatus_mem
      · dsimp only
        split_ifs
        · exact synthesizedSecurityDescriptorFromFs req _ _
        · exact error (probeNtstatus_mem err)
      · exact ok data

theorem copySecurityDescriptor_severe (data : List UInt8) (hasBuffer : Bool)
    (bufferLength : UInt32) : Severe (copySecurityDescriptor data hasBuffer bufferLength) := by
  refine (checkedDokanLen_severe data.length).bind fun needed => ?_
  split_ifs
  · exact severe_ok _
  · exact severe_ok _
  · exact severe_ok _

theorem copyExistingOrFetchedSecurityDescriptor (data : List UInt8) (sizeHint : Option UInt32)
    (hasBuffer : Bool) (bufferLength : UInt32) :
    FailsSeverely (copyExistingOrFetchedSecurityDescriptor req context data sizeHint hasBuffer
      bufferLength) := by
  have hneeded : Severe (xattrReportedLen data.length sizeHint) := by
    cases sizeHint with
    | some size => exact severe_ok size
    | none => exact checkedDokanLen_severe data.length
  refine onOk hneeded fun needed => ?_
  split_ifs
  · exact ok _
  · exact bindOk (fetchSecurityDescriptorData req context data sizeHint bufferLength) fun data =>
      pure ((copySecurityDescriptor_severe data hasBuffer bufferLength).map _)

theorem getFileSecurity (hasBuffer : Bool) (bufferLength : UInt32) :
    FailsSeverely (getFileSecurity pf fileName hasBuffer bufferLength context) := by
  refine withResolved pf _ fileName context fun resolved => after fun reply => after fun _ => ?_
  rcases reply.status with _ | ⟨err⟩ | ⟨data⟩
  · exact error missingReplyStatus_mem
  · dsimp only
    split_ifs
    · exact bindOk (synthesizedSecurityDescriptorFromFs _ _ _) fun data =>
        pure (copySecurityDescriptor_severe data hasBuffer bufferLength)
    · exact error (probeNtstatus_mem err)
  · exact copyExistingOrFetchedSecurityDescriptor _ resolved data reply.sizeHint _ _

theorem setFileSecurity (descriptor : List UInt8) :
    FailsSeverely (setFileSecurity pf fileName descriptor context) :=
  withResolved pf _ fileName context fun _ => after fun _ => after fun _ =>
    onReply probeNtstatus_mem fun _ => after fun _ => ok ()

/-! ### Locks and streams -/

theorem setlkWithContext (start «end» : UInt64) (typ : Int32) :
    FailsSeverely (setlkWithContext req context start «end» typ) :=
  after fun _ => after fun _ => onReply probeNtstatus_mem fun _ => ok ()

theorem lockFile (offset length : Int64) :
    FailsSeverely (lockFile pf fileName offset length context) := by
  refine withResolved pf _ fileName context fun resolved =>
    onOk (checkedLockRange_severe offset length) fun range => after fun query => ?_
  rcases query with _ | ⟨err⟩ | ⟨lock⟩
  · exact setlkWithContext _ resolved _ _ _
  · exact error (probeNtstatus_mem err)
  · dsimp only
    split_ifs
    · exact error (errnoToNtstatus_mem EAGAIN)
    · exact setlkWithContext _ resolved _ _ _

theorem unlockFile (offset length : Int64) :
    FailsSeverely (unlockFile pf fileName offset length context) :=
  withResolved pf _ fileName context fun resolved =>
    onOk (checkedLockRange_severe offset length) fun _ => setlkWithContext _ resolved _ _ _

theorem emitNamedStreams (ino : INodeNo) (names : List (List UInt8)) :
    FailsSeverely (emitNamedStreams req ino names) := by
  induction names with
  | nil => exact ok ()
  | cons rawName rest ih =>
      unfold Confuse.emitNamedStreams
      cases streamNameFromXattr rawName with
      | none => exact ih
      | some streamName =>
          refine after fun reply => ?_
          cases U16CStr.fromStr streamName with
          | none => exact error (by decide)
          | some name =>
              refine after fun accepted => ?_
              cases accepted with
              | true => exact ih
              | false => exact ok ()

theorem findStreams : FailsSeverely (findStreams pf fileName context) := by
  refine withResolved pf _ fileName context fun resolved => after fun attr => ?_
  dsimp only
  cases U16CStr.fromStr "::$DATA".toList with
  | none => exact error (by decide)
  | some default =>
      refine after fun accepted => ?_
      cases accepted with
      | false => exact ok ()
      | true =>
          refine after fun reply => after fun listData => after fun _ => ?_
          rcases listData with _ | ⟨err⟩ | ⟨data⟩
          · exact error missingReplyStatus_mem
          · dsimp only
            split_ifs
            · exact ok ()
            · exact error (probeNtstatus_mem err)
          · exact emitNamedStreams _ _ _

end FailsSeverely

/-! ## Callbacks -/

/-- Every status that a callback fails with is one of the error statuses. -/
theorem Callback.failure_severe (pf : Platform) (c : Callback) :
    (c.routine pf).Returns fun r => ∀ status, c.failure r = some status → status ∈ errorStatuses := by
  cases c with
  | createFile fileName desiredAccess fileAttributes createDisposition createOptions requestIds =>
      exact FailsSeverely.createFile pf fileName _ _ _ _ _
  | cleanup fileName deleteOnClose context =>
      exact (Prog.Returns.trivial _).mono fun _ _ status hstatus => nomatch hstatus
  | closeFile fileName context =>
      exact (Prog.Returns.trivial _).mono fun _ _ status hstatus => nomatch hstatus
  | deleteFile fileName context => exact FailsSeverely.deleteFile pf fileName context
  | deleteDirectory fileName context => exact FailsSeverely.deleteDirectory pf fileName context
  | moveFile fileName newFileName replaceIfExisting context =>
      exact FailsSeverely.moveFile pf fileName context newFileName replaceIfExisting
  | findFiles fileName context => exact FailsSeverely.findFiles pf fileName context
  | findFilesWithPattern fileName pattern context =>
      exact FailsSeverely.findFilesWithPattern pf fileName context pattern
  | flushFileBuffers fileName context => exact FailsSeverely.flushFileBuffers pf fileName context
  | setEndOfFile fileName offset context =>
      exact FailsSeverely.setattrRoute pf fileName context
        ((nonnegativeI64ToU64_severe offset).map _)
  | setFileAttributes fileName fileAttributes context =>
      exact FailsSeverely.setattrRoute pf fileName context (severe_ok _)
  | setFileTime fileName creationTime lastAccessTime lastWriteTime context =>
      exact FailsSeverely.setattrRoute pf fileName context (severe_ok _)
  | setAllocationSize fileName allocSize context =>
      exact FailsSeverely.setAllocationSize pf fileName context allocSize
  | getDiskFreeSpace pid => exact FailsSeverely.getDiskFreeSpace pid
  | getFileInformation fileName context =>
      exact FailsSeverely.getFileInformation pf fileName context
  | readFile fileName offset bufferLen context =>
      exact FailsSeverely.readFile pf fileName context offset bufferLen
  | writeFile fileName offset buffer writeToEof pagingIo context =>
      exact FailsSeverely.writeFile pf fileName context offset buffer writeToEof pagingIo
  | getFileSecurity fileName hasBuffer bufferLength context =>
      exact FailsSeverely.getFileSecurity pf fileName context hasBuffer bufferLength
  | setFileSecurity fileName descriptor context =>
      exact FailsSeverely.setFileSecurity pf fileName context descriptor
  | lockFile fileName offset length context =>
      exact FailsSeverely.lockFile pf fileName context offset length
  | unlockFile fileName offset length context =>
      exact FailsSeverely.unlockFile pf fileName context offset length
  | findStreams fileName context => exact FailsSeverely.findStreams pf fileName context

end Confuse
