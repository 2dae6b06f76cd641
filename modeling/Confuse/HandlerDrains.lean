import Confuse.DrainedCallbacks

/-!
# Which handlers drain

Most handlers drain the queue on every way out. The others check an argument, ask the file system or
ask the caller between the resolution and the drain, and return at once when that fails.
-/

namespace Confuse

open Interaction PathResolver

section Runs
variable {β φ : Type} {pf : Platform} {h : Host β φ} {notices : Notices} {α γ : Type}
variable (req : Request) (fileName : U16CStr) (context : AdapterContext)

/-! ## Handlers that drain on every way out -/

namespace KeepsEmpty

theorem invalidateMoved (movedIno : Option INodeNo) :
    KeepsEmpty pf h notices (invalidateMoved movedIno) := by
  cases movedIno with
  | none => exact .pure _
  | some ino => exact effect rfl

theorem finishCreatedEntry (created : CreatedEntry) :
    KeepsEmpty pf h notices (finishCreatedEntry created) :=
  bind (effect rfl) fun _ => bind (effect rfl) fun _ => bind (effect rfl) fun _ =>
    of_empties (.after fun _ => .deliver _ _)

theorem readdirEntryAttr (ino : INodeNo) : KeepsEmpty pf h notices (readdirEntryAttr req ino) := by
  refine bind (effect rfl) fun status => ?_
  rcases status with _ | ⟨err⟩ | ⟨payload⟩ <;> exact .pure _

theorem emitReaddirEntries (emittedOffset : Option Int64) (entries : List DirectoryEntryPayload) :
    KeepsEmpty pf h notices (emitReaddirEntries req emittedOffset entries) := by
  induction entries generalizing emittedOffset with
  | nil => exact .pure _
  | cons entry rest ih =>
      refine bind (readdirEntryAttr req entry.ino) fun attr => ?_
      cases U16CStr.fromStr entry.name.toStringLossy with
      | none => exact .pure _
      | some fileName =>
          refine bind (effect rfl) fun accepted => ?_
          cases accepted with
          | true => exact ih _
          | false => exact .pure _

theorem emitReaddirPatternEntries (pattern : U16CStr) (emittedOffset : Option Int64)
    (entries : List DirectoryEntryPayload) :
    KeepsEmpty pf h notices (emitReaddirPatternEntries pf req pattern emittedOffset entries) := by
  induction entries generalizing emittedOffset with
  | nil => exact .pure _
  | cons entry rest ih =>
      unfold Confuse.emitReaddirPatternEntries
      cases U16CStr.fromStr entry.name.toStringLossy with
      | none => exact .pure _
      | some fileName =>
          dsimp only
          by_cases hmatch : (!pf.isNameInExpression pattern fileName true) = true
          · rw [if_pos hmatch]
            exact ih _
          · rw [if_neg hmatch]
            refine bind (readdirEntryAttr req entry.ino) fun attr => bind (effect rfl) fun accepted => ?_
            cases accepted with
            | true => exact ih _
            | false => exact .pure _

theorem emitReaddirplusPatternEntries (pattern : U16CStr) (ino : INodeNo)
    (emittedOffset : Option Int64) (entries : List DirectoryPlusEntryPayload) :
    KeepsEmpty pf h notices
      (emitReaddirplusPatternEntries pf req fileName pattern ino emittedOffset entries) := by
  induction entries generalizing emittedOffset with
  | nil => exact .pure _
  | cons entry rest ih =>
      unfold Confuse.emitReaddirplusPatternEntries
      cases U16CStr.fromStr (joinChildPath fileName entry.name) with
      | none => exact .pure _
      | some path =>
          refine bind (of_empties (.after fun _ => .deliver _ _)) fun _ => ?_
          cases U16CStr.fromStr entry.name.toStringLossy with
          | none => exact .pure _
          | some name =>
              dsimp only
              by_cases hmatch : (!pf.isNameInExpression pattern name true) = true
              · rw [if_pos hmatch]
                exact ih _
              · rw [if_neg hmatch]
                refine bind (effect rfl) fun accepted => ?_
                cases accepted with
                | true => exact ih _
                | false => exact .pure _

theorem closeFile : KeepsEmpty pf h notices (closeFile fileName context) := by
  refine bind ?_ fun _ => bind (effect rfl) fun _ => effect rfl
  unfold closeWithContext
  split_ifs
  · exact bind (effect rfl) fun _ => .pure _
  · exact bind (effect rfl) fun _ => .pure _

theorem getDiskFreeSpace (pid : UInt32) : KeepsEmpty pf h notices (getDiskFreeSpace pid) :=
  bind (effect rfl) fun _ => onReply fun _ => .pure _

theorem synthesizedSecurityDescriptorFromFs (ino : INodeNo) (fh : FileHandle) :
    KeepsEmpty pf h notices (synthesizedSecurityDescriptorFromFs req ino fh) :=
  bind (effect rfl) fun _ => onReply fun _ => .pure _

theorem fetchSecurityDescriptorData (data : List UInt8) (sizeHint : Option UInt32)
    (bufferLength : UInt32) : KeepsEmpty pf h notices
      (fetchSecurityDescriptorData req context data sizeHint bufferLength) := by
  unfold Confuse.fetchSecurityDescriptorData
  cases xattrNeedsDataFetch data sizeHint with
  | none => exact .pure _
  | some fetchSize =>
      refine bind (effect rfl) fun fetch => ?_
      rcases ReplyXattr.status fetch with _ | ⟨err⟩ | ⟨data⟩
      · exact .pure _
      · dsimp only
        split_ifs
        · exact synthesizedSecurityDescriptorFromFs req _ _
        · exact .pure _
      · exact .pure _

theorem emitNamedStreams (ino : INodeNo) (names : List (List UInt8)) :
    KeepsEmpty pf h notices (emitNamedStreams req ino names) := by
  induction names with
  | nil => exact .pure _
  | cons rawName rest ih =>
      unfold Confuse.emitNamedStreams
      cases streamNameFromXattr rawName with
      | none => exact ih
      | some streamName =>
          refine bind (effect rfl) fun reply => ?_
          cases U16CStr.fromStr streamName with
          | none => exact .pure _
          | some name =>
              refine bind (effect rfl) fun accepted => ?_
              cases accepted with
              | true => exact ih
              | false => exact .pure _

end KeepsEmpty

namespace Empties

theorem finishMetadataMutation (ino : INodeNo) :
    Empties pf h notices (finishMetadataMutation pf req fileName ino) :=
  after fun _ => after fun _ => deliver req _

/-- The mutation of attributes after its call: the drain, and more only if the call succeeded. -/
theorem mutated {reply : Reply γ} {toNtstatus : Errno → NtStatus} (ino : INodeNo) (f : γ → α) :
    Empties pf h notices (drainResolverForgets req >>= fun _ => onReply reply toNtstatus fun v => do
      Confuse.finishMetadataMutation pf req fileName ino
      pure (.ok (f v))) :=
  drained req fun _ => .onReply fun _ =>
    .bind (.of_empties (finishMetadataMutation req fileName ino)) fun _ => .pure _

theorem deleteFile : Empties pf h notices (deleteFile pf fileName context) :=
  .withResolved _ fun _ => after fun _ => drained _ fun _ => .pure _

theorem deleteDirectory : Empties pf h notices (deleteDirectory pf fileName context) :=
  .withResolved _ fun _ => after fun _ => drained _ fun _ => .pure _

theorem flushFileBuffers : Empties pf h notices (flushFileBuffers pf fileName context) :=
  .withResolved _ fun _ => after fun _ => drained _ fun _ => .pure _

theorem setFileAttributes (fileAttributes : UInt32) :
    Empties pf h notices (setFileAttributes pf fileName fileAttributes context) :=
  .withResolved _ fun resolved => after fun _ => mutated _ fileName resolved.ino fun _ => ()

theorem setFileTime (creationTime lastAccessTime lastWriteTime : FileTimeOperation) :
    Empties pf h notices
      (setFileTime pf fileName creationTime lastAccessTime lastWriteTime context) :=
  .withResolved _ fun resolved => after fun _ => mutated _ fileName resolved.ino fun _ => ()

theorem getFileInformation : Empties pf h notices (getFileInformation pf fileName context) := by
  refine .withResolved _ fun resolved => after fun cachedAttr => ?_
  cases cachedAttr with
  | some attr => exact drained _ fun _ => .pure _
  | none => exact after fun _ => drained _ fun _ => .onReply fun _ => .bind (.effect rfl) fun _ => .pure _

theorem getFileSecurity (hasBuffer : Bool) (bufferLength : UInt32) :
    Empties pf h notices (getFileSecurity pf fileName hasBuffer bufferLength context) := by
  refine .withResolved _ fun resolved => after fun reply => drained _ fun _ => ?_
  rcases ReplyXattr.status reply with _ | ⟨err⟩ | ⟨data⟩
  · exact .pure _
  · dsimp only
    split_ifs
    · exact .bind (.synthesizedSecurityDescriptorFromFs _ _ _) fun _ => .onOk fun _ => .pure _
    · exact .pure _
  · refine .onOk fun needed => ?_
    split_ifs
    · exact .pure _
    · exact .bind (.fetchSecurityDescriptorData _ resolved _ _ _) fun _ => .onOk fun _ => .pure _

theorem setFileSecurity (descriptor : List UInt8) :
    Empties pf h notices (setFileSecurity pf fileName descriptor context) :=
  .withResolved _ fun _ => after fun _ => drained _ fun _ => .onReply fun _ =>
    .bind (.effect rfl) fun _ => .pure _

theorem precheckTarget (newFileName : U16CStr) :
    Empties pf h notices (precheckTarget pf req newFileName) := by
  refine after fun target => ?_
  cases target with
  | ok ino => exact drained req fun _ => .pure _
  | error err =>
      refine drained req fun _ => ?_
      split_ifs <;> exact .pure _

theorem renameAndInvalidate (newFileName : U16CStr) (oldParentIno newParentIno : INodeNo)
    (movedIno : Option INodeNo) : Empties pf h notices
      (renameAndInvalidate req fileName newFileName oldParentIno newParentIno movedIno) := by
  refine after fun renamed => drained req fun _ => .onOk fun _ => ?_
  exact .bind (.bind (.invalidateMoved movedIno) fun _ =>
    .bind (.bind (.effect rfl) fun _ => .effect rfl) fun _ =>
      .bind (.of_empties (deliver req _)) fun _ => .bind (.of_empties (deliver req _)) fun _ =>
        .bind (.effect rfl) fun _ => .effect rfl) fun _ => .pure _

theorem moveFile (newFileName : U16CStr) (replaceIfExisting : Bool) :
    Empties pf h notices (moveFile pf fileName newFileName replaceIfExisting context) := by
  refine resolved (.resolvePathIno pf _ _) (fun _ => .pure _) fun oldParentIno =>
    resolved (.resolvePathIno pf _ _) (fun _ => .pure _) fun newParentIno => after fun moved => ?_
  have hrename : Empties pf h notices (Confuse.renameAndInvalidate (requestFromIds context.requestIds)
      fileName newFileName oldParentIno newParentIno (moved.toOption.map AdapterContext.ino)) :=
    renameAndInvalidate _ fileName newFileName oldParentIno newParentIno _
  cases replaceIfExisting with
  | true => exact hrename
  | false =>
      exact before (precheckTarget _ newFileName) fun _ => .onOk fun _ => .of_empties hrename

/-! ### Creating -/

theorem openResolvedPath (request : OpenEntryRequest) (actualIno : INodeNo) :
    Empties pf h notices (openResolvedPath request actualIno) :=
  after fun _ => drained _ fun _ => .onReply fun _ => .bind (.effect rfl) fun _ => .pure _

theorem openExistingEntry (request : OpenEntryRequest) :
    Empties pf h notices (openExistingEntry pf request) := by
  refine resolved ?_ (fun _ => .pure _) fun actualIno => openResolvedPath request actualIno
  unfold resolveOpenIno
  split_ifs
  · exact .pure_ok _
  · exact .andThen (.resolvePathIno pf _ _) (fun _ => .of_empties (drained _ fun _ => .pure _))
      fun _ => .pure_ok _

theorem openCollisionEntry (request : OpenEntryRequest) :
    Empties pf h notices (openCollisionEntry pf request) := by
  unfold Confuse.openCollisionEntry
  split_ifs
  · exact after fun _ => openExistingEntry request
  · exact openExistingEntry request

theorem createDirectoryEntry (create : CreateEntryRequest) :
    Empties pf h notices (createDirectoryEntry create) :=
  after fun _ => drained _ fun _ => .onReply fun _ =>
    .bind (.finishCreatedEntry _) fun _ => .pure _

theorem createFileEntryOrOpenExisting (create : CreateEntryRequest) (plan : CreateDispositionPlan)
    (openFlags : Int32) :
    Empties pf h notices (createFileEntryOrOpenExisting pf create plan openFlags) := by
  refine after fun state => drained _ fun _ => ?_
  rcases state with _ | ⟨err⟩ | ⟨payload⟩
  · exact .pure _
  · dsimp only
    split_ifs
    · exact .of_empties (openCollisionEntry _)
    · exact .pure _
  · exact .bind (.finishCreatedEntry _) fun _ => .pure _

end Empties

/-- A path without a last component has the root for its parent, which is not looked up. -/
theorem resolveParentIno_of_no_leaf (hleaf : (splitParentAndName fileName).2.points = []) :
    resolveParentIno pf req (splitParentAndName fileName).1 = pure (.ok .ROOT) := by
  unfold splitParentAndName at hleaf ⊢
  dsimp only at hleaf ⊢
  cases hlast : ((pathParts fileName.toStringLossy).filter
      fun part => part.getLast? ≠ some ':').getLast? with
  | none => rfl
  | some leaf =>
      rw [hlast] at hleaf
      have hpart := mem_pathParts (List.mem_filter.mp (List.mem_of_getLast? hlast)).1
      exact absurd (List.map_eq_nil_iff.mp hleaf) hpart.1

namespace KeepsEmpty

theorem createFile (desiredAccess : AccessMask)
    (fileAttributes createDisposition createOptions : UInt32) (requestIds : RequestIds) :
    KeepsEmpty pf h notices (createFile pf fileName desiredAccess fileAttributes createDisposition
      createOptions requestIds) := by
  by_cases hleaf : (splitParentAndName fileName).2.points = []
  · unfold Confuse.createFile createFileImpl
    dsimp only
    rw [resolveParentIno_of_no_leaf _ fileName hleaf]
    change KeepsEmpty pf h notices (createInParent pf fileName desiredAccess fileAttributes
      createDisposition createOptions requestIds .ROOT)
    dsimp only [createInParent]
    rw [if_pos hleaf]
    exact bind (effect rfl) fun _ => .pure _
  · refine of_empties (.resolved (.resolvePathIno pf _ _)
      (fun _ => of_empties (.drained _ fun _ => .pure _)) fun parentIno => ?_)
    dsimp only [createInParent]
    rw [if_neg hleaf]
    split_ifs
    · exact .openExistingEntry _
    · exact .createDirectoryEntry _
    · exact .createFileEntryOrOpenExisting _ _ _

theorem cleanup (deleteOnClose : Bool) :
    KeepsEmpty pf h notices (cleanup pf fileName deleteOnClose context) := by
  cases deleteOnClose with
  | false => exact .pure _
  | true =>
      refine of_empties (.resolved (.resolvePathIno pf _ _) (fun _ => of_empties (.deliver _ _))
        fun parentIno => .after fun status => .drained _ fun _ => ?_)
      rcases status with _ | ⟨err⟩ | ⟨_⟩
      · exact .pure _
      · exact .pure _
      · dsimp only [invalidateRemoved]
        refine bind (of_empties (.deliver _ _)) fun _ => ?_
        split_ifs
        · exact bind (effect rfl) fun _ => effect rfl
        · exact effect rfl

end KeepsEmpty

/-! ### Listings -/

/-- A failed resolution of the directory drains. -/
theorem FailsEmpty.directoryIno (pathKey : Str) :
    FailsEmpty pf h notices (directoryIno pf req pathKey context) := by
  unfold Confuse.directoryIno
  split
  · exact .pure_ok _
  · exact .andThen (.resolvePathIno pf req _) (fun _ => .pure _) fun _ => .pure_ok _

namespace Empties

theorem findFiles : Empties pf h notices (findFiles pf fileName context) :=
  resolved (.directoryIno _ context _) (fun _ => .pure _) fun _ => after fun _ => after fun _ =>
    drained _ fun _ => .bind (.emitReaddirEntries _ _ _) fun _ =>
      .onOk fun _ => .bind (.effect rfl) fun _ => .pure _

theorem findFilesWithPattern (pattern : U16CStr) :
    Empties pf h notices (findFilesWithPattern pf fileName pattern context) := by
  refine resolved (.directoryIno _ context _) (fun _ => .pure _) fun ino => after fun reqOffset =>
    after fun reply => drained _ fun _ => ?_
  split_ifs
  · exact .of_empties (after fun _ => drained _ fun _ => .bind
      (.emitReaddirPatternEntries _ _ _ _) fun _ => .onOk fun _ => .bind (.effect rfl) fun _ => .pure _)
  · exact .bind (.emitReaddirplusPatternEntries _ _ _ _ _ _) fun _ => .onOk fun _ =>
      .bind (.effect rfl) fun _ => .pure _

end Empties
/-! ## Handlers that may leave before their drain -/

/-- `dokan_write_plan` fails: a negative offset that counts, or no attributes where they are needed. -/
def WritePlanFails (h : Host β φ) (req : Request) (offset : Int64) (writeToEof pagingIo : Bool)
    (resolved : AdapterContext) (w : World β φ) : Prop :=
  writeToEof = false ∧ offset < 0 ∨ (writeToEof = true ∨ pagingIo = true) ∧
    ∀ payload, (h.reply (.getattr req resolved.ino (some resolved.fh)) w.backend).1
      ≠ (some (.ok payload) : Reply ReplyAttrPayload)

/-- `getlk` fails or reports a conflict. -/
def LockRefused : Reply ReplyLockPayload → Prop
  | some (.error _) => True
  | some (.ok lock) => lock.typ ≠ LOCK_TYPE_UNLCK
  | none => False

/-- `lock_file` does not get as far as `setlk`. -/
def LockLeaves (h : Host β φ) (req : Request) (offset length : Int64) (resolved : AdapterContext)
    (w : World β φ) : Prop :=
  match checkedLockRange offset length with
  | .error _ => True
  | .ok (start, «end») => LockRefused (h.reply (.getlk req resolved.ino resolved.fh
      (requestOwner resolved) start «end» LOCK_TYPE_WRLCK req.pid) w.backend).1

/-- The size that `find_streams` reports for the unnamed stream. -/
def defaultStreamSize : Reply ReplyAttrPayload → Int64
  | some (.ok payload) => streamSize payload.attr.size
  | some (.error _) => 0
  | none => 0

/-- The caller refuses the unnamed stream. -/
def StreamsRefused (h : Host β φ) (req : Request) (resolved : AdapterContext) (w : World β φ) : Prop :=
  ∀ name, U16CStr.fromStr "::$DATA".toList = some name → (h.fillFindStreamData {
    size := defaultStreamSize
      (h.reply (.getattr req resolved.ino (some resolved.fh)) w.backend).1, name } w.caller).1 = false

/-- What follows the plan is reached unless the plan fails. -/
theorem LeavesAt.dokanWritePlan (offset : Int64) (len : ℕ) (writeToEof pagingIo : Bool)
    (resolved : AdapterContext) {f : UInt64 × ℕ → Routine (Except NtStatus α)}
    (hf : ∀ plan, Empties pf h notices (f plan)) :
    LeavesAt pf h notices (WritePlanFails h req offset writeToEof pagingIo resolved)
      (dokanWritePlan req resolved offset len writeToEof pagingIo >>= fun plan => onOk plan f) := by
  unfold Confuse.dokanWritePlan
  by_cases hnegative : (!writeToEof && decide (offset < 0)) = true
  · rw [if_pos hnegative]
    exact .pure _ fun _ => .inl (by simpa using hnegative)
  rw [if_neg hnegative]
  have hoffset : writeToEof = false → ¬ offset < 0 := by simpa using hnegative
  by_cases hplain : (!writeToEof && !pagingIo) = true
  · rw [if_pos hplain]
    obtain ⟨heof, hpaging⟩ : writeToEof = false ∧ pagingIo = false := by simpa using hplain
    rw [nonnegativeI64ToU64_ok (hoffset heof)]
    refine .of_empties (hf _) fun w => ?_
    rintro (⟨-, hneg⟩ | ⟨hasks, -⟩)
    · exact hoffset heof hneg
    · simp [heof, hpaging] at hasks
  · rw [if_neg hplain]
    have hasks : writeToEof = true ∨ pagingIo = true := by
      by_contra hnone
      exact hplain (by simpa [not_or] using hnone)
    have hstart : ∀ size : UInt64, ∃ start,
        (if writeToEof then .ok size else nonnegativeI64ToU64 offset) = .ok start := by
      intro size
      cases heof : writeToEof with
      | true => exact ⟨size, rfl⟩
      | false => exact ⟨_, nonnegativeI64ToU64_ok (hoffset heof)⟩
    change LeavesAt pf h notices _ (Routine.fs (.getattr req resolved.ino (some resolved.fh)) >>=
      fun status => onReply status errnoToNtstatus _ >>= fun plan => onOk plan f)
    refine (LeavesAt.call (.getattr req resolved.ino (some resolved.fh))
      (fun attr _ => ∀ payload, attr ≠ (some (.ok payload) : Reply ReplyAttrPayload))
      fun status => ?_).congr fun w => ?_
    · rcases status with _ | ⟨err⟩ | ⟨payload⟩
      · exact .pure _ fun _ payload hpayload => by cases hpayload
      · exact .pure _ fun _ payload hpayload => by cases hpayload
      · refine .of_empties ?_ fun _ hall => hall payload rfl
        obtain ⟨start, hok⟩ := hstart payload.attr.size
        dsimp only [onReply]
        rw [hok]
        dsimp only [onOk]
        split_ifs
        · exact hf _
        · exact hf _
        · exact hf _
    · unfold WritePlanFails
      constructor
      · intro hall
        exact .inr ⟨hasks, hall⟩
      · rintro (⟨heof, hneg⟩ | ⟨-, hall⟩)
        · exact absurd hneg (hoffset heof)
        · exact hall

namespace EmptiesIf

theorem setEndOfFile (offset : Int64) :
    EmptiesIf pf h notices (World.PaidUp pf h notices fileName context fun _ _ => offset < 0)
      (setEndOfFile pf fileName offset context) := by
  refine .withResolved fun resolved => ?_
  by_cases hnegative : offset < 0
  · rw [nonnegativeI64ToU64_error hnegative]
    exact .pure _ fun _ => hnegative
  · rw [nonnegativeI64ToU64_ok hnegative]
    exact .of_empties (.after fun _ => .mutated _ fileName resolved.ino fun _ => ())
      fun _ => hnegative

theorem setAllocationSize (allocSize : Int64) :
    EmptiesIf pf h notices (World.PaidUp pf h notices fileName context fun _ _ => allocSize < 0)
      (setAllocationSize pf fileName allocSize context) := by
  refine .withResolved fun resolved => ?_
  unfold allocationSizeWithContext
  by_cases hnegative : allocSize < 0
  · rw [nonnegativeI64ToU64_error hnegative]
    exact .pure _ fun _ => hnegative
  · rw [nonnegativeI64ToU64_ok hnegative]
    refine .of_empties ?_ fun _ => hnegative
    change Empties pf h notices (Routine.fs (.fallocate (requestFromIds context.requestIds)
      resolved.ino resolved.fh 0 allocSize.toUInt64 FALLOC_FL_KEEP_SIZE) >>= fun status => _)
    exact .after fun _ => .mutated _ fileName resolved.ino fun _ => ()

theorem readFile (offset : Int64) (bufferLen : ℕ) :
    EmptiesIf pf h notices (World.PaidUp pf h notices fileName context
        fun _ _ => offset < 0 ∨ 2 ^ 32 ≤ bufferLen)
      (readFile pf fileName offset bufferLen context) := by
  refine .withResolved fun resolved => ?_
  by_cases hnegative : offset < 0
  · rw [nonnegativeI64ToU64_error hnegative]
    exact .pure _ fun _ => .inl hnegative
  rw [nonnegativeI64ToU64_ok hnegative]
  by_cases hlen : bufferLen < 2 ^ 32
  · have hok : checkedDokanLen bufferLen = .ok (.ofNat bufferLen) := if_pos hlen
    rw [hok]
    refine .of_empties (.after fun _ => .drained _ fun _ => .onReply fun _ => .pure _) fun _ => ?_
    rintro (hoffset | hlong)
    · exact hnegative hoffset
    · omega
  · have herror : checkedDokanLen bufferLen = .error STATUS_INVALID_PARAMETER := if_neg hlen
    rw [herror]
    exact .pure _ fun _ => .inr (by omega)

theorem writeFile (offset : Int64) (buffer : List UInt8) (writeToEof pagingIo : Bool) :
    EmptiesIf pf h notices (World.PaidUp pf h notices fileName context
        (WritePlanFails h (requestFromIds context.requestIds) offset writeToEof pagingIo))
      (writeFile pf fileName offset buffer writeToEof pagingIo context) :=
  .withResolved fun resolved => .dokanWritePlan _ offset _ writeToEof pagingIo resolved fun _ =>
    .after fun _ => .mutated _ fileName resolved.ino id

theorem lockFile (offset length : Int64) :
    EmptiesIf pf h notices (World.PaidUp pf h notices fileName context
        (LockLeaves h (requestFromIds context.requestIds) offset length))
      (lockFile pf fileName offset length context) := by
  refine .withResolved fun resolved => ?_
  unfold LockLeaves
  rcases checkedLockRange offset length with status | ⟨start, «end»⟩
  · exact .pure _ fun _ => trivial
  · refine .call (.getlk (requestFromIds context.requestIds) resolved.ino resolved.fh
      (requestOwner resolved) start «end» LOCK_TYPE_WRLCK (requestFromIds context.requestIds).pid)
      (fun query _ => LockRefused query) fun query => ?_
    have hset : Empties pf h notices (setlkWithContext (requestFromIds context.requestIds) resolved
        start «end» LOCK_TYPE_WRLCK) := .after fun _ => .drained _ fun _ => .onReply fun _ => .pure _
    rcases query with _ | ⟨err⟩ | ⟨lock⟩
    · exact .of_empties hset fun _ => id
    · exact .pure _ fun _ => trivial
    · dsimp only [LockRefused]
      by_cases hfree : lock.typ ≠ LOCK_TYPE_UNLCK
      · rw [if_pos hfree]
        exact .pure _ fun _ => hfree
      · rw [if_neg hfree]
        exact .of_empties hset fun _ => hfree

theorem unlockFile (offset length : Int64) :
    EmptiesIf pf h notices (World.PaidUp pf h notices fileName context
        fun _ _ => ∀ range, checkedLockRange offset length ≠ .ok range)
      (unlockFile pf fileName offset length context) := by
  refine .withResolved fun resolved => ?_
  rcases checkedLockRange offset length with status | ⟨start, «end»⟩
  · exact .pure _ fun _ => by simp
  · exact .of_empties (.after fun _ => .drained _ fun _ => .onReply fun _ => .pure _) fun _ => by simp

theorem findStreams :
    EmptiesIf pf h notices (World.PaidUp pf h notices fileName context
        (StreamsRefused h (requestFromIds context.requestIds)))
      (findStreams pf fileName context) := by
  refine .withResolved fun resolved => ?_
  unfold StreamsRefused
  refine .call (.getattr (requestFromIds context.requestIds) resolved.ino (some resolved.fh))
    (fun attr caller => ∀ name, U16CStr.fromStr "::$DATA".toList = some name →
      (h.fillFindStreamData { size := defaultStreamSize attr, name } caller).1 = false) fun attr => ?_
  cases U16CStr.fromStr "::$DATA".toList with
  | none => exact .pure _ fun _ => by simp
  | some name =>
      refine LeavesAt.congr (?_ : LeavesAt pf h notices (fun w => (h.fillFindStreamData
        { size := defaultStreamSize attr, name } w.caller).1 = false) _) fun w => ?_
      · refine .fill { size := defaultStreamSize attr, name } rfl ?_
        refine .after fun reply => .after fun listData => .drained _ fun _ => ?_
        rcases listData with _ | ⟨err⟩ | ⟨data⟩
        · exact .pure _
        · dsimp only
          split_ifs <;> exact .pure _
        · exact .emitNamedStreams _ _ _
      · constructor
        · rintro hrefused _ ⟨⟩
          exact hrefused
        · intro hall
          exact hall name rfl

end EmptiesIf

/-! ## All callbacks -/

variable (pf h notices) in
/-- What the resolution of the path gives up is nothing, should the handler leave before its drain. -/
def Callback.PaidUp : Callback → World β φ → Prop
  | .setEndOfFile fileName offset context =>
      World.PaidUp pf h notices fileName context fun _ _ => offset < 0
  | .setAllocationSize fileName allocSize context =>
      World.PaidUp pf h notices fileName context fun _ _ => allocSize < 0
  | .readFile fileName offset bufferLen context =>
      World.PaidUp pf h notices fileName context fun _ _ => offset < 0 ∨ 2 ^ 32 ≤ bufferLen
  | .writeFile fileName offset _ writeToEof pagingIo context =>
      World.PaidUp pf h notices fileName context
        (WritePlanFails h (requestFromIds context.requestIds) offset writeToEof pagingIo)
  | .lockFile fileName offset length context =>
      World.PaidUp pf h notices fileName context
        (LockLeaves h (requestFromIds context.requestIds) offset length)
  | .unlockFile fileName offset length context =>
      World.PaidUp pf h notices fileName context
        fun _ _ => ∀ range, checkedLockRange offset length ≠ .ok range
  | .findStreams fileName context =>
      World.PaidUp pf h notices fileName context
        (StreamsRefused h (requestFromIds context.requestIds))
  | _ => fun _ => True

theorem Empties.emptiesIf {p : Routine α} (hp : Empties pf h notices p) :
    EmptiesIf pf h notices (fun _ => True) p := (KeepsEmpty.of_empties hp).emptiesIf

theorem Callback.emptiesIf (c : Callback) :
    EmptiesIf pf h notices (c.PaidUp pf h notices) (c.routine pf) := by
  cases c with
  | createFile fileName access attributes disposition options ids =>
      exact KeepsEmpty.emptiesIf (.createFile fileName access attributes disposition options ids)
  | cleanup fileName delete context => exact KeepsEmpty.emptiesIf (.cleanup fileName context delete)
  | closeFile fileName context => exact KeepsEmpty.emptiesIf (.closeFile fileName context)
  | deleteFile fileName context => exact Empties.emptiesIf (.deleteFile fileName context)
  | deleteDirectory fileName context => exact Empties.emptiesIf (.deleteDirectory fileName context)
  | moveFile fileName newFileName replace context =>
      exact Empties.emptiesIf (.moveFile fileName context newFileName replace)
  | findFiles fileName context => exact Empties.emptiesIf (.findFiles fileName context)
  | findFilesWithPattern fileName pattern context =>
      exact Empties.emptiesIf (.findFilesWithPattern fileName context pattern)
  | flushFileBuffers fileName context => exact Empties.emptiesIf (.flushFileBuffers fileName context)
  | setEndOfFile fileName offset context => exact .setEndOfFile fileName context offset
  | setFileAttributes fileName attributes context =>
      exact Empties.emptiesIf (.setFileAttributes fileName context attributes)
  | setFileTime fileName creation access write context =>
      exact Empties.emptiesIf (.setFileTime fileName context creation access write)
  | setAllocationSize fileName size context => exact .setAllocationSize fileName context size
  | getDiskFreeSpace pid => exact KeepsEmpty.emptiesIf (.getDiskFreeSpace pid)
  | getFileInformation fileName context =>
      exact Empties.emptiesIf (.getFileInformation fileName context)
  | readFile fileName offset len context => exact .readFile fileName context offset len
  | writeFile fileName offset buffer toEof paging context =>
      exact .writeFile fileName context offset buffer toEof paging
  | getFileSecurity fileName hasBuffer len context =>
      exact Empties.emptiesIf (.getFileSecurity fileName context hasBuffer len)
  | setFileSecurity fileName descriptor context =>
      exact Empties.emptiesIf (.setFileSecurity fileName context descriptor)
  | lockFile fileName offset length context => exact .lockFile fileName context offset length
  | unlockFile fileName offset length context => exact .unlockFile fileName context offset length
  | findStreams fileName context => exact .findStreams fileName context

end Runs

/-- The forgets are delivered when a callback returns if what it resolved before an early return gave
up no reference, and without other threads at work only then. -/
theorem forgets_delivered_iff {β φ : Type} (pf : Platform) (h : Host β φ) (notices : Notices)
    (c : Callback) (w : World β φ) (hw : w.resolver.pendingForgets = []) :
    (c.PaidUp pf h notices w →
      ((c.routine pf).run (machine pf h notices) w).2.resolver.pendingForgets = []) ∧
    (notices = undisturbed →
      ((c.routine pf).run (machine pf h notices) w).2.resolver.pendingForgets = [] →
        c.PaidUp pf h notices w) := c.emptiesIf w hw

/-- The truncation of a file whose entry may not be kept. -/
theorem forgets_delivered_truncation :
    (((Callback.setEndOfFile fileF 4 {}).routine .ascii).run
      (machine .ascii (.stateless (oneFile (.fromSecs 0))) undisturbed)
        World.mounted).2.resolver.pendingForgets = [] :=
  (forgets_delivered_iff .ascii (.stateless (oneFile (.fromSecs 0))) undisturbed (.setEndOfFile fileF 4 {})
    World.mounted rfl).1 fun _ _ hnegative => absurd hnegative (by decide : ¬ (4 : Int64) < 0)

/-- A read at a negative offset returns between the resolution and the drain. -/
theorem negative_read_keeps_forgets :
    ¬ ∀ (β φ : Type) (pf : Platform) (h : Host β φ) (notices : Notices) (c : Callback)
      (w : World β φ), w.resolver.pendingForgets = [] →
        ((c.routine pf).run (machine pf h notices) w).2.resolver.pendingForgets = [] := by
  intro hall
  exact absurd (hall Unit Unit .ascii (.stateless (oneFile (.fromSecs 0))) undisturbed
    (.readFile fileF (-1) 1 {}) World.mounted rfl) (by decide)

end Confuse
