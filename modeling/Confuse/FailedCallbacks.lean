import Confuse.OpenStateRuns

/-!
# Open state after a failed callback

A callback that fails should leave the open handles and the directory offsets as they were, so that a
retry starts where the failed attempt did. Most callbacks touch them last, when nothing can fail any
more. A listing remembers its offset before it looks at the final status of the reply.
-/

namespace Confuse

open Interaction

/-- The status of a result that is an error. -/
def failureOf {α : Type} : Except NtStatus α → Option NtStatus
  | .error status => some status
  | .ok _ => none

/-- The status that a callback fails with; `cleanup` and `close_file` return nothing. -/
def Callback.failure : (c : Callback) → c.Result → Option NtStatus
  | .cleanup .., _ | .closeFile .., _ => none
  | .createFile .., r => failureOf (α := CreateFileInfo) r
  | .getDiskFreeSpace .., r => failureOf (α := DiskSpaceInfo) r
  | .getFileInformation .., r => failureOf (α := FileInfo) r
  | .readFile .., r => failureOf (α := ReadResult) r
  | .writeFile .., r => failureOf (α := UInt32) r
  | .getFileSecurity .., r => failureOf (α := DescriptorCopy) r
  | .deleteFile .., r | .deleteDirectory .., r | .moveFile .., r | .findFiles .., r
  | .findFilesWithPattern .., r | .flushFileBuffers .., r | .setEndOfFile .., r
  | .setFileAttributes .., r | .setFileTime .., r | .setAllocationSize .., r
  | .setFileSecurity .., r | .lockFile .., r | .unlockFile .., r | .findStreams .., r =>
      failureOf (α := Unit) r

/-- The two maps hold the same under every key. -/
structure OpenState.Same (s t : OpenState) : Prop where
  handles : ∀ key, t.handles.lookup key = s.handles.lookup key
  dirOffsets : ∀ key, t.dirOffsets.lookup key = s.dirOffsets.lookup key

theorem OpenState.Same.refl (s : OpenState) : s.Same s := ⟨fun _ => rfl, fun _ => rfl⟩

/-! ## Routines that fail without a trace -/

/-- A run that fails leaves the open state as it was. -/
abbrev FailsClean {α : Type} (p : Routine (Except NtStatus α)) : Prop :=
  TurnsOpenState (fun s r t => failureOf r ≠ none → t = s) p

namespace FailsClean
variable {α γ : Type} (pf : Platform) (req : Request) (fileName : U16CStr) (context : AdapterContext)

theorem keeps {p : Routine (Except NtStatus α)} (hp : KeepsOpenState p) : FailsClean p :=
  TurnsOpenState.keeps hp fun _ _ _ => rfl

/-- What ends with a success has not failed. -/
theorem succeeds (p : Routine γ) (f : γ → α) : FailsClean (p >>= fun a => pure (.ok (f a))) :=
  TurnsOpenState.bind (Q := fun _ _ _ => True) (fun _ _ _ _ _ _ => trivial)
    (R := fun _ r _ => failureOf r = none) (fun _ => TurnsOpenState.pure fun _ => rfl)
    fun _ _ _ _ _ _ hsuccess hfailure => absurd hsuccess hfailure

theorem onReply {reply : Reply γ} {toNtstatus : Errno → NtStatus}
    {f : γ → Routine (Except NtStatus α)} (hf : ∀ v, FailsClean (f v)) :
    FailsClean (onReply reply toNtstatus f) :=
  onReply_cases (fun _ => keeps (.pure _)) fun v _ => hf v

theorem onOk {result : Except NtStatus γ} {f : γ → Routine (Except NtStatus α)}
    (hf : ∀ v, FailsClean (f v)) : FailsClean (onOk result f) :=
  onOk_cases (fun _ => keeps (.pure _)) hf

/-! ### Creating -/

theorem openResolvedPath (request : OpenEntryRequest) (actualIno : INodeNo) :
    FailsClean (openResolvedPath request actualIno) :=
  .after (.openOrOpendir request actualIno) fun _ => .after (.effect rfl) fun _ =>
    onReply fun _ => succeeds _ _

theorem openExistingEntry (request : OpenEntryRequest) :
    FailsClean (openExistingEntry pf request) :=
  .after (.resolveOpenIno pf request) fun _ => onOk fun _ => openResolvedPath request _

theorem openCollisionEntry (request : OpenEntryRequest) :
    FailsClean (openCollisionEntry pf request) := by
  unfold Confuse.openCollisionEntry
  split_ifs
  · exact .after (.effect rfl) fun _ => openExistingEntry pf request
  · exact openExistingEntry pf request

theorem createDirectoryEntry (create : CreateEntryRequest) :
    FailsClean (createDirectoryEntry create) :=
  .after (.effect rfl) fun _ => .after (.effect rfl) fun _ => onReply fun _ => succeeds _ _

theorem createFileEntryOrOpenExisting (create : CreateEntryRequest) (plan : CreateDispositionPlan)
    (openFlags : Int32) : FailsClean (createFileEntryOrOpenExisting pf create plan openFlags) := by
  refine .after (.effect rfl) fun state => .after (.effect rfl) fun _ => ?_
  rcases state with _ | ⟨err⟩ | ⟨payload⟩
  · exact keeps (.pure _)
  · dsimp only
    split_ifs
    · exact openCollisionEntry pf _
    · exact keeps (.pure _)
  · exact succeeds _ _

theorem createFile (desiredAccess : AccessMask)
    (fileAttributes createDisposition createOptions : UInt32) (requestIds : RequestIds) :
    FailsClean (createFile pf fileName desiredAccess fileAttributes createDisposition createOptions
      requestIds) := by
  refine .after (.of_walks (.resolvePathIno _ pf _)) fun parent => ?_
  cases parent with
  | error err => exact keeps (.bind (.effect rfl) fun _ => .pure _)
  | ok parentIno =>
      dsimp only [createInParent]
      split_ifs
      · exact succeeds _ _
      · exact openExistingEntry pf _
      · exact createDirectoryEntry _
      · exact createFileEntryOrOpenExisting pf _ _ _

/-! ### Moving -/

theorem moveFile (newFileName : U16CStr) (replaceIfExisting : Bool) :
    FailsClean (moveFile pf fileName newFileName replaceIfExisting context) := by
  refine .after (.of_walks (.resolvePathIno _ pf _)) fun oldParent => ?_
  cases oldParent with
  | error err => exact keeps (.pure _)
  | ok oldParentIno =>
      refine .after (.of_walks (.resolvePathIno _ pf _)) fun newParent => ?_
      cases newParent with
      | error err => exact keeps (.pure _)
      | ok newParentIno =>
          exact .after (.resolveContextOrPath pf _ fileName context) fun moved =>
            .after (.precheckRename pf _ newFileName replaceIfExisting) fun _ => onOk fun _ =>
              .after (.bind (.effect rfl) fun _ => .pure _) fun _ => .after (.effect rfl) fun _ =>
                onOk fun _ => succeeds _ _

end FailsClean

/-! ## Routines that leave the open state alone -/

namespace KeepsOpenState
variable {α γ : Type} (pf : Platform) (req : Request) (fileName : U16CStr) (context : AdapterContext)

theorem deleteFile : KeepsOpenState (deleteFile pf fileName context) := by
  refine withResolved pf _ fun resolved => bind (bind (effect rfl) fun _ => onReply fun payload => ?_)
    fun _ => bind (effect rfl) fun _ => .pure _
  split_ifs
  · exact .pure _
  · refine bind (effect rfl) fun access => ?_
    rcases access with _ | ⟨err⟩ | ⟨_⟩
    · exact .pure _
    · dsimp only
      split_ifs <;> exact .pure _
    · exact .pure _

theorem deleteDirectory : KeepsOpenState (deleteDirectory pf fileName context) := by
  refine withResolved pf _ fun resolved => bind (bind (effect rfl) fun _ => onReply fun payload => ?_)
    fun _ => bind (effect rfl) fun _ => .pure _
  split_ifs
  · exact .pure _
  · refine bind (effect rfl) fun reply => ?_
    split_ifs <;> exact .pure _

theorem flushFileBuffers : KeepsOpenState (flushFileBuffers pf fileName context) := by
  refine withResolved pf _ fun resolved => bind ?_ fun _ => bind (effect rfl) fun _ => .pure _
  unfold flushWithContext
  cases resolved.isDir with
  | true => exact effect (e := .fs (.fsyncdir _ _ _ _)) rfl
  | false => exact effect (e := .fs (.fsync _ _ _ _)) rfl

theorem setattrRoute (args : Except NtStatus SetattrArgs) :
    KeepsOpenState (setattrRoute pf fileName context args) :=
  withResolved pf _ fun resolved => onOk fun _ => bind (effect rfl) fun _ => bind (effect rfl) fun _ =>
    onReply fun _ => bind (finishMetadataMutation pf _ fileName resolved.ino) fun _ => .pure _

theorem setAllocationSize (allocSize : Int64) :
    KeepsOpenState (setAllocationSize pf fileName allocSize context) :=
  withResolved pf _ fun resolved =>
    bind (onOk fun _ => bind (effect rfl) fun _ => .pure _) fun _ => onOk fun _ =>
      bind (effect rfl) fun _ => onReply fun _ =>
        bind (finishMetadataMutation pf _ fileName resolved.ino) fun _ => .pure _

theorem getDiskFreeSpace (pid : UInt32) : KeepsOpenState (getDiskFreeSpace pid) :=
  bind (effect rfl) fun _ => onReply fun _ => .pure _

theorem getFileInformation : KeepsOpenState (getFileInformation pf fileName context) := by
  refine withResolved pf _ fun resolved => bind (effect rfl) fun cachedAttr => ?_
  cases cachedAttr with
  | some attr => exact bind (effect rfl) fun _ => .pure _
  | none =>
      exact bind (effect rfl) fun _ => bind (effect rfl) fun _ => onReply fun _ =>
        bind (effect rfl) fun _ => .pure _

theorem readFile (offset : Int64) (bufferLen : ℕ) :
    KeepsOpenState (readFile pf fileName offset bufferLen context) :=
  withResolved pf _ fun _ => onOk fun _ => onOk fun _ => bind (effect rfl) fun _ =>
    bind (effect rfl) fun _ => onReply fun _ => .pure _

theorem dokanWritePlan (offset : Int64) (len : ℕ) (writeToEof pagingIo : Bool) :
    KeepsOpenState (dokanWritePlan req context offset len writeToEof pagingIo) := by
  unfold Confuse.dokanWritePlan
  by_cases hnegative : (!writeToEof && decide (offset < 0)) = true
  · rw [if_pos hnegative]
    exact .pure _
  rw [if_neg hnegative]
  by_cases hplain : (!writeToEof && !pagingIo) = true
  · rw [if_pos hplain]
    exact .pure _
  rw [if_neg hplain]
  refine bind (effect rfl) fun status => onReply fun payload => onOk fun start => ?_
  split_ifs <;> exact .pure _

theorem writeFile (offset : Int64) (buffer : List UInt8) (writeToEof pagingIo : Bool) :
    KeepsOpenState (writeFile pf fileName offset buffer writeToEof pagingIo context) :=
  withResolved pf _ fun resolved => bind (dokanWritePlan _ resolved offset _ writeToEof pagingIo)
    fun _ => onOk fun _ => bind (effect rfl) fun _ => bind (effect rfl) fun _ => onReply fun _ =>
      bind (finishMetadataMutation pf _ fileName resolved.ino) fun _ => .pure _

theorem synthesizedSecurityDescriptorFromFs (ino : INodeNo) (fh : FileHandle) :
    KeepsOpenState (synthesizedSecurityDescriptorFromFs req ino fh) :=
  bind (effect rfl) fun _ => onReply fun _ => .pure _

theorem fetchSecurityDescriptorData (data : List UInt8) (sizeHint : Option UInt32)
    (bufferLength : UInt32) :
    KeepsOpenState (fetchSecurityDescriptorData req context data sizeHint bufferLength) := by
  unfold Confuse.fetchSecurityDescriptorData
  cases xattrNeedsDataFetch data sizeHint with
  | none => exact .pure _
  | some fetchSize =>
      refine bind (effect rfl) fun fetch => ?_
      rcases ReplyXattr.status fetch with _ | ⟨err⟩ | ⟨data⟩
      · exact .pure _
      · dsimp only
        split_ifs
        · exact synthesizedSecurityDescriptorFromFs req _ _
        · exact .pure _
      · exact .pure _

theorem getFileSecurity (hasBuffer : Bool) (bufferLength : UInt32) :
    KeepsOpenState (getFileSecurity pf fileName hasBuffer bufferLength context) := by
  refine withResolved pf _ fun resolved => bind (effect rfl) fun reply => bind (effect rfl) fun _ => ?_
  rcases ReplyXattr.status reply with _ | ⟨err⟩ | ⟨data⟩
  · exact .pure _
  · dsimp only
    split_ifs
    · exact bind (synthesizedSecurityDescriptorFromFs _ _ _) fun _ => onOk fun _ => .pure _
    · exact .pure _
  · refine onOk fun needed => ?_
    split_ifs
    · exact .pure _
    · exact bind (fetchSecurityDescriptorData _ resolved _ _ _) fun _ => onOk fun _ => .pure _

theorem setFileSecurity (descriptor : List UInt8) :
    KeepsOpenState (setFileSecurity pf fileName descriptor context) :=
  withResolved pf _ fun _ => bind (effect rfl) fun _ => bind (effect rfl) fun _ => onReply fun _ =>
    bind (effect rfl) fun _ => .pure _

theorem setlkWithContext (start «end» : UInt64) (typ : Int32) :
    KeepsOpenState (setlkWithContext req context start «end» typ) :=
  bind (effect rfl) fun _ => bind (effect rfl) fun _ => onReply fun _ => .pure _

theorem lockFile (offset length : Int64) :
    KeepsOpenState (lockFile pf fileName offset length context) := by
  refine withResolved pf _ fun resolved => onOk fun range => bind (effect rfl) fun query => ?_
  rcases query with _ | ⟨err⟩ | ⟨lock⟩
  · exact setlkWithContext _ resolved _ _ _
  · exact .pure _
  · dsimp only
    split_ifs
    · exact .pure _
    · exact setlkWithContext _ resolved _ _ _

theorem unlockFile (offset length : Int64) :
    KeepsOpenState (unlockFile pf fileName offset length context) :=
  withResolved pf _ fun resolved => onOk fun _ => setlkWithContext _ resolved _ _ _

theorem emitNamedStreams (ino : INodeNo) (names : List (List UInt8)) :
    KeepsOpenState (emitNamedStreams req ino names) := by
  induction names with
  | nil => exact .pure _
  | cons rawName rest ih =>
      unfold Confuse.emitNamedStreams
      cases streamNameFromXattr rawName with
      | none => exact ih
      | some streamName =>
          refine bind (effect rfl) fun reply => ?_
          cases U16CStr.fromStr streamName with
          | none => exact .pure _
          | some name =>
              refine bind (effect rfl) fun accepted => ?_
              cases accepted with
              | true => exact ih
              | false => exact .pure _

theorem fetchStreamXattrList (ino : INodeNo) (reply : ReplyXattr) :
    KeepsOpenState (fetchStreamXattrList req ino reply) := by
  unfold Confuse.fetchStreamXattrList
  rcases reply.status with _ | ⟨err⟩ | ⟨data⟩
  · exact .pure _
  · exact .pure _
  · dsimp only
    cases xattrNeedsDataFetch data reply.sizeHint with
    | none => exact .pure _
    | some fetchSize => exact bind (effect rfl) fun _ => .pure _

theorem findStreams : KeepsOpenState (findStreams pf fileName context) := by
  refine withResolved pf _ fun resolved => bind (effect rfl) fun attr => ?_
  dsimp only
  cases U16CStr.fromStr "::$DATA".toList with
  | none => exact .pure _
  | some default =>
      refine bind (effect rfl) fun accepted => ?_
      split_ifs
      · exact .pure _
      · refine bind (effect rfl) fun reply => bind (fetchStreamXattrList _ _ _) fun listData =>
          bind (effect rfl) fun _ => ?_
        rcases listData with _ | ⟨err⟩ | ⟨data⟩
        · exact .pure _
        · dsimp only
          split_ifs <;> exact .pure _
        · exact emitNamedStreams _ _ _

theorem listEntries (ino : INodeNo) (fh : FileHandle) (offset : UInt64) :
    KeepsOpenState (listEntries req ino fh offset) := of_listsAt (.listEntries req ino fh)

theorem listMatchingEntries (pattern : U16CStr) (ino : INodeNo) (fh : FileHandle) (offset : UInt64) :
    KeepsOpenState (listMatchingEntries pf req fileName pattern ino fh offset) :=
  of_listsAt (.listMatchingEntries pf req fileName pattern ino fh)

end KeepsOpenState

/-! ## Listings -/

/-- A listing up to where it remembers its offset. -/
def listUnremembered (pf : Platform) (req : Request) (pathKey : Str) (context : AdapterContext)
    (entries : INodeNo → UInt64 → Routine (Except NtStatus (Option Int64 × Reply Unit))) :
    Routine (Except NtStatus (Option Int64 × Reply Unit)) := do
  onOk (← directoryIno pf req pathKey context) fun ino => do
    let reqOffset ← directoryOffset pathKey
    entries ino (readdirOffset reqOffset)

/-- The path key of a listing and what it does up to where it remembers its offset. -/
def Callback.unremembered (pf : Platform) :
    Callback → Option (Str × Routine (Except NtStatus (Option Int64 × Reply Unit)))
  | .findFiles fileName context => some (fileName.toStringLossy,
      listUnremembered pf (requestFromIds context.requestIds) fileName.toStringLossy context
        fun ino offset => listEntries (requestFromIds context.requestIds) ino context.fh offset)
  | .findFilesWithPattern fileName pattern context => some (fileName.toStringLossy,
      listUnremembered pf (requestFromIds context.requestIds) fileName.toStringLossy context
        fun ino offset => listMatchingEntries pf (requestFromIds context.requestIds) fileName pattern
          ino context.fh offset)
  | _ => none

theorem failureOf_statusResult (status : Reply Unit) :
    failureOf (statusResult status) = none ↔ status = some (.ok ()) := by
  rcases status with _ | ⟨err⟩ | ⟨⟨⟩⟩ <;> simp [statusResult, failureOf]

namespace World
variable {β φ : Type} (pf : Platform) (h : Host β φ) (notices : Notices)

/-- A listing whose reply ends with an error has an offset to remember that is there already: the
cookie of the last entry that the caller accepted, or the offset from which the listing asked. -/
def RemembersNothingNew (c : Callback) (w : World β φ) : Prop :=
  ∀ pathKey p, c.unremembered pf = some (pathKey, p) → ∀ emittedOffset status,
    (p.run (machine pf h notices) w).1 = .ok (emittedOffset, status) → status = some (.ok ()) ∨
      w.openState.dirOffsets.lookup pathKey
        = some (advanceOffsetOnEmitted (w.offsetAt pathKey) emittedOffset)

section Listing
variable (req : Request) (pathKey : Str) (context : AdapterContext)
  {entries : INodeNo → UInt64 → Routine (Except NtStatus (Option Int64 × Reply Unit))}

theorem listUnremembered_keeps (hentries : ∀ ino offset, KeepsOpenState (entries ino offset)) :
    KeepsOpenState (listUnremembered pf req pathKey context entries) :=
  .bind (.directoryIno pf req pathKey context) fun _ => .onOk fun ino =>
    .bind (.effect rfl) fun _ => hentries ino _

/-- A listing remembers what it has come to. -/
theorem run_listDirectory
    (entries : INodeNo → UInt64 → Routine (Except NtStatus (Option Int64 × Reply Unit)))
    (w : World β φ) :
    (listDirectory pf req pathKey context entries).run (machine pf h notices) w
      = (rememberListed pathKey (w.offsetAt pathKey)
          ((listUnremembered pf req pathKey context entries).run (machine pf h notices) w).1).run
        (machine pf h notices)
        ((listUnremembered pf req pathKey context entries).run (machine pf h notices) w).2 := by
  have hkept := run_keepsOpenState pf h notices (.directoryIno pf req pathKey context) w
  unfold listDirectory listUnremembered
  rw [Prog.run_bind, Prog.run_bind]
  rcases hresolved : (directoryIno pf req pathKey context).run (machine pf h notices) w with
    ⟨status | ino, w₁⟩
  · rfl
  · rw [hresolved] at hkept
    obtain ⟨hanswer, -, -⟩ := machine_openState pf h notices (.directoryOffset pathKey) w₁
    have hoffset : ((directoryOffset pathKey).run (machine pf h notices) w₁).1
        = w.offsetAt pathKey := by
      refine hanswer.trans ?_
      rw [offsetAt, ← hkept]
      rfl
    dsimp only [onOk]
    rw [Prog.run_bind, Prog.run_bind, Prog.run_bind, hoffset]

theorem rememberListed_ok (emittedOffset : Option Int64) (status : Reply Unit) (reqOffset : Int64)
    (w : World β φ) :
    ((rememberListed pathKey reqOffset (.ok (emittedOffset, status))).run
        (machine pf h notices) w).1 = statusResult status ∧
      ((rememberListed pathKey reqOffset (.ok (emittedOffset, status))).run
        (machine pf h notices) w).2.openState
        = { w.openState with
            dirOffsets := w.openState.dirOffsets.insert pathKey
              (advanceOffsetOnEmitted reqOffset emittedOffset) } :=
  ⟨rfl, (machine_openState pf h notices (.insertOffset pathKey
    (advanceOffsetOnEmitted reqOffset emittedOffset)) w).2.1⟩

/-- Putting in an offset changes nothing exactly when it is there. -/
theorem same_insert_iff {s : OpenState} {pathKey : Str} {offset : Int64} :
    s.Same { s with dirOffsets := s.dirOffsets.insert pathKey offset }
      ↔ s.dirOffsets.lookup pathKey = some offset := by
  constructor
  · intro hsame
    have hkey := hsame.dirOffsets pathKey
    rwa [AList.lookup_insert, eq_comm] at hkey
  · intro hlookup
    refine ⟨fun _ => rfl, fun key => ?_⟩
    by_cases hkey : key = pathKey
    · rw [hkey, AList.lookup_insert, hlookup]
    · rw [AList.lookup_insert_ne hkey]

theorem listDirectory_same_iff (hentries : ∀ ino offset, KeepsOpenState (entries ino offset))
    (w : World β φ) :
    (failureOf ((listDirectory pf req pathKey context entries).run (machine pf h notices) w).1
        ≠ none →
      w.openState.Same
        ((listDirectory pf req pathKey context entries).run (machine pf h notices) w).2.openState)
      ↔ ∀ emittedOffset status,
        ((listUnremembered pf req pathKey context entries).run (machine pf h notices) w).1
          = .ok (emittedOffset, status) → status = some (.ok ()) ∨
            w.openState.dirOffsets.lookup pathKey
              = some (advanceOffsetOnEmitted (w.offsetAt pathKey) emittedOffset) := by
  have hkept := run_keepsOpenState pf h notices
    (listUnremembered_keeps pf req pathKey context hentries) w
  rw [run_listDirectory]
  rcases hlisted : (listUnremembered pf req pathKey context entries).run (machine pf h notices) w with
    ⟨status | ⟨emittedOffset, status⟩, w₁⟩
  · rw [hlisted] at hkept
    refine iff_of_true (fun _ => ?_) (by simp)
    have hopen : ((rememberListed pathKey (w.offsetAt pathKey) (.error status)).run
        (machine pf h notices) w₁).2.openState = w.openState := hkept
    rw [hopen]
    exact .refl _
  · rw [hlisted] at hkept
    obtain ⟨hresult, hopen⟩ := rememberListed_ok pf h notices pathKey emittedOffset status
      (w.offsetAt pathKey) w₁
    dsimp only at hkept ⊢
    rw [hresult, hopen, hkept, same_insert_iff, Ne, failureOf_statusResult]
    constructor
    · rintro hsame _ _ ⟨⟩
      exact or_iff_not_imp_left.mpr hsame
    · intro hsame hfailed
      exact (hsame _ _ rfl).resolve_left hfailed

end Listing

/-- A callback that is no listing fails without a trace. -/
theorem failed_other_keeps {c : Callback} (hc : c.unremembered pf = none) :
    TurnsOpenState (fun s r t => c.failure r ≠ none → t = s) (c.routine pf) := by
  cases c with
  | findFiles fileName context => cases hc
  | findFilesWithPattern fileName pattern context => cases hc
  | cleanup fileName deleteOnClose context => exact fun _ _ _ _ _ _ hfailed => absurd rfl hfailed
  | closeFile fileName context => exact fun _ _ _ _ _ _ hfailed => absurd rfl hfailed
  | createFile fileName desiredAccess fileAttributes createDisposition createOptions requestIds =>
      exact FailsClean.createFile pf fileName _ _ _ _ _
  | moveFile fileName newFileName replaceIfExisting context =>
      exact FailsClean.moveFile pf fileName context newFileName _
  | deleteFile fileName context => exact FailsClean.keeps (.deleteFile pf fileName context)
  | deleteDirectory fileName context => exact FailsClean.keeps (.deleteDirectory pf fileName context)
  | flushFileBuffers fileName context =>
      exact FailsClean.keeps (.flushFileBuffers pf fileName context)
  | setEndOfFile fileName offset context =>
      exact FailsClean.keeps (.setattrRoute pf fileName context _)
  | setFileAttributes fileName fileAttributes context =>
      exact FailsClean.keeps (.setattrRoute pf fileName context _)
  | setFileTime fileName creationTime lastAccessTime lastWriteTime context =>
      exact FailsClean.keeps (.setattrRoute pf fileName context _)
  | setAllocationSize fileName allocSize context =>
      exact FailsClean.keeps (.setAllocationSize pf fileName context allocSize)
  | getDiskFreeSpace pid => exact FailsClean.keeps (.getDiskFreeSpace pid)
  | getFileInformation fileName context =>
      exact FailsClean.keeps (.getFileInformation pf fileName context)
  | readFile fileName offset bufferLen context =>
      exact FailsClean.keeps (.readFile pf fileName context offset bufferLen)
  | writeFile fileName offset buffer writeToEof pagingIo context =>
      exact FailsClean.keeps (.writeFile pf fileName context offset buffer _ _)
  | getFileSecurity fileName hasBuffer bufferLength context =>
      exact FailsClean.keeps (.getFileSecurity pf fileName context _ _)
  | setFileSecurity fileName descriptor context =>
      exact FailsClean.keeps (.setFileSecurity pf fileName context descriptor)
  | lockFile fileName offset length context =>
      exact FailsClean.keeps (.lockFile pf fileName context offset length)
  | unlockFile fileName offset length context =>
      exact FailsClean.keeps (.unlockFile pf fileName context offset length)
  | findStreams fileName context => exact FailsClean.keeps (.findStreams pf fileName context)

theorem remembersNothingNew_some {c : Callback} {pathKey : Str}
    {p : Routine (Except NtStatus (Option Int64 × Reply Unit))}
    (hc : c.unremembered pf = some (pathKey, p)) (w : World β φ) :
    w.RemembersNothingNew pf h notices c ↔ ∀ emittedOffset status,
      (p.run (machine pf h notices) w).1 = .ok (emittedOffset, status) → status = some (.ok ()) ∨
        w.openState.dirOffsets.lookup pathKey
          = some (advanceOffsetOnEmitted (w.offsetAt pathKey) emittedOffset) := by
  unfold RemembersNothingNew
  rw [hc]
  constructor
  · intro hall
    exact hall _ _ rfl
  · rintro hall _ _ ⟨⟩
    exact hall

/-- A callback that fails leaves the open state as it was exactly when it is no listing that ends with
an error after it came to remember another offset. -/
theorem failed_callback_keeps_open_state_iff (ttl : Duration) (backend : β) (caller : φ)
    (before : List Callback) (c : Callback) :
    (c.failure ((c.routine pf).run (machine pf h notices)
        ((World.initial ttl backend caller).serve pf h notices before)).1 ≠ none →
      ((World.initial ttl backend caller).serve pf h notices before).openState.Same
        ((c.routine pf).run (machine pf h notices)
          ((World.initial ttl backend caller).serve pf h notices before)).2.openState)
      ↔ ((World.initial ttl backend caller).serve pf h notices before).RemembersNothingNew pf h
        notices c := by
  generalize (World.initial ttl backend caller).serve pf h notices before = w
  cases hc : c.unremembered pf with
  | none =>
      refine iff_of_true (fun hfailed => ?_) fun _ _ hsome => by cases hc.symm.trans hsome
      rw [failed_other_keeps pf hc β φ pf h notices w hfailed]
      exact .refl _
  | some listing =>
      rw [remembersNothingNew_some pf h notices hc]
      cases c with
      | findFiles fileName context =>
          let req := requestFromIds context.requestIds
          have hiff := listDirectory_same_iff pf h notices req fileName.toStringLossy context
            (fun ino => .listEntries req ino context.fh) w
          rw [← findFiles_eq_listDirectory] at hiff
          cases hc
          exact hiff
      | findFilesWithPattern fileName pattern context =>
          let req := requestFromIds context.requestIds
          have hiff := listDirectory_same_iff pf h notices req fileName.toStringLossy context
            (fun ino => .listMatchingEntries pf req fileName pattern ino context.fh) w
          rw [← findFilesWithPattern_eq_listDirectory] at hiff
          cases hc
          exact hiff
      | _ => cases hc

end World

/-- A directory listing with one entry, which ends with an error. -/
def oneEntryThenError : (c : FsCall) → c.Reply
  | .readdir .. => (⟨[⟨⟨6⟩, 3, .regularFile, .new ['g']⟩], some (.error EIO)⟩ : ReplyDirectory)
  | c => c.unanswered

/-- After the failed listing the next one starts behind the entry. -/
theorem failed_listing_advances :
    ¬ ∀ (β φ : Type) (pf : Platform) (h : Host β φ) (notices : Notices) (ttl : Duration) (backend : β)
      (caller : φ) (before : List Callback) (c : Callback),
      c.failure ((c.routine pf).run (machine pf h notices)
          ((World.initial ttl backend caller).serve pf h notices before)).1 ≠ none →
        ((World.initial ttl backend caller).serve pf h notices before).openState.Same
          ((c.routine pf).run (machine pf h notices)
            ((World.initial ttl backend caller).serve pf h notices before)).2.openState := by
  intro hall
  have hsame := hall Unit Unit .ascii (.stateless oneEntryThenError) undisturbed (.fromSecs 1) () () []
    (.findFiles fileF directoryF) (by decide)
  have hoffset := hsame.dirOffsets fileF.toStringLossy
  revert hoffset
  decide

end Confuse
