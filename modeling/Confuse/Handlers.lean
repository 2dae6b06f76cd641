import Confuse.CreateRoutes
import Confuse.DirectoryRoutes

/-!
# The handler methods

One routine for each callback of the driver. A callback holds the file system's lock from its first
line to its return, so callbacks do not interleave with each other.
-/

namespace Confuse

open Interaction PathResolver

variable (pf : Platform)

/-! ## Delete and move -/

def deleteFile (fileName : U16CStr) (context : AdapterContext) :
    Routine (Except NtStatus Unit) := do
  let req := requestFromIds context.requestIds
  withResolved pf req fileName context fun resolved => do
    let result ← precheckFileDelete req resolved.ino
    drainResolverForgets req
    pure result

def deleteDirectory (fileName : U16CStr) (context : AdapterContext) :
    Routine (Except NtStatus Unit) := do
  let req := requestFromIds context.requestIds
  withResolved pf req fileName context fun resolved => do
    let result ← precheckDirectoryDelete req resolved.ino
    drainResolverForgets req
    pure result

def remapOpenStateAfterRename (fileName newFileName : U16CStr) : Routine Unit := do
  let oldKey := fileName.toStringLossy
  let newKey := newFileName.toStringLossy
  let _ ← Routine.openState (.remapHandles oldKey newKey)
  Routine.openState (.remapOffsets oldKey newKey)

/-- The check of `move_file` that the target is free. -/
def precheckTarget (req : Request) (newFileName : U16CStr) : Routine (Except NtStatus Unit) := do
  match ← resolvePathIno pf req newFileName.path with
  | .ok _ => do
      drainResolverForgets req
      pure (.error STATUS_OBJECT_NAME_COLLISION)
  | .error err => do
      drainResolverForgets req
      if err = ENOENT then pure (.ok ()) else pure (.error (errnoToNtstatus err))

def invalidateMoved : Option INodeNo → Routine Unit
  | some ino => invalidateInodeAttr ino
  | none => pure ()

/-- What `move_file` remaps and invalidates after the rename. -/
def invalidateRenamed (req : Request) (fileName newFileName : U16CStr)
    (oldParentIno newParentIno : INodeNo) (movedIno : Option INodeNo) : Routine Unit := do
  invalidateMoved movedIno
  remapOpenStateAfterRename fileName newFileName
  invalidatePathCache req fileName
  invalidatePathCache req newFileName
  invalidateInodeAttr oldParentIno
  invalidateInodeAttr newParentIno

/-- What `move_file` does from the rename on. -/
def renameAndInvalidate (req : Request) (fileName newFileName : U16CStr)
    (oldParentIno newParentIno : INodeNo) (movedIno : Option INodeNo) :
    Routine (Except NtStatus Unit) := do
  let oldLeaf := (splitParentAndName fileName).2
  let newLeaf := (splitParentAndName newFileName).2
  let renameResult ← renameWithReplacePolicy req oldParentIno oldLeaf newParentIno newLeaf
  drainResolverForgets req
  onOk renameResult fun _ => do
    invalidateRenamed req fileName newFileName oldParentIno newParentIno movedIno
    pure (.ok ())

/-- The check is left out when the target may be replaced. -/
def precheckRename (req : Request) (newFileName : U16CStr) (replaceIfExisting : Bool) :
    Routine (Except NtStatus Unit) :=
  if replaceIfExisting then pure (.ok ()) else precheckTarget pf req newFileName

def moveFile (fileName newFileName : U16CStr) (replaceIfExisting : Bool)
    (context : AdapterContext) : Routine (Except NtStatus Unit) := do
  let oldParentPath := (splitParentAndName fileName).1
  let newParentPath := (splitParentAndName newFileName).1
  let req := requestFromIds context.requestIds
  match ← resolveParentIno pf req oldParentPath with
  | .error err => pure (.error (errnoToNtstatus err))
  | .ok oldParentIno =>
      match ← resolveParentIno pf req newParentPath with
      | .error err => pure (.error (errnoToNtstatus err))
      | .ok newParentIno => do
          let moved ← resolveContextOrPath pf req fileName context
          let movedIno := moved.toOption.map AdapterContext.ino
          onOk (← precheckRename pf req newFileName replaceIfExisting) fun _ =>
            renameAndInvalidate req fileName newFileName oldParentIno newParentIno movedIno

/-! ## Listings -/

def readdirOffset (reqOffset : Int64) : UInt64 := (max reqOffset 0).toUInt64

def findFiles (fileName : U16CStr) (context : AdapterContext) :
    Routine (Except NtStatus Unit) := do
  let pathKey := fileName.toStringLossy
  let req := requestFromIds context.requestIds
  onOk (← directoryIno pf req pathKey context) fun ino => do
    let reqOffset ← directoryOffset pathKey
    let reply : ReplyDirectory ←
      Routine.fs (.readdir req ino context.fh (readdirOffset reqOffset))
    drainResolverForgets req
    onOk (← emitReaddirEntries req none reply.entries) fun emittedOffset => do
      rememberDirectoryOffset pathKey reqOffset emittedOffset
      pure (statusResult reply.status)

/-- What `find_files_with_pattern` does when the file system has no `readdirplus`. -/
def findFilesFallback (req : Request) (pathKey : Str) (pattern : U16CStr) (ino : INodeNo)
    (fh : FileHandle) (reqOffset : Int64) : Routine (Except NtStatus Unit) := do
  let fallback : ReplyDirectory ← Routine.fs (.readdir req ino fh (readdirOffset reqOffset))
  drainResolverForgets req
  onOk (← emitReaddirPatternEntries pf req pattern none fallback.entries) fun emittedOffset => do
    rememberDirectoryOffset pathKey reqOffset emittedOffset
    pure (statusResult fallback.status)

def isUnsupported : Reply Unit → Bool
  | some (.error err) => err = ENOSYS
  | _ => false

/-- What `find_files_with_pattern` does with a `readdirplus` reply. -/
def findFilesPlus (req : Request) (fileName pattern : U16CStr) (ino : INodeNo)
    (reqOffset : Int64) (reply : ReplyDirectoryPlus) : Routine (Except NtStatus Unit) := do
  let emitted ← emitReaddirplusPatternEntries pf req fileName pattern ino none reply.entries
  onOk emitted fun emittedOffset => do
    rememberDirectoryOffset fileName.toStringLossy reqOffset emittedOffset
    pure (statusResult reply.status)

def findFilesWithPattern (fileName pattern : U16CStr) (context : AdapterContext) :
    Routine (Except NtStatus Unit) := do
  let pathKey := fileName.toStringLossy
  let req := requestFromIds context.requestIds
  onOk (← directoryIno pf req pathKey context) fun ino => do
    let reqOffset ← directoryOffset pathKey
    let reply : ReplyDirectoryPlus ←
      Routine.fs (.readdirplus req ino context.fh (readdirOffset reqOffset))
    drainResolverForgets req
    if isUnsupported reply.status then
      findFilesFallback pf req pathKey pattern ino context.fh reqOffset
    else findFilesPlus pf req fileName pattern ino reqOffset reply

/-! ## Cleanup and close -/

/-- The call of `cleanup`. -/
def rmdirOrUnlink (req : Request) (context : AdapterContext) (parentIno : INodeNo) (leaf : OsStr) :
    Routine (Reply Unit) :=
  if context.isDir then Routine.fs (.rmdir req parentIno leaf)
  else Routine.fs (.unlink req parentIno leaf)

/-- What `cleanup` invalidates after the removal. -/
def invalidateRemoved (req : Request) (fileName : U16CStr) (context : AdapterContext)
    (parentIno : INodeNo) : Routine Unit := do
  invalidatePathCache req fileName
  if context.ino ≠ ⟨0⟩ then
    invalidateInodeAttr context.ino
  invalidateInodeAttr parentIno

def cleanupDeleteOnClose (fileName : U16CStr) (context : AdapterContext) : Routine Unit := do
  let req := requestFromIds context.requestIds
  let leaf := (splitParentAndName fileName).2
  match ← resolveParentIno pf req (splitParentAndName fileName).1 with
  | .error _ => drainResolverForgets req
  | .ok parentIno => do
      let status ← rmdirOrUnlink req context parentIno leaf
      drainResolverForgets req
      match status with
      | some (.ok ()) => invalidateRemoved req fileName context parentIno
      | _ => pure ()

def cleanup (fileName : U16CStr) (deleteOnClose : Bool) (context : AdapterContext) :
    Routine Unit :=
  if deleteOnClose then cleanupDeleteOnClose pf fileName context else pure ()

def closeFile (fileName : U16CStr) (context : AdapterContext) : Routine Unit := do
  closeWithContext (requestFromIds context.requestIds) context
  let _ ← Routine.openState (.removeHandle fileName.toStringLossy)
  Routine.openState (.removeOffset fileName.toStringLossy)

def createFile (fileName : U16CStr) (desiredAccess : AccessMask)
    (fileAttributes createDisposition createOptions : UInt32) (requestIds : RequestIds) :
    Routine (Except NtStatus CreateFileInfo) :=
  createFileImpl pf fileName desiredAccess fileAttributes createDisposition createOptions requestIds

def flushFileBuffers (fileName : U16CStr) (context : AdapterContext) :
    Routine (Except NtStatus Unit) := do
  let req := requestFromIds context.requestIds
  withResolved pf req fileName context fun resolved => do
    let status ← flushWithContext req resolved
    drainResolverForgets req
    pure (statusResult status)

/-! ## Metadata -/

/-- The common body of the handlers that change attributes. -/
def setattrRoute (fileName : U16CStr) (context : AdapterContext)
    (args : Except NtStatus SetattrArgs) : Routine (Except NtStatus Unit) := do
  let req := requestFromIds context.requestIds
  withResolved pf req fileName context fun resolved =>
    onOk args fun args => do
      let status : Reply ReplyAttrPayload ← Routine.fs (.setattr req resolved.ino args)
      drainResolverForgets req
      onReply status errnoToNtstatus fun _ => do
        finishMetadataMutation pf req fileName resolved.ino
        pure (.ok ())

def setEndOfFile (fileName : U16CStr) (offset : Int64) (context : AdapterContext) :
    Routine (Except NtStatus Unit) :=
  setattrRoute pf fileName context
    ((nonnegativeI64ToU64 offset).map fun size => { size := some size })

def setFileAttributes (fileName : U16CStr) (fileAttributes : UInt32) (context : AdapterContext) :
    Routine (Except NtStatus Unit) :=
  setattrRoute pf fileName context (.ok { mode := some (modeFromFileAttributes fileAttributes) })

def setFileTime (fileName : U16CStr)
    (creationTime lastAccessTime lastWriteTime : FileTimeOperation) (context : AdapterContext) :
    Routine (Except NtStatus Unit) :=
  setattrRoute pf fileName context (.ok {
    atime := (filetimeOpToOption lastAccessTime).map .specificTime
    mtime := (filetimeOpToOption lastWriteTime).map .specificTime
    ctime := filetimeOpToOption creationTime
    crtime := filetimeOpToOption creationTime })

def setAllocationSize (fileName : U16CStr) (allocSize : Int64) (context : AdapterContext) :
    Routine (Except NtStatus Unit) := do
  let req := requestFromIds context.requestIds
  withResolved pf req fileName context fun resolved => do
    onOk (← allocationSizeWithContext req resolved allocSize) fun status => do
      drainResolverForgets req
      onReply status probeNtstatus fun _ => do
        finishMetadataMutation pf req fileName resolved.ino
        pure (.ok ())

def getDiskFreeSpace (pid : UInt32) : Routine (Except NtStatus DiskSpaceInfo) := do
  let status : Reply StatfsPayload ←
    Routine.fs (.statfs (requestFromIds (.unavailable pid)) .ROOT)
  onReply status errnoToNtstatus fun payload => pure (.ok {
    byteCount := saturatingMul payload.blocks payload.bsize.toUInt64
    freeByteCount := saturatingMul payload.bfree payload.bsize.toUInt64
    availableByteCount := saturatingMul payload.bavail payload.bsize.toUInt64 })

def fileInfo (attr : FileAttr) : FileInfo where
  attributes := filetypeToWindowsAttr attr.kind attr.perm
  creationTime := attr.ctime
  lastAccessTime := attr.atime
  lastWriteTime := attr.mtime
  fileSize := attr.size
  numberOfLinks := attr.nlink
  fileIndex := attr.ino.raw

def getFileInformation (fileName : U16CStr) (context : AdapterContext) :
    Routine (Except NtStatus FileInfo) := do
  let req := requestFromIds context.requestIds
  withResolved pf req fileName context fun resolved => do
    let cachedAttr : Option FileAttr ← Routine.table (.cachedAttr resolved.ino)
    match cachedAttr with
    | some attr => do
        drainResolverForgets req
        pure (.ok (fileInfo attr))
    | none => do
        let payload : Reply ReplyAttrPayload ←
          Routine.fs (.getattr req resolved.ino (some resolved.fh))
        drainResolverForgets req
        onReply payload errnoToNtstatus fun payload => do
          let _ ← Routine.table (.rememberAttr payload.attr.ino payload.attr payload.ttl)
          pure (.ok (fileInfo payload.attr))

/-! ## Reading and writing -/

/-- The count that `read_file` returns and the bytes that it copies to the buffer. -/
structure ReadResult where
  count : UInt32
  bytes : List UInt8
  deriving DecidableEq

def readFile (fileName : U16CStr) (offset : Int64) (bufferLen : ℕ) (context : AdapterContext) :
    Routine (Except NtStatus ReadResult) := do
  let req := requestFromIds context.requestIds
  withResolved pf req fileName context fun resolved =>
    onOk (nonnegativeI64ToU64 offset) fun offset =>
      onOk (checkedDokanLen bufferLen) fun size => do
        let data : Reply (List UInt8) ← Routine.fs (.read req resolved.ino resolved.fh offset size
          (openFlagsFromFopenFlags resolved.flags) (lockOwnerFromContext resolved))
        drainResolverForgets req
        onReply data errnoToNtstatus fun data =>
          let n := min data.length bufferLen
          pure ((checkedDokanLen n).map fun count => ⟨count, data.take n⟩)

def writeFile (fileName : U16CStr) (offset : Int64) (buffer : List UInt8)
    (writeToEof pagingIo : Bool) (context : AdapterContext) :
    Routine (Except NtStatus UInt32) := do
  let req := requestFromIds context.requestIds
  withResolved pf req fileName context fun resolved => do
    let plan ← dokanWritePlan req resolved offset buffer.length writeToEof pagingIo
    onOk plan fun (offset, len) => do
      let written : Reply UInt32 ← Routine.fs (.write req resolved.ino resolved.fh offset
        (buffer.take len) ⟨0⟩ (openFlagsFromFopenFlags resolved.flags)
        (lockOwnerFromContext resolved))
      drainResolverForgets req
      onReply written errnoToNtstatus fun n => do
        finishMetadataMutation pf req fileName resolved.ino
        pure (.ok n)

/-! ## Security descriptors -/

def fetchSecurityDescriptorData (req : Request) (resolved : AdapterContext) (data : List UInt8)
    (sizeHint : Option UInt32) (bufferLength : UInt32) :
    Routine (Except NtStatus (List UInt8)) :=
  match xattrNeedsDataFetch data sizeHint with
  | none => pure (.ok data)
  | some fetchSize => do
      let fetch : ReplyXattr ← Routine.fs (.getxattr req resolved.ino
        (.new SECURITY_DESCRIPTOR_XATTR) (max fetchSize bufferLength))
      match fetch.status with
      | some (.ok data) => pure (.ok data)
      | some (.error err) =>
          if err = NO_XATTR then synthesizedSecurityDescriptorFromFs req resolved.ino resolved.fh
          else pure (.error (probeNtstatus err))
      | none => pure (.error missingReplyStatus)

def copyExistingOrFetchedSecurityDescriptor (req : Request) (resolved : AdapterContext)
    (data : List UInt8) (sizeHint : Option UInt32) (hasBuffer : Bool) (bufferLength : UInt32) :
    Routine (Except NtStatus DescriptorCopy) :=
  onOk (xattrReportedLen data.length sizeHint) fun needed =>
    if bufferLength < needed then pure (.ok ⟨needed, none⟩)
    else do
      let fetched ← fetchSecurityDescriptorData req resolved data sizeHint bufferLength
      onOk fetched fun data =>
        pure ((copySecurityDescriptor data hasBuffer bufferLength).map fun copy =>
          ⟨needed, copy.written⟩)

def getFileSecurity (fileName : U16CStr) (hasBuffer : Bool) (bufferLength : UInt32)
    (context : AdapterContext) : Routine (Except NtStatus DescriptorCopy) := do
  let req := requestFromIds context.requestIds
  withResolved pf req fileName context fun resolved => do
    let reply : ReplyXattr ← Routine.fs (.getxattr req resolved.ino
      (.new SECURITY_DESCRIPTOR_XATTR) 0)
    drainResolverForgets req
    match reply.status with
    | some (.ok data) =>
        copyExistingOrFetchedSecurityDescriptor req resolved data reply.sizeHint hasBuffer
          bufferLength
    | some (.error err) =>
        if err = NO_XATTR then do
          let data ← synthesizedSecurityDescriptorFromFs req resolved.ino resolved.fh
          onOk data fun data => pure (copySecurityDescriptor data hasBuffer bufferLength)
        else pure (.error (probeNtstatus err))
    | none => pure (.error missingReplyStatus)

def setFileSecurity (fileName : U16CStr) (descriptor : List UInt8) (context : AdapterContext) :
    Routine (Except NtStatus Unit) := do
  let req := requestFromIds context.requestIds
  withResolved pf req fileName context fun resolved => do
    let status : Reply Unit ← Routine.fs (.setxattr req resolved.ino
      (.new SECURITY_DESCRIPTOR_XATTR) descriptor 0 0)
    drainResolverForgets req
    onReply status probeNtstatus fun _ => do
      invalidateInodeAttr resolved.ino
      pure (.ok ())

/-! ## Byte-range locks -/

/-- The owner that a lock request names. -/
def requestOwner (resolved : AdapterContext) : LockOwner :=
  (lockOwnerFromContext resolved).getD ⟨0⟩

def setlkWithContext (req : Request) (resolved : AdapterContext) (start «end» : UInt64)
    (typ : Int32) : Routine (Except NtStatus Unit) := do
  let status : Reply Unit ← Routine.fs (.setlk req resolved.ino resolved.fh
    (requestOwner resolved) start «end» typ req.pid false)
  drainResolverForgets req
  onReply status probeNtstatus fun _ => pure (.ok ())

def lockFile (fileName : U16CStr) (offset length : Int64) (context : AdapterContext) :
    Routine (Except NtStatus Unit) := do
  let req := requestFromIds context.requestIds
  withResolved pf req fileName context fun resolved =>
    onOk (checkedLockRange offset length) fun (start, «end») => do
      let query : Reply ReplyLockPayload ← Routine.fs (.getlk req resolved.ino resolved.fh
        (requestOwner resolved) start «end» LOCK_TYPE_WRLCK req.pid)
      match query with
      | some (.error err) => pure (.error (probeNtstatus err))
      | some (.ok lock) =>
          if lock.typ ≠ LOCK_TYPE_UNLCK then pure (.error (errnoToNtstatus EAGAIN))
          else setlkWithContext req resolved start «end» LOCK_TYPE_WRLCK
      | none => setlkWithContext req resolved start «end» LOCK_TYPE_WRLCK

def unlockFile (fileName : U16CStr) (offset length : Int64) (context : AdapterContext) :
    Routine (Except NtStatus Unit) := do
  let req := requestFromIds context.requestIds
  withResolved pf req fileName context fun resolved =>
    onOk (checkedLockRange offset length) fun (start, «end») =>
      setlkWithContext req resolved start «end» LOCK_TYPE_UNLCK

/-! ## Streams -/

def fetchStreamXattrList (req : Request) (ino : INodeNo) (reply : ReplyXattr) :
    Routine (Reply (List UInt8)) :=
  match reply.status with
  | some (.ok data) =>
      match xattrNeedsDataFetch data reply.sizeHint with
      | none => pure reply.status
      | some fetchSize => do
          let fetch : ReplyXattr ← Routine.fs (.listxattr req ino fetchSize)
          pure fetch.status
  | _ => pure reply.status

def emitNamedStreams (req : Request) (ino : INodeNo) :
    List (List UInt8) → Routine (Except NtStatus Unit)
  | [] => pure (.ok ())
  | rawName :: rest =>
      match streamNameFromXattr rawName with
      | none => emitNamedStreams req ino rest
      | some streamName => do
          let reply : ReplyXattr ← Routine.fs (.getxattr req ino
            (.new ((fromUtf8 rawName).getD [])) 0)
          match U16CStr.fromStr streamName with
          | none => pure (.error STATUS_NOT_IMPLEMENTED)
          | some name => do
              let accepted ← Routine.fillFindStreamData {
                size := (reply.sizeHint.map fun size => size.toUInt64.toInt64).getD 0
                name }
              if accepted then emitNamedStreams req ino rest else pure (.ok ())

/-- `i64::try_from(size).unwrap_or(i64::MAX)`. -/
def streamSize (size : UInt64) : Int64 :=
  if size.toNat < 2 ^ 63 then size.toInt64 else Int64.maxValue

def findStreams (fileName : U16CStr) (context : AdapterContext) :
    Routine (Except NtStatus Unit) := do
  let req := requestFromIds context.requestIds
  withResolved pf req fileName context fun resolved => do
    let attr : Reply ReplyAttrPayload ←
      Routine.fs (.getattr req resolved.ino (some resolved.fh))
    let defaultSize := match attr with
      | some (.ok payload) => streamSize payload.attr.size
      | some (.error _) => 0
      | none => 0
    match U16CStr.fromStr "::$DATA".toList with
    | none => pure (.error STATUS_NOT_IMPLEMENTED)
    | some default => do
        let accepted ← Routine.fillFindStreamData { size := defaultSize, name := default }
        if !accepted then pure (.ok ())
        else do
          let reply : ReplyXattr ← Routine.fs (.listxattr req resolved.ino 0)
          let listData ← fetchStreamXattrList req resolved.ino reply
          drainResolverForgets req
          match listData with
          | some (.ok data) =>
              emitNamedStreams req resolved.ino
                ((data.splitOnP fun b => b == 0).filter fun part => part ≠ [])
          | some (.error err) =>
              if err = ENOSYS then pure (.ok ()) else pure (.error (probeNtstatus err))
          | none => pure (.error missingReplyStatus)

end Confuse
