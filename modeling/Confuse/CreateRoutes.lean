import Confuse.PathRoutes

/-!
# Creating and opening

`createFileImpl` resolves the parent, then takes one of four routes: the root, an open of what
exists, `mkdir`, or `create` with an open after a collision.
-/

namespace Confuse

open Interaction PathResolver

structure CreateFileInfo where
  context : AdapterContext
  isDir : Bool
  newFileCreated : Bool
  deriving DecidableEq

structure CreateEntryRequest where
  req : Request
  fileName : U16CStr
  parentIno : INodeNo
  leaf : OsStr
  pathIno : INodeNo
  requestIds : RequestIds
  mode : UInt32
  isDirOpen : Bool

structure OpenEntryRequest where
  req : Request
  fileName : U16CStr
  pathIno : INodeNo
  requestIds : RequestIds
  openFlags : Int32
  isDirOpen : Bool

def OpenEntryRequest.fromCreate (create : CreateEntryRequest) (openFlags : Int32) :
    OpenEntryRequest where
  req := create.req
  fileName := create.fileName
  pathIno := create.pathIno
  requestIds := create.requestIds
  openFlags := openFlags
  isDirOpen := create.isDirOpen

structure CreatedEntry where
  req : Request
  fileName : U16CStr
  parentIno : INodeNo
  leaf : OsStr
  attr : FileAttr
  generation : Generation
  ttl : Duration
  ctx : AdapterContext

def rememberOpenContext (fileName : U16CStr) (ctx : AdapterContext) : Routine Unit :=
  .openState (.rememberOpenContext fileName.toStringLossy ctx)

def finishCreatedEntry (created : CreatedEntry) : Routine Unit := do
  rememberOpenContext created.fileName created.ctx
  invalidateInodeAttr created.parentIno
  invalidateInodeAttr created.ctx.ino
  rememberCreatedPath created.req {
    path := created.fileName
    parent := created.parentIno
    name := created.leaf
    attr := created.attr
    generation := created.generation
    ttl := created.ttl }

def createRootContext (fileName : U16CStr) (requestIds : RequestIds) :
    Routine (Except NtStatus CreateFileInfo) := do
  let ctx : AdapterContext := {
    fh := ⟨0⟩, flags := ⟨0⟩, ino := .ROOT, isDir := true, lockOwner := none
    requestIds := requestIds }
  rememberOpenContext fileName ctx
  pure (.ok { context := ctx, isDir := true, newFileCreated := false })

/-- The inode of a created entry: a reply without one falls back on the path's. -/
def createdIno (create : CreateEntryRequest) (attr : FileAttr) : INodeNo :=
  if attr.ino ≠ ⟨0⟩ then attr.ino else create.pathIno

def createDirectoryEntry (create : CreateEntryRequest) :
    Routine (Except NtStatus CreateFileInfo) := do
  let state : Reply ReplyEntryPayload ←
    Routine.fs (.mkdir create.req create.parentIno create.leaf create.mode 0)
  drainResolverForgets create.req
  onReply state errnoToNtstatus fun payload => do
    let ctx : AdapterContext := {
      fh := ⟨0⟩, flags := ⟨0⟩, ino := createdIno create payload.attr, isDir := true
      lockOwner := none, requestIds := create.requestIds }
    finishCreatedEntry {
      req := create.req
      fileName := create.fileName
      parentIno := create.parentIno
      leaf := create.leaf
      attr := payload.attr
      generation := payload.generation
      ttl := payload.ttl
      ctx := ctx }
    pure (.ok { context := ctx, isDir := true, newFileCreated := true })

def finishCreatedFile (create : CreateEntryRequest) (payload : ReplyCreatePayload) :
    Routine (Except NtStatus CreateFileInfo) := do
  let ctx : AdapterContext := {
    fh := payload.fh, flags := payload.flags, ino := createdIno create payload.attr
    isDir := payload.attr.kind = .directory || create.isDirOpen
    lockOwner := none, requestIds := create.requestIds }
  finishCreatedEntry {
    req := create.req
    fileName := create.fileName
    parentIno := create.parentIno
    leaf := create.leaf
    attr := payload.attr
    generation := payload.generation
    ttl := payload.ttl
    ctx := ctx }
  pure (.ok { context := ctx, isDir := ctx.isDir, newFileCreated := true })

/-- The call of `open_resolved_path`. -/
def openOrOpendir (request : OpenEntryRequest) (actualIno : INodeNo) :
    Routine (Reply ReplyOpenPayload) :=
  if request.isDirOpen then Routine.fs (.opendir request.req actualIno ⟨request.openFlags⟩)
  else Routine.fs (.open request.req actualIno ⟨request.openFlags⟩)

theorem openOrOpendir_dir {request : OpenEntryRequest} (hdir : request.isDirOpen = true)
    (actualIno : INodeNo) : openOrOpendir request actualIno
      = Routine.fs (.opendir request.req actualIno ⟨request.openFlags⟩) := if_pos hdir

theorem openOrOpendir_file {request : OpenEntryRequest} (hdir : request.isDirOpen = false)
    (actualIno : INodeNo) : openOrOpendir request actualIno
      = Routine.fs (.open request.req actualIno ⟨request.openFlags⟩) :=
  if_neg (by simp [hdir])

def openResolvedPath (request : OpenEntryRequest) (actualIno : INodeNo) :
    Routine (Except NtStatus CreateFileInfo) := do
  let opened ← openOrOpendir request actualIno
  drainResolverForgets request.req
  onReply opened errnoToNtstatus fun payload => do
    let ctx : AdapterContext := {
      fh := payload.fh, flags := payload.flags, ino := actualIno, isDir := request.isDirOpen
      lockOwner := none, requestIds := request.requestIds }
    rememberOpenContext request.fileName ctx
    pure (.ok { context := ctx, isDir := ctx.isDir, newFileCreated := false })

def resolveOpenIno (pf : Platform) (request : OpenEntryRequest) :
    Routine (Except NtStatus INodeNo) :=
  if request.pathIno ≠ ⟨0⟩ then pure (.ok request.pathIno)
  else do
    match ← resolvePathIno pf request.req request.fileName.path with
    | .ok ino => pure (.ok ino)
    | .error err => do
        drainResolverForgets request.req
        pure (.error (errnoToNtstatus err))

def openExistingEntry (pf : Platform) (request : OpenEntryRequest) :
    Routine (Except NtStatus CreateFileInfo) := do
  onOk (← resolveOpenIno pf request) fun actualIno => openResolvedPath request actualIno

def openCollisionEntry (pf : Platform) (request : OpenEntryRequest) :
    Routine (Except NtStatus CreateFileInfo) := do
  if request.pathIno = ⟨0⟩ then
    invalidatePathCache request.req request.fileName
  onOk (← resolveOpenIno pf request) fun actualIno => openResolvedPath request actualIno

def createFileEntryOrOpenExisting (pf : Platform) (create : CreateEntryRequest)
    (createPlan : CreateDispositionPlan) (openFlags : Int32) :
    Routine (Except NtStatus CreateFileInfo) := do
  let state : Reply ReplyCreatePayload ←
    Routine.fs (.create create.req create.parentIno create.leaf create.mode 0 openFlags)
  drainResolverForgets create.req
  match state with
  | some (.ok payload) => finishCreatedFile create payload
  | some (.error err) =>
      if createPlan.opensExistingAfterCollision err then
        openCollisionEntry pf (.fromCreate create openFlags)
      else pure (.error (errnoToNtstatus err))
  | none => pure (.error missingReplyStatus)

/-- The path inode of `create_file_impl`: only the root's is known without a lookup. -/
def knownPathIno (fileName : U16CStr) : INodeNo :=
  if fileName.toStringLossy = ['\\'] then .ROOT else ⟨0⟩

/-- What `create_file_impl` does once the parent is resolved. -/
def createInParent (pf : Platform) (fileName : U16CStr) (desiredAccess : AccessMask)
    (fileAttributes createDisposition createOptions : UInt32) (requestIds : RequestIds)
    (parentIno : INodeNo) : Routine (Except NtStatus CreateFileInfo) :=
  let req := requestFromIds requestIds
  let leaf := (splitParentAndName fileName).2
  let pathIno := knownPathIno fileName
  if leaf.points = [] then createRootContext fileName requestIds
  else
    let createPlan := createDispositionPlan createDisposition
    let isDirOpen := isDirectoryOpen createOptions
    let openFlags := accessMaskToOpenFlags desiredAccess
    let mode := modeFromFileAttributes fileAttributes
    let create : CreateEntryRequest := {
      req, fileName, parentIno, leaf, pathIno, requestIds, mode, isDirOpen }
    if !createPlan.createsEntry then
      openExistingEntry pf { req, fileName, pathIno, requestIds, openFlags, isDirOpen }
    else if isDirOpen then createDirectoryEntry create
    else createFileEntryOrOpenExisting pf create createPlan openFlags

def createFileImpl (pf : Platform) (fileName : U16CStr) (desiredAccess : AccessMask)
    (fileAttributes createDisposition createOptions : UInt32) (requestIds : RequestIds) :
    Routine (Except NtStatus CreateFileInfo) := do
  let req := requestFromIds requestIds
  let parentPath := (splitParentAndName fileName).1
  match ← resolveParentIno pf req parentPath with
  | .error err => do
      drainResolverForgets req
      pure (.error (errnoToNtstatus err))
  | .ok parentIno =>
      createInParent pf fileName desiredAccess fileAttributes createDisposition createOptions
        requestIds parentIno

end Confuse
