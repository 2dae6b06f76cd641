import Confuse.Resolver

/-!
# The file system behind the adapter

`FsCall` lists the calls of the `Filesystem` trait that the adapter makes, `forget` apart, with the
payload that each reply can carry. A reply that the file system drops unanswered is `none`. The two
listing replies keep the entries that were added before the status was set.
-/

namespace Confuse

structure RequestIds where
  uid : UInt32
  gid : UInt32
  pid : UInt32
  deriving DecidableEq, Repr

def INVALID_UID_GID : UInt32 := 0xFFFFFFFF

def RequestIds.unavailable (pid : UInt32) : RequestIds := ⟨INVALID_UID_GID, INVALID_UID_GID, pid⟩

structure Request where
  uid : UInt32
  gid : UInt32
  pid : UInt32
  deriving DecidableEq, Repr

def requestFromIds (ids : RequestIds) : Request := ⟨ids.uid, ids.gid, ids.pid⟩

abbrev Reply (α : Type) := Option (Except Errno α)

/-- The reply carries a payload. -/
def Reply.succeeds {α : Type} : Reply α → Bool
  | some (.ok _) => true
  | _ => false

structure ReplyAttrPayload where
  attr : FileAttr
  ttl : Duration
  deriving DecidableEq

structure ReplyOpenPayload where
  fh : FileHandle
  flags : FopenFlags
  deriving DecidableEq

structure ReplyCreatePayload where
  attr : FileAttr
  ttl : Duration
  generation : Generation
  fh : FileHandle
  flags : FopenFlags
  deriving DecidableEq

structure StatfsPayload where
  blocks : UInt64
  bfree : UInt64
  bavail : UInt64
  files : UInt64
  ffree : UInt64
  bsize : UInt32
  namelen : UInt32
  frsize : UInt32

structure ReplyLockPayload where
  start : UInt64
  «end» : UInt64
  typ : Int32
  pid : UInt32

structure DirectoryEntryPayload where
  ino : INodeNo
  offset : UInt64
  kind : FileType
  name : OsStr
  deriving DecidableEq

structure DirectoryPlusEntryPayload where
  ino : INodeNo
  offset : UInt64
  name : OsStr
  ttl : Duration
  attr : FileAttr
  generation : Generation
  deriving DecidableEq

structure ReplyDirectory where
  entries : List DirectoryEntryPayload
  status : Reply Unit

structure ReplyDirectoryPlus where
  entries : List DirectoryPlusEntryPayload
  status : Reply Unit

/-- An attribute reply carries a size, data or an error. -/
structure ReplyXattr where
  status : Reply (List UInt8)
  sizeHint : Option UInt32

def ReplyXattr.size (size : UInt32) : ReplyXattr := ⟨some (.ok []), some size⟩

def ReplyXattr.data (data : List UInt8) : ReplyXattr := ⟨some (.ok data), none⟩

def ReplyXattr.error (err : Errno) : ReplyXattr := ⟨some (.error err), none⟩

structure SetattrArgs where
  mode : Option UInt32 := none
  uid : Option UInt32 := none
  gid : Option UInt32 := none
  size : Option UInt64 := none
  atime : Option TimeOrNow := none
  mtime : Option TimeOrNow := none
  ctime : Option SystemTime := none
  fh : Option FileHandle := none
  crtime : Option SystemTime := none
  chgtime : Option SystemTime := none
  bkuptime : Option SystemTime := none
  flags : Option UInt32 := none
  deriving DecidableEq

inductive FsCall
  | lookup (req : Request) (parent : INodeNo) (name : OsStr)
  | getattr (req : Request) (ino : INodeNo) (fh : Option FileHandle)
  | setattr (req : Request) (ino : INodeNo) (args : SetattrArgs)
  | mkdir (req : Request) (parent : INodeNo) (name : OsStr) (mode umask : UInt32)
  | unlink (req : Request) (parent : INodeNo) (name : OsStr)
  | rmdir (req : Request) (parent : INodeNo) (name : OsStr)
  | rename (req : Request) (parent : INodeNo) (name : OsStr) (newparent : INodeNo)
      (newname : OsStr) (flags : RenameFlags)
  | «open» (req : Request) (ino : INodeNo) (flags : OpenFlags)
  | opendir (req : Request) (ino : INodeNo) (flags : OpenFlags)
  | create (req : Request) (parent : INodeNo) (name : OsStr) (mode umask : UInt32) (flags : Int32)
  | read (req : Request) (ino : INodeNo) (fh : FileHandle) (offset : UInt64) (size : UInt32)
      (flags : OpenFlags) (lockOwner : Option LockOwner)
  | write (req : Request) (ino : INodeNo) (fh : FileHandle) (offset : UInt64) (data : List UInt8)
      (writeFlags : WriteFlags) (flags : OpenFlags) (lockOwner : Option LockOwner)
  | release (req : Request) (ino : INodeNo) (fh : FileHandle) (flags : OpenFlags)
      (lockOwner : Option LockOwner) (flush : Bool)
  | releasedir (req : Request) (ino : INodeNo) (fh : FileHandle) (flags : OpenFlags)
  | fsync (req : Request) (ino : INodeNo) (fh : FileHandle) (datasync : Bool)
  | fsyncdir (req : Request) (ino : INodeNo) (fh : FileHandle) (datasync : Bool)
  | readdir (req : Request) (ino : INodeNo) (fh : FileHandle) (offset : UInt64)
  | readdirplus (req : Request) (ino : INodeNo) (fh : FileHandle) (offset : UInt64)
  | statfs (req : Request) (ino : INodeNo)
  | setxattr (req : Request) (ino : INodeNo) (name : OsStr) (value : List UInt8) (flags : Int32)
      (position : UInt32)
  | getxattr (req : Request) (ino : INodeNo) (name : OsStr) (size : UInt32)
  | listxattr (req : Request) (ino : INodeNo) (size : UInt32)
  | access (req : Request) (ino : INodeNo) (mask : AccessFlags)
  | getlk (req : Request) (ino : INodeNo) (fh : FileHandle) (lockOwner : LockOwner)
      (start «end» : UInt64) (typ : Int32) (pid : UInt32)
  | setlk (req : Request) (ino : INodeNo) (fh : FileHandle) (lockOwner : LockOwner)
      (start «end» : UInt64) (typ : Int32) (pid : UInt32) (sleep : Bool)
  | fallocate (req : Request) (ino : INodeNo) (fh : FileHandle) (offset length : UInt64)
      (mode : Int32)
  deriving DecidableEq

namespace FsCall

def Reply : FsCall → Type
  | .lookup .. | .mkdir .. => Confuse.Reply ReplyEntryPayload
  | .getattr .. | .setattr .. => Confuse.Reply ReplyAttrPayload
  | .open .. | .opendir .. => Confuse.Reply ReplyOpenPayload
  | .create .. => Confuse.Reply ReplyCreatePayload
  | .read .. => Confuse.Reply (List UInt8)
  | .write .. => Confuse.Reply UInt32
  | .readdir .. => ReplyDirectory
  | .readdirplus .. => ReplyDirectoryPlus
  | .statfs .. => Confuse.Reply StatfsPayload
  | .getxattr .. | .listxattr .. => ReplyXattr
  | .getlk .. => Confuse.Reply ReplyLockPayload
  | .unlink .. | .rmdir .. | .rename .. | .release .. | .releasedir .. | .fsync .. | .fsyncdir ..
  | .setxattr .. | .access .. | .setlk .. | .fallocate .. => Confuse.Reply Unit

/-- The reply that a call leaves when the file system does not answer it. -/
def unanswered : (c : FsCall) → c.Reply
  | .readdir .. => (⟨[], none⟩ : ReplyDirectory)
  | .readdirplus .. => (⟨[], none⟩ : ReplyDirectoryPlus)
  | .getxattr .. | .listxattr .. => (⟨none, none⟩ : ReplyXattr)
  | .lookup .. | .getattr .. | .setattr .. | .mkdir .. | .unlink .. | .rmdir .. | .rename ..
  | .open .. | .opendir .. | .create .. | .read .. | .write .. | .release .. | .releasedir ..
  | .fsync .. | .fsyncdir .. | .statfs .. | .setxattr .. | .access .. | .getlk .. | .setlk ..
  | .fallocate .. => none

/-- The inodes that a call names. -/
def names : FsCall → List INodeNo
  | .lookup _ ino _ | .getattr _ ino _ | .setattr _ ino _ | .mkdir _ ino _ _ _ | .unlink _ ino _
  | .rmdir _ ino _ | .open _ ino _ | .opendir _ ino _ | .create _ ino _ _ _ _
  | .read _ ino _ _ _ _ _ | .write _ ino _ _ _ _ _ _ | .release _ ino _ _ _ _
  | .releasedir _ ino _ _ | .fsync _ ino _ _ | .fsyncdir _ ino _ _ | .readdir _ ino _ _
  | .readdirplus _ ino _ _ | .statfs _ ino | .setxattr _ ino _ _ _ _ | .getxattr _ ino _ _
  | .listxattr _ ino _ | .access _ ino _ | .getlk _ ino _ _ _ _ _ _ | .setlk _ ino _ _ _ _ _ _ _
  | .fallocate _ ino _ _ _ _ => [ino]
  | .rename _ parent _ newparent _ _ => [parent, newparent]

end FsCall

/-! ## What the adapter hands to its caller -/

structure FindData where
  attributes : UInt32
  creationTime : SystemTime
  lastAccessTime : SystemTime
  lastWriteTime : SystemTime
  fileSize : UInt64
  fileName : U16CStr
  deriving DecidableEq

structure FindStreamData where
  size : Int64
  name : U16CStr
  deriving DecidableEq

structure FileInfo where
  attributes : UInt32
  creationTime : SystemTime
  lastAccessTime : SystemTime
  lastWriteTime : SystemTime
  fileSize : UInt64
  numberOfLinks : UInt32
  fileIndex : UInt64
  deriving DecidableEq

structure DiskSpaceInfo where
  byteCount : UInt64
  freeByteCount : UInt64
  availableByteCount : UInt64
  deriving DecidableEq

inductive FileTimeOperation
  | setTime (t : SystemTime)
  | dontChange
  | disableUpdate
  | resumeUpdate
  deriving DecidableEq

end Confuse
