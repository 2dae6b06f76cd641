import Confuse.Strings
import Mathlib.Algebra.GroupWithZero.Nat
import Mathlib.Data.Int.Notation

/-!
# Identifiers, attributes and status codes

The `u64` newtypes are structures over `UInt64`; errno and NTSTATUS values share the type `Int32`,
as in the source. An `Instant` and a `Duration` count nanoseconds.
-/

namespace Confuse

structure INodeNo where
  raw : UInt64
  deriving DecidableEq, Repr

def INodeNo.ROOT : INodeNo := ⟨1⟩

structure FileHandle where
  raw : UInt64
  deriving DecidableEq, Repr

structure LockOwner where
  raw : UInt64
  deriving DecidableEq, Repr

structure Generation where
  raw : UInt64
  deriving DecidableEq, Repr

structure FopenFlags where
  bits : UInt32
  deriving DecidableEq, Repr

structure OpenFlags where
  bits : Int32
  deriving DecidableEq, Repr

structure AccessFlags where
  bits : Int32
  deriving DecidableEq, Repr

structure RenameFlags where
  bits : UInt32
  deriving DecidableEq, Repr

structure WriteFlags where
  bits : UInt32
  deriving DecidableEq, Repr

inductive FileType
  | namedPipe | charDevice | blockDevice | directory | regularFile | symlink | socket
  deriving DecidableEq, Repr

/-- Ticks relative to the Unix epoch. -/
abbrev SystemTime := ℤ

def SystemTime.UNIX_EPOCH : SystemTime := 0

inductive TimeOrNow
  | specificTime (t : SystemTime)
  | now
  deriving DecidableEq, Repr

structure FileAttr where
  ino : INodeNo
  size : UInt64
  blocks : UInt64
  atime : SystemTime
  mtime : SystemTime
  ctime : SystemTime
  crtime : SystemTime
  kind : FileType
  perm : UInt16
  nlink : UInt32
  uid : UInt32
  gid : UInt32
  rdev : UInt32
  blksize : UInt32
  flags : UInt32
  deriving DecidableEq, Repr

/-- The attributes of an empty inode, readable and writable by all. -/
def FileAttr.plain (ino : INodeNo) (kind : FileType) : FileAttr where
  ino := ino
  size := 0
  blocks := 0
  atime := 0
  mtime := 0
  ctime := 0
  crtime := 0
  kind := kind
  perm := 0o666
  nlink := 1
  uid := 0
  gid := 0
  rdev := 0
  blksize := 512
  flags := 0

/-! ## Time -/

/-- Nanoseconds on the clock. A sum may leave the source's range, see `representable`. -/
abbrev Instant := ℕ

/-- `u64` seconds and a sub-second part, in nanoseconds. -/
structure Duration where
  nanos : ℕ
  inRange : nanos < 2 ^ 64 * 10 ^ 9
  deriving DecidableEq

namespace Duration

def ofNanos (n : ℕ) (h : n < 2 ^ 64 * 10 ^ 9 := by decide) : Duration := ⟨n, h⟩

def fromNanos (n : UInt64) : Duration := ⟨n.toNat, Nat.lt_trans n.toNat_lt (by decide)⟩

def fromSecs (s : UInt64) : Duration :=
  ⟨s.toNat * 10 ^ 9, Nat.mul_lt_mul_of_pos_right s.toNat_lt (by decide)⟩

def isZero (d : Duration) : Bool := d.nanos == 0

theorem isZero_eq_false {d : Duration} : d.isZero = false ↔ 0 < d.nanos := by
  simp [isZero, Nat.pos_iff_ne_zero]

end Duration

/-- `Instant + Duration` panics in the source unless the sum is representable. -/
def Instant.representable (t : Instant) (d : Duration) : Prop := t + d.nanos < 2 ^ 64 * 10 ^ 9

/-! ## Errno values of the Windows target -/

abbrev Errno := Int32

def EPERM : Errno := 1
def ENOENT : Errno := 2
def EIO : Errno := 5
def EAGAIN : Errno := 11
def EACCES : Errno := 13
def EBUSY : Errno := 16
def EEXIST : Errno := 17
def EINVAL : Errno := 22
def ENOSPC : Errno := 28
def ENOSYS : Errno := 40
def ENODATA : Errno := 120

/-- `Errno::NO_XATTR` without the `macos-api` feature. -/
def NO_XATTR : Errno := ENODATA

/-! ## NTSTATUS values -/

abbrev NtStatus := Int32

def STATUS_UNSUCCESSFUL : NtStatus := (0xC0000001 : UInt32).toInt32
def STATUS_NOT_IMPLEMENTED : NtStatus := (0xC0000002 : UInt32).toInt32
def STATUS_INVALID_PARAMETER : NtStatus := (0xC000000D : UInt32).toInt32
def STATUS_ALREADY_COMMITTED : NtStatus := (0xC0000021 : UInt32).toInt32
def STATUS_ACCESS_DENIED : NtStatus := (0xC0000022 : UInt32).toInt32
def STATUS_OBJECT_NAME_NOT_FOUND : NtStatus := (0xC0000034 : UInt32).toInt32
def STATUS_OBJECT_NAME_COLLISION : NtStatus := (0xC0000035 : UInt32).toInt32
def STATUS_DISK_FULL : NtStatus := (0xC000007F : UInt32).toInt32
def STATUS_FILE_IS_A_DIRECTORY : NtStatus := (0xC00000BA : UInt32).toInt32
def STATUS_DIRECTORY_NOT_EMPTY : NtStatus := (0xC0000101 : UInt32).toInt32
def STATUS_NOT_A_DIRECTORY : NtStatus := (0xC0000103 : UInt32).toInt32

/-! ## Win32 constants -/

abbrev AccessMask := UInt32

def FILE_SUPERSEDE : UInt32 := 0
def FILE_OPEN : UInt32 := 1
def FILE_CREATE : UInt32 := 2
def FILE_OPEN_IF : UInt32 := 3
def FILE_OVERWRITE : UInt32 := 4
def FILE_OVERWRITE_IF : UInt32 := 5
def FILE_DIRECTORY_FILE : UInt32 := 1

def FILE_ATTRIBUTE_READONLY : UInt32 := 0x1
def FILE_ATTRIBUTE_DIRECTORY : UInt32 := 0x10
def FILE_ATTRIBUTE_NORMAL : UInt32 := 0x80

def FILE_READ_DATA : AccessMask := 0x1
def FILE_WRITE_DATA : AccessMask := 0x2
def FILE_APPEND_DATA : AccessMask := 0x4
def GENERIC_WRITE : AccessMask := 0x40000000
def GENERIC_READ : AccessMask := 0x80000000

def O_RDONLY : Int32 := 0
def O_WRONLY : Int32 := 1
def O_RDWR : Int32 := 2
def O_TRUNC : Int32 := 0x200

inductive OpenAccMode
  | O_RDONLY | O_WRONLY | O_RDWR
  deriving DecidableEq, Repr

def OpenFlags.accMode (flags : OpenFlags) : OpenAccMode :=
  let O_ACCMODE := O_RDONLY ||| O_WRONLY ||| O_RDWR
  if flags.bits &&& O_ACCMODE = O_WRONLY then .O_WRONLY
  else if flags.bits &&& O_ACCMODE = O_RDWR then .O_RDWR
  else .O_RDONLY

def LOCK_TYPE_WRLCK : Int32 := 1
def LOCK_TYPE_UNLCK : Int32 := 2

/-! ## I/O errors -/

inductive ErrorKind
  | notFound | invalidInput | other
  deriving DecidableEq, Repr

structure IoError where
  kind : ErrorKind
  message : Str
  deriving DecidableEq

end Confuse
