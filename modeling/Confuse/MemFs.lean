import Confuse.ByteContents
import Confuse.DirectoryReplies
import Confuse.KeyedMap
import Confuse.Mutexes
import Mathlib.Data.List.Sort

/-!
# The file system in memory

`examples/memfs` keeps its inodes in one map and the names of the children in another, each behind a
mutex, and takes inode numbers from a counter. A call is a program over sections under these mutexes;
what lies in one section is one operation. A `usize` has 64 bits. A `Vec` never grows beyond
`isize::MAX` bytes: it panics instead. Sums wrap around, as in a release build.
-/

namespace Confuse

open Interaction

def ENOTDIR : Errno := 20
def EISDIR : Errno := 21
def ENOTEMPTY : Errno := 41

/-- The largest number of bytes in a `Vec`. -/
def isizeMax : ℕ := 2 ^ 63 - 1

def ROOT_INO_RAW : UInt64 := INodeNo.ROOT.raw

def FopenFlags.all : UInt32 := 0xFF

/-- `from_bits_truncate` keeps the bits that have a name. -/
def fopenFlags (bits : UInt32) : FopenFlags := ⟨bits &&& FopenFlags.all⟩

def FopenFlags.FOPEN_PASSTHROUGH : UInt32 := 0x80

/-- The flags contain `FOPEN_PASSTHROUGH`. -/
def FopenFlags.passthrough (flags : FopenFlags) : Bool :=
  flags.bits &&& FopenFlags.FOPEN_PASSTHROUGH = FopenFlags.FOPEN_PASSTHROUGH

/-! ## Inodes -/

structure INode where
  ino : UInt64
  parent : UInt64
  name : OsStr
  kind : FileType
  perm : UInt16
  nlink : UInt32
  uid : UInt32
  gid : UInt32
  data : List UInt8
  atime : SystemTime
  mtime : SystemTime
  ctime : SystemTime
  crtime : SystemTime
  deriving DecidableEq

inductive NewNodeKind
  | file | directory
  deriving DecidableEq

namespace INode

def newDir (ino parent : UInt64) (name : OsStr) (perm : UInt16) (now : SystemTime) : INode where
  ino := ino
  parent := parent
  name := name
  kind := .directory
  perm := perm
  nlink := 2
  uid := 0
  gid := 0
  data := []
  atime := now
  mtime := now
  ctime := now
  crtime := now

def newFile (ino parent : UInt64) (name : OsStr) (perm : UInt16) (now : SystemTime) : INode where
  ino := ino
  parent := parent
  name := name
  kind := .regularFile
  perm := perm
  nlink := 1
  uid := 0
  gid := 0
  data := []
  atime := now
  mtime := now
  ctime := now
  crtime := now

/-- The node that `insert_node` makes. -/
def new (kind : NewNodeKind) (ino parent : UInt64) (name : OsStr) (mode : UInt32)
    (now : SystemTime) : INode :=
  match kind with
  | .file => newFile ino parent name mode.toUInt16 now
  | .directory => newDir ino parent name mode.toUInt16 now

def toAttr (node : INode) : FileAttr where
  ino := ⟨node.ino⟩
  size := .ofNat node.data.length
  blocks := .ofNat ((node.data.length + 511) / 512)
  atime := node.atime
  mtime := node.mtime
  ctime := node.ctime
  crtime := node.crtime
  kind := node.kind
  perm := node.perm
  nlink := node.nlink
  uid := node.uid
  gid := node.gid
  rdev := 0
  blksize := 4096
  flags := 0

/-- What a change of its children does to a directory. -/
def touch (now : SystemTime) (node : INode) : INode := { node with mtime := now, ctime := now }

/-- `touch_parent`, which counts a new directory as a link. -/
def touchParent (kind : NewNodeKind) (now : SystemTime) (node : INode) : INode :=
  match kind with
  | .file => node.touch now
  | .directory => { node.touch now with nlink := node.nlink + 1 }

/-- What `rmdir` does to the parent; the links saturate at zero. -/
def unlinkDir (now : SystemTime) (node : INode) : INode :=
  { node.touch now with nlink := if node.nlink = 0 then 0 else node.nlink - 1 }

def moveTo (newparent : UInt64) (newname : OsStr) (now : SystemTime) (node : INode) : INode :=
  { node with parent := newparent, name := newname, ctime := now }

def setOwner (args : SetattrArgs) (node : INode) : INode :=
  { node with
    perm := (args.mode.map UInt32.toUInt16).getD node.perm
    uid := args.uid.getD node.uid
    gid := args.gid.getD node.gid }

def setSize (size : Option UInt64) (now : SystemTime) (node : INode) : INode :=
  match size with
  | none => node
  | some s => { node.touch now with
      data := if s.toNat < node.data.length then node.data.take s.toNat
        else Contents.resize s.toNat 0 node.data }

def specificTime (now : SystemTime) : TimeOrNow → SystemTime
  | .specificTime t => t
  | .now => now

def setTimes (atime mtime : Option TimeOrNow) (now : SystemTime) (node : INode) : INode :=
  { node with
    atime := (atime.map (specificTime now)).getD node.atime
    mtime := (mtime.map (specificTime now)).getD node.mtime
    ctime := if mtime.isSome then now else node.ctime }

/-- The size asked for is too large for a `Vec`. -/
def oversized (args : SetattrArgs) : Bool := args.size.any fun s => isizeMax < s.toNat

/-- An oversized request stops after the owner. -/
def setattr (args : SetattrArgs) (now : SystemTime) (node : INode) : INode :=
  if oversized args then node.setOwner args
  else ((node.setOwner args).setSize args.size now).setTimes args.atime args.mtime now

/-- Data that ends beyond what a `Vec` can hold. -/
def overlong (offset : UInt64) (data : List UInt8) : Bool := isizeMax < offset.toNat + data.length

/-- Where overlong data ends, which is within a `Vec` only when the sum wraps around: the data grows
up to there before the slice panics. -/
def growTo (stop : ℕ) (node : INode) : INode :=
  if node.data.length < stop ∧ stop ≤ isizeMax then
    { node with data := Contents.resize stop 0 node.data }
  else node

/-- A directory is not written, and overlong data is not put in place. -/
def write (offset : UInt64) (data : List UInt8) (now : SystemTime) (node : INode) : INode :=
  if node.kind ≠ .regularFile then node
  else if overlong offset data then node.growTo (offset + .ofNat data.length).toNat
  else { node.touch now with data := Contents.put 0 offset.toNat data node.data }

/-- The sum of offset and size wraps around, and is used only where the offset lies within the data. -/
def read (offset : UInt64) (size : UInt32) (node : INode) : List UInt8 :=
  let stop := min (offset + size.toUInt64).toNat node.data.length
  if node.data.length ≤ offset.toNat then [] else (node.data.take stop).drop offset.toNat

end INode

/-! ## Operations on the shared state -/

inductive MemFsLock
  | inodes | children
  deriving DecidableEq

/-- Readings of the clock, numbers from `NEXT_INO`, and what happens in sections. -/
inductive MemFsOp
  | now
  | allocIno
  | containsChild (parent : UInt64) (name : OsStr)
  | child (parent : UInt64) (name : OsStr)
  | removeChild (parent : UInt64) (name : OsStr)
  | insertChild (parent : UInt64) (name : OsStr) (ino : UInt64)
  | hasChildren (ino : UInt64)
  | childrenOf (ino : UInt64)
  | node (ino : UInt64)
  | nodes (inos : List UInt64)
  | insertNode (ino : UInt64) (node : INode)
  | removeNode (ino : UInt64)
  | updateNode (ino : UInt64) (f : INode → INode)

def MemFsOp.Res : MemFsOp → Type
  | .now => SystemTime
  | .allocIno => UInt64
  | .containsChild .. | .hasChildren _ => Bool
  | .child .. | .removeChild .. => Option UInt64
  | .childrenOf _ => List UInt64
  | .node _ | .updateNode .. => Option INode
  | .nodes _ => List (Option INode)
  | .insertChild .. | .insertNode .. | .removeNode _ => Unit

def memFsOps : Signature := ⟨MemFsOp, MemFsOp.Res⟩

structure MemFs where
  inodes : KeyedMap UInt64 INode
  children : KeyedMap (UInt64 × OsStr) UInt64
  nextIno : UInt64
  clockReads : ℕ

namespace MemFs

def new (now : SystemTime) : MemFs where
  inodes := (∅ : KeyedMap UInt64 INode).insert ROOT_INO_RAW
    (.newDir ROOT_INO_RAW ROOT_INO_RAW (.new []) 0o755 now)
  children := ∅
  nextIno := ROOT_INO_RAW + 1
  clockReads := 0

def hasChildren (s : MemFs) (ino : UInt64) : Bool := s.children.entries.any fun e => e.1.1 = ino

def childrenOf (s : MemFs) (ino : UInt64) : List UInt64 :=
  (s.children.entries.filter fun e => e.1.1 = ino).map Sigma.snd

/-- Clock readings may go back. -/
def machine (clock : ℕ → SystemTime) : Prog.Machine memFsOps MemFs
  | .now, s => (clock s.clockReads, { s with clockReads := s.clockReads + 1 })
  | .allocIno, s => (s.nextIno, { s with nextIno := s.nextIno + 1 })
  | .containsChild parent name, s => ((s.children.lookup (parent, name)).isSome, s)
  | .child parent name, s => (s.children.lookup (parent, name), s)
  | .removeChild parent name, s =>
      (s.children.lookup (parent, name), { s with children := s.children.erase (parent, name) })
  | .insertChild parent name ino, s =>
      ((), { s with children := s.children.insert (parent, name) ino })
  | .hasChildren ino, s => (s.hasChildren ino, s)
  | .childrenOf ino, s => (s.childrenOf ino, s)
  | .node ino, s => (s.inodes.lookup ino, s)
  | .nodes inos, s => (inos.map fun ino => s.inodes.lookup ino, s)
  | .insertNode ino node, s => ((), { s with inodes := s.inodes.insert ino node })
  | .removeNode ino, s => ((), { s with inodes := s.inodes.erase ino })
  | .updateNode ino f, s =>
      ((s.inodes.lookup ino).map f, { s with inodes := KeyedMap.modify ino f s.inodes })

/-! ## The calls -/

abbrev Call := Panicking memFsOps MemFsLock

def access (o : MemFsOp) : Call o.Res := Panicking.access (S := memFsOps) o

def locked {α : Type} (l : MemFsLock) (body : Call α) : Call α := Panicking.withLock l body

def TTL : Duration := .fromSecs 1

def lookup (parent : INodeNo) (name : OsStr) : Call (Except Errno ReplyEntryPayload) :=
  locked .children do
    let child : Option UInt64 ← access (.child parent.raw name)
    match child with
    | none => pure (.error ENOENT)
    | some ino =>
        let node : Option INode ← locked .inodes (access (.node ino))
        match node with
        | some node => pure (.ok ⟨node.toAttr, TTL, ⟨0⟩⟩)
        | none => pure (.error ENOENT)

def getattr (ino : INodeNo) : Call (Except Errno ReplyAttrPayload) := do
  let node : Option INode ← locked .inodes (access (.node ino.raw))
  match node with
  | some node => pure (.ok ⟨node.toAttr, TTL⟩)
  | none => pure (.error ENOENT)

def setattr (ino : INodeNo) (args : SetattrArgs) : Call (Except Errno ReplyAttrPayload) :=
  locked .inodes do
    let now : SystemTime ← access .now
    let node : Option INode ← access (.updateNode ino.raw (INode.setattr args now))
    match node with
    | none => pure (.error ENOENT)
    | some node => if INode.oversized args then Panicking.panic else pure (.ok ⟨node.toAttr, TTL⟩)

/-- The loop over the children, sorted by number. -/
def addChildren (handle : ReplyHandle) (offset : UInt64) :
    List (Option INode) → ℕ → UInt64 → ReplyCells DirectoryEntryPayload →
      ReplyCells DirectoryEntryPayload
  | [], _, _, cells => cells
  | child :: rest, idx, entryOffset, cells =>
      if entryOffset ≤ offset then addChildren handle offset rest (idx + 1) (entryOffset + 1) cells
      else match child with
        | none => addChildren handle offset rest (idx + 1) (entryOffset + 1) cells
        | some child =>
            let added := ReplyDirectory.add handle ⟨child.ino⟩ (.ofNat (idx + 3)) child.kind
              child.name cells
            if added.1 then added.2
            else addChildren handle offset rest (idx + 1) (entryOffset + 1) added.2

def dot : OsStr := .new ['.']
def dotDot : OsStr := .new ['.', '.']

/-- The children, under their mutex. -/
def listChildren (handle : ReplyHandle) (ino : INodeNo) (offset : UInt64)
    (cells : ReplyCells DirectoryEntryPayload) : Call (ReplyCells DirectoryEntryPayload) := do
  let inos : List UInt64 ← access (.childrenOf ino.raw)
  let childEntries := inos.insertionSort (· ≤ ·)
  let nodes : List (Option INode) ← locked .inodes (access (.nodes childEntries))
  pure (addChildren handle offset nodes 0 3 cells).ok

/-- `..` and the children, under the mutex of the children. -/
def listFromParent (handle : ReplyHandle) (ino : INodeNo) (offset : UInt64)
    (cells : ReplyCells DirectoryEntryPayload) : Call (ReplyCells DirectoryEntryPayload) :=
  if offset ≤ 1 then do
    let node : Option INode ← locked .inodes (access (.node ino.raw))
    let parentIno := (node.map INode.parent).getD ino.raw
    let added := ReplyDirectory.add handle ⟨parentIno⟩ 2 .directory dotDot cells
    if added.1 then pure added.2.ok else listChildren handle ino offset added.2
  else listChildren handle ino offset cells

def readdir (handle : ReplyHandle) (ino : INodeNo) (offset : UInt64) :
    Call (ReplyCells DirectoryEntryPayload) := do
  let node : Option INode ← locked .inodes (access (.node ino.raw))
  match node with
  | none => pure (ReplyCells.empty.error ENOENT)
  | some node =>
      if node.kind ≠ .directory then pure (ReplyCells.empty.error ENOTDIR)
      else locked .children (
        if offset = 0 then
          let added := ReplyDirectory.add handle ino 1 .directory dot .empty
          if added.1 then pure added.2.ok else listFromParent handle ino offset added.2
        else listFromParent handle ino offset .empty)

def read (ino : INodeNo) (offset : UInt64) (size : UInt32) : Call (Except Errno (List UInt8)) := do
  let node : Option INode ← locked .inodes (access (.node ino.raw))
  match node with
  | some node =>
      if node.kind = .regularFile then pure (.ok (node.read offset size)) else pure (.error EISDIR)
  | none => pure (.error ENOENT)

def write (ino : INodeNo) (offset : UInt64) (data : List UInt8) : Call (Except Errno UInt32) := do
  let now : SystemTime ← access .now
  locked .inodes do
    let node : Option INode ← access (.updateNode ino.raw (INode.write offset data now))
    match node with
    | some node =>
        if node.kind ≠ .regularFile then pure (.error EISDIR)
        else if INode.overlong offset data then Panicking.panic
        else pure (.ok (.ofNat data.length))
    | none => pure (.error ENOENT)

/-- `insert_node` in `storage.rs`. -/
def insertNode (parent : UInt64) (name : OsStr) (mode : UInt32) (kind : NewNodeKind) :
    Call (Except Errno FileAttr) := do
  let present : Bool ← locked .children (access (.containsChild parent name))
  if present then pure (.error EEXIST)
  else
    let ino : UInt64 ← access .allocIno
    let now : SystemTime ← access .now
    let node := INode.new kind ino parent name mode now
    locked .inodes (access (.insertNode ino node))
    locked .children (access (.insertChild parent name ino))
    let now : SystemTime ← access .now
    let _ ← locked .inodes (access (.updateNode parent (INode.touchParent kind now)))
    pure (.ok node.toAttr)

/-- `ReplyCreate::created`, which asserts that the flags do not ask for passthrough. -/
def created (ttl : Duration) (attr : FileAttr) (generation : Generation) (fh : FileHandle)
    (flags : FopenFlags) : Call (Except Errno ReplyCreatePayload) :=
  if flags.passthrough then Panicking.panic else pure (.ok ⟨attr, ttl, generation, fh, flags⟩)

def create (parent : INodeNo) (name : OsStr) (mode : UInt32) (flags : Int32) :
    Call (Except Errno ReplyCreatePayload) := do
  let inserted ← insertNode parent.raw name mode .file
  match inserted with
  | .ok attr => created TTL attr ⟨0⟩ ⟨attr.ino.raw⟩ (fopenFlags flags.toUInt32)
  | .error err => pure (.error err)

def mkdir (parent : INodeNo) (name : OsStr) (mode : UInt32) :
    Call (Except Errno ReplyEntryPayload) := do
  let inserted ← insertNode parent.raw name mode .directory
  match inserted with
  | .ok attr => pure (.ok ⟨attr, TTL, ⟨0⟩⟩)
  | .error err => pure (.error err)

def mknod (parent : INodeNo) (name : OsStr) (mode : UInt32) :
    Call (Except Errno ReplyEntryPayload) := do
  let inserted ← insertNode parent.raw name mode .file
  match inserted with
  | .ok attr => pure (.ok ⟨attr, TTL, ⟨0⟩⟩)
  | .error err => pure (.error err)

def unlink (parent : INodeNo) (name : OsStr) : Call (Except Errno Unit) := do
  let now : SystemTime ← access .now
  let removed : Option UInt64 ← locked .children (access (.removeChild parent.raw name))
  match removed with
  | none => pure (.error ENOENT)
  | some ino =>
      locked .inodes (access (.removeNode ino))
      let _ ← locked .inodes (access (.updateNode parent.raw (INode.touch now)))
      pure (.ok ())

def rmdir (parent : INodeNo) (name : OsStr) : Call (Except Errno Unit) := do
  let now : SystemTime ← access .now
  let removed : Option UInt64 ← locked .children (access (.removeChild parent.raw name))
  match removed with
  | none => pure (.error ENOENT)
  | some ino =>
      let hasChildren : Bool ← locked .children (access (.hasChildren ino))
      if hasChildren then
        locked .children (access (.insertChild parent.raw name ino))
        pure (.error ENOTEMPTY)
      else
        locked .inodes (access (.removeNode ino))
        let _ ← locked .inodes (access (.updateNode parent.raw (INode.unlinkDir now)))
        pure (.ok ())

/-- Both parents are touched in one section. -/
def touchParents (parent newparent : UInt64) (now : SystemTime) : Call Unit := do
  let _ ← access (.updateNode parent (INode.touch now))
  if parent ≠ newparent then
    let _ ← access (.updateNode newparent (INode.touch now))
    pure ()
  else pure ()

def rename (parent : INodeNo) (name : OsStr) (newparent : INodeNo) (newname : OsStr) :
    Call (Except Errno Unit) := do
  let now : SystemTime ← access .now
  let removed : Option UInt64 ← locked .children (access (.removeChild parent.raw name))
  match removed with
  | none => pure (.error ENOENT)
  | some ino =>
      let _ ← locked .children (access (.removeChild newparent.raw newname))
      locked .children (access (.insertChild newparent.raw newname ino))
      let _ ← locked .inodes (access (.updateNode ino (INode.moveTo newparent.raw newname now)))
      locked .inodes (touchParents parent.raw newparent.raw now)
      pure (.ok ())

/-- `ReplyOpen::opened`, with the same assertion. -/
def opened (fh : FileHandle) (flags : FopenFlags) : Call (Except Errno ReplyOpenPayload) :=
  if flags.passthrough then Panicking.panic else pure (.ok ⟨fh, flags⟩)

/-- The guard in the condition is dropped before the reply. -/
def «open» (ino : INodeNo) (flags : OpenFlags) : Call (Except Errno ReplyOpenPayload) := do
  let node : Option INode ← locked .inodes (access (.node ino.raw))
  match node with
  | some _ => opened ⟨0⟩ (fopenFlags flags.bits.toUInt32)
  | none => pure (.error ENOENT)

/-- The reply is sent under the mutex. -/
def opendir (ino : INodeNo) (flags : OpenFlags) : Call (Except Errno ReplyOpenPayload) :=
  locked .inodes do
    let node : Option INode ← access (.node ino.raw)
    match node with
    | some node =>
        if node.kind = .directory then opened ⟨0⟩ (fopenFlags flags.bits.toUInt32)
        else pure (.error ENOTDIR)
    | none => pure (.error ENOENT)

/-- Fabricated values for a volume of 1 GiB. -/
def statfs : StatfsPayload where
  blocks := 1024 * 1024
  bfree := 512 * 1024
  bavail := 512 * 1024
  files := 1000000
  ffree := 999000
  bsize := 4096
  namelen := 255
  frsize := 4096

/-- The cells as the caller reads them; a panic leaves no status. -/
def replyDirectory (cells : Option (ReplyCells DirectoryEntryPayload)) : ReplyDirectory :=
  cells.elim ⟨[], none⟩ fun cells => ⟨cells.entries, cells.status⟩

/-- A call that panics is not answered. What the file system does not implement is answered with
`ENOSYS`. -/
def program : (c : FsCall) → Prog (memFsOps.guarded MemFsLock) c.Reply
  | .lookup _ parent name => (lookup parent name).run
  | .getattr _ ino _ => (getattr ino).run
  | .setattr _ ino args => (setattr ino args).run
  | .mkdir _ parent name mode _ => (mkdir parent name mode).run
  | .unlink _ parent name => (unlink parent name).run
  | .rmdir _ parent name => (rmdir parent name).run
  | .rename _ parent name newparent newname _ => (rename parent name newparent newname).run
  | .open _ ino flags => («open» ino flags).run
  | .opendir _ ino flags => (opendir ino flags).run
  | .create _ parent name mode _ flags => (create parent name mode flags).run
  | .read _ ino _ offset size _ _ => (read ino offset size).run
  | .write _ ino _ offset data _ _ _ => (write ino offset data).run
  | .release .. | .releasedir .. => .pure (some (.ok ()) : Reply Unit)
  | .readdir _ ino _ offset =>
      (readdir .capture ino offset).run >>= fun cells => .pure (replyDirectory cells)
  | .readdirplus .. => .pure (⟨[], some (.error ENOSYS)⟩ : ReplyDirectoryPlus)
  | .statfs .. => .pure (some (.ok statfs) : Reply StatfsPayload)
  | .getxattr .. | .listxattr .. => .pure (ReplyXattr.error ENOSYS)
  | .getlk .. => .pure (some (.error ENOSYS) : Reply ReplyLockPayload)
  | .fsync .. | .fsyncdir .. | .setxattr .. | .access .. | .setlk .. | .fallocate .. =>
      .pure (some (.error ENOSYS) : Reply Unit)

end MemFs

/-- The calls of the trait that the adapter makes, and `mknod`, which it does not make. -/
inductive MemFsCall
  | fs (c : FsCall)
  | mknod (req : Request) (parent : INodeNo) (name : OsStr) (mode umask rdev : UInt32)

namespace MemFsCall

def Reply : MemFsCall → Type
  | .fs c => c.Reply
  | .mknod .. => Confuse.Reply ReplyEntryPayload

def program : (c : MemFsCall) → Prog (memFsOps.guarded MemFsLock) c.Reply
  | .fs c => MemFs.program c
  | .mknod _ parent name mode _ _ => (MemFs.mknod parent name mode).run

end MemFsCall
end Confuse
