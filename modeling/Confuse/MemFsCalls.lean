import Confuse.MemFsInterleavings

/-!
# Calls that do not overlap

What a call answers and leaves behind when it runs alone and no mutex is poisoned. A call that does not
panic poisons none.
-/

namespace Confuse

open Interaction

namespace MemFs

/-- No mutex is poisoned. -/
def calm (s : MemFs) : MemFs × (MemFsLock → Bool) := (s, fun _ => false)

def tick (s : MemFs) : MemFs := { s with clockReads := s.clockReads + 1 }

section Runs
variable {clock : ℕ → SystemTime} {s : MemFs} {α β : Type}

theorem alone_access (o : MemFsOp) :
    (access o).runAlone (machine clock) (calm s)
      = (some (machine clock o s).1, calm (machine clock o s).2) := rfl

theorem alone_locked {l : MemFsLock} {p : Call α} {a : α} {s' : MemFs}
    (h : p.runAlone (machine clock) (calm s) = (some a, calm s')) :
    (locked l p).runAlone (machine clock) (calm s) = (some a, calm s') :=
  Panicking.runAlone_withLock rfl h

theorem alone_then {p : Call α} {f : α → Call β} {a : α} {s' : MemFs}
    (h : p.runAlone (machine clock) (calm s) = (some a, calm s')) :
    (p >>= f).runAlone (machine clock) (calm s) = (f a).runAlone (machine clock) (calm s') :=
  Panicking.runAlone_bind_some h

/-- One operation under a mutex, and then the rest. -/
theorem alone_section {l : MemFsLock} {o : MemFsOp} {f : o.Res → Call β} :
    (locked l (access o) >>= f).runAlone (machine clock) (calm s)
      = (f (machine clock o s).1).runAlone (machine clock) (calm (machine clock o s).2) :=
  alone_then (alone_locked (alone_access o))

theorem alone_access_then {o : MemFsOp} {f : o.Res → Call β} :
    (access o >>= f).runAlone (machine clock) (calm s)
      = (f (machine clock o s).1).runAlone (machine clock) (calm (machine clock o s).2) :=
  alone_then (alone_access o)

variable {parent ino : UInt64} {name : OsStr}

theorem alone_now {f : SystemTime → Call β} :
    (access .now >>= f).runAlone (machine clock) (calm s)
      = (f (clock s.clockReads)).runAlone (machine clock) (calm s.tick) := alone_access_then

theorem alone_allocIno {f : UInt64 → Call β} :
    (access .allocIno >>= f).runAlone (machine clock) (calm s)
      = (f s.nextIno).runAlone (machine clock) (calm { s with nextIno := s.nextIno + 1 }) :=
  alone_access_then

theorem alone_child {f : Option UInt64 → Call β} :
    (access (.child parent name) >>= f).runAlone (machine clock) (calm s)
      = (f (s.children.lookup (parent, name))).runAlone (machine clock) (calm s) := alone_access_then

theorem alone_containsChild {f : Bool → Call β} :
    (locked .children (access (.containsChild parent name)) >>= f).runAlone (machine clock) (calm s)
      = (f (s.children.lookup (parent, name)).isSome).runAlone (machine clock) (calm s) :=
  alone_section

theorem alone_removeChild {f : Option UInt64 → Call β} :
    (locked .children (access (.removeChild parent name)) >>= f).runAlone (machine clock) (calm s)
      = (f (s.children.lookup (parent, name))).runAlone (machine clock)
          (calm { s with children := s.children.erase (parent, name) }) := alone_section

theorem alone_insertChild {f : Unit → Call β} :
    (locked .children (access (.insertChild parent name ino)) >>= f).runAlone (machine clock) (calm s)
      = (f ()).runAlone (machine clock)
          (calm { s with children := s.children.insert (parent, name) ino }) := alone_section

theorem alone_hasChildren {f : Bool → Call β} :
    (locked .children (access (.hasChildren ino)) >>= f).runAlone (machine clock) (calm s)
      = (f (s.hasChildren ino)).runAlone (machine clock) (calm s) := alone_section

theorem alone_childrenOf {f : List UInt64 → Call β} :
    (access (.childrenOf ino) >>= f).runAlone (machine clock) (calm s)
      = (f (s.childrenOf ino)).runAlone (machine clock) (calm s) := alone_access_then

theorem alone_node {f : Option INode → Call β} :
    (locked .inodes (access (.node ino)) >>= f).runAlone (machine clock) (calm s)
      = (f (s.inodes.lookup ino)).runAlone (machine clock) (calm s) := alone_section

theorem alone_readNode {f : Option INode → Call β} :
    (access (.node ino) >>= f).runAlone (machine clock) (calm s)
      = (f (s.inodes.lookup ino)).runAlone (machine clock) (calm s) := alone_access_then

theorem alone_nodes {inos : List UInt64} {f : List (Option INode) → Call β} :
    (locked .inodes (access (.nodes inos)) >>= f).runAlone (machine clock) (calm s)
      = (f (inos.map fun ino => s.inodes.lookup ino)).runAlone (machine clock) (calm s) :=
  alone_section

theorem alone_storeNode {node : INode} {f : Unit → Call β} :
    (locked .inodes (access (.insertNode ino node)) >>= f).runAlone (machine clock) (calm s)
      = (f ()).runAlone (machine clock) (calm { s with inodes := s.inodes.insert ino node }) :=
  alone_section

theorem alone_removeNode {f : Unit → Call β} :
    (locked .inodes (access (.removeNode ino)) >>= f).runAlone (machine clock) (calm s)
      = (f ()).runAlone (machine clock) (calm { s with inodes := s.inodes.erase ino }) :=
  alone_section

theorem alone_updateNode {g : INode → INode} {f : Option INode → Call β} :
    (access (.updateNode ino g) >>= f).runAlone (machine clock) (calm s)
      = (f ((s.inodes.lookup ino).map g)).runAlone (machine clock)
          (calm { s with inodes := KeyedMap.modify ino g s.inodes }) := alone_access_then

theorem alone_lockedUpdate {g : INode → INode} {f : Option INode → Call β} :
    (locked .inodes (access (.updateNode ino g)) >>= f).runAlone (machine clock) (calm s)
      = (f ((s.inodes.lookup ino).map g)).runAlone (machine clock)
          (calm { s with inodes := KeyedMap.modify ino g s.inodes }) := alone_section

end Runs

/-! ## What a call leaves behind -/

section Changes
variable (clock : ℕ → SystemTime) (s : MemFs)

def newNode (parent : UInt64) (name : OsStr) (mode : UInt32) (kind : NewNodeKind) : INode :=
  .new kind s.nextIno parent name mode (clock s.clockReads)

/-- `insert_node` with an absent name. -/
def inserted (parent : UInt64) (name : OsStr) (mode : UInt32) (kind : NewNodeKind) : MemFs where
  inodes := KeyedMap.modify parent (INode.touchParent kind (clock (s.clockReads + 1)))
    (s.inodes.insert s.nextIno (s.newNode clock parent name mode kind))
  children := s.children.insert (parent, name) s.nextIno
  nextIno := s.nextIno + 1
  clockReads := s.clockReads + 2

/-- `unlink` with a name that leads to `ino`. -/
def unlinked (parent : UInt64) (name : OsStr) (ino : UInt64) : MemFs :=
  { s.tick with
    inodes := KeyedMap.modify parent (INode.touch (clock s.clockReads)) (s.inodes.erase ino)
    children := s.children.erase (parent, name) }

/-- `rmdir` with a name that leads to `ino`, without children. -/
def dirRemoved (parent : UInt64) (name : OsStr) (ino : UInt64) : MemFs :=
  { s.tick with
    inodes := KeyedMap.modify parent (INode.unlinkDir (clock s.clockReads)) (s.inodes.erase ino)
    children := s.children.erase (parent, name) }

/-- `rmdir` with a name that leads to `ino`, with children. -/
def putBack (parent : UInt64) (name : OsStr) (ino : UInt64) : MemFs :=
  { s.tick with children := (s.children.erase (parent, name)).insert (parent, name) ino }

/-- The inodes after `rename` has touched the parents. -/
def touchedParents (parent newparent : UInt64) (now : SystemTime)
    (inodes : KeyedMap UInt64 INode) : KeyedMap UInt64 INode :=
  if parent ≠ newparent then
    KeyedMap.modify newparent (INode.touch now) (KeyedMap.modify parent (INode.touch now) inodes)
  else KeyedMap.modify parent (INode.touch now) inodes

/-- `rename` with an old name that leads to `ino`. -/
def renamed (parent : UInt64) (name : OsStr) (newparent : UInt64) (newname : OsStr) (ino : UInt64) :
    MemFs :=
  { s.tick with
    inodes := touchedParents parent newparent (clock s.clockReads)
      (KeyedMap.modify ino (INode.moveTo newparent newname (clock s.clockReads)) s.inodes)
    children := ((s.children.erase (parent, name)).erase (newparent, newname)).insert
      (newparent, newname) ino }

/-- `setattr` and `write`, which leave an absent inode absent. -/
def updated (ino : UInt64) (f : SystemTime → INode → INode) : MemFs :=
  { s.tick with inodes := KeyedMap.modify ino (f (clock s.clockReads)) s.inodes }

def insertEffect (parent : UInt64) (name : OsStr) (mode : UInt32) (kind : NewNodeKind) : MemFs :=
  (s.children.lookup (parent, name)).elim (s.inserted clock parent name mode kind) fun _ => s

def unlinkEffect (parent : UInt64) (name : OsStr) : MemFs :=
  (s.children.lookup (parent, name)).elim s.tick fun ino => s.unlinked clock parent name ino

/-- The directory that a name leads to has children under other names. -/
def keepsDir (parent : UInt64) (name : OsStr) (ino : UInt64) : Bool :=
  hasChildren { s with children := s.children.erase (parent, name) } ino

def rmdirEffect (parent : UInt64) (name : OsStr) : MemFs :=
  (s.children.lookup (parent, name)).elim s.tick fun ino =>
    if s.keepsDir parent name ino then s.putBack parent name ino else s.dirRemoved clock parent name ino

def renameEffect (parent : UInt64) (name : OsStr) (newparent : UInt64) (newname : OsStr) : MemFs :=
  (s.children.lookup (parent, name)).elim s.tick fun ino =>
    s.renamed clock parent name newparent newname ino

end Changes

/-! ## What a call answers -/

section Answers
variable (clock : ℕ → SystemTime) (s : MemFs)

def lookupAnswer (parent : UInt64) (name : OsStr) : Except Errno ReplyEntryPayload :=
  ((s.children.lookup (parent, name)).bind s.inodes.lookup).elim (.error ENOENT) fun node =>
    .ok ⟨node.toAttr, TTL, ⟨0⟩⟩

/-- The answer about a stored inode. -/
def nodeAnswer {γ : Type} (ino : UInt64) (f : INode → Except Errno γ) : Except Errno γ :=
  (s.inodes.lookup ino).elim (.error ENOENT) f

def getattrAnswer (ino : UInt64) : Except Errno ReplyAttrPayload :=
  s.nodeAnswer ino fun node => .ok ⟨node.toAttr, TTL⟩

def setattrAnswer (ino : UInt64) (args : SetattrArgs) : Except Errno ReplyAttrPayload :=
  s.nodeAnswer ino fun node => .ok ⟨(node.setattr args (clock s.clockReads)).toAttr, TTL⟩

def readAnswer (ino : UInt64) (offset : UInt64) (size : UInt32) : Except Errno (List UInt8) :=
  s.nodeAnswer ino fun node =>
    if node.kind = .regularFile then .ok (node.read offset size) else .error EISDIR

def writeAnswer (ino : UInt64) (data : List UInt8) : Except Errno UInt32 :=
  s.nodeAnswer ino fun node =>
    if node.kind = .regularFile then .ok (.ofNat data.length) else .error EISDIR

def openAnswer (ino : UInt64) (flags : OpenFlags) : Except Errno ReplyOpenPayload :=
  s.nodeAnswer ino fun _ => .ok ⟨⟨0⟩, fopenFlags flags.bits.toUInt32⟩

def opendirAnswer (ino : UInt64) (flags : OpenFlags) : Except Errno ReplyOpenPayload :=
  s.nodeAnswer ino fun node =>
    if node.kind = .directory then .ok ⟨⟨0⟩, fopenFlags flags.bits.toUInt32⟩ else .error ENOTDIR

def insertAnswer (parent : UInt64) (name : OsStr) (mode : UInt32) (kind : NewNodeKind) :
    Except Errno FileAttr :=
  (s.children.lookup (parent, name)).elim (.ok (s.newNode clock parent name mode kind).toAttr)
    fun _ => .error EEXIST

def unlinkAnswer (parent : UInt64) (name : OsStr) : Except Errno Unit :=
  (s.children.lookup (parent, name)).elim (.error ENOENT) fun _ => .ok ()

def rmdirAnswer (parent : UInt64) (name : OsStr) : Except Errno Unit :=
  (s.children.lookup (parent, name)).elim (.error ENOENT) fun ino =>
    if s.keepsDir parent name ino then .error ENOTEMPTY else .ok ()

/-- `renameAnswer` is that of `unlink`: the new name is of no concern. -/
def renameAnswer (parent : UInt64) (name : OsStr) : Except Errno Unit := s.unlinkAnswer parent name

end Answers

/-! ## The calls -/

variable {clock : ℕ → SystemTime} {s : MemFs}

theorem alone_lookup (parent : INodeNo) (name : OsStr) :
    (lookup parent name).runAlone (machine clock) (calm s)
      = (some (s.lookupAnswer parent.raw name), calm s) := by
  refine alone_locked (alone_child.trans ?_)
  unfold lookupAnswer
  cases s.children.lookup (parent.raw, name) with
  | none => rfl
  | some ino =>
      refine alone_node.trans ?_
      dsimp only [Option.bind_some]
      cases s.inodes.lookup ino <;> rfl

theorem alone_getattr (ino : INodeNo) :
    (getattr ino).runAlone (machine clock) (calm s) = (some (s.getattrAnswer ino.raw), calm s) := by
  refine alone_node.trans ?_
  unfold getattrAnswer nodeAnswer
  cases s.inodes.lookup ino.raw <;> rfl

theorem alone_read (ino : INodeNo) (offset : UInt64) (size : UInt32) :
    (read ino offset size).runAlone (machine clock) (calm s)
      = (some (s.readAnswer ino.raw offset size), calm s) := by
  refine alone_node.trans ?_
  unfold readAnswer nodeAnswer
  cases s.inodes.lookup ino.raw with
  | none => rfl
  | some node =>
      dsimp only [Option.elim_some]
      split_ifs <;> rfl

theorem opened_eq (fh : FileHandle) {flags : FopenFlags} (h : flags.passthrough = false) :
    opened fh flags = pure (.ok ⟨fh, flags⟩) := by
  unfold opened
  rw [h]
  rfl

theorem created_eq (ttl : Duration) (attr : FileAttr) (generation : Generation) (fh : FileHandle)
    {flags : FopenFlags} (h : flags.passthrough = false) :
    created ttl attr generation fh flags = pure (.ok ⟨attr, ttl, generation, fh, flags⟩) := by
  unfold created
  rw [h]
  rfl

theorem alone_open (ino : INodeNo) {flags : OpenFlags}
    (hflags : (fopenFlags flags.bits.toUInt32).passthrough = false) :
    («open» ino flags).runAlone (machine clock) (calm s)
      = (some (s.openAnswer ino.raw flags), calm s) := by
  refine alone_node.trans ?_
  unfold openAnswer nodeAnswer
  cases s.inodes.lookup ino.raw with
  | none => rfl
  | some node =>
      dsimp only
      rw [opened_eq ⟨0⟩ hflags]
      rfl

theorem alone_opendir (ino : INodeNo) {flags : OpenFlags}
    (hflags : (fopenFlags flags.bits.toUInt32).passthrough = false) :
    (opendir ino flags).runAlone (machine clock) (calm s)
      = (some (s.opendirAnswer ino.raw flags), calm s) := by
  refine alone_locked (alone_readNode.trans ?_)
  unfold opendirAnswer nodeAnswer
  cases s.inodes.lookup ino.raw with
  | none => rfl
  | some node =>
      dsimp only [Option.elim_some]
      rw [opened_eq ⟨0⟩ hflags]
      split_ifs <;> rfl

example : ((opendir .ROOT ⟨0x80⟩).runAlone (machine fun _ => .UNIX_EPOCH)
    (calm (new .UNIX_EPOCH))).2.2 .inodes = true := rfl

theorem alone_setattr (ino : INodeNo) {args : SetattrArgs} (hargs : INode.oversized args = false) :
    (setattr ino args).runAlone (machine clock) (calm s)
      = (some (s.setattrAnswer clock ino.raw args),
          calm (s.updated clock ino.raw fun now => INode.setattr args now)) := by
  refine alone_locked (alone_now.trans (alone_updateNode.trans ?_))
  have hlookup : s.tick.inodes.lookup ino.raw = s.inodes.lookup ino.raw := rfl
  rw [hlookup]
  unfold setattrAnswer nodeAnswer
  cases s.inodes.lookup ino.raw with
  | none => rfl
  | some node =>
      dsimp only [Option.map_some, Option.elim_some]
      rw [hargs]
      rfl

theorem alone_write (ino : INodeNo) {offset : UInt64} {data : List UInt8}
    (hdata : INode.overlong offset data = false) :
    (write ino offset data).runAlone (machine clock) (calm s)
      = (some (s.writeAnswer ino.raw data),
          calm (s.updated clock ino.raw fun now => INode.write offset data now)) := by
  refine alone_now.trans (alone_locked (alone_updateNode.trans ?_))
  have hlookup : s.tick.inodes.lookup ino.raw = s.inodes.lookup ino.raw := rfl
  rw [hlookup]
  unfold writeAnswer nodeAnswer
  cases s.inodes.lookup ino.raw with
  | none => rfl
  | some node =>
      dsimp only [Option.map_some, Option.elim_some]
      rw [(write_keeps offset data (clock s.clockReads) node).2, hdata]
      by_cases hkind : node.kind = .regularFile
      · rw [if_neg (not_not.mpr hkind), if_pos hkind]
        rfl
      · rw [if_pos hkind, if_neg hkind]
        rfl

theorem alone_insertNode (parent : UInt64) (name : OsStr) (mode : UInt32) (kind : NewNodeKind) :
    (insertNode parent name mode kind).runAlone (machine clock) (calm s)
      = (some (s.insertAnswer clock parent name mode kind),
          calm (s.insertEffect clock parent name mode kind)) := by
  refine alone_containsChild.trans ?_
  unfold insertAnswer insertEffect
  cases s.children.lookup (parent, name) with
  | some ino => rfl
  | none =>
      refine alone_allocIno.trans (alone_now.trans ?_)
      refine alone_storeNode.trans (alone_insertChild.trans (alone_now.trans ?_))
      exact alone_lockedUpdate

theorem alone_unlink (parent : INodeNo) (name : OsStr) :
    (unlink parent name).runAlone (machine clock) (calm s)
      = (some (s.unlinkAnswer parent.raw name), calm (s.unlinkEffect clock parent.raw name)) := by
  refine alone_now.trans (alone_removeChild.trans ?_)
  unfold unlinkAnswer unlinkEffect
  have hlookup : s.tick.children.lookup (parent.raw, name) = s.children.lookup (parent.raw, name) := rfl
  rw [hlookup]
  cases hchild : s.children.lookup (parent.raw, name) with
  | none =>
      have herase : s.tick.children.erase (parent.raw, name) = s.children :=
        KeyedMap.erase_of_lookup_eq_none hchild
      rw [herase]
      rfl
  | some ino => exact alone_removeNode.trans alone_lockedUpdate

theorem alone_rmdir (parent : INodeNo) (name : OsStr) :
    (rmdir parent name).runAlone (machine clock) (calm s)
      = (some (s.rmdirAnswer parent.raw name), calm (s.rmdirEffect clock parent.raw name)) := by
  refine alone_now.trans (alone_removeChild.trans ?_)
  unfold rmdirAnswer rmdirEffect
  have hlookup : s.tick.children.lookup (parent.raw, name) = s.children.lookup (parent.raw, name) := rfl
  rw [hlookup]
  cases hchild : s.children.lookup (parent.raw, name) with
  | none =>
      have herase : s.tick.children.erase (parent.raw, name) = s.children :=
        KeyedMap.erase_of_lookup_eq_none hchild
      rw [herase]
      rfl
  | some ino =>
      refine alone_hasChildren.trans ?_
      dsimp only [Option.elim_some]
      have hkeeps : hasChildren { s.tick with children := s.tick.children.erase (parent.raw, name) } ino
          = s.keepsDir parent.raw name ino := rfl
      rw [hkeeps]
      cases s.keepsDir parent.raw name ino with
      | true => exact alone_insertChild
      | false => exact alone_removeNode.trans alone_lockedUpdate

theorem alone_touchParents (parent newparent : UInt64) (now : SystemTime) :
    (touchParents parent newparent now).runAlone (machine clock) (calm s)
      = (some (), calm { s with inodes := touchedParents parent newparent now s.inodes }) := by
  refine alone_updateNode.trans ?_
  unfold touchedParents
  by_cases hne : parent ≠ newparent
  · rw [if_pos hne, if_pos hne]
    exact alone_updateNode
  · rw [if_neg hne, if_neg hne]
    rfl

theorem alone_rename (parent : INodeNo) (name : OsStr) (newparent : INodeNo) (newname : OsStr) :
    (rename parent name newparent newname).runAlone (machine clock) (calm s)
      = (some (s.renameAnswer parent.raw name),
          calm (s.renameEffect clock parent.raw name newparent.raw newname)) := by
  refine alone_now.trans (alone_removeChild.trans ?_)
  unfold renameAnswer unlinkAnswer renameEffect
  have hlookup : s.tick.children.lookup (parent.raw, name) = s.children.lookup (parent.raw, name) := rfl
  rw [hlookup]
  cases hchild : s.children.lookup (parent.raw, name) with
  | none =>
      have herase : s.tick.children.erase (parent.raw, name) = s.children :=
        KeyedMap.erase_of_lookup_eq_none hchild
      rw [herase]
      rfl
  | some ino =>
      refine alone_removeChild.trans (alone_insertChild.trans (alone_lockedUpdate.trans ?_))
      exact alone_then (alone_locked (alone_touchParents parent.raw newparent.raw _))

/-- The calls of `insert_node` reply with what it has made. -/
theorem alone_made {γ : Type} {reply : FileAttr → γ} {f : Except Errno FileAttr → Call (Except Errno γ)}
    (hf : ∀ r, f r = pure (r.map reply)) (parent : UInt64) (name : OsStr) (mode : UInt32)
    (kind : NewNodeKind) :
    (insertNode parent name mode kind >>= f).runAlone (machine clock) (calm s)
      = (some ((s.insertAnswer clock parent name mode kind).map reply),
          calm (s.insertEffect clock parent name mode kind)) := by
  refine (alone_then (alone_insertNode parent name mode kind)).trans ?_
  rw [hf]
  rfl

theorem alone_create (parent : INodeNo) (name : OsStr) (mode : UInt32) {flags : Int32}
    (hflags : (fopenFlags flags.toUInt32).passthrough = false) :
    (create parent name mode flags).runAlone (machine clock) (calm s)
      = (some ((s.insertAnswer clock parent.raw name mode .file).map fun attr =>
          ⟨attr, TTL, ⟨0⟩, ⟨attr.ino.raw⟩, fopenFlags flags.toUInt32⟩),
          calm (s.insertEffect clock parent.raw name mode .file)) :=
  alone_made (fun r => by
    cases r with
    | error err => rfl
    | ok attr => exact created_eq TTL attr ⟨0⟩ ⟨attr.ino.raw⟩ hflags) ..

theorem alone_mkdir (parent : INodeNo) (name : OsStr) (mode : UInt32) :
    (mkdir parent name mode).runAlone (machine clock) (calm s)
      = (some ((s.insertAnswer clock parent.raw name mode .directory).map fun attr =>
          ⟨attr, TTL, ⟨0⟩⟩), calm (s.insertEffect clock parent.raw name mode .directory)) :=
  alone_made (fun r => by cases r <;> rfl) ..

theorem alone_mknod (parent : INodeNo) (name : OsStr) (mode : UInt32) :
    (mknod parent name mode).runAlone (machine clock) (calm s)
      = (some ((s.insertAnswer clock parent.raw name mode .file).map fun attr => ⟨attr, TTL, ⟨0⟩⟩),
          calm (s.insertEffect clock parent.raw name mode .file)) :=
  alone_made (fun r => by cases r <;> rfl) ..

end MemFs
end Confuse
