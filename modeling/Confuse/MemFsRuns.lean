import Confuse.MemFsListing

/-!
# Runs of the file system in memory

Calls are made one after the other. Each inode then has the place that its name says, and what is
stored is the root, what has a name, and what a rename has replaced: that is never dropped.
-/

namespace Confuse

open Interaction

namespace MemFsCall
open MemFs
variable (clock : ℕ → SystemTime) (s : MemFs)

/-- What a call leaves behind when it runs alone. -/
def effect : MemFsCall → MemFs
  | .mknod _ parent name mode _ _ => s.insertEffect clock parent.raw name mode .file
  | .fs (.create _ parent name mode _ _) => s.insertEffect clock parent.raw name mode .file
  | .fs (.mkdir _ parent name mode _) => s.insertEffect clock parent.raw name mode .directory
  | .fs (.unlink _ parent name) => s.unlinkEffect clock parent.raw name
  | .fs (.rmdir _ parent name) => s.rmdirEffect clock parent.raw name
  | .fs (.rename _ parent name newparent newname _) =>
      s.renameEffect clock parent.raw name newparent.raw newname
  | .fs (.setattr _ ino args) => s.updated clock ino.raw fun now => INode.setattr args now
  | .fs (.write _ ino _ offset data _ _ _) =>
      s.updated clock ino.raw fun now => INode.write offset data now
  | .fs _ => s

/-- What a call answers when it runs alone. -/
def answer : (c : MemFsCall) → c.Reply
  | .mknod _ parent name mode _ _ =>
      (some ((s.insertAnswer clock parent.raw name mode .file).map fun attr => ⟨attr, TTL, ⟨0⟩⟩) :
        Confuse.Reply ReplyEntryPayload)
  | .fs (.lookup _ parent name) => some (s.lookupAnswer parent.raw name)
  | .fs (.getattr _ ino _) => some (s.getattrAnswer ino.raw)
  | .fs (.setattr _ ino args) => some (s.setattrAnswer clock ino.raw args)
  | .fs (.mkdir _ parent name mode _) =>
      (some ((s.insertAnswer clock parent.raw name mode .directory).map fun attr =>
        ⟨attr, TTL, ⟨0⟩⟩) : Confuse.Reply ReplyEntryPayload)
  | .fs (.unlink _ parent name) => some (s.unlinkAnswer parent.raw name)
  | .fs (.rmdir _ parent name) => some (s.rmdirAnswer parent.raw name)
  | .fs (.rename _ parent name _ _ _) => some (s.renameAnswer parent.raw name)
  | .fs (.open _ ino flags) => some (s.openAnswer ino.raw flags)
  | .fs (.opendir _ ino flags) => some (s.opendirAnswer ino.raw flags)
  | .fs (.create _ parent name mode _ flags) =>
      (some ((s.insertAnswer clock parent.raw name mode .file).map fun attr =>
        ⟨attr, TTL, ⟨0⟩, ⟨attr.ino.raw⟩, fopenFlags flags.toUInt32⟩) :
        Confuse.Reply ReplyCreatePayload)
  | .fs (.read _ ino _ offset size _ _) => some (s.readAnswer ino.raw offset size)
  | .fs (.write _ ino _ _ data _ _ _) => some (s.writeAnswer ino.raw data)
  | .fs (.release ..) | .fs (.releasedir ..) => some (.ok ())
  | .fs (.readdir _ ino _ offset) =>
      replyDirectory (some (s.readdirAnswer .capture ino.raw offset))
  | .fs (.readdirplus ..) => (⟨[], some (.error ENOSYS)⟩ : ReplyDirectoryPlus)
  | .fs (.statfs ..) => (some (.ok statfs) : Confuse.Reply StatfsPayload)
  | .fs (.getxattr ..) | .fs (.listxattr ..) => ReplyXattr.error ENOSYS
  | .fs (.getlk ..) => (some (.error ENOSYS) : Confuse.Reply ReplyLockPayload)
  | .fs (.fsync ..) | .fs (.fsyncdir ..) | .fs (.setxattr ..) | .fs (.access ..)
  | .fs (.setlk ..) | .fs (.fallocate ..) => (some (.error ENOSYS) : Confuse.Reply Unit)

variable {clock s}

/-- A call that asks for a size that a `Vec` can have. -/
theorem run_program {c : MemFsCall} (hc : c.panics = false) :
    c.program.run (Prog.Machine.alone (MemFs.machine clock)) (calm s)
      = (c.answer clock s, calm (c.effect clock s)) := by
  cases c with
  | mknod req parent name mode umask rdev => exact alone_mknod parent name mode
  | fs c =>
      cases c with
      | lookup req parent name => exact alone_lookup parent name
      | getattr req ino fh => exact alone_getattr ino
      | setattr req ino args => exact alone_setattr ino hc
      | mkdir req parent name mode umask => exact alone_mkdir parent name mode
      | unlink req parent name => exact alone_unlink parent name
      | rmdir req parent name => exact alone_rmdir parent name
      | rename req parent name newparent newname flags =>
          exact alone_rename parent name newparent newname
      | «open» req ino flags => exact alone_open ino hc
      | opendir req ino flags => exact alone_opendir ino hc
      | create req parent name mode umask flags => exact alone_create parent name mode hc
      | read req ino fh offset size flags lockOwner => exact alone_read ino offset size
      | write req ino fh offset data writeFlags flags lockOwner => exact alone_write ino hc
      | readdir req ino fh offset =>
          have hcells : (readdir .capture ino offset).runAlone (MemFs.machine clock) (calm s)
              = (some (s.readdirAnswer .capture ino.raw offset), calm s) := alone_readdir ..
          have hreply := congrArg (fun r => (replyDirectory r.1, r.2)) hcells
          exact (Prog.run_bind ..).trans hreply
      | _ => rfl

end MemFsCall

/-- What ties an inode to its name. -/
def INode.place (node : INode) : UInt64 × FileType × UInt64 × OsStr :=
  (node.ino, node.kind, node.parent, node.name)

namespace MemFs

/-- What a rename takes the new name away from. -/
def replaced (s : MemFs) (parent : UInt64) (name : OsStr) (newparent : UInt64) (newname : OsStr) :
    Multiset UInt64 :=
  ((s.children.erase (parent, name)).lookup (newparent, newname)).elim 0 fun ino => {ino}

/-- What one call does to the maps, and the inodes that it leaves without a name. -/
inductive Change (clock : ℕ → SystemTime) (s : MemFs) : Multiset UInt64 → MemFs → Prop
  | idle : Change clock s 0 s
  | ticked : Change clock s 0 s.tick
  | inserted (parent : UInt64) (name : OsStr) (mode : UInt32) (kind : NewNodeKind)
      (h : s.children.lookup (parent, name) = none) :
      Change clock s 0 (s.inserted clock parent name mode kind)
  | unlinked (parent : UInt64) (name : OsStr) (ino : UInt64)
      (h : s.children.lookup (parent, name) = some ino) :
      Change clock s 0 (s.unlinked clock parent name ino)
  | dirRemoved (parent : UInt64) (name : OsStr) (ino : UInt64)
      (h : s.children.lookup (parent, name) = some ino)
      (hempty : s.keepsDir parent name ino = false) :
      Change clock s 0 (s.dirRemoved clock parent name ino)
  | putBack (parent : UInt64) (name : OsStr) (ino : UInt64)
      (h : s.children.lookup (parent, name) = some ino) :
      Change clock s 0 (s.putBack parent name ino)
  | renamed (parent : UInt64) (name : OsStr) (newparent : UInt64) (newname : OsStr) (ino : UInt64)
      (h : s.children.lookup (parent, name) = some ino) :
      Change clock s (s.replaced parent name newparent newname)
        (s.renamed clock parent name newparent newname ino)
  | updated (ino : UInt64) (f : SystemTime → INode → INode)
      (hf : ∀ now node, (f now node).place = node.place) :
      Change clock s 0 (s.updated clock ino f)

theorem setattr_place (args : SetattrArgs) (now : SystemTime) (node : INode) :
    (node.setattr args now).place = node.place := by
  unfold INode.setattr
  split_ifs
  · rfl
  · cases hsize : args.size <;> rfl

theorem write_place (offset : UInt64) (data : List UInt8) (now : SystemTime) (node : INode) :
    (node.write offset data now).place = node.place := by
  unfold INode.write INode.growTo
  split_ifs <;> rfl

theorem touch_place (now : SystemTime) (node : INode) : (node.touch now).place = node.place := rfl

theorem touchParent_place (kind : NewNodeKind) (now : SystemTime) (node : INode) :
    (node.touchParent kind now).place = node.place := by cases kind <;> rfl

end MemFs

namespace MemFsCall
open MemFs

/-- A rename that finds the old name leaves without a name what had the new one. -/
def orphaned (s : MemFs) : MemFsCall → Multiset UInt64
  | .fs (.rename _ parent name newparent newname _) =>
      (s.children.lookup (parent.raw, name)).elim 0 fun _ =>
        s.replaced parent.raw name newparent.raw newname
  | _ => 0

variable (clock : ℕ → SystemTime) (s : MemFs)

theorem change_insert (parent : UInt64) (name : OsStr) (mode : UInt32) (kind : NewNodeKind) :
    Change clock s 0 (s.insertEffect clock parent name mode kind) := by
  unfold insertEffect
  cases hchild : s.children.lookup (parent, name) with
  | none => exact .inserted _ _ mode kind hchild
  | some ino => exact .idle

theorem effect_change (c : MemFsCall) : Change clock s (c.orphaned s) (c.effect clock s) := by
  cases c with
  | mknod req parent name mode umask rdev => exact change_insert clock s ..
  | fs c =>
      cases c with
      | setattr req ino args => exact .updated ino.raw _ fun now => setattr_place args now
      | write req ino fh offset data writeFlags flags lockOwner =>
          exact .updated ino.raw _ fun now => write_place offset data now
      | mkdir req parent name mode umask => exact change_insert clock s ..
      | create req parent name mode umask flags => exact change_insert clock s ..
      | unlink req parent name =>
          change Change clock s 0 (s.unlinkEffect clock parent.raw name)
          unfold unlinkEffect
          cases hchild : s.children.lookup (parent.raw, name) with
          | none => exact .ticked
          | some ino => exact .unlinked _ _ ino hchild
      | rmdir req parent name =>
          change Change clock s 0 (s.rmdirEffect clock parent.raw name)
          unfold rmdirEffect
          cases hchild : s.children.lookup (parent.raw, name) with
          | none => exact .ticked
          | some ino =>
              dsimp only [Option.elim_some]
              cases hkeeps : s.keepsDir parent.raw name ino with
              | true => exact .putBack _ _ ino hchild
              | false => exact .dirRemoved _ _ ino hchild hkeeps
      | rename req parent name newparent newname flags =>
          change Change clock s ((s.children.lookup (parent.raw, name)).elim 0 fun _ => _)
            (s.renameEffect clock parent.raw name newparent.raw newname)
          unfold renameEffect
          cases hchild : s.children.lookup (parent.raw, name) with
          | none => exact .ticked
          | some ino => exact .renamed _ _ _ _ ino hchild
      | _ => exact .idle

end MemFsCall

namespace MemFs

/-! ## Places -/

/-- Every name leads to a stored inode that records it. -/
def Placed (inodes : KeyedMap UInt64 INode) (children : KeyedMap (UInt64 × OsStr) UInt64) : Prop :=
  ∀ key i, children.lookup key = some i →
    ∃ node, inodes.lookup i = some node ∧ (node.parent, node.name) = key

section Places
variable {inodes : KeyedMap UInt64 INode} {children : KeyedMap (UInt64 × OsStr) UInt64}

theorem place_parent_name {node node' : INode} (h : node'.place = node.place) :
    (node'.parent, node'.name) = (node.parent, node.name) :=
  congrArg (fun place : UInt64 × FileType × UInt64 × OsStr => (place.2.2.1, place.2.2.2)) h

theorem Placed.modify (h : Placed inodes children) (i : UInt64) {f : INode → INode}
    (hf : ∀ node, (f node).place = node.place) : Placed (KeyedMap.modify i f inodes) children := by
  intro key j hj
  obtain ⟨node, hnode, hplace⟩ := h key j hj
  rw [KeyedMap.lookup_modify]
  split_ifs with hji
  · subst hji
    exact ⟨f node, by rw [hnode, Option.map_some], (place_parent_name (hf node)).trans hplace⟩
  · exact ⟨node, hnode, hplace⟩

/-- A new inode under its name. -/
theorem Placed.insert (h : Placed inodes children) {i : UInt64} (hi : i ∉ children.values)
    (node : INode) :
    Placed (inodes.insert i node) (children.insert (node.parent, node.name) i) := by
  intro key j hj
  by_cases hkey : key = (node.parent, node.name)
  · rw [hkey, AList.lookup_insert] at hj
    obtain rfl := Option.some.inj hj
    exact ⟨node, AList.lookup_insert _, hkey.symm⟩
  · rw [AList.lookup_insert_ne hkey] at hj
    have hji : j ≠ i := by
      rintro rfl
      exact hi (KeyedMap.mem_values.mpr ⟨key, hj⟩)
    rw [AList.lookup_insert_ne hji]
    exact h key j hj

theorem Placed.erase_name (h : Placed inodes children) (key : UInt64 × OsStr) :
    Placed inodes (children.erase key) := by
  intro key' j hj
  refine h key' j ?_
  by_cases hkey : key' = key
  · rw [hkey, AList.lookup_erase] at hj
    cases hj
  · rwa [AList.lookup_erase_ne hkey] at hj

/-- The inode of a name goes with the name. -/
theorem Placed.remove (h : Placed inodes children) (hnodup : children.values.Nodup)
    {key : UInt64 × OsStr} {i : UInt64} (hi : children.lookup key = some i) :
    Placed (inodes.erase i) (children.erase key) := by
  intro key' j hj
  rw [KeyedMap.values_erase hi, Multiset.nodup_cons] at hnodup
  have hji : j ≠ i := by
    rintro rfl
    exact hnodup.1 (KeyedMap.mem_values.mpr ⟨key', hj⟩)
  rw [AList.lookup_erase_ne hji]
  exact h.erase_name key key' j hj

/-- An inode that has no name moves to one. -/
theorem Placed.move (h : Placed inodes children) {i : UInt64} (hi : i ∉ children.values)
    (hstored : (inodes.lookup i).isSome) (parent : UInt64) (name : OsStr) (now : SystemTime) :
    Placed (KeyedMap.modify i (INode.moveTo parent name now) inodes)
      (children.insert (parent, name) i) := by
  intro key j hj
  rw [KeyedMap.lookup_modify]
  by_cases hkey : key = (parent, name)
  · rw [hkey, AList.lookup_insert] at hj
    obtain rfl := Option.some.inj hj
    obtain ⟨node, hnode⟩ := Option.isSome_iff_exists.mp hstored
    rw [if_pos rfl, hnode, Option.map_some]
    exact ⟨_, rfl, hkey.symm⟩
  · rw [AList.lookup_insert_ne hkey] at hj
    have hji : j ≠ i := by
      rintro rfl
      exact hi (KeyedMap.mem_values.mpr ⟨key, hj⟩)
    rw [if_neg hji]
    exact h key j hj

end Places

/-! ## The ledger -/

/-- What is stored is the root, what has a name, and what lost its name to a rename. -/
def Balanced (inodes : KeyedMap UInt64 INode) (children : KeyedMap (UInt64 × OsStr) UInt64)
    (orphans : Multiset UInt64) : Prop :=
  inodes.keySet = ROOT_INO_RAW ::ₘ (children.values + orphans)

namespace Balanced
variable {inodes : KeyedMap UInt64 INode} {children : KeyedMap (UInt64 × OsStr) UInt64}
  {orphans : Multiset UInt64} {key : UInt64 × OsStr} {i : UInt64}

theorem modify (h : Balanced inodes children orphans) (i : UInt64) (f : INode → INode) :
    Balanced (KeyedMap.modify i f inodes) children orphans :=
  (KeyedMap.keySet_modify i f inodes).trans h

theorem insert (h : Balanced inodes children orphans) (hkey : children.lookup key = none)
    (hi : inodes.lookup i = none) (node : INode) :
    Balanced (inodes.insert i node) (children.insert key i) orphans := by
  unfold Balanced
  rw [KeyedMap.keySet_insert node hi, KeyedMap.values_insert_of_lookup_eq_none i hkey, h,
    Multiset.cons_add, Multiset.cons_swap]

/-- A name is taken away, and its inode is left. -/
theorem release (h : Balanced inodes children orphans) (key : UInt64 × OsStr) :
    Balanced inodes (children.erase key)
      ((children.lookup key).elim 0 (fun ino => {ino}) + orphans) := by
  unfold Balanced at h ⊢
  rw [h]
  cases hkey : children.lookup key with
  | none =>
      rw [KeyedMap.erase_of_lookup_eq_none hkey]
      exact congrArg (fun rest => ROOT_INO_RAW ::ₘ (children.values + rest)) (zero_add orphans).symm
  | some i =>
      rw [KeyedMap.values_erase hkey, Option.elim_some, Multiset.singleton_add, Multiset.cons_add,
        Multiset.add_cons]

/-- An inode that was left gets a free name. -/
theorem adopt (h : Balanced inodes children (i ::ₘ orphans)) (hkey : children.lookup key = none) :
    Balanced inodes (children.insert key i) orphans := by
  unfold Balanced at h ⊢
  rw [h, KeyedMap.values_insert_of_lookup_eq_none i hkey, Multiset.cons_add, Multiset.add_cons]

/-- The inode of a name goes with the name. -/
theorem remove (h : Balanced inodes children orphans) (hkey : children.lookup key = some i)
    (hi : (inodes.lookup i).isSome) : Balanced (inodes.erase i) (children.erase key) orphans := by
  have hreleased := h.release key
  rw [hkey, Option.elim_some, Multiset.singleton_add] at hreleased
  unfold Balanced at hreleased ⊢
  rw [KeyedMap.keySet_erase hi, Multiset.add_cons, Multiset.cons_swap] at hreleased
  exact (Multiset.cons_inj_right i).mp hreleased

end Balanced

/-! ## All runs -/

/-- What holds between the calls of a run that may still take some numbers. -/
structure Settled (room : ℕ) (orphans : Multiset UInt64) (s : MemFs) : Prop where
  sound : SoundWith (Multiset.replicate room .permit) s
  placed : Placed s.inodes s.children
  balanced : Balanced s.inodes s.children orphans

section Settled
variable {clock : ℕ → SystemTime} {s s' : MemFs} {room : ℕ} {orphans lost : Multiset UInt64}

theorem Settled.next_unused (h : Settled room orphans s) : s.inodes.lookup s.nextIno = none := by
  by_contra hstored
  obtain ⟨node, hnode⟩ := Option.ne_none_iff_exists'.mp hstored
  exact Nat.lt_irrefl _ (h.sound.stored hnode).2.1

theorem Settled.stored (h : Settled room orphans s) {key : UInt64 × OsStr} {i : UInt64}
    (hkey : s.children.lookup key = some i) : (s.inodes.lookup i).isSome :=
  h.sound.named i (KeyedMap.mem_values.mpr ⟨key, hkey⟩)

theorem Settled.nodup_values (h : Settled room orphans s) : s.children.values.Nodup :=
  Multiset.nodup_of_le (Multiset.le_add_left _ _) h.sound.distinct

/-- The inode of a name has no name when that one is taken away. -/
theorem Settled.unnamed (h : Settled room orphans s) {key : UInt64 × OsStr} {i : UInt64}
    (hkey : s.children.lookup key = some i) : i ∉ KeyedMap.values (s.children.erase key) := by
  have hnodup := h.nodup_values
  rw [KeyedMap.values_erase hkey] at hnodup
  exact (Multiset.nodup_cons.mp hnodup).1

theorem placed_touchedParents {inodes : KeyedMap UInt64 INode}
    {children : KeyedMap (UInt64 × OsStr) UInt64} (h : Placed inodes children)
    (parent newparent : UInt64) (now : SystemTime) :
    Placed (touchedParents parent newparent now inodes) children := by
  unfold touchedParents
  split_ifs
  · exact (h.modify parent (touch_place now)).modify newparent (touch_place now)
  · exact h.modify parent (touch_place now)

theorem balanced_touchedParents {inodes : KeyedMap UInt64 INode}
    {children : KeyedMap (UInt64 × OsStr) UInt64} (h : Balanced inodes children orphans)
    (parent newparent : UInt64) (now : SystemTime) :
    Balanced (touchedParents parent newparent now inodes) children orphans := by
  unfold touchedParents
  split_ifs
  · exact (h.modify parent _).modify newparent _
  · exact h.modify parent _

theorem Settled.placed_change (h : Settled room orphans s) (hchange : Change clock s lost s') :
    Placed s'.inodes s'.children := by
  cases hchange with
  | idle => exact h.placed
  | ticked => exact h.placed
  | inserted parent name mode kind hkey =>
      have hnew : s.nextIno ∉ s.children.values := by
        intro hmem
        have hstored := h.sound.named _ hmem
        rw [h.next_unused] at hstored
        cases hstored
      have hplaced := h.placed.insert hnew (s.newNode clock parent name mode kind)
      cases kind <;> exact hplaced.modify parent (touchParent_place _ _)
  | unlinked parent name ino hkey =>
      exact (h.placed.remove h.nodup_values hkey).modify parent fun _ => rfl
  | dirRemoved parent name ino hkey hempty =>
      exact (h.placed.remove h.nodup_values hkey).modify parent fun _ => rfl
  | putBack parent name ino hkey =>
      intro key j hj
      refine h.placed key j ?_
      by_cases hsame : key = (parent, name)
      · subst hsame
        exact hkey.trans ((AList.lookup_insert _).symm.trans hj)
      · refine (AList.lookup_erase_ne hsame).symm.trans ?_
        exact (AList.lookup_insert_ne hsame).symm.trans hj
  | renamed parent name newparent newname ino hkey =>
      refine placed_touchedParents ?_ _ _ _
      refine ((h.placed.erase_name _).erase_name _).move ?_ (h.stored hkey) newparent newname _
      exact fun hmem => h.unnamed hkey (Multiset.mem_of_le (KeyedMap.values_erase_le _ _) hmem)
  | updated ino f hf => exact h.placed.modify ino (hf _)

theorem Settled.balanced_change (h : Settled room orphans s) (hchange : Change clock s lost s') :
    Balanced s'.inodes s'.children (lost + orphans) := by
  have hnone : Balanced s.inodes s.children (0 + orphans) := by
    rw [zero_add]
    exact h.balanced
  cases hchange with
  | idle => exact hnone
  | ticked => exact hnone
  | inserted parent name mode kind hkey =>
      exact (hnone.insert hkey h.next_unused _).modify parent _
  | unlinked parent name ino hkey => exact (hnone.remove hkey (h.stored hkey)).modify parent _
  | dirRemoved parent name ino hkey hempty =>
      exact (hnone.remove hkey (h.stored hkey)).modify parent _
  | putBack parent name ino hkey =>
      have hreleased := hnone.release (parent, name)
      rw [hkey] at hreleased
      exact hreleased.adopt (AList.lookup_erase _ _)
  | renamed parent name newparent newname ino hkey =>
      refine balanced_touchedParents (Balanced.modify ?_ _ _) _ _ _
      refine Balanced.adopt ?_ (AList.lookup_erase _ _)
      have hreleased := (h.balanced.release (parent, name)).release (newparent, newname)
      rw [hkey, Option.elim_some, Multiset.singleton_add, Multiset.add_cons] at hreleased
      exact hreleased
  | updated ino f hf => exact hnone.modify ino _

/-- One call keeps what holds between the calls. -/
theorem Settled.step (h : Settled (room + 1) orphans s) {c : MemFsCall} (hc : c.panics = false) :
    Settled room (c.orphaned s + orphans) (c.effect clock s) := by
  have hchange := c.effect_change clock s
  refine ⟨?_, h.placed_change hchange, h.balanced_change hchange⟩
  have hkeeps : c.program.Keeps (machine clock) SoundWith False (Accounted False c) {.permit} :=
    keeps_program c (by simp [hc])
  have hsound := h.sound
  rw [Multiset.replicate_succ, ← Multiset.singleton_add] at hsound
  obtain ⟨held', hsound', -, -⟩ := hkeeps.runAlone (s := calm s) hsound (by simp [calm])
  rw [MemFsCall.run_program hc] at hsound'
  exact hsound'.mono (Multiset.le_add_left _ _)

end Settled

/-- The calls are served one after the other. -/
def served (clock : ℕ → SystemTime) (calls : List MemFsCall) (s : MemFs × (MemFsLock → Bool)) :
    MemFs × (MemFsLock → Bool) :=
  calls.foldl (fun s c => (c.program.run (Prog.Machine.alone (machine clock)) s).2) s

/-- What the calls leave without a name. -/
def orphans (clock : ℕ → SystemTime) :
    List MemFsCall → MemFs × (MemFsLock → Bool) → Multiset UInt64
  | [], _ => 0
  | c :: rest, s =>
      c.orphaned s.1 + orphans clock rest (c.program.run (Prog.Machine.alone (machine clock)) s).2

section Runs
variable {clock : ℕ → SystemTime} {calls : List MemFsCall} {s : MemFs} {room : ℕ}
  {lost : Multiset UInt64}

variable (clock s) in
theorem run_effect {c : MemFsCall} (hc : c.panics = false) :
    (c.program.run (Prog.Machine.alone (machine clock)) (calm s)).2 = calm (c.effect clock s) :=
  congrArg Prod.snd (MemFsCall.run_program hc)

variable (clock) in
/-- Runs of calls that ask for sizes that a `Vec` can have. -/
theorem Settled.run (h : Settled (room + calls.length) lost s)
    (hsizes : ∀ c ∈ calls, c.panics = false) :
    ∃ s', served clock calls (calm s) = calm s' ∧
      Settled room (orphans clock calls (calm s) + lost) s' := by
  induction calls generalizing s lost with
  | nil =>
      refine ⟨s, rfl, ?_⟩
      rw [orphans, zero_add]
      exact h
  | cons c rest ih =>
      rw [List.forall_mem_cons] at hsizes
      have hstep : Settled (room + rest.length) (c.orphaned s + lost) (c.effect clock s) :=
        Settled.step (by rwa [List.length_cons, ← Nat.add_assoc] at h) hsizes.1
      obtain ⟨s', hserved, hsettled⟩ := ih hstep hsizes.2
      have hrun := run_effect clock s hsizes.1
      refine ⟨s', ?_, ?_⟩
      · rw [served, List.foldl_cons, hrun]
        exact hserved
      · rw [orphans, hrun, add_assoc, add_left_comm]
        exact hsettled

theorem settled_new (now : SystemTime) (n : ℕ) (hfew : n + 2 < 2 ^ 64) : Settled n 0 (new now) where
  sound := soundWith_new now n hfew
  placed := fun key i hi => by cases hi
  balanced := rfl

/-- Runs from the start. -/
theorem runs_settled (clock : ℕ → SystemTime) (now : SystemTime) {calls : List MemFsCall}
    (hsizes : ∀ c ∈ calls, c.panics = false) (hfew : calls.length + 2 < 2 ^ 64) :
    ∃ s', served clock calls (calm (new now)) = calm s' ∧
      Settled 0 (orphans clock calls (calm (new now))) s' := by
  have hnew : Settled (0 + calls.length) 0 (new now) := by
    rw [zero_add]
    exact settled_new now _ hfew
  obtain ⟨s', hserved, hsettled⟩ := hnew.run clock hsizes
  rw [add_zero] at hsettled
  exact ⟨s', hserved, hsettled⟩

/-- What is stored after a run of calls is the root, what has a name, and what renames have replaced;
that is never dropped. -/
theorem stored_are_accounted (clock : ℕ → SystemTime) (now : SystemTime) {calls : List MemFsCall}
    (hsizes : ∀ c ∈ calls, c.panics = false) (hfew : calls.length + 2 < 2 ^ 64) :
    (served clock calls (calm (new now))).1.inodes.keySet
      = ROOT_INO_RAW ::ₘ ((served clock calls (calm (new now))).1.children.values
          + orphans clock calls (calm (new now))) := by
  obtain ⟨s', hserved, hsettled⟩ := runs_settled clock now hsizes hfew
  rw [hserved]
  exact hsettled.balanced

end Runs

/-- A file is made in a new directory and moved to the root. -/
def movedFile : List MemFsCall :=
  [.fs (.mkdir ⟨0, 0, 1⟩ .ROOT (.new ['d']) 0o755 0), .mknod ⟨0, 0, 1⟩ ⟨2⟩ (.new ['f']) 0o644 0 0,
    .fs (.rename ⟨0, 0, 1⟩ ⟨2⟩ (.new ['f']) .ROOT (.new ['g']) ⟨0⟩)]

theorem movedFile_sizes : ∀ c ∈ movedFile, c.panics = false := by
  intro c hc
  simp only [movedFile, List.mem_cons, List.not_mem_nil, or_false] at hc
  rcases hc with rfl | rfl | rfl <;> rfl

/-- The file takes the name of another. -/
def replacedFile : List MemFsCall :=
  movedFile ++ [.mknod ⟨0, 0, 1⟩ .ROOT (.new ['h']) 0o644 0 0,
    .fs (.rename ⟨0, 0, 1⟩ .ROOT (.new ['g']) .ROOT (.new ['h']) ⟨0⟩)]

theorem replacedFile_sizes : ∀ c ∈ replacedFile, c.panics = false := by
  intro c hc
  rcases List.mem_append.mp hc with hc | hc
  · exact movedFile_sizes c hc
  · simp only [List.mem_cons, List.not_mem_nil, or_false] at hc
    rcases hc with rfl | rfl <;> rfl

theorem stored_are_accounted_replacedFile :
    orphans stillClock replacedFile (calm (new .UNIX_EPOCH)) = {4} ∧
      (served stillClock replacedFile (calm (new .UNIX_EPOCH))).1.inodes.keySet
        = ROOT_INO_RAW ::ₘ ((served stillClock replacedFile (calm (new .UNIX_EPOCH))).1.children.values
          + orphans stillClock replacedFile (calm (new .UNIX_EPOCH))) :=
  ⟨rfl, stored_are_accounted stillClock .UNIX_EPOCH replacedFile_sizes (by decide)⟩

section Runs
variable {clock : ℕ → SystemTime} {calls : List MemFsCall} {s : MemFs} {room : ℕ}
  {lost : Multiset UInt64}

/-- Every name leads to a stored inode that records its parent and its name. -/
theorem names_are_recorded (clock : ℕ → SystemTime) (now : SystemTime) {calls : List MemFsCall}
    (hsizes : ∀ c ∈ calls, c.panics = false) (hfew : calls.length + 2 < 2 ^ 64)
    {key : UInt64 × OsStr} {ino : UInt64}
    (hkey : (served clock calls (calm (new now))).1.children.lookup key = some ino) :
    ∃ node, (served clock calls (calm (new now))).1.inodes.lookup ino = some node ∧
      (node.parent, node.name) = key := by
  obtain ⟨s', hserved, hsettled⟩ := runs_settled clock now hsizes hfew
  rw [hserved] at hkey ⊢
  exact hsettled.placed key ino hkey

end Runs

theorem names_are_recorded_movedFile :
    ∃ node, (served stillClock movedFile (calm (new .UNIX_EPOCH))).1.inodes.lookup 3 = some node ∧
      (node.parent, node.name) = (ROOT_INO_RAW, .new ['g']) := by
  have hkey : (served stillClock movedFile (calm (new .UNIX_EPOCH))).1.children.lookup
      (ROOT_INO_RAW, .new ['g']) = some 3 := rfl
  exact names_are_recorded stillClock .UNIX_EPOCH movedFile_sizes (by decide) hkey

end MemFs
end Confuse
