import Confuse.MemFsPages
import Confuse.MountedNames
import Confuse.PagedDirectories

/-!
# Listings of the mounted file system in memory

A listing from the start shows the two dot names and every name in the directory once. The check
before a directory is deleted looks past children that have a dot name, which `rmdir` does not.
-/

namespace Confuse

open Interaction Capacity

/-! ## The names of a directory -/

namespace MemFs
variable {s : MemFs} {room : ℕ} {lost : Multiset UInt64}

theorem names_entriesFrom (idx : ℕ) (nodes : List (Option INode)) :
    (entriesFrom idx nodes).map DirectoryEntryPayload.name
      = nodes.filterMap fun node => node.map INode.name := by
  induction nodes generalizing idx with
  | nil => rfl
  | cons node rest ih =>
      rw [entriesFrom, List.map_append, ih]
      cases node <;> rfl

/-- A child's name leads to it. -/
theorem Settled.child_name (h : Settled room lost s) {ino i : UInt64}
    (hi : i ∈ s.sortedChildren ino) :
    ∃ node, s.inodes.lookup i = some node ∧ s.children.lookup (ino, node.name) = some i := by
  obtain ⟨name, hname⟩ := mem_sortedChildren.mp hi
  obtain ⟨node, hnode, hplace⟩ := h.placed _ _ hname
  obtain ⟨-, rfl⟩ := Prod.mk.inj hplace
  exact ⟨node, hnode, hname⟩

theorem Settled.mem_names (h : Settled room lost s) (ino : UInt64) (name : OsStr) :
    name ∈ (s.childEntries ino).map DirectoryEntryPayload.name
      ↔ (s.children.lookup (ino, name)).isSome := by
  rw [childEntries, names_entriesFrom, List.filterMap_map, List.mem_filterMap]
  constructor
  · rintro ⟨i, hi, hname⟩
    obtain ⟨node, hnode, hchild⟩ := h.child_name hi
    rw [Function.comp_apply, hnode] at hname
    obtain rfl := Option.some.inj hname
    rw [hchild]
    rfl
  · intro hchild
    obtain ⟨i, hi⟩ := Option.isSome_iff_exists.mp hchild
    obtain ⟨node, hnode, hplace⟩ := h.placed _ _ hi
    obtain ⟨-, rfl⟩ := Prod.mk.inj hplace
    refine ⟨i, mem_sortedChildren.mpr ⟨node.name, hi⟩, ?_⟩
    rw [Function.comp_apply, hnode]
    rfl

theorem Settled.nodup_names (h : Settled room lost s) (ino : UInt64) :
    ((s.childEntries ino).map DirectoryEntryPayload.name).Nodup := by
  rw [childEntries, names_entriesFrom, List.filterMap_map]
  apply List.pairwise_filterMap.mpr
  refine (nodup_sortedChildren h.nodup_values ino).imp_of_mem ?_
  intro i j hi hj hne name hname name' hname' heq
  obtain ⟨node, hnode, hchild⟩ := h.child_name hi
  obtain ⟨node', hnode', hchild'⟩ := h.child_name hj
  rw [Function.comp_apply, hnode] at hname
  rw [Function.comp_apply, hnode'] at hname'
  obtain rfl := Option.some.inj hname
  obtain rfl := Option.some.inj hname'
  rw [heq] at hchild
  exact hne (Option.some.inj (hchild.symm.trans hchild'))

/-- A reply with room for all of it gets the whole directory. -/
theorem Settled.listed_whole (h : Settled room lost s) (ino parent : UInt64)
    (hload : load DirectoryEntryPayload.bytes (s.dirEntries ino parent) < 2 ^ 64) :
    (s.listed .capture ino parent 0).entries = s.dirEntries ino parent := by
  have hall : behind 0 (s.dirEntries ino parent) = s.dirEntries ino parent :=
    (behind_eq_after (h.directory ino parent) 0).trans Directory.after_zero
  change (addAll .capture (behind 0 (s.dirEntries ino parent)) .empty).entries = _
  rw [hall]
  apply (addAll_longestFit .capture hload).eq_of_fits
  exact Nat.le_of_lt_succ hload

end MemFs

/-! ## A listing that the caller accepts -/

/-- A caller that accepts everything is shown the whole reply. -/
theorem World.findFiles_showAll {β φ : Type} (pf : Platform) {h : Host β φ} (notices : Notices)
    (fileName : U16CStr) (handle : DirectoryHandle) {w : World β φ} (haccepts : h.AcceptsAll)
    (hnames : ∀ entry ∈ (w.replyAt h fileName handle).entries, entry.fileName ≠ none) :
    ShowAll (w.replyAt h fileName handle).entries
      (listing (w.newEvents pf h notices (findFiles pf fileName handle.context))).delivered := by
  obtain ⟨emitted, ⟨n, hshow, hend⟩, -⟩ := w.findFiles_listedTo pf h notices fileName handle
  have hwhole : n = (w.replyAt h fileName handle).entries.length := by
    rcases hend with ⟨-, hstop⟩ | ⟨entry, hentry, hname, -⟩
    · apply hstop.resolve_right
      rintro ⟨data, hdata⟩
      obtain ⟨caller, hcaller⟩ := newEvents_answered pf h notices _ w _ hdata
      rw [haccepts] at hcaller
      cases hcaller
    · exact absurd hname (hnames entry (List.mem_of_getElem? hentry))
  rwa [hwhole, List.take_length] at hshow

namespace Mount
open MemFs
variable {φ : Type} {m : Mount φ}

/-- The entries of a directory. -/
def dirEntries (m : Mount φ) (ino : INodeNo) (dir : INode) : List DirectoryEntryPayload :=
  m.world.backend.1.dirEntries ino.raw dir.parent

variable {ino : INodeNo} {dir : INode}

/-- A directory is answered in one reply. -/
theorem reply_readdir (h : m.Fits) (hdir : m.world.backend.1.inodes.lookup ino.raw = some dir)
    (hkind : dir.kind = .directory)
    (hload : load DirectoryEntryPayload.bytes (m.dirEntries ino dir) < 2 ^ 64) (req : Request)
    (fh : FileHandle) : (m.host.reply (.readdir req ino fh 0) m.world.backend).1
      = (⟨m.dirEntries ino dir, some (.ok ())⟩ : ReplyDirectory) := by
  obtain ⟨s, hs, hsettled⟩ := h.settled
  unfold dirEntries at hload ⊢
  rw [hs] at hdir hload ⊢
  rw [reply_calm m rfl s]
  have hanswer : s.readdirAnswer .capture ino.raw 0 = s.listed .capture ino.raw dir.parent 0 := by
    rw [readdirAnswer, show s.inodes.lookup ino.raw = some dir from hdir, Option.elim_some,
      if_neg (not_not.mpr hkind)]
  change replyDirectory (some (s.readdirAnswer .capture ino.raw 0)) = _
  rw [hanswer]
  exact congrArg (fun entries => ReplyDirectory.mk entries (some (.ok ())))
    (hsettled.listed_whole ino.raw dir.parent hload)

/-- Every name of a directory has a form for the caller. -/
theorem fileName_ne_none (h : m.Fits) : ∀ entry ∈ m.dirEntries ino dir, entry.fileName ≠ none := by
  have hclean := h.clean
  obtain ⟨s, hs, hsettled⟩ := h.settled
  unfold dirEntries
  rw [hs] at hclean ⊢
  have hfrom : ∀ str : Str, '\x00' ∉ str → U16CStr.fromStr str ≠ none := by
    intro str hstr
    rw [U16CStr.fromStr, dif_neg hstr]
    exact Option.some_ne_none _
  intro entry hentry
  apply hfrom
  rcases List.mem_cons.mp hentry with rfl | hentry
  · simp [dot]
  · rcases List.mem_cons.mp hentry with rfl | hentry
    · simp [dotDot]
    · have hname := (hsettled.mem_names ino.raw entry.name).mp (List.mem_map_of_mem hentry)
      obtain ⟨i, hi⟩ := Option.isSome_iff_exists.mp hname
      exact hclean _ i hi

/-- A listing of a directory handle from the start shows the dot names and every name in the
directory, each once. -/
theorem mounted_listing_shows_every_name (h : m.Fits) (haccepts : m.surroundings.AcceptsAll)
    {handle : DirectoryHandle}
    (hdir : m.world.backend.1.inodes.lookup handle.context.ino.raw = some dir)
    (hkind : dir.kind = .directory)
    (hload : load DirectoryEntryPayload.bytes (m.dirEntries handle.context.ino dir) < 2 ^ 64)
    (fileName : U16CStr) (hstart : m.world.offsetAt fileName.toStringLossy = 0) :
    ∃ names : List OsStr, names.Nodup ∧
      (∀ name, name ∈ names ↔
        (m.world.backend.1.children.lookup (handle.context.ino.raw, name)).isSome) ∧
      List.Forall₂ (fun name data => U16CStr.fromStr name.toStringLossy = some data.fileName)
        (dot :: dotDot :: names) (listing (m.world.newEvents m.pf m.host m.notices
          (findFiles m.pf fileName handle.context))).delivered := by
  have hrequest : m.world.requestAt fileName.toStringLossy = 0 := by
    rw [World.requestAt, hstart]
    rfl
  have hreply : m.world.replyAt m.host fileName handle
      = ⟨m.dirEntries handle.context.ino dir, some (.ok ())⟩ := by
    rw [World.replyAt, hrequest]
    exact reply_readdir h hdir hkind hload _ _
  have hentries : (m.world.replyAt m.host fileName handle).entries
      = m.dirEntries handle.context.ino dir := by rw [hreply]
  have hnames : ∀ entry ∈ (m.world.replyAt m.host fileName handle).entries,
      entry.fileName ≠ none := by
    rw [hentries]
    exact fileName_ne_none h
  have hshow := World.findFiles_showAll m.pf m.notices fileName handle (h := m.host) haccepts hnames
  rw [hentries] at hshow
  obtain ⟨s, hs, hsettled⟩ := h.settled
  rw [hs]
  refine ⟨(s.childEntries handle.context.ino.raw).map DirectoryEntryPayload.name,
    hsettled.nodup_names _, hsettled.mem_names _, ?_⟩
  have hshown : (m.dirEntries handle.context.ino dir).map DirectoryEntryPayload.name
      = dot :: dotDot :: (s.childEntries handle.context.ino.raw).map DirectoryEntryPayload.name := by
    rw [dirEntries, hs]
    rfl
  rw [← hshown, List.forall₂_map_left_iff]
  apply hshow.imp
  rintro entry data ⟨name, perm, hname, rfl⟩
  exact hname

/-! ## The check before a directory is deleted -/

/-- The check passes over children that have a dot name. -/
theorem check_passes_iff (h : m.Fits) {context : AdapterContext} (hino : context.ino ≠ ⟨0⟩)
    (hdir : m.world.backend.1.inodes.lookup context.ino.raw = some dir) (hkind : dir.kind = .directory)
    (hload : load DirectoryEntryPayload.bytes (m.dirEntries context.ino dir) < 2 ^ 64)
    (fileName : U16CStr) :
    (((Callback.deleteDirectory fileName context).routine m.pf).run
        (Confuse.machine m.pf m.host m.notices) m.world).1 = (.ok () : Except NtStatus Unit)
      ↔ ∀ name, (m.world.backend.1.children.lookup (context.ino.raw, name)).isSome →
        isDotName name = true := by
  let req := requestFromIds context.requestIds
  have hcheck : (((Callback.deleteDirectory fileName context).routine m.pf).run
      (Confuse.machine m.pf m.host m.notices) m.world).1
        = ((precheckDirectoryDelete req context.ino).run
          (Confuse.machine m.pf m.host m.notices) m.world).1 := by
    change ((deleteDirectory m.pf fileName context).run _ _).1 = _
    rw [deleteDirectory, withResolved_of_open hino, Prog.run_bind]
    rfl
  have hreply := reply_readdir h hdir hkind hload req ⟨0⟩
  obtain ⟨s, hs, hsettled⟩ := h.settled
  have hnode : s.inodes.lookup context.ino.raw = some dir := by
    rw [hs] at hdir
    exact hdir
  have hattr : m.world.checkedAttr m.host req context.ino
      = ((some (.ok ⟨dir.toAttr, TTL⟩) : Reply ReplyAttrPayload), m.world.backend) := by
    rw [World.checkedAttr, hs, reply_calm m rfl s]
    refine Prod.ext ?_ rfl
    change some (s.getattrAnswer context.ino.raw) = _
    rw [getattrAnswer, nodeAnswer, hnode]
    rfl
  rw [hcheck, World.run_precheckDirectoryDelete, hattr, hreply]
  dsimp only
  rw [if_neg (not_not.mpr (show dir.toAttr.kind = .directory from hkind))]
  refine (World.checkPage_ok_iff (m.dirEntries context.ino dir)).trans ?_
  rw [dirEntries, hs, MemFs.dirEntries, List.forall_mem_cons, List.forall_mem_cons]
  have hdots : ¬ DirectoryEntryPayload.IsChild ⟨context.ino, 1, .directory, dot⟩ ∧
      ¬ DirectoryEntryPayload.IsChild ⟨⟨dir.parent⟩, 2, .directory, dotDot⟩ := by
    constructor <;> simp [DirectoryEntryPayload.IsChild, isDotName, dot, dotDot]
  constructor
  · rintro ⟨-, -, hchildren⟩ name hname
    obtain ⟨entry, hentry, rfl⟩ := List.mem_map.mp ((hsettled.mem_names _ name).mpr hname)
    exact Bool.eq_true_of_not_eq_false (hchildren entry hentry)
  · intro hnames
    refine ⟨hdots.1, hdots.2, fun entry hentry hchild => ?_⟩
    have hname := hnames entry.name ((hsettled.mem_names _ _).mp (List.mem_map_of_mem hentry))
    exact Bool.noConfusion (hname.symm.trans hchild)

/-- `rmdir` does not. -/
theorem rmdir_succeeds_iff (h : m.Fits)
    (hnamed : m.world.backend.1.children.lookup (dir.parent, dir.name) = some ino.raw)
    (hapart : dir.parent ≠ ino.raw) (req : Request) :
    (m.host.reply (.rmdir req ⟨dir.parent⟩ dir.name) m.world.backend).1
        = (some (.ok ()) : Reply Unit)
      ↔ ∀ name, ¬ (m.world.backend.1.children.lookup (ino.raw, name)).isSome := by
  obtain ⟨s, hs, -⟩ := h.settled
  rw [hs] at hnamed ⊢
  rw [reply_calm m rfl s]
  have hkey : s.children.lookup (dir.parent, dir.name) = some ino.raw := hnamed
  have hchild : ∀ name, (s.children.erase (dir.parent, dir.name)).lookup (ino.raw, name)
      = s.children.lookup (ino.raw, name) :=
    fun name => AList.lookup_erase_ne fun heq => hapart (Prod.mk.inj heq).1.symm
  have hkeeps : s.keepsDir dir.parent dir.name ino.raw = true
      ↔ ∃ name, (s.children.lookup (ino.raw, name)).isSome := by
    rw [keepsDir, hasChildren, List.any_eq_true]
    constructor
    · rintro ⟨⟨⟨parent, name⟩, i⟩, hmem, hparent⟩
      obtain rfl : parent = ino.raw := of_decide_eq_true hparent
      refine ⟨name, ?_⟩
      rw [← hchild, AList.mem_lookup_iff.mpr hmem]
      rfl
    · rintro ⟨name, hname⟩
      obtain ⟨i, hi⟩ := Option.isSome_iff_exists.mp hname
      rw [← hchild] at hi
      exact ⟨⟨(ino.raw, name), i⟩, AList.mem_lookup_iff.mp hi, decide_eq_true rfl⟩
  change some (s.rmdirAnswer dir.parent dir.name) = some (.ok ()) ↔ _
  rw [rmdirAnswer, hkey, Option.elim_some]
  cases hkept : s.keepsDir dir.parent dir.name ino.raw with
  | true =>
      obtain ⟨name, hname⟩ := hkeeps.mp hkept
      exact iff_of_false (by simp) fun hnone => hnone name hname
  | false =>
      refine iff_of_true (by simp) fun name hname => ?_
      rw [hkeeps.mpr ⟨name, hname⟩] at hkept
      cases hkept

/-- `DeleteDirectory` agrees with the `rmdir` that comes with `Cleanup`, unless the directory has
children and all of them have dot names. -/
theorem deletion_check_agrees_iff (h : m.Fits) {context : AdapterContext} (hino : context.ino ≠ ⟨0⟩)
    (hdir : m.world.backend.1.inodes.lookup context.ino.raw = some dir) (hkind : dir.kind = .directory)
    (hload : load DirectoryEntryPayload.bytes (m.dirEntries context.ino dir) < 2 ^ 64)
    (hnamed : m.world.backend.1.children.lookup (dir.parent, dir.name) = some context.ino.raw)
    (hapart : dir.parent ≠ context.ino.raw) (fileName : U16CStr) (req : Request) :
    ((((Callback.deleteDirectory fileName context).routine m.pf).run
        (Confuse.machine m.pf m.host m.notices) m.world).1 = (.ok () : Except NtStatus Unit)
      ↔ (m.host.reply (.rmdir req ⟨dir.parent⟩ dir.name) m.world.backend).1
        = (some (.ok ()) : Reply Unit)) ↔
    ((∃ name, (m.world.backend.1.children.lookup (context.ino.raw, name)).isSome) →
      ∃ name, (m.world.backend.1.children.lookup (context.ino.raw, name)).isSome ∧
        isDotName name = false) := by
  rw [check_passes_iff h hino hdir hkind hload, rmdir_succeeds_iff h hnamed hapart]
  constructor
  · rintro hagree ⟨name, hname⟩
    by_contra hnone
    have hdots : ∀ name, (m.world.backend.1.children.lookup (context.ino.raw, name)).isSome →
        isDotName name = true := by
      intro name hname
      by_contra hnot
      exact hnone ⟨name, hname, Bool.eq_false_of_not_eq_true hnot⟩
    exact hagree.mp hdots name hname
  · intro hother
    constructor
    · intro hdots name hname
      obtain ⟨name', hname', hnot⟩ := hother ⟨name, hname⟩
      rw [hdots name' hname'] at hnot
      cases hnot
    · exact fun hnone name hname => absurd hname (hnone name)

end Mount

def pathFG : U16CStr := ⟨[92, 102, 92, 103], by simp⟩

/-- A directory is made with a file in it. -/
def nestedMount : Mount Unit where
  pf := .ascii
  surroundings := .stateless FsCall.unanswered
  notices := undisturbed
  clock := MemFs.stillClock
  now := .UNIX_EPOCH
  negativeTtl := .fromSecs 1
  caller := ()
  callbacks := [.createFile fileF 0 0 FILE_CREATE FILE_DIRECTORY_FILE (.unavailable 1),
    .createFile pathFG 0 0 FILE_CREATE 0 (.unavailable 1)]

/-- The directory. -/
def nestedDir : INode := .touchParent .file .UNIX_EPOCH (.newDir 2 1 (.new ['f']) 0o644 .UNIX_EPOCH)

theorem fits_nestedMount : nestedMount.Fits := .of_all (by
  rw [show nestedMount.world.asked.length = 2 from rfl]
  decide) rfl

theorem lookup_nestedDir : nestedMount.world.backend.1.inodes.lookup 2 = some nestedDir := rfl

theorem load_nestedDir :
    Capacity.load DirectoryEntryPayload.bytes (nestedMount.dirEntries ⟨2⟩ nestedDir) < 2 ^ 64 := by
  rw [show Capacity.load DirectoryEntryPayload.bytes (nestedMount.dirEntries ⟨2⟩ nestedDir) = 96 from rfl]
  decide

def nestedHandle : DirectoryHandle := ⟨{ ino := ⟨2⟩, isDir := true }, by decide⟩

theorem mounted_listing_shows_every_name_nestedMount :
    ∃ names : List OsStr, names.Nodup ∧
      (∀ name, name ∈ names ↔ (nestedMount.world.backend.1.children.lookup (2, name)).isSome) ∧
      List.Forall₂ (fun name data => U16CStr.fromStr name.toStringLossy = some data.fileName)
        (MemFs.dot :: MemFs.dotDot :: names) (listing (nestedMount.world.newEvents .ascii
          nestedMount.host undisturbed (findFiles .ascii fileF nestedHandle.context))).delivered := by
  have haccepts : nestedMount.surroundings.AcceptsAll := fun _ _ => rfl
  have hdir : nestedMount.world.backend.1.inodes.lookup nestedHandle.context.ino.raw = some nestedDir :=
    lookup_nestedDir
  exact Mount.mounted_listing_shows_every_name fits_nestedMount haccepts hdir rfl load_nestedDir
    fileF rfl

theorem deletion_check_agrees_iff_nestedMount :
    ((((Callback.deleteDirectory fileF nestedHandle.context).routine .ascii).run
        (machine .ascii nestedMount.host undisturbed) nestedMount.world).1
          = (.ok () : Except NtStatus Unit)
      ↔ (nestedMount.host.reply (.rmdir ⟨0, 0, 1⟩ .ROOT (.new ['f'])) nestedMount.world.backend).1
        = (some (.ok ()) : Reply Unit)) ↔
    ((∃ name, (nestedMount.world.backend.1.children.lookup (2, name)).isSome) →
      ∃ name, (nestedMount.world.backend.1.children.lookup (2, name)).isSome ∧
        isDotName name = false) := by
  have hnamed : nestedMount.world.backend.1.children.lookup (nestedDir.parent, nestedDir.name)
      = some nestedHandle.context.ino.raw := rfl
  exact Mount.deletion_check_agrees_iff fits_nestedMount nestedHandle.opened lookup_nestedDir rfl
    load_nestedDir hnamed (by decide) fileF ⟨0, 0, 1⟩

end Confuse
