import Confuse.DirectoryReading
import Confuse.MemFsCalls

/-!
# Listings of the file system in memory

`readdir` gives the children of a directory in the order of their numbers and makes their positions
the cookies. What it puts into a reply is what lies behind the offset, as far as it fits.
-/

namespace Confuse

open Interaction Capacity

/-! ## Adding until the reply is full -/

/-- The entries are added up to the first that is refused. -/
def addAll (handle : ReplyHandle) :
    List DirectoryEntryPayload → ReplyCells DirectoryEntryPayload → ReplyCells DirectoryEntryPayload
  | [], cells => cells
  | entry :: rest, cells =>
      let added := ReplyDirectory.addEntry handle entry cells
      if added.1 then added.2 else addAll handle rest added.2

/-- The calls that add all of the entries. -/
def addOps (handle : ReplyHandle) (entries : List DirectoryEntryPayload) :
    List (ReplyHandle × ReplyOp DirectoryEntryPayload) := entries.map fun entry => (handle, .add entry)

theorem attempts_addOps (handle : ReplyHandle) (entries : List DirectoryEntryPayload) :
    attempts (addOps handle entries) = entries := by
  induction entries with
  | nil => rfl
  | cons entry rest ih => exact congrArg (entry :: ·) ih

theorem attemptsBeforeError_addOps (handle : ReplyHandle) (entries : List DirectoryEntryPayload) :
    attemptsBeforeError (addOps handle entries) = entries := by
  induction entries with
  | nil => rfl
  | cons entry rest ih => exact congrArg (entry :: ·) ih

/-- A refusal closes the cells. -/
theorem full_of_refused {handle : ReplyHandle} {entry : DirectoryEntryPayload}
    {cells : ReplyCells DirectoryEntryPayload}
    (h : (ReplyDirectory.addEntry handle entry cells).1 = true) :
    (ReplyDirectory.addEntry handle entry cells).2.full = true := by
  unfold ReplyDirectory.addEntry ReplyDirectory.add ReplyCells.add at h ⊢
  split_ifs at h ⊢ with hfull hover
  · exact hfull
  · rfl

theorem runReply_full {handle : ReplyHandle} {cells : ReplyCells DirectoryEntryPayload}
    (hfull : cells.full = true) (entries : List DirectoryEntryPayload) :
    (runReply ReplyDirectory.addEntry (addOps handle entries) cells).2 = cells := by
  induction entries with
  | nil => rfl
  | cons entry rest ih =>
      have hadd : ReplyDirectory.addEntry handle entry cells = (true, cells) := if_pos hfull
      change (runReply _ (addOps handle rest) (ReplyDirectory.addEntry handle entry cells).2).2 = cells
      rw [hadd]
      exact ih

/-- Going on after a refusal changes nothing. -/
theorem addAll_eq_runReply (handle : ReplyHandle) (entries : List DirectoryEntryPayload)
    (cells : ReplyCells DirectoryEntryPayload) :
    addAll handle entries cells
      = (runReply ReplyDirectory.addEntry (addOps handle entries) cells).2 := by
  induction entries generalizing cells with
  | nil => rfl
  | cons entry rest ih =>
      change (if (ReplyDirectory.addEntry handle entry cells).1 = true then _ else _)
        = (runReply _ (addOps handle rest) (ReplyDirectory.addEntry handle entry cells).2).2
      split_ifs with hrefused
      · exact (runReply_full (full_of_refused hrefused) rest).symm
      · exact ih _

/-- The bytes of an entry of `readdir`. -/
def DirectoryEntryPayload.bytes (entry : DirectoryEntryPayload) : ℕ := entryBytes 24 entry.name

/-- What fits is held. -/
theorem addAll_longestFit (handle : ReplyHandle) {entries : List DirectoryEntryPayload}
    (hload : load DirectoryEntryPayload.bytes entries < 2 ^ 64) :
    LongestFit DirectoryEntryPayload.bytes handle.maxSize.toNat entries
      (addAll handle entries .empty).entries := by
  have hops : ∀ op ∈ addOps handle entries, op.1.DuplicateOf ⟨handle.maxSize⟩ := by
    intro op hop
    obtain ⟨entry, -, rfl⟩ := List.mem_map.mp hop
    exact .self handle
  rw [← attempts_addOps handle entries] at hload
  have hkeeps := runReply_keepsCapacity
    (fun _ hentry => toNat_align8_add FUSE_DIRENT_BASE_SIZE hentry) hops hload
  rw [addAll_eq_runReply]
  have haccepted := hkeeps.accepted
  rwa [attemptsBeforeError_addOps] at haccepted

namespace MemFs

/-! ## The entries of a directory -/

/-- The entry of a child at a position. -/
def childEntry (idx : ℕ) (child : INode) : DirectoryEntryPayload :=
  ⟨⟨child.ino⟩, .ofNat (idx + 3), child.kind, child.name⟩

def entriesFrom : ℕ → List (Option INode) → List DirectoryEntryPayload
  | _, [] => []
  | idx, child :: rest => (child.map (childEntry idx)).toList ++ entriesFrom (idx + 1) rest

section Entries
variable (s : MemFs) (ino : UInt64)

def sortedChildren : List UInt64 := (s.childrenOf ino).insertionSort (· ≤ ·)

def childEntries : List DirectoryEntryPayload :=
  entriesFrom 0 ((s.sortedChildren ino).map fun child => s.inodes.lookup child)

/-- The entries of a directory with the given parent. -/
def dirEntries (parent : UInt64) : List DirectoryEntryPayload :=
  ⟨⟨ino⟩, 1, .directory, dot⟩ :: ⟨⟨parent⟩, 2, .directory, dotDot⟩ :: s.childEntries ino

end Entries

/-- What lies behind an offset. -/
def behind (offset : UInt64) (entries : List DirectoryEntryPayload) : List DirectoryEntryPayload :=
  entries.filter fun entry => offset < entry.offset

theorem behind_cons (offset : UInt64) (entry : DirectoryEntryPayload)
    (entries : List DirectoryEntryPayload) :
    behind offset (entry :: entries)
      = if offset < entry.offset then entry :: behind offset entries else behind offset entries := by
  unfold behind
  rw [List.filter_cons]
  simp only [decide_eq_true_eq]

/-- The cookie follows the position. -/
theorem addChildren_eq (handle : ReplyHandle) (offset : UInt64) (children : List (Option INode))
    (idx : ℕ) (cells : ReplyCells DirectoryEntryPayload) :
    addChildren handle offset children idx (.ofNat (idx + 3)) cells
      = addAll handle (behind offset (entriesFrom idx children)) cells := by
  induction children generalizing idx cells with
  | nil => rfl
  | cons child rest ih =>
      have hnext : UInt64.ofNat (idx + 3) + 1 = .ofNat (idx + 1 + 3) := by
        rw [show idx + 1 + 3 = (idx + 3) + 1 by omega, UInt64.ofNat_add (idx + 3) 1]
        rfl
      unfold addChildren
      rw [hnext]
      cases child with
      | none =>
          simp only [ite_self]
          exact ih (idx + 1) cells
      | some child =>
          have hsplit : entriesFrom idx (some child :: rest)
              = childEntry idx child :: entriesFrom (idx + 1) rest := rfl
          rw [hsplit, behind_cons, show (childEntry idx child).offset = .ofNat (idx + 3) from rfl]
          by_cases hskip : UInt64.ofNat (idx + 3) ≤ offset
          · rw [if_pos hskip, if_neg (UInt64.not_lt.mpr hskip)]
            exact ih (idx + 1) cells
          · rw [if_neg hskip, if_pos (UInt64.not_le.mp hskip)]
            simp only [ih]
            rfl

/-! ## The call -/

/-- The cells of `readdir` for a directory with the given parent. -/
def listed (s : MemFs) (handle : ReplyHandle) (ino parent offset : UInt64) :
    ReplyCells DirectoryEntryPayload :=
  (addAll handle (behind offset (s.dirEntries ino parent)) .empty).ok

def readdirAnswer (s : MemFs) (handle : ReplyHandle) (ino offset : UInt64) :
    ReplyCells DirectoryEntryPayload :=
  (s.inodes.lookup ino).elim (ReplyCells.empty.error ENOENT) fun node =>
    if node.kind ≠ .directory then ReplyCells.empty.error ENOTDIR
    else s.listed handle ino node.parent offset

section Readdir
variable {clock : ℕ → SystemTime} {s : MemFs}

theorem alone_listChildren (handle : ReplyHandle) (ino : INodeNo) (offset : UInt64)
    (cells : ReplyCells DirectoryEntryPayload) :
    (listChildren handle ino offset cells).runAlone (machine clock) (calm s)
      = (some (addAll handle (behind offset (s.childEntries ino.raw)) cells).ok, calm s) := by
  refine alone_childrenOf.trans (alone_nodes.trans ?_)
  rw [show (3 : UInt64) = .ofNat (0 + 3) from rfl, addChildren_eq]
  rfl

theorem alone_listFromParent (handle : ReplyHandle) (ino : INodeNo) (offset : UInt64) {node : INode}
    (hnode : s.inodes.lookup ino.raw = some node) (cells : ReplyCells DirectoryEntryPayload) :
    (listFromParent handle ino offset cells).runAlone (machine clock) (calm s)
      = (some (addAll handle (behind offset (⟨⟨node.parent⟩, 2, .directory, dotDot⟩ ::
          s.childEntries ino.raw)) cells).ok, calm s) := by
  unfold listFromParent
  rw [behind_cons]
  by_cases hoffset : offset ≤ 1
  · have hbehind : offset < 2 := by
      rw [UInt64.le_iff_toNat_le] at hoffset
      rw [UInt64.lt_iff_toNat_lt]
      exact Nat.lt_succ_of_le hoffset
    rw [if_pos hoffset, if_pos hbehind]
    refine alone_node.trans ?_
    rw [hnode]
    change Panicking.runAlone _ (if (ReplyDirectory.addEntry handle
      ⟨⟨node.parent⟩, 2, .directory, dotDot⟩ cells).1 = true then _ else _) _ = _
    rw [addAll]
    split_ifs with hrefused
    · rfl
    · exact alone_listChildren handle ino offset _
  · have hbehind : ¬ offset < 2 := by
      rw [UInt64.le_iff_toNat_le] at hoffset
      rw [UInt64.lt_iff_toNat_lt]
      exact fun hlt => hoffset (Nat.le_of_lt_succ hlt)
    rw [if_neg hoffset, if_neg hbehind]
    exact alone_listChildren handle ino offset cells

theorem alone_readdir (handle : ReplyHandle) (ino : INodeNo) (offset : UInt64) :
    (readdir handle ino offset).runAlone (machine clock) (calm s)
      = (some (s.readdirAnswer handle ino.raw offset), calm s) := by
  refine alone_node.trans ?_
  unfold readdirAnswer
  cases hnode : s.inodes.lookup ino.raw with
  | none => rfl
  | some node =>
      dsimp only [Option.elim_some]
      by_cases hkind : node.kind ≠ .directory
      · rw [if_pos hkind, if_pos hkind]
        rfl
      · rw [if_neg hkind, if_neg hkind]
        unfold listed dirEntries
        refine alone_locked ?_
        rw [behind_cons]
        by_cases hzero : offset = 0
        · have hbehind : offset < 1 := by
            rw [hzero]
            decide
          rw [if_pos hzero, if_pos hbehind, addAll]
          change Panicking.runAlone _ (if (ReplyDirectory.addEntry handle
            ⟨ino, 1, .directory, dot⟩ .empty).1 = true then _ else _) _ = _
          split_ifs with hrefused
          · rfl
          · exact alone_listFromParent handle ino offset hnode _
        · have hbehind : ¬ offset < 1 := by
            rw [UInt64.lt_iff_toNat_lt]
            exact fun hlt => hzero (UInt64.toNat_inj.mp (Nat.lt_one_iff.mp hlt))
          rw [if_neg hzero, if_neg hbehind]
          exact alone_listFromParent handle ino offset hnode .empty

end Readdir
end MemFs
end Confuse
