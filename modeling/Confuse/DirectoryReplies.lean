import Confuse.Capacity
import Confuse.Filesystem
import Mathlib.Data.Nat.Bitwise

/-!
# Filling a directory reply

A directory reply accepts entries up to a size in bytes, in two versions that differ in what an entry
takes. Its cells are shared with all of its duplicates, the size is copied. A `usize` has 64 bits.
-/

namespace Confuse

open Capacity

/-- What a reply and its duplicates share. -/
structure ReplyCells (ε : Type) where
  status : Reply Unit
  entries : List ε
  full : Bool
  usedSize : UInt64

structure ReplyHandle where
  maxSize : UInt64

namespace ReplyHandle

/-- The handle of `capture()`. -/
def capture : ReplyHandle := ⟨0xFFFFFFFFFFFFFFFF⟩

def duplicate (handle : ReplyHandle) : ReplyHandle := ⟨handle.maxSize⟩

/-- The handles that are reached from one by duplicating. -/
inductive DuplicateOf : ReplyHandle → ReplyHandle → Prop
  | self (handle : ReplyHandle) : DuplicateOf handle handle
  | duplicate {other handle : ReplyHandle} :
      DuplicateOf other handle → DuplicateOf other.duplicate handle

theorem DuplicateOf.maxSize {other handle : ReplyHandle} (h : DuplicateOf other handle) :
    other.maxSize = handle.maxSize := by
  induction h with
  | self handle => rfl
  | duplicate _ ih => exact ih

end ReplyHandle

def FUSE_DIRENT_BASE_SIZE : UInt64 := 24
def FUSE_DIRENTPLUS_BASE_SIZE : UInt64 := 144

def align8 (size : UInt64) : UInt64 := (size + 7) &&& ~~~7

def nameBytes (name : OsStr) : ℕ := (utf8 name.toStringLossy).length

def direntEntrySize (name : OsStr) : UInt64 := align8 (FUSE_DIRENT_BASE_SIZE + .ofNat (nameBytes name))

def direntplusEntrySize (name : OsStr) : UInt64 :=
  align8 (FUSE_DIRENTPLUS_BASE_SIZE + .ofNat (nameBytes name))

namespace ReplyCells
variable {ε : Type}

/-- The cells of `capture()`. -/
def empty : ReplyCells ε := ⟨none, [], false, 0⟩

/-- The common body of both `add`s, with what the entry takes. -/
def add (cells : ReplyCells ε) (maxSize nextSize : UInt64) (entry : ε) : Bool × ReplyCells ε :=
  if cells.full then (true, cells)
  else if maxSize.toNat < saturatingAdd cells.usedSize.toNat nextSize.toNat then
    (true, { cells with full := true })
  else
    (false, { cells with
      entries := cells.entries ++ [entry]
      usedSize := cells.usedSize + nextSize })

def ok (cells : ReplyCells ε) : ReplyCells ε := { cells with status := some (.ok ()) }

def error (cells : ReplyCells ε) (err : Errno) : ReplyCells ε :=
  { cells with full := true, status := some (.error err) }

end ReplyCells

def ReplyDirectory.add (handle : ReplyHandle) (ino : INodeNo) (offset : UInt64) (kind : FileType)
    (name : OsStr) (cells : ReplyCells DirectoryEntryPayload) :
    Bool × ReplyCells DirectoryEntryPayload :=
  cells.add handle.maxSize (direntEntrySize name) ⟨ino, offset, kind, name⟩

def ReplyDirectoryPlus.add (handle : ReplyHandle) (ino : INodeNo) (offset : UInt64) (name : OsStr)
    (ttl : Duration) (attr : FileAttr) (generation : Generation)
    (cells : ReplyCells DirectoryPlusEntryPayload) : Bool × ReplyCells DirectoryPlusEntryPayload :=
  cells.add handle.maxSize (direntplusEntrySize name) ⟨ino, offset, name, ttl, attr, generation⟩

/-! ## Calls on a reply and its duplicates -/

inductive ReplyOp (ε : Type)
  | add (entry : ε)
  | ok
  | error (err : Errno)

/-- What `add` does for one of the two kinds of entries. -/
abbrev AddEntry (ε : Type) := ReplyHandle → ε → ReplyCells ε → Bool × ReplyCells ε

def ReplyDirectory.addEntry : AddEntry DirectoryEntryPayload := fun handle entry =>
  ReplyDirectory.add handle entry.ino entry.offset entry.kind entry.name

def ReplyDirectoryPlus.addEntry : AddEntry DirectoryPlusEntryPayload := fun handle entry =>
  ReplyDirectoryPlus.add handle entry.ino entry.offset entry.name entry.ttl entry.attr entry.generation

section
variable {ε : Type} (add : AddEntry ε)

/-- The answers of `add`, and the cells that are left. -/
def runReply : List (ReplyHandle × ReplyOp ε) → ReplyCells ε → List Bool × ReplyCells ε
  | [], cells => ([], cells)
  | (_, .ok) :: rest, cells => runReply rest cells.ok
  | (_, .error err) :: rest, cells => runReply rest (cells.error err)
  | (handle, .add entry) :: rest, cells =>
      ((add handle entry cells).1 :: (runReply rest (add handle entry cells).2).1,
        (runReply rest (add handle entry cells).2).2)

/-- What a call is to a store with a capacity. -/
def ReplyOp.offer : ReplyOp ε → Option (Offer ε)
  | .add entry => some (.item entry)
  | .ok => none
  | .error _ => some .close

def offers (ops : List (ReplyHandle × ReplyOp ε)) : List (Offer ε) := ops.filterMap fun op => op.2.offer

def attempts (ops : List (ReplyHandle × ReplyOp ε)) : List ε := offered (offers ops)

def attemptsBeforeError (ops : List (ReplyHandle × ReplyOp ε)) : List ε := offeredOpen (offers ops)

/-- The number of bytes of an entry, rounded up to a multiple of 8. -/
def entryBytes (base : ℕ) (name : OsStr) : ℕ := (base + nameBytes name + 7) / 8 * 8

/-- What the cells and the answers say after calls on the duplicates of one reply. -/
structure KeepsCapacity (bytes : ε → ℕ) (maxSize : UInt64) (ops : List (ReplyHandle × ReplyOp ε))
    (answers : List Bool) (cells : ReplyCells ε) : Prop where
  accepted : LongestFit bytes maxSize.toNat (attemptsBeforeError ops) cells.entries
  used : cells.usedSize.toNat = load bytes cells.entries
  used_le : cells.usedSize ≤ maxSize
  answered : answers = List.replicate cells.entries.length false ++
    List.replicate ((attempts ops).length - cells.entries.length) true

/-! ## Bytes of an entry -/

theorem and_eq_shiftLeft {x : ℕ} (hx : x < 2 ^ 64) : x &&& (2 ^ 61 - 1) <<< 3 = (x >>> 3) <<< 3 := by
  apply Nat.eq_of_testBit_eq
  intro i
  rw [Nat.testBit_and, Nat.testBit_shiftLeft, Nat.testBit_two_pow_sub_one, Nat.testBit_shiftLeft,
    Nat.testBit_shiftRight]
  by_cases hlow : 3 ≤ i
  · rw [Nat.add_sub_of_le hlow]
    by_cases hhigh : i < 64
    · have hmask : i - 3 < 61 := by omega
      simp [hmask, Bool.and_comm]
    · have hxi : x < 2 ^ i := hx.trans_le (Nat.pow_le_pow_right (by decide) (Nat.not_lt.mp hhigh))
      rw [Nat.testBit_lt_two_pow hxi]
      simp
  · simp [hlow]

theorem toNat_align8 {size : UInt64} (hsize : size.toNat + 7 < 2 ^ 64) :
    (align8 size).toNat = (size.toNat + 7) / 8 * 8 := by
  have hmask : (~~~7 : UInt64).toNat = (2 ^ 61 - 1) <<< 3 := by decide
  have hadd : (size + 7).toNat = size.toNat + 7 := Nat.mod_eq_of_lt hsize
  rw [align8, UInt64.toNat_and, hmask, and_eq_shiftLeft (size + 7).toNat_lt, hadd,
    Nat.shiftRight_eq_div_pow, Nat.shiftLeft_eq]

/-- Below `2 ^ 64`, neither addition on the way to the size of an entry overflows. -/
theorem toNat_align8_add (base : UInt64) {name : OsStr}
    (hname : entryBytes base.toNat name < 2 ^ 64) :
    (align8 (base + .ofNat (nameBytes name))).toNat = entryBytes base.toNat name := by
  unfold entryBytes at hname ⊢
  have hbytes : nameBytes name < UInt64.size := by
    unfold UInt64.size
    omega
  have hsum : (base + UInt64.ofNat (nameBytes name)).toNat = base.toNat + nameBytes name := by
    rw [UInt64.toNat_add, UInt64.toNat_ofNat_of_lt' hbytes]
    exact Nat.mod_eq_of_lt (by omega)
  rw [toNat_align8 (by omega), hsum]

/-! ## A reply is a store with a capacity -/

def ReplyCells.store (cells : ReplyCells ε) : Store ε := ⟨cells.entries, cells.full⟩

/-- The size in use is that of the entries. -/
def ReplyCells.Counted (bytes : ε → ℕ) (cells : ReplyCells ε) : Prop :=
  cells.usedSize.toNat = load bytes cells.entries

def addSized (size : ε → UInt64) : AddEntry ε := fun handle entry cells =>
  cells.add handle.maxSize (size entry) entry

variable {bytes : ε → ℕ} {size : ε → UInt64}

/-- One `add`, as long as the size in use and that of the entry do not overflow. -/
theorem ReplyCells.add_simulates {cells : ReplyCells ε} (hcells : cells.Counted bytes)
    (maxSize : UInt64) {nextSize : UInt64} {entry : ε} (hnext : nextSize.toNat = bytes entry)
    (hload : load bytes cells.entries + bytes entry < 2 ^ 64) :
    ((cells.add maxSize nextSize entry).1, (cells.add maxSize nextSize entry).2.store) =
        cells.store.add bytes maxSize.toNat entry ∧
      (cells.add maxSize nextSize entry).2.Counted bytes ∧
      load bytes (cells.add maxSize nextSize entry).2.entries ≤
        load bytes cells.entries + bytes entry := by
  have hsaturating : saturatingAdd cells.usedSize.toNat nextSize.toNat =
      load bytes cells.entries + bytes entry := by
    rw [saturatingAdd, hnext, show cells.usedSize.toNat = _ from hcells]
    omega
  unfold ReplyCells.add Store.add
  rw [hsaturating]
  by_cases hfull : cells.full = true
  · rw [if_pos hfull, if_pos (show cells.store.closed = true from hfull)]
    exact ⟨rfl, hcells, Nat.le_add_right _ _⟩
  · rw [if_neg hfull, if_neg (show ¬ cells.store.closed = true from hfull)]
    by_cases hover : maxSize.toNat < load bytes cells.entries + bytes entry
    · rw [if_pos hover,
        if_pos (show maxSize.toNat < load bytes cells.store.items + bytes entry from hover)]
      exact ⟨rfl, hcells, Nat.le_add_right _ _⟩
    · rw [if_neg hover,
        if_neg (show ¬ maxSize.toNat < load bytes cells.store.items + bytes entry from hover)]
      refine ⟨rfl, ?_, (load_append_singleton bytes _ _).le⟩
      change (cells.usedSize + nextSize).toNat = load bytes (cells.entries ++ [entry])
      rw [UInt64.toNat_add, hnext, show cells.usedSize.toNat = _ from hcells, load_append_singleton]
      exact Nat.mod_eq_of_lt hload

/-- A whole run. -/
theorem runReply_simulates (hsize : ∀ entry, bytes entry < 2 ^ 64 → (size entry).toNat = bytes entry)
    {maxSize : UInt64} {ops : List (ReplyHandle × ReplyOp ε)}
    (hops : ∀ op ∈ ops, op.1.maxSize = maxSize) {cells : ReplyCells ε} (hcells : cells.Counted bytes)
    (hload : load bytes cells.entries + load bytes (attempts ops) < 2 ^ 64) :
    ((runReply (addSized size) ops cells).1, (runReply (addSized size) ops cells).2.store) =
        cells.store.run bytes maxSize.toNat (offers ops) ∧
      (runReply (addSized size) ops cells).2.Counted bytes := by
  induction ops generalizing cells with
  | nil => exact ⟨rfl, hcells⟩
  | cons op rest ih =>
      obtain ⟨handle, op⟩ := op
      have hrest : ∀ op ∈ rest, op.1.maxSize = maxSize :=
        fun op hop => hops op (List.mem_cons_of_mem _ hop)
      cases op with
      | ok =>
          have hok : cells.ok.Counted bytes := hcells
          exact ih hrest hok hload
      | error err =>
          have herror : (cells.error err).Counted bytes := hcells
          exact ih hrest herror hload
      | add entry =>
          obtain rfl : handle.maxSize = maxSize := hops _ List.mem_cons_self
          have hentry : load bytes cells.entries + (bytes entry + load bytes (attempts rest)) < 2 ^ 64 :=
            hload
          obtain ⟨hadd, hcounted, hle⟩ := ReplyCells.add_simulates hcells handle.maxSize
            (hsize entry (by omega)) (by omega)
          obtain ⟨hrun, hlast⟩ := ih hrest hcounted (by omega)
          refine ⟨?_, hlast⟩
          change _ = Store.run bytes handle.maxSize.toNat (.item entry :: offers rest) cells.store
          rw [Store.run, ← hadd, ← hrun]
          rfl

/-- The capacity of a reply of either kind. -/
theorem runReply_keepsCapacity
    (hsize : ∀ entry, bytes entry < 2 ^ 64 → (size entry).toNat = bytes entry) {maxSize : UInt64}
    {ops : List (ReplyHandle × ReplyOp ε)} (hops : ∀ op ∈ ops, op.1.DuplicateOf ⟨maxSize⟩)
    (hload : load bytes (attempts ops) < 2 ^ 64) :
    KeepsCapacity bytes maxSize ops (runReply (addSized size) ops .empty).1
      (runReply (addSized size) ops .empty).2 := by
  have hempty : (ReplyCells.empty (ε := ε)).Counted bytes := rfl
  obtain ⟨hrun, hcounted⟩ := runReply_simulates hsize (fun op hop => (hops op hop).maxSize) hempty
    (by simpa [ReplyCells.empty, load] using hload)
  obtain ⟨hlongest, hanswers⟩ :=
    Store.run_empty bytes maxSize.toNat (offers ops)
  have hstore : (ReplyCells.empty (ε := ε)).store = ⟨[], false⟩ := rfl
  rw [hstore] at hrun
  rw [← hrun] at hlongest hanswers
  refine ⟨hlongest, hcounted, ?_, hanswers⟩
  rw [UInt64.le_iff_toNat_le,
    show (runReply (addSized size) ops .empty).2.usedSize.toNat = _ from hcounted]
  exact hlongest.fits

/-- The reply that the adapter hands out holds every entry that is added before an error. -/
theorem captured_reply_holds_every_entry
    (hsize : ∀ entry, bytes entry < 2 ^ 64 → (size entry).toNat = bytes entry)
    {ops : List (ReplyHandle × ReplyOp ε)} (hops : ∀ op ∈ ops, op.1.DuplicateOf .capture)
    (hload : load bytes (attempts ops) < 2 ^ 64) :
    (runReply (addSized size) ops .empty).2.entries = attemptsBeforeError ops := by
  have hfits : load bytes (attemptsBeforeError ops) ≤ ReplyHandle.capture.maxSize.toNat :=
    (load_offeredOpen_le bytes (offers ops)).trans (Nat.le_sub_one_of_lt hload)
  exact (runReply_keepsCapacity hsize hops hload).accepted.eq_of_fits bytes _ hfits

/-- A reply of either kind accepts the longest initial segment of the entries tried before an error
that fits. -/
theorem directory_reply_capacity (maxSize : UInt64) :
    (∀ ops : List (ReplyHandle × ReplyOp DirectoryEntryPayload),
      (∀ op ∈ ops, op.1.DuplicateOf ⟨maxSize⟩) →
      load (fun entry => entryBytes 24 entry.name) (attempts ops) < 2 ^ 64 →
        KeepsCapacity (fun entry => entryBytes 24 entry.name) maxSize ops
          (runReply ReplyDirectory.addEntry ops .empty).1
          (runReply ReplyDirectory.addEntry ops .empty).2) ∧
    (∀ ops : List (ReplyHandle × ReplyOp DirectoryPlusEntryPayload),
      (∀ op ∈ ops, op.1.DuplicateOf ⟨maxSize⟩) →
      load (fun entry => entryBytes 144 entry.name) (attempts ops) < 2 ^ 64 →
        KeepsCapacity (fun entry => entryBytes 144 entry.name) maxSize ops
          (runReply ReplyDirectoryPlus.addEntry ops .empty).1
          (runReply ReplyDirectoryPlus.addEntry ops .empty).2) := by
  constructor
  · intro ops hops hload
    exact runReply_keepsCapacity (fun _ hentry => toNat_align8_add FUSE_DIRENT_BASE_SIZE hentry)
      hops hload
  · intro ops hops hload
    exact runReply_keepsCapacity (fun _ hentry => toNat_align8_add FUSE_DIRENTPLUS_BASE_SIZE hentry)
      hops hload

example : (runReply ReplyDirectory.addEntry
    [(⟨32⟩, .add ⟨⟨1⟩, 0, .regularFile, .new ['a']⟩), (⟨32⟩, .add ⟨⟨2⟩, 1, .regularFile, .new ['a']⟩)]
    .empty).1 = [false, true] := by decide

def smallReply : ReplyHandle := ⟨64⟩
def smallReplyPlus : ReplyHandle := ⟨304⟩

/-- The second name does not fit any more, the third would. -/
def longNameBetween : List Str := ["a".toList, "a long name".toList, "b".toList]

def listLongName : List (ReplyHandle × ReplyOp DirectoryEntryPayload) :=
  longNameBetween.map fun name => (smallReply.duplicate, .add ⟨⟨2⟩, 1, .regularFile, .new name⟩)

def listLongNamePlus : List (ReplyHandle × ReplyOp DirectoryPlusEntryPayload) :=
  longNameBetween.map fun name => (smallReplyPlus.duplicate,
    .add ⟨⟨2⟩, 1, .new name, .fromNanos 0, .plain ⟨2⟩ .regularFile, ⟨0⟩⟩)

theorem directory_reply_capacity_longName :
    KeepsCapacity (fun entry => entryBytes 24 entry.name) 64 listLongName
        (runReply ReplyDirectory.addEntry listLongName .empty).1
        (runReply ReplyDirectory.addEntry listLongName .empty).2 ∧
      KeepsCapacity (fun entry => entryBytes 144 entry.name) 304 listLongNamePlus
        (runReply ReplyDirectoryPlus.addEntry listLongNamePlus .empty).1
        (runReply ReplyDirectoryPlus.addEntry listLongNamePlus .empty).2 := by
  constructor
  · apply (directory_reply_capacity 64).1 listLongName
    · intro op hop
      obtain ⟨name, -, rfl⟩ := List.mem_map.mp hop
      exact .duplicate (.self smallReply)
    · decide
  · apply (directory_reply_capacity 304).2 listLongNamePlus
    · intro op hop
      obtain ⟨name, -, rfl⟩ := List.mem_map.mp hop
      exact .duplicate (.self smallReplyPlus)
    · decide

end
end Confuse
