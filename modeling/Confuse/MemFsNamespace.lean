import Confuse.MemFsNames
import Confuse.MemFsTree
import Confuse.TruthfulHost

/-!
# The namespace of the file system in memory

The file system in memory tells the spellings of a name apart, and the path cache does not. Where each
name is used in one spelling only, the names of the file system are a namespace of the cache, and its
calls change them as a truthful file system does.
-/

namespace Confuse

open NameTree

/-- The name is a component, and the spelling that stands for its key. -/
structure InSpelling (cf : CaseFold) (spell : Str → OsStr) (name : OsStr) : Prop where
  component : IsComponent name.toStringLossy
  spelled : spell (nameKey cf name) = name

namespace MemFs
variable {cf : CaseFold} {spell : Str → OsStr} {children : Names} {name newname : OsStr}
  {parent newparent ino : UInt64}

variable (cf spell) in
/-- The children of each inode by their keys. -/
def keyed (children : Names) : Namespace := fun parent key =>
  if nameKey cf (spell key) = key then
    (children.lookup (parent.raw, spell key)).map fun ino => (⟨ino⟩, ⟨0⟩)
  else none

theorem keyed_name (hname : InSpelling cf spell name) (parent : INodeNo) :
    keyed cf spell children parent (nameKey cf name)
      = (children.lookup (parent.raw, name)).map fun ino => (⟨ino⟩, ⟨0⟩) := by
  unfold keyed
  rw [hname.spelled, if_pos rfl]

theorem keyed_eq_some {p i : INodeNo} {k : Str} {g : Generation} :
    keyed cf spell children p k = some (i, g) ↔ nameKey cf (spell k) = k ∧
      children.lookup (p.raw, spell k) = some i.raw ∧ g = ⟨0⟩ := by
  unfold keyed
  constructor
  · intro h
    split_ifs at h with hkey
    obtain ⟨j, hj, heq⟩ := Option.map_eq_some_iff.mp h
    obtain ⟨rfl, rfl⟩ := Prod.mk.inj heq
    exact ⟨hkey, hj, rfl⟩
  · rintro ⟨hkey, hlookup, rfl⟩
    rw [if_pos hkey, hlookup]
    rfl

theorem keyed_congr {children' : Names} (h : ∀ key, children'.lookup key = children.lookup key) :
    keyed cf spell children' = keyed cf spell children := by
  funext p k
  unfold keyed
  rw [h]

/-- What a spelling does not stand for has another key. -/
theorem spell_ne {key : Str} {p q : INodeNo} (hkey : nameKey cf (spell key) = key)
    (hne : ¬ (p = q ∧ key = nameKey cf name)) : (p.raw, spell key) ≠ (q.raw, name) := by
  intro heq
  obtain ⟨hraw, hname⟩ := Prod.mk.inj heq
  refine hne ⟨?_, ?_⟩
  · obtain ⟨raw⟩ := p
    exact congrArg INodeNo.mk hraw
  · rw [← hkey, hname]

theorem keyed_insert (hname : InSpelling cf spell name) (parent : INodeNo) (ino : UInt64) :
    keyed cf spell (children.insert (parent.raw, name) ino)
      = assign (keyed cf spell children) parent (nameKey cf name) (some (⟨ino⟩, ⟨0⟩)) := by
  funext p k
  unfold assign
  split_ifs with hplace
  · rw [hplace.1, hplace.2, keyed_name hname, AList.lookup_insert]
    rfl
  · unfold keyed
    split_ifs with hkey
    · rw [AList.lookup_insert_ne (spell_ne hkey hplace)]
    · rfl

theorem keyed_erase (hname : InSpelling cf spell name) (parent : INodeNo) :
    keyed cf spell (children.erase (parent.raw, name))
      = assign (keyed cf spell children) parent (nameKey cf name) none := by
  funext p k
  unfold assign
  split_ifs with hplace
  · rw [hplace.1, hplace.2, keyed_name hname, AList.lookup_erase]
    rfl
  · unfold keyed
    split_ifs with hkey
    · rw [AList.lookup_erase_ne (spell_ne hkey hplace)]
    · rfl

/-- The keys make a tree of the names when these do. -/
theorem keyed_tree (htree : Tree (names children) ROOT_INO_RAW)
    (hnamed : Named (InSpelling cf spell) children) : Tree (keyed cf spell children) .ROOT where
  injective := by
    intro p p' k k' i g g' h h'
    obtain ⟨hk, hlookup, -⟩ := keyed_eq_some.mp h
    obtain ⟨hk', hlookup', -⟩ := keyed_eq_some.mp h'
    have hplace : names children p.raw (spell k) = some (i.raw, ()) := names_eq_some.mpr hlookup
    have hplace' : names children p'.raw (spell k') = some (i.raw, ()) := names_eq_some.mpr hlookup'
    obtain ⟨hp, hname⟩ := htree.injective hplace hplace'
    obtain ⟨raw⟩ := p
    exact ⟨congrArg INodeNo.mk hp, by rw [← hk, ← hk', hname]⟩
  root_free := by
    intro p k g h
    exact htree.root_free _ _ () (names_eq_some.mpr (keyed_eq_some.mp h).2.1)
  hung := by
    rintro ⟨p⟩ k ⟨i, g⟩ h
    rcases htree.hung (names_eq_some (u := ()) |>.mpr (keyed_eq_some.mp h).2.1) with hp | hp
    · exact .inl (congrArg INodeNo.mk hp)
    · obtain ⟨p', name, u, hplace⟩ := hp
      have hlookup := names_eq_some.mp hplace
      refine .inr ⟨⟨p'⟩, nameKey cf name, ⟨0⟩, ?_⟩
      rw [keyed_name (hnamed _ _ hlookup), hlookup]
      rfl

/-- Walks by keys are walks by names. -/
theorem walk_keyed {names : List OsStr} (hnames : ∀ name ∈ names, InSpelling cf spell name)
    (start : UInt64) : walk (keyed cf spell children) (⟨start⟩, ⟨0⟩) (names.map (nameKey cf))
      = (walk (MemFs.names children) (start, ()) names).map fun v => (⟨v.1⟩, ⟨0⟩) := by
  induction names generalizing start with
  | nil => rfl
  | cons name rest ih =>
      rw [List.forall_mem_cons] at hnames
      rw [List.map_cons, walk_cons, walk_cons, keyed_name hnames.1]
      unfold MemFs.names
      cases children.lookup (start, name) with
      | none => rfl
      | some i => exact ih hnames.2 i

/-! ## What the calls change -/

end MemFs

/-- The names of entries that a call mentions. -/
def FsCall.entryNames : FsCall → List OsStr
  | .lookup _ _ name | .mkdir _ _ name _ _ | .unlink _ _ name | .rmdir _ _ name
  | .create _ _ name _ _ _ => [name]
  | .rename _ _ name _ newname _ => [name, newname]
  | _ => []

theorem FsCall.mem_entryNames {c : FsCall} {name : OsStr} (h : c.newName? = some name) :
    name ∈ c.entryNames := by
  cases c with
  | mkdir => exact List.mem_singleton.mpr (Option.some.inj h).symm
  | create => exact List.mem_singleton.mpr (Option.some.inj h).symm
  | rename =>
      rw [← Option.some.inj h]
      exact List.mem_cons_of_mem _ (List.mem_singleton_self _)
  | _ => cases h

namespace MemFs
variable {cf : CaseFold} {spell : Str → OsStr} {clock : ℕ → SystemTime} {s : MemFs}

variable (cf spell) in
/-- The change leads from the names of `s` to those of `s'`. -/
def Tells (s s' : MemFs) : Option NameChange → Prop
  | some change => change.Leads cf (keyed cf spell s.children) (keyed cf spell s'.children)
  | none => keyed cf spell s'.children = keyed cf spell s.children

section Tells
variable {parent newparent : INodeNo} {name newname : OsStr}

theorem tells_insert (hname : InSpelling cf spell name) (mode : UInt32) (kind : NewNodeKind) :
    Tells cf spell s (s.insertEffect clock parent.raw name mode kind)
      ((s.children.lookup (parent.raw, name)).elim (some (.add parent name ⟨s.nextIno⟩ ⟨0⟩))
        fun _ => none) := by
  unfold insertEffect
  cases hkey : s.children.lookup (parent.raw, name) with
  | none =>
      refine ⟨hname.component, ?_, keyed_insert hname parent s.nextIno⟩
      rw [keyed_name hname, hkey]
      rfl
  | some i => rfl

theorem tells_unlink (hname : InSpelling cf spell name) :
    Tells cf spell s (s.unlinkEffect clock parent.raw name)
      ((s.children.lookup (parent.raw, name)).map fun _ => .remove parent name) := by
  unfold unlinkEffect
  cases s.children.lookup (parent.raw, name) with
  | none => rfl
  | some i => exact ⟨hname.component, keyed_erase hname parent⟩

theorem tells_rmdir (hname : InSpelling cf spell name) :
    Tells cf spell s (s.rmdirEffect clock parent.raw name)
      ((s.children.lookup (parent.raw, name)).bind fun ino =>
        if s.keepsDir parent.raw name ino then none else some (.remove parent name)) := by
  unfold rmdirEffect
  cases hkey : s.children.lookup (parent.raw, name) with
  | none => rfl
  | some i =>
      dsimp only [Option.elim_some, Option.bind_some]
      split_ifs
      · refine keyed_congr fun key => ?_
        by_cases hsame : key = (parent.raw, name)
        · rw [hsame, putBack, AList.lookup_insert, hkey]
        · rw [putBack, AList.lookup_insert_ne hsame, AList.lookup_erase_ne hsame]
      · exact ⟨hname.component, keyed_erase hname parent⟩

theorem tells_rename (hname : InSpelling cf spell name) (hnewname : InSpelling cf spell newname) :
    Tells cf spell s (s.renameEffect clock parent.raw name newparent.raw newname)
      ((s.children.lookup (parent.raw, name)).map fun _ => .move parent name newparent newname) := by
  unfold renameEffect
  cases hkey : s.children.lookup (parent.raw, name) with
  | none => rfl
  | some i =>
      refine ⟨hname.component, hnewname.component, (⟨i⟩, ⟨0⟩), ?_, ?_⟩
      · rw [keyed_name hname, hkey]
        rfl
      · change keyed cf spell (((s.children.erase _).erase _).insert _ i) = _
        rw [keyed_insert hnewname, keyed_erase hnewname, keyed_erase hname, assign_twice]

section Answers
variable (req : Request)

theorem change_mkdir (mode umask : UInt32) : (FsCall.mkdir req parent name mode umask).change
    ((MemFsCall.fs (.mkdir req parent name mode umask)).answer clock s)
      = (s.children.lookup (parent.raw, name)).elim (some (.add parent name ⟨s.nextIno⟩ ⟨0⟩))
        fun _ => none := by
  simp only [MemFsCall.answer, insertAnswer]
  cases s.children.lookup (parent.raw, name) <;> rfl

theorem change_create (mode umask : UInt32) (flags : Int32) :
    (FsCall.create req parent name mode umask flags).change
      ((MemFsCall.fs (.create req parent name mode umask flags)).answer clock s)
        = (s.children.lookup (parent.raw, name)).elim (some (.add parent name ⟨s.nextIno⟩ ⟨0⟩))
          fun _ => none := by
  simp only [MemFsCall.answer, insertAnswer]
  cases s.children.lookup (parent.raw, name) <;> rfl

theorem change_unlink : (FsCall.unlink req parent name).change
    ((MemFsCall.fs (.unlink req parent name)).answer clock s)
      = (s.children.lookup (parent.raw, name)).map fun _ => .remove parent name := by
  simp only [MemFsCall.answer, unlinkAnswer]
  cases s.children.lookup (parent.raw, name) <;> rfl

theorem change_rmdir : (FsCall.rmdir req parent name).change
    ((MemFsCall.fs (.rmdir req parent name)).answer clock s)
      = (s.children.lookup (parent.raw, name)).bind fun ino =>
        if s.keepsDir parent.raw name ino then none else some (.remove parent name) := by
  simp only [MemFsCall.answer, rmdirAnswer]
  cases s.children.lookup (parent.raw, name) with
  | none => rfl
  | some i =>
      dsimp only [Option.elim_some, Option.bind_some]
      split_ifs <;> rfl

theorem change_rename (flags : RenameFlags) :
    (FsCall.rename req parent name newparent newname flags).change
      ((MemFsCall.fs (.rename req parent name newparent newname flags)).answer clock s)
        = (s.children.lookup (parent.raw, name)).map fun _ => .move parent name newparent newname := by
  simp only [MemFsCall.answer, renameAnswer, unlinkAnswer]
  cases s.children.lookup (parent.raw, name) <;> rfl

end Answers

variable (clock s) in
/-- A call changes the names as its answer tells. -/
theorem tells_answer {c : FsCall} (hnames : ∀ name ∈ c.entryNames, InSpelling cf spell name) :
    Tells cf spell s ((MemFsCall.fs c).effect clock s) (c.change ((MemFsCall.fs c).answer clock s)) := by
  cases c with
  | mkdir req parent name mode umask =>
      rw [change_mkdir]
      exact tells_insert (hnames name (List.mem_singleton_self _)) mode .directory
  | create req parent name mode umask flags =>
      rw [change_create]
      exact tells_insert (hnames name (List.mem_singleton_self _)) mode .file
  | unlink req parent name =>
      rw [change_unlink]
      exact tells_unlink (hnames name (List.mem_singleton_self _))
  | rmdir req parent name =>
      rw [change_rmdir]
      exact tells_rmdir (hnames name (List.mem_singleton_self _))
  | rename req parent name newparent newname flags =>
      rw [change_rename]
      exact tells_rename (hnames name List.mem_cons_self)
        (hnames newname (List.mem_cons_of_mem _ (List.mem_singleton_self _)))
  | _ => rfl

/-- A new entry has the next number. -/
theorem ino_of_add {c : FsCall} {parent ino : INodeNo} {name : OsStr} {generation : Generation}
    (h : c.change ((MemFsCall.fs c).answer clock s) = some (.add parent name ino generation)) :
    ino = ⟨s.nextIno⟩ := by
  have hinsert : ∀ (p : INodeNo) (n : OsStr),
      ((s.children.lookup (p.raw, n)).elim (some (NameChange.add p n ⟨s.nextIno⟩ ⟨0⟩)) fun _ => none)
        = some (.add parent name ino generation) → ino = ⟨s.nextIno⟩ := by
    intro p n hadd
    cases hkey : s.children.lookup (p.raw, n) with
    | none =>
        rw [hkey] at hadd
        injection hadd with hadd
        injection hadd with _ _ hino
        exact hino.symm
    | some i =>
        rw [hkey] at hadd
        cases hadd
  cases c with
  | mkdir req p n mode umask => exact hinsert p n (by rw [← change_mkdir, h])
  | create req p n mode umask flags => exact hinsert p n (by rw [← change_create, h])
  | unlink req p n =>
      obtain ⟨-, heq⟩ := FsCall.change_unlink h
      cases heq
  | rmdir req p n =>
      obtain ⟨-, heq⟩ := FsCall.change_rmdir h
      cases heq
  | rename req p n np nn flags =>
      obtain ⟨-, heq⟩ := FsCall.change_rename h
      cases heq
  | _ => cases h

end Tells
end MemFs
end Confuse
