import Confuse.MemFsRuns
import Confuse.RootedTrees

/-!
# Paths in the file system in memory

The file system checks neither that a new name goes into a directory nor where a directory moves to.
Where its caller does, and no directory with children is replaced, the names stay a tree: a stored
inode is reached by exactly one path, or a rename has replaced it and no path reaches it.
-/

namespace Confuse

open Interaction NameTree

namespace MemFs

abbrev Names := KeyedMap (UInt64 × OsStr) UInt64

/-- The children of each inode. -/
def names (children : Names) : NameTree.Children UInt64 OsStr Unit := fun parent name =>
  (children.lookup (parent, name)).map fun ino => (ino, ())

def rootPlace : UInt64 × Unit := (ROOT_INO_RAW, ())

/-- The inode is the root or reached from it. -/
def Attached (children : Names) (ino : UInt64) : Prop := NameTree.Below (names children) rootPlace ino

theorem names_eq_some {children : Names} {parent ino : UInt64} {name : OsStr} {u : Unit} :
    names children parent name = some (ino, u) ↔ children.lookup (parent, name) = some ino := by
  unfold names
  constructor
  · intro h
    obtain ⟨i, hi, heq⟩ := Option.map_eq_some_iff.mp h
    obtain rfl : i = ino := congrArg Prod.fst heq
    exact hi
  · intro h
    rw [h]
    rfl

theorem names_eq_none {children : Names} {parent : UInt64} {name : OsStr} :
    names children parent name = none ↔ children.lookup (parent, name) = none := Option.map_eq_none_iff

theorem names_insert (children : Names) (parent : UInt64) (name : OsStr) (ino : UInt64) :
    names (children.insert (parent, name) ino)
      = assign (names children) parent name (some (ino, ())) := by
  funext p k
  unfold names assign
  by_cases hkey : p = parent ∧ k = name
  · rw [if_pos hkey, hkey.1, hkey.2, AList.lookup_insert]
    rfl
  · have hne : (p, k) ≠ (parent, name) := fun heq => hkey (Prod.mk.inj heq)
    rw [if_neg hkey, AList.lookup_insert_ne hne]

theorem names_erase (children : Names) (parent : UInt64) (name : OsStr) :
    names (children.erase (parent, name)) = assign (names children) parent name none := by
  funext p k
  unfold names assign
  by_cases hkey : p = parent ∧ k = name
  · rw [if_pos hkey, hkey.1, hkey.2, AList.lookup_erase]
    rfl
  · have hne : (p, k) ≠ (parent, name) := fun heq => hkey (Prod.mk.inj heq)
    rw [if_neg hkey, AList.lookup_erase_ne hne]

/-! ## Only directories have children -/

def IsDirectory (inodes : KeyedMap UInt64 INode) (ino : UInt64) : Prop :=
  ∃ node, inodes.lookup ino = some node ∧ node.kind = .directory

def OnlyDirectories (inodes : KeyedMap UInt64 INode) (children : Names) : Prop :=
  ∀ key i, children.lookup key = some i → IsDirectory inodes key.1

section Kinds
variable {inodes : KeyedMap UInt64 INode} {children : Names} {ino : UInt64}

theorem IsDirectory.modify (h : IsDirectory inodes ino) (i : UInt64) {f : INode → INode}
    (hf : ∀ node, (f node).kind = node.kind) : IsDirectory (KeyedMap.modify i f inodes) ino := by
  obtain ⟨node, hnode, hkind⟩ := h
  unfold IsDirectory
  rw [KeyedMap.lookup_modify]
  split_ifs with hi
  · subst hi
    exact ⟨f node, by rw [hnode, Option.map_some], (hf node).trans hkind⟩
  · exact ⟨node, hnode, hkind⟩

theorem IsDirectory.insert (h : IsDirectory inodes ino) {i : UInt64} (hi : inodes.lookup i = none)
    (node : INode) : IsDirectory (inodes.insert i node) ino := by
  obtain ⟨dir, hdir, hkind⟩ := h
  have hne : ino ≠ i := by
    rintro rfl
    rw [hi] at hdir
    cases hdir
  exact ⟨dir, by rwa [AList.lookup_insert_ne hne], hkind⟩

theorem IsDirectory.touchedParents (h : IsDirectory inodes ino) (parent newparent : UInt64)
    (now : SystemTime) : IsDirectory (touchedParents parent newparent now inodes) ino := by
  have htouch : ∀ node : INode, (node.touch now).kind = node.kind := fun _ => rfl
  unfold MemFs.touchedParents
  split_ifs
  · exact (h.modify parent htouch).modify newparent htouch
  · exact h.modify parent htouch

theorem OnlyDirectories.erase_name (h : OnlyDirectories inodes children) (key : UInt64 × OsStr) :
    OnlyDirectories inodes (children.erase key) := by
  intro key' j hj
  refine h key' j ?_
  by_cases hkey : key' = key
  · rw [hkey, AList.lookup_erase] at hj
    cases hj
  · rwa [AList.lookup_erase_ne hkey] at hj

theorem OnlyDirectories.insert_name (h : OnlyDirectories inodes children) {parent : UInt64}
    (hparent : IsDirectory inodes parent) (name : OsStr) (i : UInt64) :
    OnlyDirectories inodes (children.insert (parent, name) i) := by
  intro key j hj
  by_cases hkey : key = (parent, name)
  · rw [hkey]
    exact hparent
  · rw [AList.lookup_insert_ne hkey] at hj
    exact h key j hj

/-- An inode without children may go. -/
theorem OnlyDirectories.erase_node (h : OnlyDirectories inodes children)
    (hleaf : ∀ name, children.lookup (ino, name) = none) :
    OnlyDirectories (inodes.erase ino) children := by
  intro key j hj
  obtain ⟨node, hnode, hkind⟩ := h key j hj
  have hne : key.1 ≠ ino := by
    rintro rfl
    have hnone := hleaf key.2
    rw [hj] at hnone
    cases hnone
  exact ⟨node, by rwa [AList.lookup_erase_ne hne], hkind⟩

end Kinds

/-! ## Careful calls -/

/-- New names go into directories that are reached. -/
def TakesNames (s : MemFs) (ino : UInt64) : Prop :=
  Attached s.children ino ∧ IsDirectory s.inodes ino

/-- No directory is unlinked. -/
def MayUnlink (s : MemFs) (parent : UInt64) (name : OsStr) : Prop :=
  ∀ i, s.children.lookup (parent, name) = some i → ¬ IsDirectory s.inodes i

/-- Nothing moves onto or below itself, and what is replaced has no children. -/
structure MayRename (s : MemFs) (parent : UInt64) (name : OsStr) (newparent : UInt64)
    (newname : OsStr) : Prop where
  target : s.TakesNames newparent
  outside : ∀ i, s.children.lookup (parent, name) = some i →
    ¬ NameTree.Below (names s.children) (i, ()) newparent
  replaces : ∀ r ∈ s.replaced parent name newparent newname, ∀ c, s.children.lookup (r, c) = none

end MemFs

/-- What the file system leaves to its caller. -/
def MemFsCall.Careful (s : MemFs) : MemFsCall → Prop
  | .mknod _ parent _ _ _ _ => s.TakesNames parent.raw
  | .fs (.create _ parent _ _ _ _) => s.TakesNames parent.raw
  | .fs (.mkdir _ parent _ _ _) => s.TakesNames parent.raw
  | .fs (.unlink _ parent name) => s.MayUnlink parent.raw name
  | .fs (.rename _ parent name newparent newname _) =>
      s.MayRename parent.raw name newparent.raw newname
  | _ => True

namespace MemFs

/-- The names are a tree, and only directories have children. -/
structure Arranged (s : MemFs) : Prop where
  rooted : Rooted (names s.children) rootPlace
  onlyDirectories : OnlyDirectories s.inodes s.children

section Step
variable {clock : ℕ → SystemTime} {s : MemFs} {room : ℕ} {orphans : Multiset UInt64}
  {parent newparent ino : UInt64} {name newname : OsStr}

/-- What has no directory has no children. -/
theorem Arranged.leaf (h : Arranged s) (hino : ¬ IsDirectory s.inodes ino) (c : OsStr) :
    s.children.lookup (ino, c) = none := by
  by_contra hsome
  obtain ⟨i, hi⟩ := Option.ne_none_iff_exists'.mp hsome
  exact hino (h.onlyDirectories _ i hi)

theorem Arranged.inserted (h : Arranged s) (hs : Settled room orphans s)
    (hparent : s.TakesNames parent) (habsent : s.children.lookup (parent, name) = none)
    (mode : UInt32) (kind : NewNodeKind) : Arranged (s.inserted clock parent name mode kind) where
  rooted := by
    change Rooted (names (s.children.insert (parent, name) s.nextIno)) rootPlace
    rw [names_insert]
    refine h.rooted.add () hparent.1 (names_eq_none.mpr habsent) ?_ fun p k g hnew => ?_
    · rintro hroot
      obtain ⟨node, hnode, -⟩ := hs.sound.root
      have hunused := hs.next_unused
      rw [show s.nextIno = ROOT_INO_RAW from hroot, hnode] at hunused
      cases hunused
    · have hstored := hs.stored (names_eq_some.mp hnew)
      rw [hs.next_unused] at hstored
      cases hstored
  onlyDirectories := by
    have hkind : ∀ now node, (INode.touchParent kind now node).kind = node.kind := by
      intro now node
      cases kind <;> rfl
    intro key j hj
    refine IsDirectory.modify ?_ parent (hkind _)
    refine (OnlyDirectories.insert_name ?_ ?_ name s.nextIno) key j hj
    · exact fun key' i hi => (h.onlyDirectories key' i hi).insert hs.next_unused _
    · exact hparent.2.insert hs.next_unused _

/-- An inode without children goes with its name. -/
theorem Arranged.removed (h : Arranged s) (hkey : s.children.lookup (parent, name) = some ino)
    (hleaf : ∀ c, s.children.lookup (ino, c) = none) {f : INode → INode}
    (hf : ∀ node, (f node).kind = node.kind) :
    Rooted (names (s.children.erase (parent, name))) rootPlace ∧
      OnlyDirectories (KeyedMap.modify parent f (s.inodes.erase ino))
        (s.children.erase (parent, name)) := by
  constructor
  · rw [names_erase]
    exact h.rooted.remove (g := ()) (names_eq_some.mpr hkey) fun c => names_eq_none.mpr (hleaf c)
  · have hnodes := (h.onlyDirectories.erase_node hleaf).erase_name (parent, name)
    exact fun key j hj => (hnodes key j hj).modify parent hf

theorem Arranged.renamed (h : Arranged s) (hkey : s.children.lookup (parent, name) = some ino)
    (hmay : s.MayRename parent name newparent newname) :
    Arranged (s.renamed clock parent name newparent newname ino) where
  rooted := by
    change Rooted (names (((s.children.erase (parent, name)).erase (newparent, newname)).insert
      (newparent, newname) ino)) rootPlace
    rw [names_insert, names_erase, names_erase, assign_twice]
    refine h.rooted.replace (names_eq_some.mpr hkey) hmay.target.1 (hmay.outside ino hkey) ?_
    intro r hne hr c
    have hlookup : (s.children.erase (parent, name)).lookup (newparent, newname) = some r.1 := by
      rw [AList.lookup_erase_ne fun heq => hne (Prod.mk.inj heq)]
      exact names_eq_some.mp hr
    refine names_eq_none.mpr (hmay.replaces r.1 ?_ c)
    unfold replaced
    rw [hlookup]
    exact Multiset.mem_singleton_self r.1
  onlyDirectories := by
    have hmove : ∀ node, (INode.moveTo newparent newname (clock s.clockReads) node).kind = node.kind :=
      fun _ => rfl
    have hnodes := ((h.onlyDirectories.erase_name (parent, name)).erase_name
      (newparent, newname)).insert_name hmay.target.2 newname ino
    exact fun key j hj => ((hnodes key j hj).modify ino hmove).touchedParents _ _ _

theorem Arranged.modify (h : Arranged s) (ino : UInt64) {f : SystemTime → INode → INode}
    (hf : ∀ now node, (f now node).kind = node.kind) : Arranged (s.updated clock ino f) where
  rooted := h.rooted
  onlyDirectories := fun key j hj => (h.onlyDirectories key j hj).modify ino (hf _)

theorem Arranged.insertEffect (h : Arranged s) (hs : Settled room orphans s)
    (hparent : s.TakesNames parent) (mode : UInt32) (kind : NewNodeKind) :
    Arranged (s.insertEffect clock parent name mode kind) := by
  unfold MemFs.insertEffect
  cases hkey : s.children.lookup (parent, name) with
  | none => exact h.inserted hs hparent hkey mode kind
  | some i => exact h

theorem Arranged.unlinkEffect (h : Arranged s) (hmay : s.MayUnlink parent name) :
    Arranged (s.unlinkEffect clock parent name) := by
  unfold MemFs.unlinkEffect
  cases hkey : s.children.lookup (parent, name) with
  | none => exact ⟨h.rooted, h.onlyDirectories⟩
  | some i =>
      have hremoved := h.removed (f := INode.touch (clock s.clockReads)) hkey (h.leaf (hmay i hkey))
        fun _ => rfl
      exact ⟨hremoved.1, hremoved.2⟩

/-- What has no children under other names has none: it is not its own child. -/
theorem Arranged.childless (h : Arranged s) (hkey : s.children.lookup (parent, name) = some ino)
    (hempty : s.keepsDir parent name ino = false) (c : OsStr) :
    s.children.lookup (ino, c) = none := by
  by_contra hsome
  obtain ⟨i, hi⟩ := Option.ne_none_iff_exists'.mp hsome
  have hne : (ino, c) ≠ (parent, name) := by
    intro heq
    obtain ⟨rfl, rfl⟩ := Prod.mk.inj heq
    exact h.rooted.not_below_self (names_eq_some.mpr hkey) ⟨[], (), rfl⟩
  have hkept : (s.children.erase (parent, name)).lookup (ino, c) = some i := by
    rwa [AList.lookup_erase_ne hne]
  refine Bool.eq_false_iff.mp hempty (List.any_eq_true.mpr ⟨⟨(ino, c), i⟩, ?_, by simp⟩)
  exact AList.mem_lookup_iff.mp hkept

theorem Arranged.rmdirEffect (h : Arranged s) : Arranged (s.rmdirEffect clock parent name) := by
  unfold MemFs.rmdirEffect
  cases hkey : s.children.lookup (parent, name) with
  | none => exact ⟨h.rooted, h.onlyDirectories⟩
  | some i =>
      dsimp only [Option.elim_some]
      cases hkeeps : s.keepsDir parent name i with
      | true =>
          have hback : ∀ key, ((s.children.erase (parent, name)).insert (parent, name) i).lookup key
              = s.children.lookup key := by
            intro key
            by_cases hsame : key = (parent, name)
            · rw [hsame, AList.lookup_insert, hkey]
            · rw [AList.lookup_insert_ne hsame, AList.lookup_erase_ne hsame]
          constructor
          · have hnames : names ((s.children.erase (parent, name)).insert (parent, name) i)
                = names s.children := by
              funext p k
              exact congrArg (Option.map fun ino => (ino, ())) (hback (p, k))
            change Rooted (names ((s.children.erase (parent, name)).insert (parent, name) i)) rootPlace
            rw [hnames]
            exact h.rooted
          · exact fun key j hj => h.onlyDirectories key j ((hback key).symm.trans hj)
      | false =>
          have hremoved := h.removed (f := INode.unlinkDir (clock s.clockReads)) hkey
            (h.childless hkey hkeeps) fun _ => rfl
          exact ⟨hremoved.1, hremoved.2⟩

theorem Arranged.renameEffect (h : Arranged s) (hmay : s.MayRename parent name newparent newname) :
    Arranged (s.renameEffect clock parent name newparent newname) := by
  unfold MemFs.renameEffect
  cases hkey : s.children.lookup (parent, name) with
  | none => exact ⟨h.rooted, h.onlyDirectories⟩
  | some i => exact h.renamed hkey hmay

theorem Arranged.step (h : Arranged s) (hs : Settled room orphans s) {c : MemFsCall}
    (hcareful : c.Careful s) : Arranged (c.effect clock s) := by
  cases c with
  | mknod req parent name mode umask rdev => exact h.insertEffect hs hcareful mode .file
  | fs c =>
      cases c with
      | create req parent name mode umask flags => exact h.insertEffect hs hcareful mode .file
      | mkdir req parent name mode umask => exact h.insertEffect hs hcareful mode .directory
      | unlink req parent name => exact h.unlinkEffect hcareful
      | rmdir req parent name => exact h.rmdirEffect
      | rename req parent name newparent newname flags => exact h.renameEffect hcareful
      | setattr req ino args => exact h.modify ino.raw fun now node => (setattr_keeps args now node).2
      | write req ino fh offset data writeFlags flags lockOwner =>
          exact h.modify ino.raw fun now node => (write_keeps offset data now node).2
      | _ => exact h

end Step

/-! ## All runs -/

/-- Every call is careful where it is made. -/
def CarefulRun (clock : ℕ → SystemTime) : List MemFsCall → MemFs × (MemFsLock → Bool) → Prop
  | [], _ => True
  | c :: rest, s =>
      c.Careful s.1 ∧ CarefulRun clock rest (c.program.run (Prog.Machine.alone (machine clock)) s).2

section Runs
variable {clock : ℕ → SystemTime} {calls : List MemFsCall} {s : MemFs} {room : ℕ}
  {lost : Multiset UInt64}

theorem Arranged.run (h : Arranged s) (hs : Settled (room + calls.length) lost s)
    (hsizes : ∀ c ∈ calls, c.panics = false) (hcareful : CarefulRun clock calls (calm s)) :
    Arranged (served clock calls (calm s)).1 := by
  induction calls generalizing s lost with
  | nil => exact h
  | cons c rest ih =>
      rw [List.forall_mem_cons] at hsizes
      have hrun := run_effect clock s hsizes.1
      rw [CarefulRun, hrun] at hcareful
      have hstep : Settled (room + rest.length) (c.orphaned s + lost) (c.effect clock s) :=
        Settled.step (by rwa [List.length_cons, ← Nat.add_assoc] at hs) hsizes.1
      rw [served, List.foldl_cons, hrun]
      exact ih (h.step hs hcareful.1) hstep hsizes.2 hcareful.2

theorem arranged_new (now : SystemTime) : Arranged (new now) where
  rooted := .empty rootPlace
  onlyDirectories := fun key i hi => by cases hi

/-- With careful calls, a stored inode is reached by exactly one path, unless a rename has replaced
it: then it is not reached. -/
theorem one_path (clock : ℕ → SystemTime) (now : SystemTime) {calls : List MemFsCall}
    (hsizes : ∀ c ∈ calls, c.panics = false) (hfew : calls.length + 2 < 2 ^ 64)
    (hcareful : CarefulRun clock calls (calm (new now))) {ino : UInt64}
    (hino : ((served clock calls (calm (new now))).1.inodes.lookup ino).isSome) :
    (ino ∈ orphans clock calls (calm (new now)) ↔
        ¬ Attached (served clock calls (calm (new now))).1.children ino) ∧
      (ino ∉ orphans clock calls (calm (new now)) →
        ∃! path, walk (names (served clock calls (calm (new now))).1.children) rootPlace path
          = some (ino, ())) := by
  have hnew : Settled (0 + calls.length) 0 (new now) := by
    rw [zero_add]
    exact settled_new now _ hfew
  have harranged := (arranged_new now).run hnew hsizes hcareful
  obtain ⟨s', hserved, hsettled⟩ := runs_settled clock now hsizes hfew
  rw [hserved] at harranged hino ⊢
  have hattached : ino ∉ orphans clock calls (calm (new now)) → Attached s'.children ino := by
    intro horphan
    have hmem : ino ∈ s'.inodes.keySet := KeyedMap.mem_keySet.mpr hino
    rw [show s'.inodes.keySet = _ from hsettled.balanced, Multiset.mem_cons, Multiset.mem_add] at hmem
    rcases hmem with rfl | hnamed | hlost
    · exact ⟨[], (), rfl⟩
    · obtain ⟨key, hkey⟩ := KeyedMap.mem_values.mp hnamed
      obtain ⟨path, hpath⟩ := harranged.rooted.reached (names_eq_some.mpr hkey)
      exact ⟨path, (), hpath⟩
    · exact absurd hlost horphan
  refine ⟨⟨fun horphan hreached => ?_, fun hnot => by_contra fun h => hnot (hattached h)⟩,
    fun horphan => ?_⟩
  · have hnodup := KeyedMap.nodup_keySet s'.inodes
    rw [show s'.inodes.keySet = _ from hsettled.balanced, Multiset.nodup_cons, Multiset.nodup_add,
      Multiset.disjoint_left] at hnodup
    rcases inTree_of_below hreached with rfl | ⟨p, k, u, hplace⟩
    · exact hnodup.1 (Multiset.mem_add.mpr (.inr horphan))
    · exact hnodup.2.2.2 (KeyedMap.mem_values.mpr ⟨_, names_eq_some.mp hplace⟩) horphan
  · obtain ⟨path, u, hpath⟩ := hattached horphan
    exact ⟨path, hpath, fun other hother => harranged.rooted.path_unique hother hpath⟩

end Runs

theorem carefulRun_movedFile : CarefulRun stillClock movedFile (calm (new .UNIX_EPOCH)) := by
  refine ⟨⟨⟨[], (), rfl⟩, _, rfl, rfl⟩, ⟨⟨[.new ['d']], (), rfl⟩, _, rfl, rfl⟩,
    ⟨⟨⟨[], (), rfl⟩, _, rfl, rfl⟩, fun i hi => ?_, fun r hr => ?_⟩, trivial⟩
  · obtain rfl : 3 = i := Option.some.inj hi
    rintro ⟨ks, g, hks⟩
    cases ks with
    | nil => cases hks
    | cons c ks =>
        have hnone : ((∅ : Names).insert (1, .new ['d']) 2 |>.insert (2, .new ['f']) 3).lookup (3, c)
            = none := by
          rw [AList.lookup_insert_ne (by simp), AList.lookup_insert_ne (by simp)]
          rfl
        obtain ⟨v, hv, -⟩ := Option.bind_eq_some_iff.mp hks
        cases hnone.symm.trans (names_eq_some.mp hv)
  · exact absurd hr (Multiset.notMem_zero r)

theorem one_path_movedFile : (3 : UInt64) ∉ orphans stillClock movedFile (calm (new .UNIX_EPOCH)) ∧
    ∃! path, walk (names (served stillClock movedFile (calm (new .UNIX_EPOCH))).1.children) rootPlace
      path = some ((3 : UInt64), ()) := by
  have hnot : (3 : UInt64) ∉ orphans stillClock movedFile (calm (new .UNIX_EPOCH)) :=
    Multiset.notMem_zero 3
  exact ⟨hnot, (one_path stillClock .UNIX_EPOCH movedFile_sizes (by decide) carefulRun_movedFile
    (show ((served stillClock movedFile (calm (new .UNIX_EPOCH))).1.inodes.lookup 3).isSome from rfl)).2
      hnot⟩

end MemFs
end Confuse
