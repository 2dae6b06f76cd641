import Confuse.MemFsRuns
import Mathlib.Order.Interval.Finset.Nat

/-!
# Directories of the file system in memory

The children of a directory are numbered in the order in which they were made, so what is added to a
directory comes behind what is there. A reader that asks for page after page meets every child once,
whatever is added between the pages.
-/

namespace Confuse

open Interaction Capacity SortedCursor

namespace MemFs

/-! ## The children -/

section Children
variable {s s' : MemFs} {ino : UInt64}

theorem mem_childrenOf {i : UInt64} :
    i ∈ s.childrenOf ino ↔ ∃ name, s.children.lookup (ino, name) = some i := by
  unfold childrenOf
  rw [List.mem_map]
  constructor
  · rintro ⟨⟨⟨parent, name⟩, j⟩, hmem, rfl⟩
    obtain ⟨hin, hparent⟩ := List.mem_filter.mp hmem
    obtain rfl : parent = ino := of_decide_eq_true hparent
    exact ⟨name, AList.mem_lookup_iff.mpr hin⟩
  · rintro ⟨name, hname⟩
    exact ⟨⟨(ino, name), i⟩, List.mem_filter.mpr ⟨AList.mem_lookup_iff.mp hname, by simp⟩, rfl⟩

theorem nodup_childrenOf (h : s.children.values.Nodup) (ino : UInt64) : (s.childrenOf ino).Nodup :=
  (Multiset.coe_nodup.mp h).sublist (List.Sublist.map _ List.filter_sublist)

theorem mem_sortedChildren {i : UInt64} :
    i ∈ s.sortedChildren ino ↔ ∃ name, s.children.lookup (ino, name) = some i :=
  (List.mem_insertionSort _).trans mem_childrenOf

theorem nodup_sortedChildren (h : s.children.values.Nodup) (ino : UInt64) :
    (s.sortedChildren ino).Nodup :=
  (List.perm_insertionSort _ _).nodup_iff.mpr (nodup_childrenOf h ino)

/-- Without repetitions, the children are listed as their increasing list. -/
theorem sortedChildren_eq (h : s.children.values.Nodup) {l : List UInt64}
    (hl : l.Pairwise fun i j => i < j)
    (hmem : ∀ i, i ∈ l ↔ ∃ name, s.children.lookup (ino, name) = some i) :
    s.sortedChildren ino = l := by
  have hsorted : (s.sortedChildren ino).Pairwise (· ≤ ·) := List.pairwise_insertionSort _ _
  have hperm : (s.sortedChildren ino).Perm l := by
    refine (List.perm_ext_iff_of_nodup (nodup_sortedChildren h ino) ?_).mpr fun i => ?_
    · exact hl.imp fun hlt => UInt64.ne_of_lt hlt
    · rw [mem_sortedChildren, hmem]
  refine hperm.eq_of_pairwise ?_ hsorted (hl.imp fun hlt => UInt64.le_of_lt hlt)
  exact fun i j _ _ hij hji => UInt64.le_antisymm hij hji

theorem sortedChildren_increasing (h : s.children.values.Nodup) (ino : UInt64) :
    (s.sortedChildren ino).Pairwise fun i j => i < j := by
  have hsorted : (s.sortedChildren ino).Pairwise (· ≤ ·) := List.pairwise_insertionSort _ _
  refine (hsorted.and (nodup_sortedChildren h ino)).imp ?_
  rintro i j ⟨hle, hne⟩
  exact UInt64.lt_of_le_of_ne hle hne

end Children

/-! ## The entries -/

section Entries
variable {s : MemFs} {room : ℕ} {lost : Multiset UInt64}

theorem entriesFrom_append (idx : ℕ) (nodes rest : List (Option INode)) :
    entriesFrom idx (nodes ++ rest) = entriesFrom idx nodes ++ entriesFrom (idx + nodes.length) rest := by
  induction nodes generalizing idx with
  | nil => rfl
  | cons node nodes ih =>
      rw [List.cons_append, entriesFrom, entriesFrom, ih, List.append_assoc, List.length_cons]
      congr 3
      omega

/-- As long as the cookies do not wrap around. -/
theorem entriesFrom_increasing (idx : ℕ) (nodes : List (Option INode))
    (hidx : idx + nodes.length + 2 < 2 ^ 64) :
    (entriesFrom idx nodes).Pairwise (fun a b => a.cookie < b.cookie) ∧
      ∀ entry ∈ entriesFrom idx nodes, idx + 3 ≤ entry.cookie := by
  induction nodes generalizing idx with
  | nil => exact ⟨List.Pairwise.nil, by simp [entriesFrom]⟩
  | cons node nodes ih =>
      rw [List.length_cons] at hidx
      obtain ⟨hrest, habove⟩ := ih (idx + 1) (by omega)
      rw [entriesFrom]
      cases node with
      | none => exact ⟨hrest, fun entry hentry => Nat.le_of_succ_le (habove entry hentry)⟩
      | some node =>
          have hcookie : (childEntry idx node).cookie = idx + 3 :=
            UInt64.toNat_ofNat_of_lt' (show idx + 3 < 2 ^ 64 by omega)
          rw [Option.map_some, Option.toList_some, List.singleton_append, List.pairwise_cons,
            List.forall_mem_cons, hcookie]
          refine ⟨⟨fun entry hentry => ?_, hrest⟩, Nat.le_refl _, fun entry hentry => ?_⟩
          · exact habove entry hentry
          · exact Nat.le_of_succ_le (habove entry hentry)

/-- Different numbers below a bound. -/
theorem length_le_of_nodup {l : List UInt64} (hl : l.Nodup) {n : ℕ}
    (hbound : ∀ i ∈ l, 1 < i.toNat ∧ i.toNat < n) : l.length ≤ n - 2 := by
  have hmap : (l.map UInt64.toNat).Nodup := hl.map fun i j hij => UInt64.toNat_inj.mp hij
  have hsub : (l.map UInt64.toNat).toFinset ⊆ Finset.Ioo 1 n := by
    intro k hk
    obtain ⟨i, hi, rfl⟩ := List.mem_map.mp (List.mem_toFinset.mp hk)
    exact Finset.mem_Ioo.mpr (hbound i hi)
  have hcard := Finset.card_le_card hsub
  rw [List.toFinset_card_of_nodup hmap, Nat.card_Ioo, List.length_map] at hcard
  omega

theorem Settled.length_sortedChildren (h : Settled room lost s) (ino : UInt64) :
    (s.sortedChildren ino).length + 2 < 2 ^ 64 := by
  have hlength := length_le_of_nodup (nodup_sortedChildren h.nodup_values ino)
    (n := s.nextIno.toNat) fun i hi => ?_
  · have hbudget := h.sound.budget
    have hstarted := h.sound.started
    change 1 < _ at hstarted
    omega
  · obtain ⟨name, hname⟩ := mem_sortedChildren.mp hi
    exact h.sound.given i (Multiset.mem_add.mpr (.inr (KeyedMap.mem_values.mpr ⟨_, hname⟩)))

/-- The entries of a directory make up a directory as requests see it. -/
def Settled.directory (h : Settled room lost s) (ino parent : UInt64) : Directory where
  entries := s.dirEntries ino parent
  increasing := by
    have hlength := h.length_sortedChildren ino
    obtain ⟨hpairwise, habove⟩ := entriesFrom_increasing 0
      ((s.sortedChildren ino).map fun child => s.inodes.lookup child) (by rw [List.length_map]; omega)
    constructor
    · refine List.pairwise_cons.mpr ⟨fun entry hentry => ?_, List.pairwise_cons.mpr ⟨?_, hpairwise⟩⟩
      · rcases List.mem_cons.mp hentry with rfl | hentry
        · exact Nat.one_lt_two
        · exact Nat.lt_of_lt_of_le (show 1 < 0 + 3 by omega) (habove entry hentry)
      · intro entry hentry
        exact Nat.lt_of_lt_of_le (show 2 < 0 + 3 by omega) (habove entry hentry)
    · intro entry hentry
      rcases List.mem_cons.mp hentry with rfl | hentry
      · exact Nat.one_pos
      · rcases List.mem_cons.mp hentry with rfl | hentry
        · exact Nat.two_pos
        · exact Nat.lt_of_lt_of_le (by decide) (habove entry hentry)

theorem behind_eq_after (d : Directory) (offset : UInt64) : behind offset d.entries = d.after offset := by
  refine List.filter_congr fun entry _ => ?_
  rw [decide_eq_decide]
  exact UInt64.lt_iff_toNat_lt

end Entries
end MemFs

/-! ## Additions -/

/-- The call neither takes a name out of a directory nor takes away the directory's own name; it may
add to it. -/
def MemFsCall.Spares (ino : UInt64) (place : UInt64 × OsStr) : MemFsCall → Prop
  | .fs (.unlink _ parent name) => parent.raw ≠ ino ∧ (parent.raw, name) ≠ place
  | .fs (.rmdir _ parent name) => parent.raw ≠ ino ∧ (parent.raw, name) ≠ place
  | .fs (.rename _ parent name newparent _ _) =>
      parent.raw ≠ ino ∧ newparent.raw ≠ ino ∧ (parent.raw, name) ≠ place
  | _ => True

namespace MemFs

/-- A directory and its children stay where they are, and at most a new inode is added to them. -/
structure Grows (ino : UInt64) (s s' : MemFs) : Prop where
  kept : ∀ {name i}, s.children.lookup (ino, name) = some i →
    s'.children.lookup (ino, name) = some i
  added : ∀ {name i}, s'.children.lookup (ino, name) = some i →
    s.children.lookup (ino, name) = some i ∨ i = s.nextIno
  places : ∀ {i node}, (i = ino ∨ ∃ name, s.children.lookup (ino, name) = some i) →
    s.inodes.lookup i = some node → ∃ node', s'.inodes.lookup i = some node' ∧
      node'.place = node.place

section Grows
variable {clock : ℕ → SystemTime} {s : MemFs} {room : ℕ} {lost : Multiset UInt64} {ino : UInt64}
  {dir : INode}

/-- Inodes that stay where they are. -/
def SamePlace (inodes inodes' : KeyedMap UInt64 INode) (i : UInt64) : Prop :=
  ∀ node, inodes.lookup i = some node → ∃ node', inodes'.lookup i = some node' ∧
    node'.place = node.place

namespace SamePlace
variable {inodes inodes' : KeyedMap UInt64 INode} {i j : UInt64}

theorem refl (inodes : KeyedMap UInt64 INode) (i : UInt64) : SamePlace inodes inodes i :=
  fun node hnode => ⟨node, hnode, rfl⟩

theorem modify (h : SamePlace inodes inodes' i) (j : UInt64) {f : INode → INode}
    (hf : i = j → ∀ node, (f node).place = node.place) :
    SamePlace inodes (KeyedMap.modify j f inodes') i := by
  intro node hnode
  obtain ⟨node', hnode', hplace⟩ := h node hnode
  rw [KeyedMap.lookup_modify]
  split_ifs with hij
  · subst hij
    exact ⟨f node', by rw [hnode', Option.map_some], (hf rfl node').trans hplace⟩
  · exact ⟨node', hnode', hplace⟩

theorem erase (h : SamePlace inodes inodes' i) (hij : i ≠ j) : SamePlace inodes (inodes'.erase j) i := by
  intro node hnode
  obtain ⟨node', hnode', hplace⟩ := h node hnode
  exact ⟨node', by rwa [AList.lookup_erase_ne hij], hplace⟩

theorem touchedParents (h : SamePlace inodes inodes' i) (parent newparent : UInt64)
    (now : SystemTime) : SamePlace inodes (touchedParents parent newparent now inodes') i := by
  unfold MemFs.touchedParents
  split_ifs
  · exact (h.modify parent fun _ => touch_place now).modify newparent fun _ => touch_place now
  · exact h.modify parent fun _ => touch_place now

end SamePlace

/-- Names outside a directory lead elsewhere than its names do, and not to itself. -/
theorem Settled.elsewhere (h : Settled room lost s) (hdir : s.inodes.lookup ino = some dir)
    {parent : UInt64} {name : OsStr} {r i : UInt64}
    (hkey : s.children.lookup (parent, name) = some r) (hparent : parent ≠ ino)
    (hplace : (parent, name) ≠ (dir.parent, dir.name))
    (hi : i = ino ∨ ∃ name', s.children.lookup (ino, name') = some i) : i ≠ r := by
  rintro rfl
  rcases hi with rfl | ⟨name', hname'⟩
  · obtain ⟨node, hnode, hrecorded⟩ := h.placed _ _ hkey
    obtain rfl := Option.some.inj (hdir.symm.trans hnode)
    exact hplace hrecorded.symm
  · have hsame := KeyedMap.eq_of_nodup_values h.nodup_values hkey hname'
    exact hparent (Prod.mk.inj hsame).1

theorem Settled.grows_insert (h : Settled room lost s) (ino parent : UInt64) (name : OsStr)
    (mode : UInt32) (kind : NewNodeKind) :
    Grows ino s (s.insertEffect clock parent name mode kind) := by
  unfold insertEffect
  cases hkey : s.children.lookup (parent, name) with
  | some r => exact ⟨fun h => h, .inl, fun _ hnode => ⟨_, hnode, rfl⟩⟩
  | none =>
      refine ⟨fun {name' i} hname' => ?_, fun {name' i} hname' => ?_, fun {i node} _ hnode => ?_⟩
      · refine (AList.lookup_insert_ne ?_).trans hname'
        intro heq
        rw [heq, hkey] at hname'
        cases hname'
      · change (s.children.insert (parent, name) s.nextIno).lookup (ino, name') = some i at hname'
        by_cases heq : (ino, name') = (parent, name)
        · rw [heq, AList.lookup_insert] at hname'
          exact .inr (Option.some.inj hname').symm
        · rw [AList.lookup_insert_ne heq] at hname'
          exact .inl hname'
      · have hne : i ≠ s.nextIno := by
          rintro rfl
          rw [h.next_unused] at hnode
          cases hnode
        have hnew : SamePlace s.inodes
            (s.inodes.insert s.nextIno (s.newNode clock parent name mode kind)) i :=
          fun node hnode => ⟨node, by rwa [AList.lookup_insert_ne hne], rfl⟩
        exact hnew.modify parent (fun _ => touchParent_place kind _) node hnode

/-- Names and inodes outside a directory may go. -/
theorem Settled.grows_remove (h : Settled room lost s) (hdir : s.inodes.lookup ino = some dir)
    {parent : UInt64} {name : OsStr} {r : UInt64}
    (hkey : s.children.lookup (parent, name) = some r) (hparent : parent ≠ ino)
    (hplace : (parent, name) ≠ (dir.parent, dir.name)) {s' : MemFs}
    (hchildren : s'.children = s.children.erase (parent, name)) {f : INode → INode}
    (hf : ∀ node, (f node).place = node.place)
    (hinodes : s'.inodes = KeyedMap.modify parent f (s.inodes.erase r)) : Grows ino s s' := by
  have hne : ∀ name', (ino, name') ≠ (parent, name) := by
    intro name' heq
    exact hparent (Prod.mk.inj heq).1.symm
  refine ⟨fun {name' i} hname' => ?_, fun {name' i} hname' => ?_, fun {i node} hi hnode => ?_⟩
  · rw [hchildren, AList.lookup_erase_ne (hne name')]
    exact hname'
  · rw [hchildren, AList.lookup_erase_ne (hne name')] at hname'
    exact .inl hname'
  · rw [hinodes]
    have hkept := (SamePlace.refl s.inodes i).erase (h.elsewhere hdir hkey hparent hplace hi)
    exact hkept.modify parent (fun _ => hf) node hnode

theorem Settled.grows_rename (h : Settled room lost s) (hdir : s.inodes.lookup ino = some dir)
    {parent newparent : UInt64} {name newname : OsStr} {r : UInt64}
    (hkey : s.children.lookup (parent, name) = some r) (hparent : parent ≠ ino)
    (hnewparent : newparent ≠ ino) (hplace : (parent, name) ≠ (dir.parent, dir.name)) :
    Grows ino s (s.renamed clock parent name newparent newname r) := by
  have hsame : ∀ name', (s.renamed clock parent name newparent newname r).children.lookup (ino, name')
      = s.children.lookup (ino, name') := by
    intro name'
    have hne : (ino, name') ≠ (parent, name) := fun heq => hparent (Prod.mk.inj heq).1.symm
    have hne' : (ino, name') ≠ (newparent, newname) := fun heq => hnewparent (Prod.mk.inj heq).1.symm
    refine (AList.lookup_insert_ne hne').trans ?_
    rw [AList.lookup_erase_ne hne', AList.lookup_erase_ne hne]
  refine ⟨fun hname' => (hsame _).trans hname', fun hname' => .inl ((hsame _).symm.trans hname'),
    fun {i node} hi hnode => ?_⟩
  have hmoved := (SamePlace.refl s.inodes i).modify r
    (f := INode.moveTo newparent newname (clock s.clockReads))
    fun heq => absurd heq (h.elsewhere hdir hkey hparent hplace hi)
  exact hmoved.touchedParents parent newparent _ node hnode

theorem grows_of_same {s' : MemFs} (hchildren : ∀ key, s'.children.lookup key = s.children.lookup key)
    (hplaces : ∀ i, SamePlace s.inodes s'.inodes i) : Grows ino s s' :=
  ⟨fun hname => (hchildren _).trans hname, fun hname => .inl ((hchildren _).symm.trans hname),
    fun _ hnode => hplaces _ _ hnode⟩

/-- A call that spares a directory lets it grow. -/
theorem Settled.grows (h : Settled room lost s) (hdir : s.inodes.lookup ino = some dir)
    {c : MemFsCall} (hc : c.Spares ino (dir.parent, dir.name)) : Grows ino s (c.effect clock s) := by
  have hidle : Grows ino s s := grows_of_same (fun _ => rfl) fun i => .refl _ i
  have htick : Grows ino s s.tick := grows_of_same (fun _ => rfl) fun i => .refl _ i
  have hupdate : ∀ (target : UInt64) {f : SystemTime → INode → INode},
      (∀ now node, (f now node).place = node.place) → Grows ino s (s.updated clock target f) :=
    fun target f hf => grows_of_same (fun _ => rfl) fun i =>
      (SamePlace.refl _ i).modify target fun _ => hf _
  cases c with
  | mknod req parent name mode umask rdev => exact h.grows_insert ino ..
  | fs c =>
      cases c with
      | create req parent name mode umask flags => exact h.grows_insert ino ..
      | mkdir req parent name mode umask => exact h.grows_insert ino ..
      | unlink req parent name =>
          change Grows ino s (s.unlinkEffect clock parent.raw name)
          unfold unlinkEffect
          cases hkey : s.children.lookup (parent.raw, name) with
          | none => exact htick
          | some r => exact h.grows_remove hdir hkey hc.1 hc.2 rfl (touch_place _) rfl
      | rmdir req parent name =>
          change Grows ino s (s.rmdirEffect clock parent.raw name)
          unfold rmdirEffect
          cases hkey : s.children.lookup (parent.raw, name) with
          | none => exact htick
          | some r =>
              dsimp only [Option.elim_some]
              split_ifs
              · refine grows_of_same (fun key => ?_) fun i => .refl _ i
                change ((s.children.erase (parent.raw, name)).insert (parent.raw, name) r).lookup key = _
                by_cases hsame : key = (parent.raw, name)
                · rw [hsame, AList.lookup_insert, hkey]
                · rw [AList.lookup_insert_ne hsame, AList.lookup_erase_ne hsame]
              · have hf : ∀ node : INode, (node.unlinkDir (clock s.clockReads)).place = node.place :=
                  fun _ => rfl
                exact h.grows_remove hdir hkey hc.1 hc.2 rfl hf rfl
      | rename req parent name newparent newname flags =>
          change Grows ino s (s.renameEffect clock parent.raw name newparent.raw newname)
          unfold renameEffect
          cases hkey : s.children.lookup (parent.raw, name) with
          | none => exact htick
          | some r => exact h.grows_rename hdir hkey hc.1 hc.2.1 hc.2.2
      | setattr req target args => exact hupdate target.raw fun now => setattr_place args now
      | write req target fh offset data writeFlags flags lockOwner =>
          exact hupdate target.raw fun now => write_place offset data now
      | _ => exact hidle

/-! ### The entries of a growing directory -/

/-- New children come behind the old ones. -/
theorem Grows.sortedChildren_extends {s' : MemFs} {room' : ℕ} {lost' : Multiset UInt64}
    (hgrows : Grows ino s s') (h : Settled room lost s) (h' : Settled room' lost' s') :
    s.sortedChildren ino <+: s'.sortedChildren ino := by
  by_cases hadded : ∃ name, s.children.lookup (ino, name) ≠ some s.nextIno ∧
      s'.children.lookup (ino, name) = some s.nextIno
  · obtain ⟨name, -, hname⟩ := hadded
    refine ⟨[s.nextIno], (sortedChildren_eq h'.nodup_values ?_ fun i => ?_).symm⟩
    · rw [List.pairwise_append]
      refine ⟨sortedChildren_increasing h.nodup_values ino, List.pairwise_singleton _ _, ?_⟩
      intro i hi j hj
      rw [List.mem_singleton.mp hj, UInt64.lt_iff_toNat_lt]
      obtain ⟨other, hother⟩ := mem_sortedChildren.mp hi
      exact (h.sound.given i (Multiset.mem_add.mpr (.inr (KeyedMap.mem_values.mpr ⟨_, hother⟩)))).2
    · rw [List.mem_append, mem_sortedChildren, List.mem_singleton]
      constructor
      · rintro (⟨other, hother⟩ | rfl)
        · exact ⟨other, hgrows.kept hother⟩
        · exact ⟨name, hname⟩
      · rintro ⟨other, hother⟩
        exact (hgrows.added hother).imp (fun hold => ⟨other, hold⟩) id
  · refine (sortedChildren_eq h'.nodup_values (sortedChildren_increasing h.nodup_values ino)
      fun i => ?_).symm ▸ List.prefix_refl _
    rw [mem_sortedChildren]
    constructor
    · exact fun ⟨other, hother⟩ => ⟨other, hgrows.kept hother⟩
    · rintro ⟨other, hother⟩
      refine ⟨other, (hgrows.added hother).resolve_right ?_⟩
      rintro rfl
      refine hadded ⟨other, fun hold => ?_, hother⟩
      have hstored := h.stored hold
      rw [h.next_unused] at hstored
      cases hstored

theorem entriesFrom_congr {nodes nodes' : List (Option INode)}
    (hsame : List.Forall₂ (fun node node' => node.map INode.place = node'.map INode.place) nodes nodes')
    (idx : ℕ) : entriesFrom idx nodes = entriesFrom idx nodes' := by
  induction hsame generalizing idx with
  | nil => rfl
  | @cons node node' _ _ hnode _ ih =>
      have hentry : ∀ node : Option INode, node.map (childEntry idx)
          = (node.map INode.place).map fun place =>
              ⟨⟨place.1⟩, .ofNat (idx + 3), place.2.1, place.2.2.2⟩ := by
        intro node
        cases node <;> rfl
      rw [entriesFrom, entriesFrom, hentry node, hentry node', hnode, ih]

theorem Grows.childEntries_extends {s' : MemFs} {room' : ℕ} {lost' : Multiset UInt64}
    (hgrows : Grows ino s s') (h : Settled room lost s) (h' : Settled room' lost' s') :
    s.childEntries ino <+: s'.childEntries ino := by
  obtain ⟨added, hadded⟩ := hgrows.sortedChildren_extends h h'
  unfold childEntries
  rw [← hadded, List.map_append, entriesFrom_append]
  refine ⟨_, congrArg (· ++ _) (entriesFrom_congr ?_ 0)⟩
  rw [List.forall₂_map_left_iff, List.forall₂_map_right_iff, List.forall₂_same]
  intro i hi
  obtain ⟨name, hname⟩ := mem_sortedChildren.mp hi
  obtain ⟨node, hnode⟩ := Option.isSome_iff_exists.mp (h.stored hname)
  obtain ⟨node', hnode', hplace⟩ := hgrows.places (.inr ⟨name, hname⟩) hnode
  rw [hnode, hnode', Option.map_some, Option.map_some, hplace]

end Grows
end MemFs
end Confuse
