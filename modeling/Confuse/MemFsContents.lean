import Confuse.MemFsRuns

/-!
# What is read back

A read returns, byte by byte, what the last write or truncation that reached the byte left there,
whatever else has happened to the file and to others since it was made.
-/

namespace Confuse

open Interaction

namespace MemFs
variable (s : MemFs) (ino : UInt64)

/-- What `setattr` of `target` does to the contents of an inode. -/
def setattrChanges (target : UInt64) (args : SetattrArgs) : List (Contents.Change UInt8) :=
  if ino = target ∧ (s.inodes.lookup ino).isSome then
    (args.size.map fun size => .resize size.toNat).toList
  else []

/-- What `write` to `target` does to the contents of an inode. -/
def writeChanges (target : UInt64) (offset : UInt64) (data : List UInt8) :
    List (Contents.Change UInt8) :=
  if ino = target ∧ (s.inodes.lookup ino).map INode.kind = some .regularFile then
    [.put offset.toNat data]
  else []

end MemFs

/-- What a call does to the contents of an inode. -/
def MemFsCall.changes (s : MemFs) (ino : UInt64) : MemFsCall → List (Contents.Change UInt8)
  | .fs (.setattr _ target args) => s.setattrChanges ino target.raw args
  | .fs (.write _ target _ offset data _ _ _) => s.writeChanges ino target.raw offset data
  | _ => []

namespace MemFs

/-- The changes to the contents of an inode in a run. -/
def history (clock : ℕ → SystemTime) (ino : UInt64) :
    List MemFsCall → MemFs × (MemFsLock → Bool) → List (Contents.Change UInt8)
  | [], _ => []
  | c :: rest, s =>
      c.changes s.1 ino ++ history clock ino rest (c.program.run (Prog.Machine.alone (machine clock)) s).2

/-! ## One call -/

/-- Inodes stay or go, and their contents stay. -/
def SameData (inodes inodes' : KeyedMap UInt64 INode) : Prop :=
  ∀ i node', inodes'.lookup i = some node' →
    ∃ node, inodes.lookup i = some node ∧ node'.data = node.data

namespace SameData
variable {inodes inodes' : KeyedMap UInt64 INode}

theorem refl (inodes : KeyedMap UInt64 INode) : SameData inodes inodes :=
  fun _ node' hnode' => ⟨node', hnode', rfl⟩

theorem modify (h : SameData inodes inodes') (i : UInt64) {f : INode → INode}
    (hf : ∀ node, (f node).data = node.data) : SameData inodes (KeyedMap.modify i f inodes') := by
  intro j node' hnode'
  rw [KeyedMap.lookup_modify] at hnode'
  split_ifs at hnode' with hj
  · obtain ⟨node, hnode, rfl⟩ := Option.map_eq_some_iff.mp hnode'
    obtain ⟨old, hold, hdata⟩ := h i node hnode
    exact ⟨old, by rwa [hj], (hf node).trans hdata⟩
  · exact h j node' hnode'

theorem erase (h : SameData inodes inodes') (i : UInt64) : SameData inodes (inodes'.erase i) := by
  intro j node' hnode'
  refine h j node' ?_
  by_cases hj : j = i
  · rw [hj, AList.lookup_erase] at hnode'
    cases hnode'
  · rwa [AList.lookup_erase_ne hj] at hnode'

theorem touchedParents (h : SameData inodes inodes') (parent newparent : UInt64) (now : SystemTime) :
    SameData inodes (touchedParents parent newparent now inodes') := by
  have htouch : ∀ node : INode, (node.touch now).data = node.data := fun _ => rfl
  unfold MemFs.touchedParents
  split_ifs
  · exact (h.modify parent htouch).modify newparent htouch
  · exact h.modify parent htouch

end SameData

theorem resize_of_lt {n : ℕ} {data : List UInt8} (h : n < data.length) :
    Contents.resize n 0 data = data.take n := by
  rw [Contents.resize, Nat.sub_eq_zero_of_le h.le, List.replicate_zero, List.append_nil]

/-- Cutting off and filling up are one resizing. -/
theorem setattr_data {args : SetattrArgs} (hargs : INode.oversized args = false) (now : SystemTime)
    (node : INode) : (node.setattr args now).data
      = ((args.size.map fun size => Contents.Change.resize size.toNat).toList).foldl
          (fun l change => change.apply 0 l) node.data := by
  unfold INode.setattr
  rw [hargs, if_neg Bool.false_ne_true]
  change (INode.setSize args.size now (node.setOwner args)).data = _
  cases hsize : args.size with
  | none => rfl
  | some size =>
      change (if size.toNat < node.data.length then node.data.take size.toNat
        else Contents.resize size.toNat 0 node.data) = Contents.resize size.toNat 0 node.data
      split_ifs with hlt
      · exact (resize_of_lt hlt).symm
      · rfl

theorem write_data {offset : UInt64} {data : List UInt8}
    (hdata : INode.overlong offset data = false) (now : SystemTime) (node : INode) :
    (node.write offset data now).data
      = if node.kind = .regularFile then Contents.put 0 offset.toNat data node.data
        else node.data := by
  unfold INode.write
  rw [hdata]
  by_cases hkind : node.kind = .regularFile
  · rw [if_neg (not_not.mpr hkind), if_pos hkind]
    rfl
  · rw [if_pos hkind, if_neg hkind]

section Step
variable {clock : ℕ → SystemTime} {s : MemFs} {i : UInt64} {node' : INode}

abbrev replay (changes : List (Contents.Change UInt8)) (data : List UInt8) : List UInt8 :=
  changes.foldl (fun l change => change.apply 0 l) data

theorem data_insertEffect {parent : UInt64} {name : OsStr} {mode : UInt32} {kind : NewNodeKind}
    (hnode' : (s.insertEffect clock parent name mode kind).inodes.lookup i = some node') :
    (∃ node, s.inodes.lookup i = some node ∧ node'.data = node.data) ∨
      (i = s.nextIno ∧ node'.data = []) := by
  unfold insertEffect at hnode'
  cases hkey : s.children.lookup (parent, name) with
  | some ino =>
      rw [hkey] at hnode'
      exact .inl ⟨node', hnode', rfl⟩
  | none =>
      rw [hkey] at hnode'
      have htouch : ∀ node, (INode.touchParent kind (clock (s.clockReads + 1)) node).data = node.data := by
        intro node
        cases kind <;> rfl
      obtain ⟨node, hnode, hdata⟩ := (SameData.refl _).modify parent htouch i node' hnode'
      by_cases hi : i = s.nextIno
      · rw [hi, AList.lookup_insert] at hnode
        obtain rfl := Option.some.inj hnode
        refine .inr ⟨hi, hdata.trans ?_⟩
        cases kind <;> rfl
      · rw [AList.lookup_insert_ne hi] at hnode
        exact .inl ⟨node, hnode, hdata⟩

theorem data_setattr {ino : UInt64} {args : SetattrArgs} (hargs : INode.oversized args = false)
    (hnode' : (s.updated clock ino fun now => INode.setattr args now).inodes.lookup i = some node') :
    ∃ node, s.inodes.lookup i = some node ∧
      node'.data = replay (s.setattrChanges i ino args) node.data := by
  change (KeyedMap.modify _ _ _).lookup i = _ at hnode'
  rw [KeyedMap.lookup_modify] at hnode'
  unfold setattrChanges
  split_ifs at hnode' with hi
  · obtain ⟨node, hnode, rfl⟩ := Option.map_eq_some_iff.mp hnode'
    rw [← hi] at hnode
    refine ⟨node, hnode, ?_⟩
    rw [if_pos ⟨hi, by rw [hnode]; rfl⟩]
    exact setattr_data hargs _ node
  · refine ⟨node', hnode', ?_⟩
    rw [if_neg fun h => hi h.1]
    rfl

theorem data_write {ino offset : UInt64} {data : List UInt8}
    (hdata : INode.overlong offset data = false)
    (hnode' : (s.updated clock ino fun now => INode.write offset data now).inodes.lookup i
      = some node') :
    ∃ node, s.inodes.lookup i = some node ∧
      node'.data = replay (s.writeChanges i ino offset data) node.data := by
  change (KeyedMap.modify _ _ _).lookup i = _ at hnode'
  rw [KeyedMap.lookup_modify] at hnode'
  unfold writeChanges
  split_ifs at hnode' with hi
  · obtain ⟨node, hnode, rfl⟩ := Option.map_eq_some_iff.mp hnode'
    rw [← hi] at hnode
    refine ⟨node, hnode, ?_⟩
    rw [write_data hdata, hnode, Option.map_some]
    by_cases hkind : node.kind = .regularFile
    · rw [if_pos hkind, if_pos ⟨hi, congrArg some hkind⟩]
      rfl
    · rw [if_neg hkind, if_neg fun h => hkind (Option.some.inj h.2)]
      rfl
  · refine ⟨node', hnode', ?_⟩
    rw [if_neg fun h => hi h.1]
    rfl

theorem sameData_unlinkEffect (parent : UInt64) (name : OsStr) :
    SameData s.inodes (s.unlinkEffect clock parent name).inodes := by
  unfold unlinkEffect
  cases s.children.lookup (parent, name) with
  | none => exact .refl _
  | some ino => exact ((SameData.refl _).erase ino).modify parent fun _ => rfl

theorem sameData_rmdirEffect (parent : UInt64) (name : OsStr) :
    SameData s.inodes (s.rmdirEffect clock parent name).inodes := by
  unfold rmdirEffect
  cases s.children.lookup (parent, name) with
  | none => exact .refl _
  | some ino =>
      dsimp only [Option.elim_some]
      split_ifs
      · exact .refl _
      · exact ((SameData.refl _).erase ino).modify parent fun _ => rfl

theorem sameData_renameEffect (parent : UInt64) (name : OsStr) (newparent : UInt64)
    (newname : OsStr) :
    SameData s.inodes (s.renameEffect clock parent name newparent newname).inodes := by
  unfold renameEffect
  cases s.children.lookup (parent, name) with
  | none => exact .refl _
  | some ino =>
      have hmove : ∀ node,
          (INode.moveTo newparent newname (clock s.clockReads) node).data = node.data := fun _ => rfl
      exact ((SameData.refl _).modify ino hmove).touchedParents parent newparent _

/-- What a call leaves in an inode: what it did to it, or nothing in a new one. -/
theorem data_effect {c : MemFsCall} (hc : c.panics = false)
    (hnode' : (c.effect clock s).inodes.lookup i = some node') :
    (∃ node, s.inodes.lookup i = some node ∧ node'.data = replay (c.changes s i) node.data) ∨
      (i = s.nextIno ∧ node'.data = [] ∧ c.changes s i = []) := by
  cases c with
  | mknod req parent name mode umask rdev =>
      exact (data_insertEffect hnode').imp id fun h => ⟨h.1, h.2, rfl⟩
  | fs c =>
      cases c with
      | create req parent name mode umask flags =>
          exact (data_insertEffect hnode').imp id fun h => ⟨h.1, h.2, rfl⟩
      | mkdir req parent name mode umask =>
          exact (data_insertEffect hnode').imp id fun h => ⟨h.1, h.2, rfl⟩
      | unlink req parent name => exact .inl (sameData_unlinkEffect parent.raw name i node' hnode')
      | rmdir req parent name => exact .inl (sameData_rmdirEffect parent.raw name i node' hnode')
      | rename req parent name newparent newname flags =>
          exact .inl (sameData_renameEffect parent.raw name newparent.raw newname i node' hnode')
      | setattr req ino args => exact .inl (data_setattr hc hnode')
      | write req ino fh offset data writeFlags flags lockOwner =>
          exact .inl (data_write hc hnode')
      | _ => exact .inl ⟨node', hnode', rfl⟩

theorem changes_of_absent (c : MemFsCall) (hi : s.inodes.lookup i = none) : c.changes s i = [] := by
  cases c with
  | mknod req parent name mode umask rdev => rfl
  | fs c =>
      cases c with
      | setattr req ino args =>
          refine if_neg fun h => ?_
          rw [hi] at h
          exact Bool.false_ne_true h.2
      | write req ino fh offset data writeFlags flags lockOwner =>
          refine if_neg fun h => ?_
          rw [hi] at h
          cases h.2
      | _ => rfl

/-- Numbers are not given back. -/
theorem Settled.nextIno_le {room : ℕ} {lost : Multiset UInt64} (h : Settled (room + 1) lost s)
    (c : MemFsCall) : s.nextIno.toNat ≤ (c.effect clock s).nextIno.toNat := by
  have hbudget := h.sound.budget
  rw [Multiset.count_replicate_self] at hbudget
  have hnext : (s.nextIno + 1).toNat = s.nextIno.toNat + 1 := by
    rw [UInt64.toNat_add]
    exact Nat.mod_eq_of_lt (by simp only [UInt64.reduceToNat]; omega)
  have hchange := c.effect_change clock s
  generalize c.effect clock s = s' at hchange ⊢
  generalize c.orphaned s = orphaned at hchange
  cases hchange with
  | inserted parent name mode kind hkey =>
      change _ ≤ (s.nextIno + 1).toNat
      omega
  | _ => exact Nat.le_refl _

end Step

/-! ## All runs -/

/-- The contents of the inodes are those of the histories; an unused number has none. -/
structure Recorded (histories : UInt64 → List (Contents.Change UInt8)) (s : MemFs) : Prop where
  stored : ∀ {i node}, s.inodes.lookup i = some node → node.data = Contents.contents 0 (histories i)
  unused : ∀ i, s.nextIno.toNat ≤ i.toNat → histories i = []

section Runs
variable {clock : ℕ → SystemTime} {s : MemFs} {room : ℕ} {lost : Multiset UInt64}
  {histories : UInt64 → List (Contents.Change UInt8)}

theorem Recorded.step (h : Recorded histories s) (hs : Settled (room + 1) lost s) {c : MemFsCall}
    (hc : c.panics = false) :
    Recorded (fun i => histories i ++ c.changes s i) (c.effect clock s) where
  stored := by
    intro i node' hnode'
    rw [Contents.contents, List.foldl_append]
    rcases data_effect hc hnode' with ⟨node, hnode, hdata⟩ | ⟨hi, hdata, hchanges⟩
    · rw [hdata, h.stored hnode]
      rfl
    · rw [hdata, hchanges, h.unused i (by rw [hi])]
      rfl
  unused := by
    intro i hi
    have hle := (hs.nextIno_le c).trans hi
    have habsent : s.inodes.lookup i = none := by
      by_contra hstored
      obtain ⟨node, hnode⟩ := Option.ne_none_iff_exists'.mp hstored
      exact absurd (hs.sound.stored hnode).2.1 (Nat.not_lt.mpr hle)
    rw [h.unused i hle, changes_of_absent c habsent, List.append_nil]

variable (clock) in
theorem Recorded.run {calls : List MemFsCall} (h : Recorded histories s)
    (hs : Settled (room + calls.length) lost s) (hsizes : ∀ c ∈ calls, c.panics = false) :
    Recorded (fun i => histories i ++ history clock i calls (calm s))
      (served clock calls (calm s)).1 := by
  induction calls generalizing s lost histories with
  | nil =>
      have hsame : (fun i => histories i ++ history clock i [] (calm s)) = histories :=
        funext fun i => List.append_nil _
      rw [hsame]
      exact h
  | cons c rest ih =>
      rw [List.forall_mem_cons] at hsizes
      have hroom : Settled (room + rest.length + 1) lost s := by
        rwa [List.length_cons, ← Nat.add_assoc] at hs
      have hstep : Recorded (fun i => histories i ++ c.changes s i) (c.effect clock s) :=
        h.step hroom hsizes.1
      have hrest := ih hstep (hroom.step hsizes.1) hsizes.2
      have hsplit : ∀ i, history clock i (c :: rest) (calm s)
          = c.changes s i ++ history clock i rest (calm (c.effect clock s)) := by
        intro i
        rw [history, run_effect clock s hsizes.1]
        rfl
      rw [served, List.foldl_cons, run_effect clock s hsizes.1]
      simp only [hsplit, ← List.append_assoc]
      exact hrest

theorem recorded_new (now : SystemTime) : Recorded (fun _ => []) (new now) where
  stored := by
    intro i node hnode
    by_cases hroot : i = ROOT_INO_RAW
    · rw [hroot, show (new now).inodes.lookup ROOT_INO_RAW = some _ from AList.lookup_insert _] at hnode
      obtain rfl := Option.some.inj hnode
      rfl
    · rw [show (new now).inodes.lookup i = none from AList.lookup_insert_ne hroot] at hnode
      cases hnode
  unused := fun _ _ => rfl

theorem reach_changes {c : MemFsCall} (hc : c.panics = false) (i : UInt64) :
    ∀ change ∈ c.changes s i, change.reach ≤ isizeMax := by
  cases c with
  | mknod req parent name mode umask rdev => simp [MemFsCall.changes]
  | fs c =>
      cases c with
      | setattr req ino args =>
          change ∀ change ∈ s.setattrChanges i ino.raw args, _
          unfold setattrChanges
          split_ifs
          · intro change hchange
            obtain ⟨size, hsize, rfl⟩ := Option.map_eq_some_iff.mp (Option.mem_toList.mp hchange)
            have hargs : INode.oversized args = false := hc
            unfold INode.oversized at hargs
            rw [hsize] at hargs
            simpa [Contents.Change.reach] using hargs
          · simp
      | write req ino fh offset data writeFlags flags lockOwner =>
          change ∀ change ∈ s.writeChanges i ino.raw offset data, _
          unfold writeChanges
          split_ifs
          · intro change hchange
            obtain rfl := List.mem_singleton.mp hchange
            have hdata : INode.overlong offset data = false := hc
            simpa [INode.overlong, Contents.Change.reach] using hdata
          · simp
      | _ => simp [MemFsCall.changes]

theorem reach_history {calls : List MemFsCall} (hsizes : ∀ c ∈ calls, c.panics = false)
    (i : UInt64) : ∀ change ∈ history clock i calls (calm s), change.reach ≤ isizeMax := by
  induction calls generalizing s with
  | nil => simp [history]
  | cons c rest ih =>
      rw [List.forall_mem_cons] at hsizes
      rw [history, run_effect clock s hsizes.1]
      intro change hchange
      rcases List.mem_append.mp hchange with hnow | hlater
      · exact reach_changes hsizes.1 i change hnow
      · exact ih hsizes.2 change hlater

/-- Behind the first bytes, up to the size asked for. -/
theorem getElem?_read {node : INode} (hlength : node.data.length ≤ isizeMax) (offset : UInt64)
    (size : UInt32) (k : ℕ) : (node.read offset size)[k]?
      = if k < size.toNat then node.data[offset.toNat + k]? else none := by
  unfold INode.read
  dsimp only
  by_cases hbeyond : node.data.length ≤ offset.toNat
  · rw [if_pos hbeyond, List.getElem?_eq_none (by omega : node.data.length ≤ offset.toNat + k)]
    simp
  · have hsum : (offset + size.toUInt64).toNat = offset.toNat + size.toNat := by
      have hsize := size.toNat_lt
      unfold isizeMax at hlength
      rw [UInt64.toNat_add, UInt32.toNat_toUInt64]
      exact Nat.mod_eq_of_lt (by omega)
    rw [if_neg hbeyond, hsum, List.getElem?_drop]
    by_cases hk : k < size.toNat
    · rw [if_pos hk]
      by_cases hin : offset.toNat + k < node.data.length
      · rw [List.getElem?_take_of_lt (by omega)]
      · rw [List.getElem?_eq_none (by omega : node.data.length ≤ offset.toNat + k)]
        refine List.getElem?_eq_none ?_
        rw [List.length_take]
        omega
    · rw [if_neg hk]
      refine List.getElem?_eq_none ?_
      rw [List.length_take]
      omega

/-- After a run of calls, a read of a file returns byte by byte what its history says. -/
theorem runs_read (clock : ℕ → SystemTime) (now : SystemTime) {calls : List MemFsCall}
    (hsizes : ∀ c ∈ calls, c.panics = false) (hfew : calls.length + 2 < 2 ^ 64) {ino : UInt64}
    {node : INode} (hnode : (served clock calls (calm (new now))).1.inodes.lookup ino = some node)
    (offset : UInt64) (size : UInt32) (k : ℕ) :
    (node.read offset size)[k]? = if k < size.toNat then
      Contents.cell 0 (history clock ino calls (calm (new now))).reverse (offset.toNat + k)
      else none := by
  have hnew : Settled (0 + calls.length) 0 (new now) := by
    rw [zero_add]
    exact settled_new now _ hfew
  have hdata := ((recorded_new now).run clock hnew hsizes).stored hnode
  rw [List.nil_append] at hdata
  have hlength : node.data.length ≤ isizeMax := by
    rw [hdata, Contents.length_contents]
    apply Contents.size_le
    intro change hchange
    exact reach_history hsizes ino change (List.mem_reverse.mp hchange)
  rw [getElem?_read hlength, hdata, Contents.getElem?_contents]

/-- After a run of calls, a read of a file returns byte by byte what was last written to it, and
zeros where it was only made longer. -/
theorem reads_last_written (clock : ℕ → SystemTime) (now : SystemTime) {calls : List MemFsCall}
    (hsizes : ∀ c ∈ calls, c.panics = false) (hfew : calls.length + 2 < 2 ^ 64) {ino : INodeNo}
    {node : INode}
    (hnode : (served clock calls (calm (new now))).1.inodes.lookup ino.raw = some node)
    (hkind : node.kind = .regularFile) (offset : UInt64) (size : UInt32) :
    ∃ bytes, ((read ino offset size).runAlone (machine clock) (served clock calls (calm (new now)))).1
        = some (.ok bytes) ∧
      ∀ k, bytes[k]? = if k < size.toNat then
        Contents.cell 0 (history clock ino.raw calls (calm (new now))).reverse (offset.toNat + k)
        else none := by
  refine ⟨node.read offset size, ?_, runs_read clock now hsizes hfew hnode offset size⟩
  obtain ⟨s', hserved, -⟩ := runs_settled clock now hsizes hfew
  rw [hserved] at hnode ⊢
  rw [alone_read, readAnswer, nodeAnswer, show s'.inodes.lookup ino.raw = some node from hnode,
    Option.elim_some, if_pos hkind]

end Runs

/-- A new file is written behind its end, and cut off. -/
def writtenFile : List MemFsCall :=
  [.mknod ⟨0, 0, 1⟩ .ROOT (.new ['f']) 0o644 0 0,
    .fs (.write ⟨0, 0, 1⟩ ⟨2⟩ ⟨0⟩ 1 [7, 8] ⟨0⟩ ⟨0⟩ none),
    .fs (.setattr ⟨0, 0, 1⟩ ⟨2⟩ { size := some 2 })]

theorem reads_last_written_writtenFile :
    ∃ bytes, ((read ⟨2⟩ 0 10).runAlone (machine stillClock)
        (served stillClock writtenFile (calm (new .UNIX_EPOCH)))).1 = some (.ok bytes) ∧
      ∀ k, bytes[k]? = if k < 10 then
        Contents.cell 0 (history stillClock 2 writtenFile (calm (new .UNIX_EPOCH))).reverse (0 + k)
        else none := by
  have hsizes : ∀ c ∈ writtenFile, c.panics = false := by
    intro c hc
    simp only [writtenFile, List.mem_cons, List.not_mem_nil, or_false] at hc
    rcases hc with rfl | rfl | rfl <;> rfl
  have hnode : (served stillClock writtenFile (calm (new .UNIX_EPOCH))).1.inodes.lookup 2
      = some { INode.newFile 2 1 (.new ['f']) 0o644 .UNIX_EPOCH with data := [0, 7] } := rfl
  exact reads_last_written stillClock .UNIX_EPOCH hsizes (by decide) hnode rfl 0 10

end MemFs
end Confuse
