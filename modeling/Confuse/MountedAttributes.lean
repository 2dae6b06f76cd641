import Confuse.AttributeVisibility
import Confuse.MountedPaths

/-!
# Attributes through a mounted file system

A callback that removes or renames a name is told the inode by its handle. As long as the handle's inode
is the one that the name leads to, no attributes are served that the file system in memory no longer has.
-/

namespace Confuse

open Interaction

/-! ## Inodes that a call leaves alone -/

namespace MemFs
variable {clock : ℕ → SystemTime} {s : MemFs} {i parent newparent ino : INodeNo} {name newname : OsStr}

/-- The child that a name leads to. -/
def childOf (b : MemFs × (MemFsLock → Bool)) (parent : INodeNo) (name : OsStr) : Option INodeNo :=
  (b.1.children.lookup (parent.raw, name)).map INodeNo.mk

theorem raw_ne {j : UInt64} (h : i ≠ ⟨j⟩) : i.raw ≠ j := fun heq => h (congrArg INodeNo.mk heq)

theorem ne_of_childOf {j : UInt64} (h : childOf (calm s) parent name ≠ some i)
    (hlookup : s.children.lookup (parent.raw, name) = some j) : i.raw ≠ j := by
  rintro rfl
  exact h (by rw [childOf, calm, hlookup]; rfl)

theorem lookup_inserted (hparent : i ≠ parent) (hnext : i ≠ ⟨s.nextIno⟩) (mode : UInt32)
    (kind : NewNodeKind) :
    (s.inserted clock parent.raw name mode kind).inodes.lookup i.raw = s.inodes.lookup i.raw := by
  rw [inserted, KeyedMap.lookup_modify, if_neg (raw_ne (j := parent.raw) hparent),
    AList.lookup_insert_ne (raw_ne hnext)]

theorem lookup_unlinked {j : UInt64} (hparent : i ≠ parent) (hj : i.raw ≠ j) :
    (s.unlinked clock parent.raw name j).inodes.lookup i.raw = s.inodes.lookup i.raw := by
  rw [unlinked, KeyedMap.lookup_modify, if_neg (raw_ne (j := parent.raw) hparent),
    AList.lookup_erase_ne hj]

theorem lookup_dirRemoved {j : UInt64} (hparent : i ≠ parent) (hj : i.raw ≠ j) :
    (s.dirRemoved clock parent.raw name j).inodes.lookup i.raw = s.inodes.lookup i.raw := by
  rw [dirRemoved, KeyedMap.lookup_modify, if_neg (raw_ne (j := parent.raw) hparent),
    AList.lookup_erase_ne hj]

theorem lookup_renamed {j : UInt64} (hparent : i ≠ parent) (hnewparent : i ≠ newparent)
    (hj : i.raw ≠ j) :
    (s.renamed clock parent.raw name newparent.raw newname j).inodes.lookup i.raw
      = s.inodes.lookup i.raw := by
  have hp : i.raw ≠ parent.raw := raw_ne hparent
  have hn : i.raw ≠ newparent.raw := raw_ne hnewparent
  unfold renamed touchedParents
  dsimp only
  split_ifs
  · rw [KeyedMap.lookup_modify, if_neg hn, KeyedMap.lookup_modify, if_neg hp,
      KeyedMap.lookup_modify, if_neg hj]
  · rw [KeyedMap.lookup_modify, if_neg hp, KeyedMap.lookup_modify, if_neg hj]

/-- A rename leaves all inodes but the parents and the moved one alone, the replaced one too. -/
theorem lookup_renameEffect (hparent : i ≠ parent) (hnewparent : i ≠ newparent)
    (hmoved : childOf (calm s) parent name ≠ some i) :
    (s.renameEffect clock parent.raw name newparent.raw newname).inodes.lookup i.raw
      = s.inodes.lookup i.raw := by
  unfold renameEffect
  cases hlookup : s.children.lookup (parent.raw, name) with
  | none => rfl
  | some j => exact lookup_renamed hparent hnewparent (ne_of_childOf hmoved hlookup)

theorem lookup_insertEffect {γ : Type} {f : FileAttr → γ} {ino : γ → INodeNo}
    (hino : ∀ attr, ino (f attr) = attr.ino) {mode : UInt32} {kind : NewNodeKind}
    (hi : i ∉ Reply.reads (fun _ : γ => parent)
        (some ((s.insertAnswer clock parent.raw name mode kind).map f)) ++
      Reply.reads ino (some ((s.insertAnswer clock parent.raw name mode kind).map f))) :
    (s.insertEffect clock parent.raw name mode kind).inodes.lookup i.raw = s.inodes.lookup i.raw := by
  unfold insertEffect
  unfold insertAnswer at hi
  cases hlookup : s.children.lookup (parent.raw, name) with
  | some j => rfl
  | none =>
      rw [hlookup] at hi
      have hne : ¬ (i = parent ∨ i = ino (f (s.newNode clock parent.raw name mode kind).toAttr)) := by
        simpa [Reply.reads, Except.map] using hi
      obtain ⟨hparent, hnew⟩ := not_or.mp hne
      have hnumber : (s.newNode clock parent.raw name mode kind).toAttr.ino = ⟨s.nextIno⟩ := by
        cases kind <;> rfl
      rw [hino, hnumber] at hnew
      exact lookup_inserted hparent hnew mode kind

theorem lookup_updated {f : SystemTime → INode → INode}
    (h : i = ino → ∀ node, s.inodes.lookup ino.raw = some node → f (clock s.clockReads) node = node) :
    (s.updated clock ino.raw f).inodes.lookup i.raw = s.inodes.lookup i.raw := by
  rw [updated, KeyedMap.lookup_modify]
  split_ifs with heq
  · have hi : i = ino := by
      cases i
      cases ino
      exact congrArg INodeNo.mk heq
    rw [hi]
    cases hlookup : s.inodes.lookup ino.raw with
    | none => rfl
    | some node => rw [Option.map_some, h hi node hlookup]
  · rfl

variable (clock s) in
/-- The inodes that an answered call does not affect stay as they are. -/
theorem lookup_effect {c : FsCall}
    (hi : i ∉ c.affected (childOf (calm s)) ((MemFsCall.fs c).answer clock s)) :
    ((MemFsCall.fs c).effect clock s).inodes.lookup i.raw = s.inodes.lookup i.raw := by
  cases c with
  | mkdir req parent name mode umask =>
      exact lookup_insertEffect (f := fun attr => (⟨attr, TTL, ⟨0⟩⟩ : ReplyEntryPayload))
        (fun attr => rfl) hi
  | create req parent name mode umask flags =>
      exact lookup_insertEffect (f := fun attr => (⟨attr, TTL, ⟨0⟩, ⟨attr.ino.raw⟩,
        fopenFlags flags.toUInt32⟩ : ReplyCreatePayload)) (fun attr => rfl) hi
  | unlink req parent name =>
      change i ∉ (FsCall.unlink req parent name).affected (childOf (calm s))
        (some (s.unlinkAnswer parent.raw name)) at hi
      change (s.unlinkEffect clock parent.raw name).inodes.lookup i.raw = _
      unfold unlinkEffect
      unfold unlinkAnswer at hi
      cases hlookup : s.children.lookup (parent.raw, name) with
      | none => rfl
      | some j =>
          rw [hlookup] at hi
          obtain ⟨hparent, hchild⟩ : i ≠ parent ∧ childOf (calm s) parent name ≠ some i := by
            simpa [FsCall.affected, Reply.reads] using hi
          exact lookup_unlinked hparent (ne_of_childOf hchild hlookup)
  | rmdir req parent name =>
      change i ∉ (FsCall.rmdir req parent name).affected (childOf (calm s))
        (some (s.rmdirAnswer parent.raw name)) at hi
      change (s.rmdirEffect clock parent.raw name).inodes.lookup i.raw = _
      unfold rmdirEffect
      unfold rmdirAnswer at hi
      cases hlookup : s.children.lookup (parent.raw, name) with
      | none => rfl
      | some j =>
          rw [hlookup] at hi
          dsimp only [Option.elim_some] at hi ⊢
          split_ifs at hi ⊢ with hkeeps
          · rfl
          · obtain ⟨hparent, hchild⟩ : i ≠ parent ∧ childOf (calm s) parent name ≠ some i := by
              simpa [FsCall.affected, Reply.reads] using hi
            exact lookup_dirRemoved hparent (ne_of_childOf hchild hlookup)
  | rename req parent name newparent newname flags =>
      change i ∉ (FsCall.rename req parent name newparent newname flags).affected
        (childOf (calm s)) (some (s.unlinkAnswer parent.raw name)) at hi
      change (s.renameEffect clock parent.raw name newparent.raw newname).inodes.lookup i.raw = _
      unfold unlinkAnswer at hi
      cases hlookup : s.children.lookup (parent.raw, name) with
      | none =>
          rw [renameEffect, hlookup]
          rfl
      | some j =>
          rw [hlookup] at hi
          obtain ⟨hparent, hnewparent, hchild, -⟩ : i ≠ parent ∧ i ≠ newparent ∧
              childOf (calm s) parent name ≠ some i ∧ childOf (calm s) newparent newname ≠ some i := by
            simpa [FsCall.affected, Reply.reads] using hi
          exact lookup_renameEffect hparent hnewparent hchild
  | setattr req ino args =>
      change i ∉ Reply.reads (fun _ => ino) (some (s.setattrAnswer clock ino.raw args)) at hi
      unfold setattrAnswer nodeAnswer at hi
      refine lookup_updated fun heq node hnode => ?_
      rw [hnode, heq] at hi
      exact absurd (List.mem_singleton_self ino) hi
  | write req ino fh offset data flags writeFlags lockOwner =>
      change i ∉ Reply.reads (fun _ => ino) (some (s.writeAnswer ino.raw data)) at hi
      unfold writeAnswer nodeAnswer at hi
      refine lookup_updated fun heq node hnode => ?_
      rw [hnode, heq, Option.elim_some] at hi
      -- An answered write affects its inode, and a directory is not written to.
      split_ifs at hi with hregular
      · exact absurd (List.mem_singleton_self ino) hi
      · rw [INode.write, if_pos hregular]
  | _ => rfl

/-! ## The attributes of the file system -/

/-- No call may ask for more than a `Vec` can hold. -/
def settledGuard : Guard where
  holds room s := ∃ lost, Settled room lost s
  allows c _ := c.panics = false
  told c _ := c.unanswered
  mono hle h := h.imp fun _ hs => hs.mono hle
  fits h := h
  new now n hfew := ⟨0, settled_new now n hfew⟩
  step := fun ⟨_, hs⟩ hc => ⟨_, hs.step hc⟩

open Classical in
/-- The attributes of the stored inodes, up to the access time. -/
noncomputable def attrsOf (b : MemFs × (MemFsLock → Bool)) (i : INodeNo) : Option FileAttr :=
  if settledGuard.Stands 0 b then (b.1.inodes.lookup i.raw).map fun node => node.toAttr.settled
  else none

theorem attrsOf_calm (h : settledGuard.holds 0 s) (i : INodeNo) :
    attrsOf (calm s) i = (s.inodes.lookup i.raw).map fun node => node.toAttr.settled :=
  if_pos ⟨rfl, h⟩

variable (clock) in
/-- A call of the guarded file system changes the attributes of inodes that it changes only. -/
theorem attrsOf_reply {c : FsCall} {b : MemFs × (MemFsLock → Bool)}
    (hkept : ∀ s, b = calm s → settledGuard.reply clock c b
        = ((MemFsCall.fs c).answer clock s, calm ((MemFsCall.fs c).effect clock s)) →
      ((MemFsCall.fs c).effect clock s).inodes.lookup i.raw = s.inodes.lookup i.raw) :
    attrsOf (settledGuard.reply clock c b).2 i = attrsOf b i := by
  rcases settledGuard.reply_cases clock c b with ⟨s, rfl, hholds, hallows, heq⟩ | ⟨-, heq⟩
  · have hafter : settledGuard.holds 0 ((MemFsCall.fs c).effect clock s) :=
      Guard.next (by rwa [Nat.zero_add]) hallows
    have hbefore : settledGuard.holds 0 s := settledGuard.mono (Nat.zero_le _) hholds
    have hlookup := hkept s rfl heq
    rw [heq]
    rw [attrsOf_calm hafter, attrsOf_calm hbefore, hlookup]
  · rw [heq]

theorem settledGuard_run {calls : List FsCall} (hsizes : ∀ c ∈ calls, c.panics = false) :
    settledGuard.Run clock calls s := by
  induction calls generalizing s with
  | nil => trivial
  | cons c rest ih =>
      rw [List.forall_mem_cons] at hsizes
      exact ⟨hsizes.1, ih hsizes.2⟩

instance : AllowsObserving FsCall.isObserving := ⟨fun _ h => h⟩

/-- The calls of a routine that observes only are served, and change nothing. -/
theorem performs_of_madeOf {pf : Platform} {α : Type} {p : Routine α}
    (hp : MadeOf pf FsCall.isObserving p) :
    p.Performs fun e : Effect => ∀ c, e = .fs c →
      c.keepsAttributes = true ∧ settledGuard.allows c s := by
  refine hp.performs.mono fun e he c hc => ?_
  subst hc
  rcases he with hwalk | ⟨c', heq, hobserving⟩ | ⟨-, hnot⟩
  · cases c <;> first | exact ⟨rfl, rfl⟩ | cases hwalk
  · cases heq
    cases c <;> first | exact ⟨rfl, rfl⟩ | cases hobserving
  · exact absurd rfl (hnot c)

theorem ownMutations {φ : Type} (clock : ℕ → SystemTime) (h : Host Unit φ) :
    OwnMutations ((h.memFs clock).answering (settledGuard.reply clock)) attrsOf childOf where
  answered req i fh b := by
    change Reply.settled? (settledGuard.reply clock (.getattr req i fh) b).1 = _
    rcases settledGuard.reply_cases clock (.getattr req i fh) b with
      ⟨s, rfl, hholds, hallows, heq⟩ | ⟨hnot, heq⟩
    · rw [heq, attrsOf_calm hholds]
      change Reply.settled? (some (s.getattrAnswer i.raw)) = _
      unfold getattrAnswer nodeAnswer
      cases s.inodes.lookup i.raw <;> rfl
    · have hstands : ¬ settledGuard.Stands 0 b := fun h => hnot ⟨h, rfl⟩
      rw [heq, attrsOf, if_neg hstands]
      rfl
  named b i attr hattr := by
    unfold attrsOf at hattr
    split_ifs at hattr with hstands
    obtain ⟨node, hnode, rfl⟩ := Option.map_eq_some_iff.mp hattr
    obtain ⟨lost, hsettled⟩ := hstands.2
    exact congrArg INodeNo.mk (hsettled.sound.stored hnode).1
  kept c b i hi := by
    refine attrsOf_reply clock fun s hb heq => ?_
    subst hb
    change i ∉ c.affected (childOf (calm s)) (settledGuard.reply clock c (calm s)).1 at hi
    rw [heq] at hi
    exact lookup_effect clock s hi
  forgotten req ino n b := rfl

end MemFs

/-! ## Handles of the file that is removed or moved -/

section Handles
variable {β φ : Type} (pf : Platform) (h : Host β φ) (notices : Notices)
  (child : β → INodeNo → OsStr → Option INodeNo)

/-- A callback that removes or moves a name knows the inode that the name leads to. -/
def Callback.KnowsInode (w : World β φ) : Callback → Prop
  | .cleanup fileName true context =>
      let found := (resolveParentIno pf (requestFromIds context.requestIds)
        (splitParentAndName fileName).1).run (machine pf h notices) w
      ∀ parentIno i, found.1 = .ok parentIno →
        child found.2.backend parentIno (splitParentAndName fileName).2 = some i →
          i = context.ino ∧ i ≠ ⟨0⟩
  | .moveFile fileName newFileName replaceIfExisting context =>
      let found := (resolveMove pf fileName newFileName replaceIfExisting context).run
        (machine pf h notices) w
      ∀ plan i, found.1 = .ok plan →
        child found.2.backend plan.oldParentIno (splitParentAndName fileName).2 = some i →
          plan.movedIno = some i
  | _ => True

/-- Every callback of the run knows its inode. -/
def World.EachKnowsInode : List Callback → World β φ → Prop
  | [], _ => True
  | c :: callbacks, w => c.KnowsInode pf h notices child w ∧
      EachKnowsInode callbacks ((c.routine pf).run (machine pf h notices) w).2

end Handles

namespace MemFs
variable {φ : Type} {pf : Platform} {notices : Notices} {clock : ℕ → SystemTime} {h : Host Unit φ}

/-- What such a callback changes it invalidates: a replaced inode is not changed. -/
theorem covered_of_knowsInode {c : Callback} {w : World (MemFs × (MemFsLock → Bool)) φ}
    (hknows : c.KnowsInode pf ((h.memFs clock).answering (settledGuard.reply clock)) notices childOf w) :
    c.Covered pf ((h.memFs clock).answering (settledGuard.reply clock)) notices attrsOf childOf w := by
  cases c with
  | cleanup fileName deleteOnClose context =>
      cases deleteOnClose with
      | false => trivial
      | true =>
          intro parentIno hfound i hi hchanged
          obtain ⟨rfl, hino⟩ := hknows parentIno i hfound (Option.mem_toList.mp hi)
          refine .inr (.inl (List.mem_append_left _ ?_))
          rw [if_pos hino]
          exact List.mem_singleton_self _
  | moveFile fileName newFileName replaceIfExisting context =>
      intro plan hfound i hi hchanged
      refine .inr (.inl ?_)
      by_contra hnot
      have hnone : i ∉ plan.movedIno.toList ∧ i ≠ plan.oldParentIno ∧ i ≠ plan.newParentIno := by
        simpa [MovePlan.pending] using hnot
      obtain ⟨hmoved, hparent, hnewparent⟩ := hnone
      refine hchanged (attrsOf_reply clock fun s hs _ => ?_)
      refine lookup_renameEffect hparent hnewparent fun hchild => hmoved ?_
      exact Option.mem_toList.mpr (hknows plan i hfound (hs ▸ hchild))
  | _ => trivial

end MemFs

/-! ## Mounts -/

namespace Mount
open MemFs World
variable {φ : Type} {m : Mount φ}

/-- The mount before some of its callbacks. -/
def upTo (m : Mount φ) (before : List Callback) : Mount φ := { m with callbacks := before }

theorem Fits.upTo (h : m.Fits) {before rest : List Callback} (hsplit : m.callbacks = before ++ rest) :
    (m.upTo before).Fits := by
  obtain ⟨calls, hcalls⟩ := Asks.serve m.pf m.notices m.forgets_nothing rest (m.upTo before).world
  have hworld : m.world = (m.upTo before).world.serve m.pf m.host m.notices rest := by
    unfold Mount.world
    rw [hsplit]
    exact List.foldl_append ..
  have hasked : m.world.asked = (m.upTo before).world.asked ++ calls := by
    rw [hworld]
    exact hcalls.asked
  constructor
  · have hfew := h.few
    rw [hasked, List.length_append] at hfew
    omega
  · intro c hc
    exact h.writes c (hasked ▸ List.mem_append_left _ hc)

variable (m) in
theorem upTo_append (before : List Callback) (c : Callback) :
    (m.upTo (before ++ [c])).world = ((c.routine m.pf).run (Confuse.machine m.pf m.host m.notices)
      (m.upTo before).world).2 := List.foldl_append ..

/-- The guarded mount is where the mount is. -/
theorem Fits.guarded_upTo (h : m.Fits) {before rest : List Callback}
    (hsplit : m.callbacks = before ++ rest) :
    (∃ s, (m.upTo before).world.backend = calm s ∧ settledGuard.holds 0 s) ∧
      m.start.serve m.pf (m.guarded settledGuard) m.notices before = (m.upTo before).world :=
  (h.upTo hsplit).serve_guarded (settledGuard_run (h.upTo hsplit).asked_sizes)

theorem Fits.run_guarded_upTo (h : m.Fits) {before rest : List Callback}
    (hsplit : m.callbacks = before ++ rest) {α : Type} {p : Routine α}
    (hp : MadeOf m.pf FsCall.isObserving p) :
    p.run (Confuse.machine m.pf (m.guarded settledGuard) m.notices) (m.upTo before).world
      = p.run (Confuse.machine m.pf m.host m.notices) (m.upTo before).world := by
  obtain ⟨⟨s, hbackend, hholds⟩, -⟩ := h.guarded_upTo hsplit
  exact run_guarded (m := m.upTo before) hbackend hholds (performs_of_madeOf hp)

theorem Fits.knowsInode (h : m.Fits) {before rest : List Callback}
    (hsplit : m.callbacks = before ++ rest) {c : Callback}
    (hknows : c.KnowsInode m.pf m.host m.notices childOf (m.upTo before).world) :
    c.KnowsInode m.pf (m.guarded settledGuard) m.notices childOf (m.upTo before).world := by
  cases c with
  | cleanup fileName deleteOnClose context =>
      cases deleteOnClose with
      | false => trivial
      | true =>
          have hsame := h.run_guarded_upTo hsplit (p := resolveParentIno m.pf
            (requestFromIds context.requestIds) (splitParentAndName fileName).1)
            (.block (.resolve _ _))
          unfold Callback.KnowsInode
          dsimp only
          rw [hsame]
          exact hknows
  | moveFile fileName newFileName replaceIfExisting context =>
      have hsame := h.run_guarded_upTo hsplit
        (resolveMove_madeOf fileName newFileName replaceIfExisting context)
      unfold Callback.KnowsInode
      dsimp only
      rw [hsame]
      exact hknows
  | _ => trivial

theorem Fits.eachCovered (h : m.Fits) {before rest : List Callback}
    (hsplit : m.callbacks = before ++ rest)
    (hknows : (m.upTo before).world.EachKnowsInode m.pf m.host m.notices childOf rest) :
    (m.upTo before).world.EachCovered m.pf (m.guarded settledGuard) m.notices attrsOf childOf
      rest := by
  induction rest generalizing before with
  | nil => trivial
  | cons c rest ih =>
      have hnext : m.callbacks = (before ++ [c]) ++ rest := by
        rw [hsplit, List.append_assoc]
        rfl
      have hstep : ((c.routine m.pf).run (Confuse.machine m.pf (m.guarded settledGuard) m.notices)
          (m.upTo before).world).2 = (m.upTo (before ++ [c])).world := by
        rw [← (h.guarded_upTo hsplit).2, ← (h.guarded_upTo hnext).2]
        unfold World.serve
        rw [List.foldl_append]
        rfl
      refine ⟨covered_of_knowsInode (h.knowsInode hsplit hknows.1), ?_⟩
      rw [hstep]
      refine ih hnext ?_
      rw [upTo_append]
      exact hknows.2

/-- Whatever was cached before, file information is that of the stored inode, up to the access time. -/
theorem mounted_information_is_stored (h : m.Fits)
    (hknows : m.start.EachKnowsInode m.pf m.host m.notices childOf m.callbacks)
    {fileName : U16CStr} {context : AdapterContext} {info : FileInfo}
    (hinfo : ((getFileInformation m.pf fileName context).run
      (Confuse.machine m.pf m.host m.notices) m.world).1 = .ok info) :
    ∃ resolved node, ((resolveContextOrPath m.pf (requestFromIds context.requestIds) fileName
        context).run (Confuse.machine m.pf m.host m.notices) m.world).1 = .ok resolved ∧
      m.world.backend.1.inodes.lookup resolved.ino.raw = some node ∧
      (fileInfo node.toAttr).settled = info.settled := by
  have hown : OwnMutations (m.guarded settledGuard) attrsOf childOf :=
    ownMutations m.clock m.surroundings
  have hstart : m.callbacks = [] ++ m.callbacks := rfl
  have hcovered := h.eachCovered hstart hknows
  have hsplit : m.callbacks = m.callbacks ++ [] := (List.append_nil _).symm
  have hserved : (m.start.serve m.pf (m.guarded settledGuard) m.notices m.callbacks).Settled attrsOf :=
    World.serve_settled hown m.callbacks
      (World.initial_settled attrsOf m.negativeTtl (calm (new m.now)) m.caller) hcovered
  obtain ⟨⟨s, hbackend, hholds⟩, hworld⟩ := h.guarded_upTo hsplit
  rw [hworld] at hserved
  obtain ⟨actual, hfresh⟩ := hserved
  have hresolves : MadeOf m.pf FsCall.keepsAttributes (resolveContextOrPath m.pf
      (requestFromIds context.requestIds) fileName context) := MadeOf.resolveContextOrPath m.pf _ _ _
  have hresolved : (((resolveContextOrPath m.pf (requestFromIds context.requestIds) fileName
      context).run (Confuse.machine m.pf (m.guarded settledGuard) m.notices)
      (m.upTo m.callbacks).world).2).Fresh attrsOf actual .none :=
    triple_harmless hown hresolves _ hfresh
  have hinfo' := (congrArg Prod.fst (h.run_guarded_upTo hsplit
    (MadeOf.getFileInformation m.pf fileName context))).trans hinfo
  have hsame := h.run_guarded_upTo hsplit (MadeOf.resolveContextOrPath m.pf
    (requestFromIds context.requestIds) fileName context)
  have hbody : getFileInformation m.pf fileName context
      = withResolved m.pf (requestFromIds context.requestIds) fileName context
          (servedInfo (requestFromIds context.requestIds)) := rfl
  rw [hbody, withResolved, Prog.run_bind] at hinfo'
  rw [hsame] at hresolved hinfo'
  cases hcontext : ((resolveContextOrPath m.pf (requestFromIds context.requestIds) fileName
      context).run (Confuse.machine m.pf m.host m.notices) (m.upTo m.callbacks).world).1 with
  | error err =>
      rw [hcontext] at hinfo'
      cases hinfo'
  | ok resolved =>
      rw [hcontext] at hinfo'
      obtain ⟨hreports, -⟩ := servedInfo_reports hown (requestFromIds context.requestIds) resolved _
        hresolved
      obtain ⟨attr, hattr, rfl⟩ := hreports info hinfo'
      rw [← hfresh.backend, hbackend, attrsOf_calm hholds] at hattr
      obtain ⟨node, hnode, hsettled⟩ := Option.map_eq_some_iff.mp hattr
      refine ⟨resolved, node, hcontext, ?_, ?_⟩
      · change (m.upTo m.callbacks).world.backend.1.inodes.lookup _ = _
        rw [hbackend]
        exact hnode
      · change fileInfo node.toAttr.settled = fileInfo attr.settled
        rw [hsettled]

end Mount

/-- A file whose attributes are cached is moved. -/
def movedMount : Mount Unit where
  pf := .ascii
  surroundings := .stateless FsCall.unanswered
  notices := undisturbed
  clock := MemFs.stillClock
  now := .UNIX_EPOCH
  negativeTtl := .fromSecs 1
  caller := ()
  callbacks := [.createFile fileF 0 0 FILE_CREATE 0 (.unavailable 1), .getFileInformation fileF {},
    .moveFile fileF fileG false {}]

def movedNode : INode :=
  { INode.newFile 2 1 (.new ['f']) 0o644 .UNIX_EPOCH with name := .new ['g'] }

theorem fits_movedMount : movedMount.Fits := .of_all (by
  rw [show movedMount.world.asked.length = 4 from rfl]
  decide) rfl

theorem knowsInode_movedMount : movedMount.start.EachKnowsInode movedMount.pf movedMount.host
    movedMount.notices MemFs.childOf movedMount.callbacks := by
  refine ⟨trivial, trivial, ?_, trivial⟩
  rintro plan i hplan hchild
  cases hplan
  exact hchild

theorem mounted_information_is_stored_movedMount :
    ∃ resolved node, ((resolveContextOrPath .ascii (requestFromIds (.unavailable 0)) fileG {}).run
        (machine .ascii movedMount.host undisturbed) movedMount.world).1 = .ok resolved ∧
      movedMount.world.backend.1.inodes.lookup resolved.ino.raw = some node ∧
      (fileInfo node.toAttr).settled = (fileInfo movedNode.toAttr).settled := by
  have hinfo : ((getFileInformation .ascii fileG {}).run (machine .ascii movedMount.host undisturbed)
      movedMount.world).1 = .ok (fileInfo movedNode.toAttr) := rfl
  exact Mount.mounted_information_is_stored fits_movedMount knowsInode_movedMount hinfo

end Confuse
