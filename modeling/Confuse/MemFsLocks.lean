import Confuse.LockOrder
import Confuse.MemFsInterleavings
import Mathlib.Algebra.Group.Action.Defs

/-!
# No call waits for ever

A call that holds the mutex of the inodes takes no other, and none takes the same mutex twice. So
calls that overlap never block each other for good, and calls that do not overlap are one of the
schedules.
-/

namespace Confuse

open Interaction

/-- The mutex of the children is taken first. -/
def MemFsLock.rank : MemFsLock → ℕ
  | .children => 0
  | .inodes => 1

namespace MemFs

section Rules
variable {α β : Type} {n : ℕ} {held : List MemFsLock}

abbrev Orderly (n : ℕ) (held : List MemFsLock) (p : Call α) : Prop :=
  Panicking.Orderly MemFsLock.rank n held p

theorem orderly_pure {a : α} : Orderly n held (pure a : Call α) :=
  (Panicking.Orderly.pure a).mono (Nat.zero_le n)

theorem orderly_access {o : MemFsOp} : Orderly 1 held (access o) :=
  Panicking.Orderly.access (S := memFsOps) o

theorem orderly_then {m : ℕ} {p : Call α} {f : α → Call β} (hp : Orderly m held p)
    (hf : ∀ a, Orderly n held (f a)) : Orderly (n + m) held (p >>= f) := by
  rw [Nat.add_comm]
  exact Panicking.Orderly.bind hp hf

theorem orderly_inodes {p : Call α} (hp : Orderly n [.inodes] p) :
    Orderly (n + 2) [] (locked .inodes p) :=
  Panicking.Orderly.withLock (by simp) hp

theorem orderly_children {p : Call α} (hp : Orderly n [.children] p) :
    Orderly (n + 2) [] (locked .children p) :=
  Panicking.Orderly.withLock (by simp) hp

/-- The inodes may be locked while the children are. -/
theorem orderly_inodes_inner {p : Call α} (hp : Orderly n [.inodes, .children] p) :
    Orderly (n + 2) [.children] (locked .inodes p) :=
  Panicking.Orderly.withLock (by simp [MemFsLock.rank]) hp

/-- One operation under the mutex of the inodes. -/
theorem orderly_inode {o : MemFsOp} : Orderly 3 [] (locked .inodes (access o)) :=
  orderly_inodes orderly_access

theorem orderly_child {o : MemFsOp} : Orderly 3 [] (locked .children (access o)) :=
  orderly_children orderly_access

end Rules

/-! ## The calls -/

theorem orderly_lookup (parent : INodeNo) (name : OsStr) : Orderly 6 [] (lookup parent name) := by
  refine orderly_children (n := 4) (orderly_then (n := 3) orderly_access fun child => ?_)
  cases child with
  | none => exact orderly_pure
  | some ino =>
      refine orderly_then (n := 0) (orderly_inodes_inner orderly_access) fun node => ?_
      cases node <;> exact orderly_pure

theorem orderly_node (ino : UInt64) {β : Type} {f : Option INode → Call β}
    (hf : ∀ node, Orderly 0 [] (f node)) :
    Orderly 3 [] (locked .inodes (access (.node ino)) >>= f) :=
  orderly_then (n := 0) orderly_inode hf

theorem orderly_getattr (ino : INodeNo) : Orderly 3 [] (getattr ino) := by
  refine orderly_node ino.raw fun node => ?_
  cases node <;> exact orderly_pure

theorem orderly_setattr (ino : INodeNo) (args : SetattrArgs) : Orderly 4 [] (setattr ino args) := by
  refine orderly_inodes (n := 2) (orderly_then (n := 1) orderly_access fun now => ?_)
  refine orderly_then (n := 0) orderly_access fun node => ?_
  cases node with
  | none => exact orderly_pure
  | some node =>
      dsimp only
      split_ifs
      · exact Panicking.Orderly.panic
      · exact orderly_pure

theorem orderly_write (ino : INodeNo) (offset : UInt64) (data : List UInt8) :
    Orderly 4 [] (write ino offset data) := by
  refine orderly_then (n := 3) orderly_access fun now => orderly_inodes (n := 1) ?_
  refine orderly_then (n := 0) orderly_access fun node => ?_
  cases node with
  | none => exact orderly_pure
  | some node =>
      dsimp only
      split_ifs
      · exact orderly_pure
      · exact Panicking.Orderly.panic
      · exact orderly_pure

theorem orderly_read (ino : INodeNo) (offset : UInt64) (size : UInt32) :
    Orderly 3 [] (read ino offset size) := by
  refine orderly_node ino.raw fun node => ?_
  cases node with
  | none => exact orderly_pure
  | some node =>
      dsimp only
      split_ifs <;> exact orderly_pure

theorem orderly_opened (fh : FileHandle) (flags : FopenFlags) (held : List MemFsLock) :
    Orderly 0 held (opened fh flags) := by
  unfold opened
  split_ifs
  · exact Panicking.Orderly.panic
  · exact orderly_pure

theorem orderly_created (ttl : Duration) (attr : FileAttr) (generation : Generation)
    (fh : FileHandle) (flags : FopenFlags) :
    Orderly 0 [] (created ttl attr generation fh flags) := by
  unfold created
  split_ifs
  · exact Panicking.Orderly.panic
  · exact orderly_pure

theorem orderly_open (ino : INodeNo) (flags : OpenFlags) : Orderly 3 [] («open» ino flags) := by
  refine orderly_node ino.raw fun node => ?_
  cases node with
  | none => exact orderly_pure
  | some node => exact orderly_opened ⟨0⟩ _ []

theorem orderly_opendir (ino : INodeNo) (flags : OpenFlags) : Orderly 3 [] (opendir ino flags) := by
  refine orderly_inodes (n := 1) (orderly_then (n := 0) orderly_access fun node => ?_)
  cases node with
  | none => exact orderly_pure
  | some node =>
      dsimp only
      split_ifs
      · exact orderly_opened ⟨0⟩ _ _
      · exact orderly_pure

theorem orderly_listChildren (handle : ReplyHandle) (ino : INodeNo) (offset : UInt64)
    (cells : ReplyCells DirectoryEntryPayload) :
    Orderly 4 [.children] (listChildren handle ino offset cells) := by
  refine orderly_then (n := 3) orderly_access fun inos => ?_
  refine orderly_then (n := 0) (orderly_inodes_inner orderly_access) fun nodes => ?_
  exact orderly_pure

theorem orderly_listFromParent (handle : ReplyHandle) (ino : INodeNo) (offset : UInt64)
    (cells : ReplyCells DirectoryEntryPayload) :
    Orderly 7 [.children] (listFromParent handle ino offset cells) := by
  unfold listFromParent
  split_ifs
  · refine orderly_then (n := 4) (orderly_inodes_inner orderly_access) fun node => ?_
    dsimp only
    split_ifs
    · exact orderly_pure
    · exact orderly_listChildren handle ino offset _
  · exact (orderly_listChildren handle ino offset cells).mono (by omega)

theorem orderly_readdir (handle : ReplyHandle) (ino : INodeNo) (offset : UInt64) :
    Orderly 12 [] (readdir handle ino offset) := by
  refine orderly_then (n := 9) orderly_inode fun node => ?_
  cases node with
  | none => exact orderly_pure
  | some node =>
      dsimp only
      split_ifs
      · exact orderly_pure
      · exact orderly_children (n := 7) orderly_pure
      · exact orderly_children (orderly_listFromParent handle ino offset _)
      · exact orderly_children (orderly_listFromParent handle ino offset .empty)

theorem orderly_insertNode (parent : UInt64) (name : OsStr) (mode : UInt32) (kind : NewNodeKind) :
    Orderly 15 [] (insertNode parent name mode kind) := by
  refine orderly_then (n := 12) orderly_child fun present => ?_
  split_ifs
  · exact orderly_pure
  · refine orderly_then (n := 11) orderly_access fun ino => ?_
    refine orderly_then (n := 10) orderly_access fun now => ?_
    refine orderly_then (n := 7) orderly_inode fun _ => ?_
    refine orderly_then (n := 4) orderly_child fun _ => ?_
    refine orderly_then (n := 3) orderly_access fun now' => ?_
    exact orderly_then (n := 0) orderly_inode fun _ => orderly_pure

/-- The calls of `insert_node` reply after it. -/
theorem orderly_inserted {γ : Type} (parent : UInt64) (name : OsStr) (mode : UInt32)
    (kind : NewNodeKind) {f : Except Errno FileAttr → Call γ} (hf : ∀ r, Orderly 0 [] (f r)) :
    Orderly 15 [] (insertNode parent name mode kind >>= f) :=
  orderly_then (n := 0) (orderly_insertNode parent name mode kind) hf

theorem orderly_unlink (parent : INodeNo) (name : OsStr) : Orderly 10 [] (unlink parent name) := by
  refine orderly_then (n := 9) orderly_access fun now => ?_
  refine orderly_then (n := 6) orderly_child fun removed => ?_
  cases removed with
  | none => exact orderly_pure
  | some ino =>
      refine orderly_then (n := 3) orderly_inode fun _ => ?_
      exact orderly_then (n := 0) orderly_inode fun _ => orderly_pure

theorem orderly_rmdir (parent : INodeNo) (name : OsStr) : Orderly 13 [] (rmdir parent name) := by
  refine orderly_then (n := 12) orderly_access fun now => ?_
  refine orderly_then (n := 9) orderly_child fun removed => ?_
  cases removed with
  | none => exact orderly_pure
  | some ino =>
      refine orderly_then (n := 6) orderly_child fun hasChildren => ?_
      split_ifs
      · exact (orderly_then (n := 0) orderly_child fun _ => orderly_pure).mono (by omega)
      · refine orderly_then (n := 3) orderly_inode fun _ => ?_
        exact orderly_then (n := 0) orderly_inode fun _ => orderly_pure

theorem orderly_touchParents (parent newparent : UInt64) (now : SystemTime) (held : List MemFsLock) :
    Orderly 2 held (touchParents parent newparent now) := by
  refine orderly_then (n := 1) orderly_access fun _ => ?_
  split_ifs
  · exact orderly_then (n := 0) orderly_access fun _ => orderly_pure
  · exact orderly_pure

theorem orderly_rename (parent : INodeNo) (name : OsStr) (newparent : INodeNo) (newname : OsStr) :
    Orderly 17 [] (rename parent name newparent newname) := by
  refine orderly_then (n := 16) orderly_access fun now => ?_
  refine orderly_then (n := 13) orderly_child fun removed => ?_
  cases removed with
  | none => exact orderly_pure
  | some ino =>
      refine orderly_then (n := 10) orderly_child fun _ => ?_
      refine orderly_then (n := 7) orderly_child fun _ => ?_
      refine orderly_then (n := 4) orderly_inode fun _ => ?_
      exact orderly_then (n := 0) (orderly_inodes (orderly_touchParents _ _ now _)) fun _ =>
        orderly_pure

/-- The most operations that a call performs. -/
def callBound : ℕ := 17

theorem orderly_program (c : MemFsCall) : c.program.Orderly MemFsLock.rank [] callBound [] := by
  have hcall : ∀ {α : Type} {n : ℕ} {p : Call α}, Orderly n [] p → n ≤ 17 →
      p.run.Orderly MemFsLock.rank [] callBound [] := fun hp hn => Prog.Orderly.mono hp hn
  cases c with
  | mknod req parent name mode umask rdev =>
      refine hcall (orderly_inserted _ _ _ _ fun r => ?_) (by omega)
      cases r <;> exact orderly_pure
  | fs c =>
      cases c with
      | lookup req parent name => exact hcall (orderly_lookup parent name) (by omega)
      | getattr req ino fh => exact hcall (orderly_getattr ino) (by omega)
      | setattr req ino args => exact hcall (orderly_setattr ino args) (by omega)
      | mkdir req parent name mode umask =>
          refine hcall (orderly_inserted _ _ _ _ fun r => ?_) (by omega)
          cases r <;> exact orderly_pure
      | create req parent name mode umask flags =>
          refine hcall (orderly_inserted _ _ _ _ fun r => ?_) (by omega)
          cases r with
          | error err => exact orderly_pure
          | ok attr => exact orderly_created TTL attr ⟨0⟩ ⟨attr.ino.raw⟩ _
      | unlink req parent name => exact hcall (orderly_unlink parent name) (by omega)
      | rmdir req parent name => exact hcall (orderly_rmdir parent name) (by omega)
      | rename req parent name newparent newname flags =>
          exact hcall (orderly_rename parent name newparent newname) (by omega)
      | «open» req ino flags => exact hcall (orderly_open ino flags) (by omega)
      | opendir req ino flags => exact hcall (orderly_opendir ino flags) (by omega)
      | read req ino fh offset size flags lockOwner =>
          exact hcall (orderly_read ino offset size) (by omega)
      | write req ino fh offset data writeFlags flags lockOwner =>
          exact hcall (orderly_write ino offset data) (by omega)
      | readdir req ino fh offset =>
          refine Prog.Orderly.mono (Prog.Orderly.bind (orderly_readdir .capture ino offset)
            (n := 0) fun cells => ?_) (by decide)
          exact rfl
      | _ => exact rfl

/-! ## All schedules -/

section Schedules
variable {ι : Type} [DecidableEq ι] (clock : ℕ → SystemTime) (now : SystemTime)
  (calls : ι → MemFsCall)

omit [DecidableEq ι] in
theorem pool_ordered :
    (pool now calls).Ordered MemFsLock.rank (fun _ => callBound) fun _ => [] :=
  ⟨fun i => orderly_program (calls i), by simp [pool, Pool.start], fun _ => List.Pairwise.nil⟩

/-- However the calls have overlapped so far, enough rounds let all of them return. -/
theorem every_call_returns [Fintype ι] (schedule : List ι) {rounds : List (List ι)}
    (hrounds : ∀ round ∈ rounds, ∀ i, i ∈ round)
    (henough : callBound * Fintype.card ι ≤ rounds.length) (i : ι) :
    (((pool now calls).run (machine clock) (schedule ++ rounds.flatten)).tasks i).returned := by
  rw [Pool.run_append]
  have hsum : ∑ _i : ι, callBound = callBound * Fintype.card ι := by
    rw [Finset.sum_const, Finset.card_univ, smul_eq_mul, Nat.mul_comm]
  rcases (pool_ordered now calls).run (M := machine clock) schedule with
    ⟨hsame, -⟩ | ⟨left, held, hordered, hless⟩
  · rw [hsame]
    exact (pool_ordered now calls).returns hrounds (hsum.trans_le henough) i
  · exact hordered.returns hrounds (hless.le.trans (hsum.trans_le henough)) i

end Schedules

theorem every_call_returns_twoFiles : callBound * Fintype.card (Fin 2) ≤ 34 ∧
    (((pool .UNIX_EPOCH twoFiles).run (machine stillClock)
      ([0, 1, 0] ++ (List.replicate 34 [0, 1]).flatten)).tasks 1).returned := by
  have hrounds : ∀ round ∈ List.replicate 34 ([0, 1] : List (Fin 2)), ∀ i, i ∈ round := by
    intro round hround
    rw [List.eq_of_mem_replicate hround]
    decide
  exact ⟨by simp [callBound], every_call_returns stillClock .UNIX_EPOCH twoFiles [0, 1, 0] hrounds
    (by simp [callBound]) 1⟩

section Schedules
variable {ι : Type} [DecidableEq ι] (clock : ℕ → SystemTime) (now : SystemTime)
  (calls : ι → MemFsCall)

/-- Calls that are served one after the other are one of the schedules. -/
theorem served_inTurn {order : List ι} (horder : order.Nodup) :
    ∃ schedule, ((pool now calls).run (machine clock) schedule).data
        = (Pool.inTurn (machine clock) (fun i => (calls i).program) order
            (new now, fun _ => false)).2.1 ∧
      ((pool now calls).run (machine clock) schedule).poisoned
        = (Pool.inTurn (machine clock) (fun i => (calls i).program) order
            (new now, fun _ => false)).2.2 ∧
      ∀ r ∈ (Pool.inTurn (machine clock) (fun i => (calls i).program) order
          (new now, fun _ => false)).1,
        ((pool now calls).run (machine clock) schedule).tasks r.1 = .pure r.2 :=
  (pool_ordered now calls).runs_inTurn (fun _ => rfl) horder

end Schedules

theorem served_inTurn_twoFiles : ([1, 0] : List (Fin 2)).Nodup ∧
    ∃ schedule, ((pool .UNIX_EPOCH twoFiles).run (machine stillClock) schedule).data
        = (Pool.inTurn (machine stillClock) (fun i => (twoFiles i).program) [1, 0]
            (new .UNIX_EPOCH, fun _ => false)).2.1 := by
  obtain ⟨schedule, hdata, -⟩ :=
    served_inTurn stillClock .UNIX_EPOCH twoFiles (show ([1, 0] : List (Fin 2)).Nodup by decide)
  exact ⟨by decide, schedule, hdata⟩

end MemFs
end Confuse
