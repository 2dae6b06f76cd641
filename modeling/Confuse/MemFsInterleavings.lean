import Confuse.MemFsTokens
import Mathlib.Algebra.Order.BigOperators.Group.Finset
import Mathlib.Data.Fintype.Card

/-!
# Calls that overlap

Any number of calls run at the same time, their sections in any order. Under every schedule the names
lead to stored inodes, one name to an inode, and numbers are given out once; no schedule blocks; and
only a panic leaves a call unanswered, over a size that no `Vec` can have or over passthrough.
-/

namespace Confuse

open Interaction

namespace FsCall

def answered : (c : FsCall) → c.Reply → Bool
  | .readdir .., reply => (reply : ReplyDirectory).status.isSome
  | .readdirplus .., reply => (reply : ReplyDirectoryPlus).status.isSome
  | .getxattr .., reply | .listxattr .., reply => (reply : ReplyXattr).status.isSome
  | .lookup .., reply | .mkdir .., reply => Option.isSome (α := Except Errno ReplyEntryPayload) reply
  | .getattr .., reply | .setattr .., reply =>
      Option.isSome (α := Except Errno ReplyAttrPayload) reply
  | .open .., reply | .opendir .., reply => Option.isSome (α := Except Errno ReplyOpenPayload) reply
  | .create .., reply => Option.isSome (α := Except Errno ReplyCreatePayload) reply
  | .read .., reply => Option.isSome (α := Except Errno (List UInt8)) reply
  | .write .., reply => Option.isSome (α := Except Errno UInt32) reply
  | .statfs .., reply => Option.isSome (α := Except Errno StatfsPayload) reply
  | .getlk .., reply => Option.isSome (α := Except Errno ReplyLockPayload) reply
  | .unlink .., reply | .rmdir .., reply | .rename .., reply | .release .., reply
  | .releasedir .., reply | .fsync .., reply | .fsyncdir .., reply | .setxattr .., reply
  | .access .., reply | .setlk .., reply | .fallocate .., reply =>
      Option.isSome (α := Except Errno Unit) reply

/-- The call asks for a size that no `Vec` can have, or for the passthrough that replies refuse. -/
def panics : FsCall → Bool
  | .setattr _ _ args => INode.oversized args
  | .write _ _ _ offset data _ _ _ => INode.overlong offset data
  | .open _ _ flags | .opendir _ _ flags => (fopenFlags flags.bits.toUInt32).passthrough
  | .create _ _ _ _ _ flags => (fopenFlags flags.toUInt32).passthrough
  | _ => false

end FsCall

def Reply.attr? {α : Type} (attr : α → FileAttr) (reply : Reply α) : Option INodeNo :=
  match reply with
  | some (.ok payload) => some (attr payload).ino
  | _ => none

namespace MemFsCall

def answered : (c : MemFsCall) → c.Reply → Bool
  | .fs c, reply => c.answered reply
  | .mknod .., reply => Option.isSome (α := Except Errno ReplyEntryPayload) reply

def panics : MemFsCall → Bool
  | .fs c => c.panics
  | .mknod .. => false

/-- The inode that a call reports to have made. -/
def made : (c : MemFsCall) → c.Reply → Option INodeNo
  | .fs (.mkdir ..), reply => Reply.attr? ReplyEntryPayload.attr reply
  | .fs (.create ..), reply => Reply.attr? ReplyCreatePayload.attr reply
  | .mknod .., reply => Reply.attr? ReplyEntryPayload.attr reply
  | _, _ => none

end MemFsCall

namespace MemFs

/-! ## What a call keeps -/

section Keeps
variable (clock : ℕ → SystemTime) (mayPanic : Prop)

abbrev Keeps {α : Type} (Q : α → Multiset INodeToken → Prop) (p : Call α)
    (held : Multiset INodeToken) : Prop :=
  Panicking.Keeps (machine clock) SoundWith mayPanic Q p held

variable {clock mayPanic} {held : Multiset INodeToken} {α β : Type}

theorem keeps_access {o : MemFsOp} {held' : o.Res → Multiset INodeToken}
    (h : ∀ frame s, SoundWith (held + frame) s →
      SoundWith (held' (machine clock o s).1 + frame) (machine clock o s).2) :
    Keeps clock mayPanic (fun a h => h = held' a) (access o) held :=
  Panicking.Keeps.access (S := memFsOps) fun frame s hs => ⟨_, h frame s hs, rfl⟩

/-- What is read is of no concern to the tokens. -/
theorem keeps_reading {o : MemFsOp} (ho : ∀ s, (machine clock o s).2 = s) :
    Keeps clock mayPanic (fun _ held' => held' = held) (access o) held := by
  refine keeps_access fun frame s hs => ?_
  rwa [ho]

theorem keeps_now : Keeps clock mayPanic (fun _ held' => held' = held) (access .now) held :=
  keeps_access fun _ _ hs => hs.congr rfl rfl rfl

theorem keeps_allocIno : Keeps clock mayPanic
    (fun ino held' => held' = .fresh ino ::ₘ .issued ino ::ₘ held) (access .allocIno)
    (.permit ::ₘ held) := by
  refine keeps_access fun frame s hs => ?_
  rw [Multiset.cons_add] at hs
  rw [Multiset.cons_add, Multiset.cons_add, Multiset.cons_swap]
  exact hs.allocIno

theorem keeps_storeNode {ino : UInt64} {node : INode} (hnode : node.ino = ino) :
    Keeps clock mayPanic (fun _ held' => held' = .detached ino ::ₘ held)
      (access (.insertNode ino node)) (.fresh ino ::ₘ held) := by
  refine keeps_access fun frame s hs => ?_
  rw [Multiset.cons_add] at hs ⊢
  exact hs.insertNode hnode

theorem keeps_insertChild (parent : UInt64) (name : OsStr) (ino : UInt64) :
    Keeps clock mayPanic (fun _ held' => held' = held) (access (.insertChild parent name ino))
      (.detached ino ::ₘ held) := by
  refine keeps_access fun frame s hs => ?_
  rw [Multiset.cons_add] at hs
  exact hs.insertChild (parent, name)

/-- What a call holds after it has taken an entry out of the names. -/
def holding (held : Multiset INodeToken) (removed : Option UInt64) : Multiset INodeToken :=
  removed.elim held fun ino => .detached ino ::ₘ held

theorem keeps_removeChild (parent : UInt64) (name : OsStr) :
    Keeps clock mayPanic (fun removed held' => held' = holding held removed)
      (access (.removeChild parent name)) held := by
  refine keeps_access fun frame s hs => ?_
  change SoundWith (holding held (s.children.lookup (parent, name)) + frame)
    { s with children := s.children.erase (parent, name) }
  cases hchild : s.children.lookup (parent, name) with
  | none =>
      rw [KeyedMap.erase_of_lookup_eq_none hchild]
      exact hs
  | some ino =>
      change SoundWith (.detached ino ::ₘ held + frame) _
      rw [Multiset.cons_add]
      exact hs.removeChild hchild

theorem keeps_removeNode (ino : UInt64) :
    Keeps clock mayPanic (fun _ held' => held' = held) (access (.removeNode ino))
      (.detached ino ::ₘ held) := by
  refine keeps_access fun frame s hs => ?_
  rw [Multiset.cons_add] at hs
  exact hs.removeNode

theorem keeps_updateNode (ino : UInt64) {f : INode → INode}
    (hf : ∀ node, (f node).ino = node.ino ∧ (f node).kind = node.kind) :
    Keeps clock mayPanic (fun _ held' => held' = held) (access (.updateNode ino f)) held :=
  keeps_access fun _ _ hs => hs.updateNode ino hf

theorem keeps_locked (l : MemFsLock) {Q : α → Multiset INodeToken → Prop} {p : Call α}
    (h : Keeps clock mayPanic Q p held) : Keeps clock mayPanic Q (locked l p) held :=
  Panicking.Keeps.withLock h

/-- After a step that leaves a known list of tokens. -/
theorem keeps_then {held' : α → Multiset INodeToken} {R : β → Multiset INodeToken → Prop} {p : Call α}
    {f : α → Call β} (hp : Keeps clock mayPanic (fun a h => h = held' a) p held)
    (hf : ∀ a, Keeps clock mayPanic R (f a) (held' a)) : Keeps clock mayPanic R (p >>= f) held := by
  refine Panicking.Keeps.bind hp fun a h hh => ?_
  rw [hh]
  exact hf a

theorem keeps_pure {Q : α → Multiset INodeToken → Prop} {a : α} (h : Q a held) :
    Keeps clock mayPanic Q (pure a) held := h

/-! ### The calls -/

theorem new_ino (kind : NewNodeKind) (ino parent : UInt64) (name : OsStr) (mode : UInt32)
    (now : SystemTime) : (INode.new kind ino parent name mode now).ino = ino := by
  cases kind <;> rfl

theorem touchParent_keeps (kind : NewNodeKind) (now : SystemTime) (node : INode) :
    (node.touchParent kind now).ino = node.ino ∧ (node.touchParent kind now).kind = node.kind := by
  cases kind <;> exact ⟨rfl, rfl⟩

/-- The inode that is reported has a number of its own. -/
theorem keeps_insertNode (parent : UInt64) (name : OsStr) (mode : UInt32) (kind : NewNodeKind) :
    Keeps clock mayPanic (fun r held' => ∀ attr, r = .ok attr → .issued attr.ino.raw ∈ held')
      (insertNode parent name mode kind) (.permit ::ₘ held) := by
  refine keeps_then (keeps_locked .children (keeps_reading fun _ => rfl)) fun present => ?_
  dsimp only
  split_ifs
  · exact keeps_pure (by simp)
  · refine keeps_then keeps_allocIno fun ino => keeps_then keeps_now fun now => ?_
    refine keeps_then (keeps_locked .inodes (keeps_storeNode (new_ino ..))) fun _ => ?_
    refine keeps_then (keeps_locked .children (keeps_insertChild _ _ _)) fun _ => ?_
    refine keeps_then keeps_now fun now' => ?_
    refine keeps_then (keeps_locked .inodes (keeps_updateNode _ (touchParent_keeps kind now')))
      fun _ => ?_
    refine keeps_pure fun attr hattr => ?_
    obtain rfl := Except.ok.inj hattr
    rw [show (INode.toAttr _).ino.raw = (INode.new kind ino parent name mode now).ino from rfl, new_ino]
    exact Multiset.mem_cons_self _ _

/-- Nothing is claimed about the result. -/
abbrev KeepsSound (clock : ℕ → SystemTime) (mayPanic : Prop) (p : Call α)
    (held : Multiset INodeToken) : Prop := Keeps clock mayPanic (fun _ _ => True) p held

theorem keepsSound_pure {a : α} : KeepsSound clock mayPanic (pure a) held := keeps_pure trivial

theorem keepsSound_node (ino : UInt64) {f : Option INode → Call β}
    (hf : ∀ node, KeepsSound clock mayPanic (f node) held) :
    KeepsSound clock mayPanic (locked .inodes (access (.node ino)) >>= f) held :=
  keeps_then (keeps_locked .inodes (keeps_reading fun _ => rfl)) hf

theorem keepsSound_lookup (parent : INodeNo) (name : OsStr) :
    KeepsSound clock mayPanic (lookup parent name) held := by
  refine keeps_locked .children (keeps_then (keeps_reading fun _ => rfl) fun child => ?_)
  cases child with
  | none => exact keepsSound_pure
  | some ino =>
      refine keepsSound_node ino fun node => ?_
      cases node <;> exact keepsSound_pure

theorem keepsSound_getattr (ino : INodeNo) : KeepsSound clock mayPanic (getattr ino) held := by
  refine keepsSound_node ino.raw fun node => ?_
  cases node <;> exact keepsSound_pure

theorem setattr_keeps (args : SetattrArgs) (now : SystemTime) (node : INode) :
    (node.setattr args now).ino = node.ino ∧ (node.setattr args now).kind = node.kind := by
  unfold INode.setattr
  split_ifs
  · exact ⟨rfl, rfl⟩
  · cases hsize : args.size <;> exact ⟨rfl, rfl⟩

theorem write_keeps (offset : UInt64) (data : List UInt8) (now : SystemTime) (node : INode) :
    (node.write offset data now).ino = node.ino ∧ (node.write offset data now).kind = node.kind := by
  unfold INode.write INode.growTo
  split_ifs <;> exact ⟨rfl, rfl⟩

theorem keepsSound_setattr (ino : INodeNo) {args : SetattrArgs}
    (hargs : INode.oversized args = true → mayPanic) :
    KeepsSound clock mayPanic (setattr ino args) held := by
  refine keeps_locked .inodes (keeps_then keeps_now fun now => ?_)
  refine keeps_then (keeps_updateNode _ (setattr_keeps args now)) fun node => ?_
  cases node with
  | none => exact keepsSound_pure
  | some node =>
      dsimp only
      split_ifs with hover
      · exact Panicking.Keeps.panic (hargs hover)
      · exact keepsSound_pure

theorem keepsSound_write (ino : INodeNo) {offset : UInt64} {data : List UInt8}
    (hdata : INode.overlong offset data = true → mayPanic) :
    KeepsSound clock mayPanic (write ino offset data) held := by
  refine keeps_then keeps_now fun now => keeps_locked .inodes ?_
  refine keeps_then (keeps_updateNode _ (write_keeps offset data now)) fun node => ?_
  cases node with
  | none => exact keepsSound_pure
  | some node =>
      dsimp only
      split_ifs with hkind hover
      · exact keepsSound_pure
      · exact Panicking.Keeps.panic (hdata hover)
      · exact keepsSound_pure

theorem keepsSound_read (ino : INodeNo) (offset : UInt64) (size : UInt32) :
    KeepsSound clock mayPanic (read ino offset size) held := by
  refine keepsSound_node ino.raw fun node => ?_
  cases node with
  | none => exact keepsSound_pure
  | some node =>
      dsimp only
      split_ifs <;> exact keepsSound_pure

theorem keepsSound_opened (fh : FileHandle) {flags : FopenFlags}
    (hflags : flags.passthrough = true → mayPanic) :
    KeepsSound clock mayPanic (opened fh flags) held := by
  unfold opened
  split_ifs with hpassthrough
  · exact Panicking.Keeps.panic (hflags hpassthrough)
  · exact keepsSound_pure

theorem created_cases (ttl : Duration) (attr : FileAttr) (generation : Generation) (fh : FileHandle)
    {flags : FopenFlags} (hflags : flags.passthrough = true → mayPanic) :
    created ttl attr generation fh flags = pure (.ok ⟨attr, ttl, generation, fh, flags⟩) ∨
      created ttl attr generation fh flags = Panicking.panic ∧ mayPanic := by
  unfold created
  split_ifs with hpassthrough
  · exact .inr ⟨rfl, hflags hpassthrough⟩
  · exact .inl rfl

theorem keepsSound_open (ino : INodeNo) {flags : OpenFlags}
    (hflags : (fopenFlags flags.bits.toUInt32).passthrough = true → mayPanic) :
    KeepsSound clock mayPanic («open» ino flags) held := by
  refine keepsSound_node ino.raw fun node => ?_
  cases node with
  | none => exact keepsSound_pure
  | some node => exact keepsSound_opened ⟨0⟩ hflags

theorem keepsSound_opendir (ino : INodeNo) {flags : OpenFlags}
    (hflags : (fopenFlags flags.bits.toUInt32).passthrough = true → mayPanic) :
    KeepsSound clock mayPanic (opendir ino flags) held := by
  refine keeps_locked .inodes (keeps_then (keeps_reading fun _ => rfl) fun node => ?_)
  cases node with
  | none => exact keepsSound_pure
  | some node =>
      dsimp only
      split_ifs
      · exact keepsSound_opened ⟨0⟩ hflags
      · exact keepsSound_pure

/-- A listing is answered. -/
abbrev KeepsAnswered (clock : ℕ → SystemTime) (mayPanic : Prop)
    (p : Call (ReplyCells DirectoryEntryPayload)) (held : Multiset INodeToken) : Prop :=
  Keeps clock mayPanic (fun cells _ => cells.status.isSome = true) p held

theorem keepsAnswered_listChildren (handle : ReplyHandle) (ino : INodeNo) (offset : UInt64)
    (cells : ReplyCells DirectoryEntryPayload) :
    KeepsAnswered clock mayPanic (listChildren handle ino offset cells) held := by
  refine keeps_then (keeps_reading fun _ => rfl) fun inos => ?_
  refine keeps_then (keeps_locked .inodes (keeps_reading fun _ => rfl)) fun nodes => ?_
  exact keeps_pure rfl

theorem keepsAnswered_listFromParent (handle : ReplyHandle) (ino : INodeNo) (offset : UInt64)
    (cells : ReplyCells DirectoryEntryPayload) :
    KeepsAnswered clock mayPanic (listFromParent handle ino offset cells) held := by
  unfold listFromParent
  split_ifs
  · refine keeps_then (keeps_locked .inodes (keeps_reading fun _ => rfl)) fun node => ?_
    dsimp only
    split_ifs
    · exact keeps_pure rfl
    · exact keepsAnswered_listChildren handle ino offset _
  · exact keepsAnswered_listChildren handle ino offset cells

theorem keepsAnswered_readdir (handle : ReplyHandle) (ino : INodeNo) (offset : UInt64) :
    KeepsAnswered clock mayPanic (readdir handle ino offset) held := by
  refine keeps_then (keeps_locked .inodes (keeps_reading fun _ => rfl)) fun node => ?_
  cases node with
  | none => exact keeps_pure rfl
  | some node =>
      dsimp only
      split_ifs
      · exact keeps_pure rfl
      · exact keeps_locked .children (keeps_pure rfl)
      · exact keeps_locked .children (keepsAnswered_listFromParent handle ino offset _)
      · exact keeps_locked .children (keepsAnswered_listFromParent handle ino offset .empty)

theorem keepsSound_unlink (parent : INodeNo) (name : OsStr) :
    KeepsSound clock mayPanic (unlink parent name) held := by
  refine keeps_then keeps_now fun now => ?_
  refine keeps_then (keeps_locked .children (keeps_removeChild _ _)) fun removed => ?_
  cases removed with
  | none => exact keepsSound_pure
  | some ino =>
      refine keeps_then (keeps_locked .inodes (keeps_removeNode ino)) fun _ => ?_
      refine keeps_then (keeps_locked .inodes (keeps_updateNode _ fun _ => ⟨rfl, rfl⟩)) fun _ => ?_
      exact keepsSound_pure

theorem keepsSound_rmdir (parent : INodeNo) (name : OsStr) :
    KeepsSound clock mayPanic (rmdir parent name) held := by
  refine keeps_then keeps_now fun now => ?_
  refine keeps_then (keeps_locked .children (keeps_removeChild _ _)) fun removed => ?_
  cases removed with
  | none => exact keepsSound_pure
  | some ino =>
      refine keeps_then (keeps_locked .children (keeps_reading fun _ => rfl)) fun hasChildren => ?_
      split_ifs
      · refine keeps_then (keeps_locked .children (keeps_insertChild _ _ ino)) fun _ => ?_
        exact keepsSound_pure
      · refine keeps_then (keeps_locked .inodes (keeps_removeNode ino)) fun _ => ?_
        refine keeps_then (keeps_locked .inodes (keeps_updateNode _ fun _ => ⟨rfl, rfl⟩)) fun _ => ?_
        exact keepsSound_pure

theorem keepsSound_touchParents (parent newparent : UInt64) (now : SystemTime) :
    Keeps clock mayPanic (fun _ held' => held' = held) (touchParents parent newparent now) held := by
  refine keeps_then (keeps_updateNode _ fun _ => ⟨rfl, rfl⟩) fun _ => ?_
  split_ifs
  · exact keeps_then (keeps_updateNode _ fun _ => ⟨rfl, rfl⟩) fun _ => keeps_pure rfl
  · exact keeps_pure rfl

/-- The inode that the new name led to is held to the end, and then nobody has it. -/
theorem keepsSound_rename (parent : INodeNo) (name : OsStr) (newparent : INodeNo) (newname : OsStr) :
    KeepsSound clock mayPanic (rename parent name newparent newname) held := by
  refine keeps_then keeps_now fun now => ?_
  refine keeps_then (keeps_locked .children (keeps_removeChild _ _)) fun removed => ?_
  cases removed with
  | none => exact keepsSound_pure
  | some ino =>
      refine keeps_then (keeps_locked .children (keeps_removeChild _ _)) fun replaced => ?_
      have hswap : holding (holding held (some ino)) replaced
          = .detached ino ::ₘ holding held replaced := by
        cases replaced with
        | none => rfl
        | some other => exact Multiset.cons_swap _ _ _
      rw [hswap]
      refine keeps_then (keeps_locked .children (keeps_insertChild _ _ ino)) fun _ => ?_
      refine keeps_then (keeps_locked .inodes (keeps_updateNode _ fun _ => ⟨rfl, rfl⟩)) fun _ => ?_
      refine keeps_then (keeps_locked .inodes (keepsSound_touchParents _ _ now)) fun _ => ?_
      exact keepsSound_pure

/-! ### The replies -/

/-- The answer is missing only where panics are allowed, and a reported inode has a number of its
own. -/
def Accounted (mayPanic : Prop) (c : MemFsCall) (reply : c.Reply) (held : Multiset INodeToken) : Prop :=
  (c.answered reply = true ∨ mayPanic) ∧ ∀ ino, c.made reply = some ino → .issued ino.raw ∈ held

theorem replies {p : Call (Except Errno α)} (hp : KeepsSound clock mayPanic p held)
    {Q : Reply α → Multiset INodeToken → Prop}
    (hnone : ∀ held', mayPanic → Q none held') (hsome : ∀ r held', Q (some r) held') :
    p.run.Keeps (machine clock) SoundWith mayPanic Q held := by
  refine Prog.Keeps.mono hp fun r held' hr => ?_
  cases r with
  | none => exact hnone held' hr
  | some r => exact hsome r held'

/-- A call of `insert_node` reports what it has made. -/
theorem replies_made {γ : Type} (attr : γ → FileAttr) (reply : FileAttr → γ)
    (hattr : ∀ a, attr (reply a) = a) (parent : UInt64) (name : OsStr) (mode : UInt32)
    (kind : NewNodeKind) {p : Call (Except Errno γ)} {send : FileAttr → Call (Except Errno γ)}
    (hsend : ∀ a, send a = pure (.ok (reply a)) ∨ send a = Panicking.panic ∧ mayPanic)
    (hp : p = insertNode parent name mode kind >>= fun inserted => match inserted with
      | .ok a => send a
      | .error err => pure (.error err)) :
    p.run.Keeps (machine clock) SoundWith mayPanic (fun r held' => (r.isSome = true ∨ mayPanic) ∧
      ∀ ino, Reply.attr? attr r = some ino → .issued ino.raw ∈ held') (.permit ::ₘ held) := by
  have hkeeps : Keeps clock mayPanic
      (fun r held' => ∀ payload, r = .ok payload → .issued (attr payload).ino.raw ∈ held') p
      (.permit ::ₘ held) := by
    rw [hp]
    refine Panicking.Keeps.bind (keeps_insertNode parent name mode kind) fun r held' hr => ?_
    cases r with
    | error err => exact keeps_pure (by simp)
    | ok a =>
        rcases hsend a with hsent | ⟨hpanics, hmay⟩
        · dsimp only
          rw [hsent]
          refine keeps_pure fun payload hpayload => ?_
          obtain rfl := Except.ok.inj hpayload
          rw [hattr]
          exact hr a rfl
        · dsimp only
          rw [hpanics]
          exact Panicking.Keeps.panic hmay
  refine Prog.Keeps.mono hkeeps fun r held' hr => ?_
  cases r with
  | none => exact ⟨.inr hr, by simp [Reply.attr?]⟩
  | some r =>
      refine ⟨.inl rfl, fun ino hino => ?_⟩
      cases r with
      | error err => cases hino
      | ok payload =>
          obtain rfl := Option.some.inj hino
          exact hr payload rfl

theorem keeps_program (c : MemFsCall) (hc : c.panics = true → mayPanic) :
    c.program.Keeps (machine clock) SoundWith mayPanic (Accounted mayPanic c) {.permit} := by
  cases c with
  | mknod req parent name mode umask rdev =>
      exact replies_made ReplyEntryPayload.attr (fun a => ⟨a, TTL, ⟨0⟩⟩) (fun _ => rfl) _ _ _ _
            (fun _ => .inl rfl) rfl
  | fs c =>
      have hpanic : ∀ {reply : c.Reply} (held' : Multiset INodeToken),
          (MemFsCall.fs c).made reply = none → mayPanic → Accounted mayPanic (.fs c) reply held' :=
        fun held' hnone hmay => ⟨.inr hmay, by simp [hnone]⟩
      have hanswer : ∀ {reply : c.Reply} (held' : Multiset INodeToken),
          (MemFsCall.fs c).made reply = none → c.answered reply = true →
            Accounted mayPanic (.fs c) reply held' :=
        fun held' hnone hanswered => ⟨.inl hanswered, by simp [hnone]⟩
      cases c with
      | lookup req parent name =>
          exact replies (keepsSound_lookup parent name) (fun h => hpanic h rfl) fun r h =>
            hanswer h rfl rfl
      | getattr req ino fh =>
          exact replies (keepsSound_getattr ino) (fun h => hpanic h rfl) fun r h => hanswer h rfl rfl
      | setattr req ino args =>
          exact replies (keepsSound_setattr ino hc) (fun h => hpanic h rfl) fun r h =>
            hanswer h rfl rfl
      | mkdir req parent name mode umask =>
          exact replies_made ReplyEntryPayload.attr (fun a => ⟨a, TTL, ⟨0⟩⟩) (fun _ => rfl) _ _ _ _
            (fun _ => .inl rfl) rfl
      | create req parent name mode umask flags =>
          exact replies_made ReplyCreatePayload.attr
            (fun a => ⟨a, TTL, ⟨0⟩, ⟨a.ino.raw⟩, fopenFlags flags.toUInt32⟩) (fun _ => rfl) _ _ _ _
            (fun a => created_cases TTL a ⟨0⟩ ⟨a.ino.raw⟩ hc) rfl
      | unlink req parent name =>
          exact replies (keepsSound_unlink parent name) (fun h => hpanic h rfl) fun r h =>
            hanswer h rfl rfl
      | rmdir req parent name =>
          exact replies (keepsSound_rmdir parent name) (fun h => hpanic h rfl) fun r h =>
            hanswer h rfl rfl
      | rename req parent name newparent newname flags =>
          exact replies (keepsSound_rename parent name newparent newname) (fun h => hpanic h rfl)
            fun r h => hanswer h rfl rfl
      | «open» req ino flags =>
          exact replies (keepsSound_open ino hc) (fun h => hpanic h rfl) fun r h =>
            hanswer h rfl rfl
      | opendir req ino flags =>
          exact replies (keepsSound_opendir ino hc) (fun h => hpanic h rfl) fun r h =>
            hanswer h rfl rfl
      | read req ino fh offset size flags lockOwner =>
          exact replies (keepsSound_read ino offset size) (fun h => hpanic h rfl) fun r h =>
            hanswer h rfl rfl
      | write req ino fh offset data writeFlags flags lockOwner =>
          exact replies (keepsSound_write ino hc) (fun h => hpanic h rfl) fun r h =>
            hanswer h rfl rfl
      | readdir req ino fh offset =>
          refine Prog.Keeps.bind (keepsAnswered_readdir .capture ino offset) fun cells h hcells => ?_
          cases cells with
          | none => exact hpanic h rfl hcells
          | some cells => exact hanswer h rfl hcells
      | release req ino fh flags lockOwner flush => exact hanswer _ rfl rfl
      | releasedir req ino fh flags => exact hanswer _ rfl rfl
      | fsync req ino fh datasync => exact hanswer _ rfl rfl
      | fsyncdir req ino fh datasync => exact hanswer _ rfl rfl
      | readdirplus req ino fh offset => exact hanswer _ rfl rfl
      | statfs req ino => exact hanswer _ rfl rfl
      | setxattr req ino name value flags position => exact hanswer _ rfl rfl
      | getxattr req ino name size => exact hanswer _ rfl rfl
      | listxattr req ino size => exact hanswer _ rfl rfl
      | access req ino mask => exact hanswer _ rfl rfl
      | getlk req ino fh lockOwner start stop typ pid => exact hanswer _ rfl rfl
      | setlk req ino fh lockOwner start stop typ pid sleep => exact hanswer _ rfl rfl
      | fallocate req ino fh offset length mode => exact hanswer _ rfl rfl

end Keeps

/-! ## All schedules -/

/-- Nothing is in use but the root. -/
theorem soundWith_new (now : SystemTime) (n : ℕ) (hfew : n + 2 < 2 ^ 64) :
    SoundWith (Multiset.replicate n .permit) (new now) where
  budget := by
    rw [Multiset.count_replicate_self]
    change 2 + n < _
    omega
  started := by
    change 1 < 2
    omega
  root := ⟨_, AList.lookup_insert _, rfl⟩
  stored := by
    intro i node hi
    by_cases hroot : i = ROOT_INO_RAW
    · subst hroot
      rw [show (new now).inodes.lookup ROOT_INO_RAW = some _ from AList.lookup_insert _] at hi
      obtain rfl := Option.some.inj hi
      exact ⟨rfl, by change ROOT_INO_RAW.toNat < 2; decide, le_rfl⟩
    · rw [show (new now).inodes.lookup i = none from AList.lookup_insert_ne hroot] at hi
      cases hi
  distinct := by
    rw [unnamed_replicate]
    exact Multiset.nodup_zero
  given := by
    rw [unnamed_replicate]
    exact fun i hi => absurd hi (Multiset.notMem_zero i)
  named := fun i hi => absurd hi (Multiset.notMem_zero i)
  detached := fun i hi => by cases Multiset.eq_of_mem_replicate hi
  fresh := fun i hi => by cases Multiset.eq_of_mem_replicate hi
  issuedOnce := by
    rw [issuedNumbers_replicate]
    exact Multiset.nodup_zero
  issued := by
    rw [issuedNumbers_replicate]
    exact fun i hi => absurd hi (Multiset.notMem_zero i)

/-- Every name leads to a stored inode that the counter has given out, no other name leads to it, and
what is stored stands under its own number, the root's or one that was given out. -/
structure NamesSound (s : MemFs) : Prop where
  root : ∃ node, s.inodes.lookup ROOT_INO_RAW = some node ∧ node.kind = .directory
  stored : ∀ {i node}, s.inodes.lookup i = some node →
    node.ino = i ∧ (i = ROOT_INO_RAW ∨ Given s.nextIno i)
  named : ∀ {key i}, s.children.lookup key = some i →
    Given s.nextIno i ∧ ∃ node, s.inodes.lookup i = some node
  oneName : ∀ {key key' i}, s.children.lookup key = some i → s.children.lookup key' = some i →
    key = key'

theorem namesSound_of_soundWith {held : Multiset INodeToken} {s : MemFs}
    (h : SoundWith held s) : NamesSound s where
  root := h.root
  stored := fun {i} _ hi => by
    obtain ⟨hnumber, hlt, hle⟩ := h.stored hi
    refine ⟨hnumber, ?_⟩
    rcases hle.eq_or_lt with heq | hgt
    · exact .inl (UInt64.toNat_inj.mp heq.symm)
    · exact .inr ⟨hgt, hlt⟩
  named := fun hkey => by
    have hmem := KeyedMap.mem_values.mpr ⟨_, hkey⟩
    exact ⟨h.given _ (Multiset.mem_add.mpr (.inr hmem)), Option.isSome_iff_exists.mp (h.named _ hmem)⟩
  oneName := fun hkey hkey' =>
    KeyedMap.eq_of_nodup_values (Multiset.nodup_of_le (Multiset.le_add_left _ _) h.distinct) hkey hkey'

/-- A number that was given out is not the root's. -/
theorem ne_root_of_given {next ino : UInt64} (h : Given next ino) : ino ≠ ROOT_INO_RAW := by
  rintro rfl
  exact Nat.lt_irrefl _ h.1

section Schedules
variable {ι : Type} [DecidableEq ι] [Fintype ι] (clock : ℕ → SystemTime) (now : SystemTime)
  (calls : ι → MemFsCall) (schedule : List ι)

omit [Fintype ι] in
/-- Calls on an empty file system, none of which has begun. -/
def pool : Pool memFsOps MemFsLock MemFs fun i => (calls i).Reply :=
  .start (fun i => (calls i).program) (new now) fun _ => false

/-- The tokens of the calls add up, whatever has run. -/
theorem pool_holds (hfew : Fintype.card ι + 2 < 2 ^ 64) :
    ∃ held, ((pool now calls).run (machine clock) schedule).Holds (machine clock) SoundWith
      (∃ i, (calls i).panics = true)
      (fun i => Accounted (∃ i, (calls i).panics = true) (calls i)) held := by
  have hstart : (pool now calls).Holds (machine clock) SoundWith (∃ i, (calls i).panics = true)
      (fun i => Accounted (∃ i, (calls i).panics = true) (calls i)) fun _ => {.permit} := by
    refine ⟨fun i => ?_, ?_, by simp [pool, Pool.start]⟩
    · exact keeps_program (calls i) fun hover => ⟨i, hover⟩
    · rw [Finset.sum_const, Finset.card_univ, Multiset.nsmul_singleton]
      exact soundWith_new now _ hfew
  exact hstart.run schedule

theorem names_stay_sound (hfew : Fintype.card ι + 2 < 2 ^ 64) :
    NamesSound ((pool now calls).run (machine clock) schedule).data := by
  obtain ⟨held, hholds⟩ := pool_holds clock now calls schedule hfew
  exact namesSound_of_soundWith hholds.data

end Schedules

/-- Two files that are made in the root. -/
def twoFiles (i : Fin 2) : MemFsCall :=
  .mknod ⟨0, 0, 1⟩ .ROOT (.new (if i = 0 then ['a'] else ['b'])) 0o644 0 0

def stillClock : ℕ → SystemTime := fun _ => .UNIX_EPOCH

/-- Both look for their names before either makes its file. -/
def bothAtOnce : List (Fin 2) := [0, 1, 1, 0, 0, 0, 1] ++ (List.replicate 20 [0, 1]).flatten

theorem names_stay_sound_twoFiles : Fintype.card (Fin 2) + 2 < 2 ^ 64 ∧
    NamesSound ((pool .UNIX_EPOCH twoFiles).run (machine stillClock) bothAtOnce).data :=
  ⟨by simp, names_stay_sound stillClock .UNIX_EPOCH twoFiles bothAtOnce (by simp)⟩

section Schedules
variable {ι : Type} [DecidableEq ι] [Fintype ι] (clock : ℕ → SystemTime) (now : SystemTime)
  (calls : ι → MemFsCall) (schedule : List ι)

/-- A call that has made an inode has not made the root, and two calls have made different ones. -/
theorem made_once (hfew : Fintype.card ι + 2 < 2 ^ 64) {i j : ι} (hne : i ≠ j)
    {ri : (calls i).Reply} {rj : (calls j).Reply} {ino ino' : INodeNo}
    (hi : ((pool now calls).run (machine clock) schedule).tasks i = .pure ri)
    (hj : ((pool now calls).run (machine clock) schedule).tasks j = .pure rj)
    (hmade : (calls i).made ri = some ino) (hmade' : (calls j).made rj = some ino') :
    ino ≠ ino' ∧ ino ≠ .ROOT ∧ ino' ≠ .ROOT := by
  obtain ⟨held, hholds⟩ := pool_holds clock now calls schedule hfew
  have hissued : ∀ {k} {r : (calls k).Reply} {made : INodeNo},
      ((pool now calls).run (machine clock) schedule).tasks k = .pure r →
        (calls k).made r = some made → made.raw ∈ issuedNumbers (held k) := by
    intro k r made hk hr
    have htask := hholds.tasks k
    rw [hk] at htask
    exact mem_issuedNumbers.mpr (htask.2 made hr)
  have hpart : ∀ k, issuedNumbers (held k) ≤ issuedNumbers (∑ k, held k) := fun k =>
    Multiset.filterMap_le_filterMap _
      (Finset.single_le_sum (fun k _ => Multiset.zero_le _) (Finset.mem_univ k))
  have hroot : ∀ {k} {made : INodeNo}, made.raw ∈ issuedNumbers (held k) → made ≠ .ROOT := by
    rintro k made hmem rfl
    exact ne_root_of_given (hholds.data.issued _ (Multiset.mem_of_le (hpart k) hmem)) rfl
  refine ⟨?_, hroot (hissued hi hmade), hroot (hissued hj hmade')⟩
  rintro rfl
  have honce := hholds.data.issuedOnce
  rw [← Finset.add_sum_erase Finset.univ held (Finset.mem_univ i)] at honce
  have hle : held j ≤ ∑ k ∈ Finset.univ.erase i, held k :=
    Finset.single_le_sum (fun k _ => Multiset.zero_le _)
      (Finset.mem_erase.mpr ⟨Ne.symm hne, Finset.mem_univ j⟩)
  unfold issuedNumbers at honce
  rw [Multiset.filterMap_add] at honce
  refine Multiset.disjoint_left.mp (Multiset.nodup_add.mp honce).2.2 (hissued hi hmade) ?_
  exact Multiset.mem_of_le (Multiset.filterMap_le_filterMap _ hle) (hissued hj hmade')

end Schedules

def newFile (ino : UInt64) (name : Str) : Confuse.Reply ReplyEntryPayload :=
  some (.ok ⟨(INode.newFile ino 1 (.new name) 0o644 .UNIX_EPOCH).toAttr, TTL, ⟨0⟩⟩)

theorem made_once_twoFiles : (0 : Fin 2) ≠ 1 ∧ (⟨2⟩ : INodeNo) ≠ ⟨3⟩ ∧ (⟨2⟩ : INodeNo) ≠ .ROOT ∧
    (⟨3⟩ : INodeNo) ≠ .ROOT := by
  have hfirst : ((pool .UNIX_EPOCH twoFiles).run (machine stillClock) bothAtOnce).tasks 0
      = .pure (newFile 2 ['a']) := rfl
  have hsecond : ((pool .UNIX_EPOCH twoFiles).run (machine stillClock) bothAtOnce).tasks 1
      = .pure (newFile 3 ['b']) := rfl
  exact ⟨by decide, made_once stillClock .UNIX_EPOCH twoFiles bothAtOnce (by simp) (by decide) hfirst
    hsecond rfl rfl⟩

section Schedules
variable {ι : Type} [DecidableEq ι] [Fintype ι] (clock : ℕ → SystemTime) (now : SystemTime)
  (calls : ι → MemFsCall) (schedule : List ι)

/-- Without a size that no `Vec` can have and without passthrough, every call that has returned is
answered, and no mutex is poisoned. -/
theorem answered_unless_panics (hfew : Fintype.card ι + 2 < 2 ^ 64)
    (hsizes : ∀ i, (calls i).panics = false) :
    (∀ l, ((pool now calls).run (machine clock) schedule).poisoned l = false) ∧
      ∀ i r, ((pool now calls).run (machine clock) schedule).tasks i = .pure r →
        (calls i).answered r = true := by
  obtain ⟨held, hholds⟩ := pool_holds clock now calls schedule hfew
  have hnone : ¬ ∃ i, (calls i).panics = true := by
    rintro ⟨i, hi⟩
    rw [hsizes i] at hi
    cases hi
  constructor
  · intro l
    exact Bool.eq_false_iff.mpr fun hl => hnone (hholds.poisoned l hl)
  · intro i r hr
    have htask := hholds.tasks i
    rw [hr] at htask
    exact htask.1.resolve_right hnone

end Schedules

theorem answered_unless_panics_twoFiles : (∀ i, (twoFiles i).panics = false) ∧
    (∀ l, ((pool .UNIX_EPOCH twoFiles).run (machine stillClock) bothAtOnce).poisoned l = false) ∧
      ∀ i r, ((pool .UNIX_EPOCH twoFiles).run (machine stillClock) bothAtOnce).tasks i = .pure r →
        (twoFiles i).answered r = true :=
  ⟨fun _ => rfl, answered_unless_panics stillClock .UNIX_EPOCH twoFiles bothAtOnce (by simp)
    fun _ => rfl⟩

end MemFs
end Confuse
