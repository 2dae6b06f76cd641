import Confuse.PanickingRuns
import Confuse.TaskPool

/-!
# The adapter over `TokioAdapter`

`TokioAdapter` answers `lookup`, `getattr`, `read` and `readdir` by spawning a task and returning at
once; every other call is the trait's default. A handler reads the reply cell at a fixed point of its
program, whatever the task has done by then. Between any two steps of a handler the runtime lets any
tasks perform any number of operations. An expiry that is not an instant ends a handler with a panic,
as over any file system. The two cells of an attribute reply are written in one step,
since a handler reads only one of them.
-/

namespace Confuse

open Interaction

structure RequestId where
  raw : UInt64
  deriving DecidableEq, Repr

structure RequestContext where
  uid : UInt32
  gid : UInt32
  pid : UInt32
  requestId : RequestId
  deriving DecidableEq

def RequestContext.from (req : Request) (unique : RequestId) : RequestContext :=
  ⟨req.uid, req.gid, req.pid, unique⟩

structure LookupResponse where
  ttl : Duration
  attr : FileAttr
  generation : Generation

structure GetAttrResponse where
  ttl : Duration
  attr : FileAttr

/-- The operations of `S`, and `DirEntListBuilder::add`, which answers whether the list is full. -/
def addingEntries (S : Signature) : Signature where
  Op := S.Op ⊕ DirectoryEntryPayload
  Res := Sum.elim S.Res fun _ => Bool

/-- An asynchronous file system whose functions are programs over the operations of `S`. The buffer
of `read` is part of its result. -/
structure AsyncFilesystem (S : Signature) where
  lookup : RequestContext → INodeNo → OsStr → Prog S (Except Errno LookupResponse)
  getattr : RequestContext → INodeNo → Option FileHandle → Prog S (Except Errno GetAttrResponse)
  read : RequestContext → INodeNo → FileHandle → UInt64 → UInt32 → OpenFlags → Option LockOwner →
    Prog S (Except Errno (List UInt8))
  readdir : RequestContext → INodeNo → FileHandle → UInt64 →
    Prog (addingEntries S) (Except Errno Unit)

/-- What the default methods of the trait answer. -/
def FsCall.unsupported : (c : FsCall) → c.Reply
  | .readdir .. => (⟨[], some (.error ENOSYS)⟩ : ReplyDirectory)
  | .readdirplus .. => (⟨[], some (.error ENOSYS)⟩ : ReplyDirectoryPlus)
  | .getxattr .. | .listxattr .. => ReplyXattr.error ENOSYS
  | .lookup .. | .getattr .. | .setattr .. | .mkdir .. | .unlink .. | .rmdir .. | .rename ..
  | .open .. | .opendir .. | .create .. | .read .. | .write .. | .release .. | .releasedir ..
  | .fsync .. | .fsyncdir .. | .statfs .. | .setxattr .. | .access .. | .getlk .. | .setlk ..
  | .fallocate .. => some (.error ENOSYS)

/-- A reply has been sent. -/
def FsCall.Answered : (c : FsCall) → c.Reply → Prop
  | .readdir .., reply => (reply : ReplyDirectory).status ≠ none
  | .readdirplus .., reply => (reply : ReplyDirectoryPlus).status ≠ none
  | .getxattr .., reply | .listxattr .., reply => (reply : ReplyXattr).status ≠ none
  | .lookup .., reply | .getattr .., reply | .setattr .., reply | .mkdir .., reply
  | .unlink .., reply | .rmdir .., reply | .rename .., reply | .open .., reply
  | .opendir .., reply | .create .., reply | .read .., reply | .write .., reply
  | .release .., reply | .releasedir .., reply | .fsync .., reply | .fsyncdir .., reply
  | .statfs .., reply | .setxattr .., reply | .access .., reply | .getlk .., reply
  | .setlk .., reply | .fallocate .., reply => reply ≠ none

/-! ## The tasks -/

namespace TokioAdapter
variable {S : Signature}

/-- Set a reply cell. -/
def send {R : Type} (reply : R) : Prog (S.writing R) Unit := Prog.write fun _ => reply

def lookup (inner : AsyncFilesystem S) (context : RequestContext) (parent : INodeNo)
    (name : OsStr) : Prog (S.writing (Reply ReplyEntryPayload)) Unit := do
  match ← (inner.lookup context parent name).await with
  | .ok response => send (some (.ok ⟨response.attr, response.ttl, response.generation⟩))
  | .error e => send (some (.error e))

def getattr (inner : AsyncFilesystem S) (context : RequestContext) (ino : INodeNo)
    (fh : Option FileHandle) : Prog (S.writing (Reply ReplyAttrPayload)) Unit := do
  match ← (inner.getattr context ino fh).await with
  | .ok response => send (some (.ok ⟨response.attr, response.ttl⟩))
  | .error e => send (some (.error e))

def read (inner : AsyncFilesystem S) (context : RequestContext) (ino : INodeNo) (fh : FileHandle)
    (offset : UInt64) (size : UInt32) (flags : OpenFlags) (lockOwner : Option LockOwner) :
    Prog (S.writing (Reply (List UInt8))) Unit := do
  match ← (inner.read context ino fh offset size flags lockOwner).await with
  | .ok buf => send (some (.ok buf))
  | .error e => send (some (.error e))

/-- A captured listing has no size limit, so it is never full. -/
def addEntries {α : Type} : Prog (addingEntries S) α → Prog (S.writing ReplyDirectory) α
  | .pure a => .pure a
  | .op (.inl o) next => .op (.inl o) fun r => addEntries (next r)
  | .op (.inr entry) next =>
      .op (.inr fun reply => { reply with entries := reply.entries ++ [entry] }) fun _ =>
        addEntries (next false)

/-- Set the status of a listing. -/
def finish (status : Except Errno Unit) : Prog (S.writing ReplyDirectory) Unit :=
  Prog.write fun reply => { reply with status := some status }

def readdir (inner : AsyncFilesystem S) (context : RequestContext) (ino : INodeNo)
    (fh : FileHandle) (offset : UInt64) : Prog (S.writing ReplyDirectory) Unit := do
  match ← addEntries (inner.readdir context ino fh offset) with
  | .ok () => finish (.ok ())
  | .error e => finish (.error e)

/-- What a call leaves behind when it returns. -/
def start (inner : AsyncFilesystem S) (unique : RequestId) : FsCall → Task S FsCall.Reply
  | .lookup req parent name =>
      ⟨.lookup req parent name, none, lookup inner (.from req unique) parent name⟩
  | .getattr req ino fh => ⟨.getattr req ino fh, none, getattr inner (.from req unique) ino fh⟩
  | .read req ino fh offset size flags lockOwner =>
      ⟨.read req ino fh offset size flags lockOwner, none,
        read inner (.from req unique) ino fh offset size flags lockOwner⟩
  | .readdir req ino fh offset =>
      ⟨.readdir req ino fh offset, (⟨[], none⟩ : ReplyDirectory),
        readdir inner (.from req unique) ino fh offset⟩
  | c => ⟨c, c.unsupported, .pure ()⟩

end TokioAdapter

/-! ## The handlers -/

/-- Effects that the adapter performs without the file system's answer. -/
def Effect.isOwn : Effect → Bool
  | .fs _ => false
  | _ => true

/-- A call returns with the number of its task. -/
inductive TokioEffect
  | call (unique : RequestId) (c : FsCall)
  | readReply (task : ℕ) (c : FsCall)
  | own (e : Effect) (h : e.isOwn)

def TokioEffect.Res : TokioEffect → Type
  | .call .. => ℕ
  | .readReply _ c => c.Reply
  | .own e _ => e.Res

def tokioEffects : Signature := ⟨TokioEffect, TokioEffect.Res⟩

abbrev TokioRoutine (α : Type) := Prog tokioEffects α

namespace TokioRoutine

def call (unique : RequestId) (c : FsCall) : TokioRoutine ℕ :=
  .perform (S := tokioEffects) (.call unique c)

def readReply (task : ℕ) (c : FsCall) : TokioRoutine c.Reply :=
  .perform (S := tokioEffects) (.readReply task c)

def readListing (task : ℕ) (req : Request) (ino : INodeNo) (fh : FileHandle) (offset : UInt64) :
    TokioRoutine ReplyDirectory := readReply task (.readdir req ino fh offset)

end TokioRoutine

/-- A routine that reads the cell of every reply right after the call. -/
def Routine.overTokio {α : Type} (unique : RequestId) : Routine α → TokioRoutine α
  | .pure a => .pure a
  | .op (.fs c) next =>
      .op (.call unique c) fun task => .op (.readReply task c) fun r => overTokio unique (next r)
  | .op (.table o) next => .op (.own (.table o) rfl) fun r => overTokio unique (next r)
  | .op (.deliver req o) next => .op (.own (.deliver req o) rfl) fun r => overTokio unique (next r)
  | .op (.openState o) next => .op (.own (.openState o) rfl) fun r => overTokio unique (next r)
  | .op (.fillFindData data) next =>
      .op (.own (.fillFindData data) rfl) fun r => overTokio unique (next r)
  | .op (.fillFindStreamData data) next =>
      .op (.own (.fillFindStreamData data) rfl) fun r => overTokio unique (next r)

/-- The listing is read in two parts: the entries after the forgets were delivered, the status after
all entries were handed to the caller. -/
def findFilesOverTokio (pf : Platform) (unique : RequestId) (fileName : U16CStr)
    (context : AdapterContext) : TokioRoutine (Except NtStatus Unit) := do
  let pathKey := fileName.toStringLossy
  let req := requestFromIds context.requestIds
  match ← Routine.overTokio unique (directoryIno pf req pathKey context) with
  | .error status => pure (.error status)
  | .ok ino => do
      let reqOffset ← Routine.overTokio unique (directoryOffset pathKey)
      let task ← TokioRoutine.call unique (.readdir req ino context.fh (readdirOffset reqOffset))
      Routine.overTokio unique (drainResolverForgets req)
      let reply ← TokioRoutine.readListing task req ino context.fh (readdirOffset reqOffset)
      match ← Routine.overTokio unique (emitReaddirEntries req none reply.entries) with
      | .error status => pure (.error status)
      | .ok emittedOffset => do
          Routine.overTokio unique (rememberDirectoryOffset pathKey reqOffset emittedOffset)
          let reply ← TokioRoutine.readListing task req ino context.fh (readdirOffset reqOffset)
          pure (statusResult reply.status)

/-- The requests that an asynchronous file system can answer. -/
inductive TokioRequest
  | getFileInformation (fileName : U16CStr) (context : AdapterContext)
  | readFile (fileName : U16CStr) (offset : Int64) (bufferLen : ℕ) (context : AdapterContext)
  | findFiles (fileName : U16CStr) (context : AdapterContext)
  | resolvePathIno (req : Request) (path : OsStr)

namespace TokioRequest

def Result : TokioRequest → Type
  | .getFileInformation .. => Except NtStatus FileInfo
  | .readFile .. => Except NtStatus ReadResult
  | .findFiles .. => Except NtStatus Unit
  | .resolvePathIno .. => Except Errno INodeNo

/-- The handler over a file system that answers every call before it returns. -/
def routine (pf : Platform) : (r : TokioRequest) → Routine r.Result
  | .getFileInformation fileName context => Confuse.getFileInformation pf fileName context
  | .readFile fileName offset bufferLen context =>
      Confuse.readFile pf fileName offset bufferLen context
  | .findFiles fileName context => Confuse.findFiles pf fileName context
  | .resolvePathIno req path => Confuse.resolvePathIno pf req path

/-- The handler over `TokioAdapter`. -/
def overTokio (pf : Platform) (unique : RequestId) : (r : TokioRequest) → TokioRoutine r.Result
  | .getFileInformation fileName context =>
      Routine.overTokio unique (Confuse.getFileInformation pf fileName context)
  | .readFile fileName offset bufferLen context =>
      Routine.overTokio unique (Confuse.readFile pf fileName offset bufferLen context)
  | .findFiles fileName context => findFilesOverTokio pf unique fileName context
  | .resolvePathIno req path => Routine.overTokio unique (Confuse.resolvePathIno pf req path)

end TokioRequest

/-! ## Runs -/

/-- The clock and the caller of the adapter. -/
structure Caller (φ : Type) where
  clock : ℕ → Instant
  fillFindData : FindData → φ → Bool × φ
  fillFindStreamData : FindStreamData → φ → Bool × φ

/-- A host that answers calls as `reply` does; `forget` is the trait's default. -/
def Caller.host {β φ : Type} (caller : Caller φ) (reply : (c : FsCall) → β → c.Reply × β) :
    Host β φ where
  reply := reply
  forget _ _ _ b := b
  clock := caller.clock
  fillFindData := caller.fillFindData
  fillFindStreamData := caller.fillFindStreamData

/-- The host of an adapter that gets no answer when it makes a call. -/
abbrev Caller.silent {φ : Type} (caller : Caller φ) : Host Unit φ :=
  caller.host fun c b => (c.unanswered, b)

/-- An asynchronous file system, the machine that performs its operations, and the tasks that
perform an operation before each step of a handler. -/
structure TokioRuntime (S : Signature) (σ φ : Type) where
  pf : Platform
  caller : Caller φ
  notices : Notices
  inner : AsyncFilesystem S
  backend : Prog.Machine S σ
  schedule : ℕ → List ℕ

structure TokioWorld (S : Signature) (σ φ : Type) where
  adapter : World Unit φ
  backend : σ
  tasks : List (Task S FsCall.Reply)
  turns : ℕ

namespace TokioWorld
variable {S : Signature} {σ φ : Type}

def mounted (negativeTtl : Duration) (backend : σ) (caller : φ) : TokioWorld S σ φ :=
  ⟨.initial negativeTtl () caller, backend, [], 0⟩

variable (rt : TokioRuntime S σ φ)

/-- The tasks whose turn it is perform their operations. -/
def advance (w : TokioWorld S σ φ) : TokioWorld S σ φ :=
  let pool := Task.advance rt.backend (rt.schedule w.turns) (w.tasks, w.backend)
  { w with tasks := pool.1, backend := pool.2, turns := w.turns + 1 }

def call (unique : RequestId) (c : FsCall) (w : TokioWorld S σ φ) : ℕ × TokioWorld S σ φ :=
  let adapter := (rt.notices w.adapter.steps).foldl (World.notify rt.pf rt.caller.silent) w.adapter
  (w.tasks.length, { w with
    adapter := { adapter with steps := adapter.steps + 1 }
    tasks := w.tasks ++ [TokioAdapter.start rt.inner unique c] })

def perform : (e : TokioEffect) → TokioWorld S σ φ → e.Res × TokioWorld S σ φ
  | .call unique c, w => w.call rt unique c
  | .readReply task c, w => (Task.cellOf w.tasks task c c.unanswered, w)
  | .own e _, w =>
      let answer := machine rt.pf rt.caller.silent rt.notices e w.adapter
      (answer.1, { w with adapter := answer.2 })

end TokioWorld

variable {S : Signature} {σ φ : Type}

def tokioMachine (rt : TokioRuntime S σ φ) : Prog.Machine tokioEffects (TokioWorld S σ φ) :=
  fun e w => (w.advance rt).perform rt e

namespace TokioWorld

def ownOrPanic (rt : TokioRuntime S σ φ) (e : Effect) (w : TokioWorld S σ φ) :
    Except (TokioWorld S σ φ) (e.Res × TokioWorld S σ φ) :=
  match panickingMachine rt.pf rt.caller.silent rt.notices e w.adapter with
  | .error left => .error { w with adapter := left }
  | .ok answer => .ok (answer.1, { w with adapter := answer.2 })

def performOrPanic (rt : TokioRuntime S σ φ) : (e : TokioEffect) → TokioWorld S σ φ →
    Except (TokioWorld S σ φ) (e.Res × TokioWorld S σ φ)
  | .call unique c, w => .ok (w.perform rt (.call unique c))
  | .readReply task c, w => .ok (w.perform rt (.readReply task c))
  | .own e _, w => w.ownOrPanic rt e

end TokioWorld

/-- The machine whose sections may panic. -/
def panickingTokioMachine (rt : TokioRuntime S σ φ) :
    Prog.StoppingMachine tokioEffects (TokioWorld S σ φ) :=
  fun e w => (w.advance rt).performOrPanic rt e

/-- If the effect is a section that computes an expiry, it is an instant. -/
def TokioEffect.Lasts (rt : TokioRuntime S σ φ) : TokioEffect → TokioWorld S σ φ → Prop
  | .own e _, w => e.Lasts rt.caller.silent w.adapter
  | .call .., _ | .readReply .., _ => True

instance TokioEffect.Lasts.decidable (rt : TokioRuntime S σ φ) :
    (e : TokioEffect) → (w : TokioWorld S σ φ) → Decidable (e.Lasts rt w)
  | .own e _, w => Effect.Lasts.decidable rt.caller.silent e w.adapter
  | .call .., _ | .readReply .., _ => inferInstanceAs (Decidable True)

/-- The tasks neither compute expiries nor change the adapter. -/
theorem panickingTokioMachine_stops (rt : TokioRuntime S σ φ) :
    Prog.StopsUnless (TokioEffect.Lasts rt) (panickingTokioMachine rt) (tokioMachine rt) where
  goes {e w} he := by
    cases e with
    | own e hown =>
        have hsection : panickingMachine rt.pf rt.caller.silent rt.notices e (w.advance rt).adapter
            = .ok (machine rt.pf rt.caller.silent rt.notices e (w.advance rt).adapter) :=
          (panickingMachine_stops ..).goes he
        change (w.advance rt).ownOrPanic rt e = _
        unfold TokioWorld.ownOrPanic
        rw [hsection]
        rfl
    | _ => rfl
  stops {e w} he := by
    cases e with
    | own e hown =>
        obtain ⟨left, hleft⟩ : ∃ left, panickingMachine rt.pf rt.caller.silent rt.notices e
            (w.advance rt).adapter = .error left := (panickingMachine_stops ..).stops he
        refine ⟨{ w.advance rt with adapter := left }, ?_⟩
        change (w.advance rt).ownOrPanic rt e = _
        unfold TokioWorld.ownOrPanic
        rw [hleft]
        rfl
    | _ => exact absurd trivial he

/-- When a reply cell is read, its task has sent the reply. -/
def TokioEffect.Timely (rt : TokioRuntime S σ φ) (e : TokioEffect) (w : TokioWorld S σ φ) : Prop :=
  match e with
  | .readReply task _ => ∀ t ∈ (w.advance rt).tasks[task]?, t.finished
  | _ => True

instance TokioEffect.Timely.decidable (rt : TokioRuntime S σ φ) :
    (e : TokioEffect) → (w : TokioWorld S σ φ) → Decidable (e.Timely rt w)
  | .readReply task _, w =>
      inferInstanceAs (Decidable (∀ t ∈ (w.advance rt).tasks[task]?, t.finished))
  | .call .., _ => inferInstanceAs (Decidable True)
  | .own .., _ => inferInstanceAs (Decidable True)

namespace TokioWorld
variable (rt : TokioRuntime S σ φ)

/-- Serve requests one after the other, each with its identifier. -/
def serve : List (RequestId × TokioRequest) → TokioWorld S σ φ → TokioWorld S σ φ
  | [], w => w
  | (unique, r) :: requests, w =>
      serve requests ((r.overTokio rt.pf unique).run (tokioMachine rt) w).2

/-- Every reply cell that the run reads is read after its task has sent the reply. -/
def EachTimely : List (RequestId × TokioRequest) → TokioWorld S σ φ → Prop
  | [], _ => True
  | (unique, r) :: requests, w =>
      (r.overTokio rt.pf unique).RunMeets (tokioMachine rt) (TokioEffect.Timely rt) w ∧
        EachTimely requests ((r.overTokio rt.pf unique).run (tokioMachine rt) w).2

instance EachTimely.decidable : (requests : List (RequestId × TokioRequest)) →
    (w : TokioWorld S σ φ) → Decidable (w.EachTimely rt requests)
  | [], _ => inferInstanceAs (Decidable True)
  | (unique, r) :: requests, w =>
      @instDecidableAnd _ _
        (@Prog.RunMeets.decidable _ _ _ _ _ (TokioEffect.Timely.decidable rt) _ w)
        (EachTimely.decidable requests ((r.overTokio rt.pf unique).run (tokioMachine rt) w).2)

end TokioWorld
end Confuse
