import Confuse.RenameCollisions
import Confuse.SevereStatuses

/-!
# Failures are reported

A callback that cannot resolve the path it operates on, or whose own call the file system answers
with an error or not at all, returns an error. A `create` that finds the name taken has not failed
yet when the disposition asks for the entry to be opened instead.
-/

namespace Confuse

open Interaction

/-! ## Refused calls -/

/-- The reply does not carry what the call asks for. -/
def FsCall.refused : (call : FsCall) → call.Reply → Bool
  | .lookup .., reply | .mkdir .., reply => !Reply.succeeds (α := ReplyEntryPayload) reply
  | .getattr .., reply | .setattr .., reply => !Reply.succeeds (α := ReplyAttrPayload) reply
  | .open .., reply | .opendir .., reply => !Reply.succeeds (α := ReplyOpenPayload) reply
  | .create .., reply => !Reply.succeeds (α := ReplyCreatePayload) reply
  | .read .., reply => !Reply.succeeds (α := List UInt8) reply
  | .write .., reply => !Reply.succeeds (α := UInt32) reply
  | .readdir .., reply => !Reply.succeeds (ReplyDirectory.status reply)
  | .readdirplus .., reply => !Reply.succeeds (ReplyDirectoryPlus.status reply)
  | .statfs .., reply => !Reply.succeeds (α := StatfsPayload) reply
  | .getxattr .., reply | .listxattr .., reply => !Reply.succeeds (ReplyXattr.status reply)
  | .getlk .., reply => !Reply.succeeds (α := ReplyLockPayload) reply
  | .unlink .., reply | .rmdir .., reply | .rename .., reply | .release .., reply
  | .releasedir .., reply | .fsync .., reply | .fsyncdir .., reply | .setxattr .., reply
  | .access .., reply | .setlk .., reply | .fallocate .., reply =>
      !Reply.succeeds (α := Unit) reply

namespace Callback

/-- The calls that a callback is there for. -/
def primary : Callback → FsCall → Bool
  | .createFile .., .mkdir .. | .createFile .., .create .. | .createFile .., .open ..
  | .createFile .., .opendir .. => true
  | .moveFile .., .rename .. => true
  | .flushFileBuffers .., .fsync .. | .flushFileBuffers .., .fsyncdir .. => true
  | .setEndOfFile .., .setattr .. | .setFileAttributes .., .setattr .. | .setFileTime .., .setattr .. =>
      true
  | .setAllocationSize .., .fallocate .. => true
  | .getDiskFreeSpace .., .statfs .. => true
  | .getFileInformation .., .getattr .. => true
  | .readFile .., .read .. => true
  | .writeFile .., .write .. => true
  | .setFileSecurity .., .setxattr .. => true
  | .lockFile .., .setlk .. | .unlockFile .., .setlk .. => true
  | _, _ => false

/-- A `create` after whose error the existing entry is opened. -/
def opensInstead : Callback → (call : FsCall) → call.Reply → Bool
  | .createFile _ _ _ createDisposition _ _, .create .., some (.error err) =>
      (createDispositionPlan createDisposition).opensExistingAfterCollision err
  | _, _, _ => false

/-- A call that the callback is there for has failed. -/
def refuses (c : Callback) (call : FsCall) (reply : call.Reply) : Bool :=
  c.primary call && call.refused reply && !c.opensInstead call reply

theorem primary_of_walk (c : Callback) {call : FsCall} (h : (Effect.fs call).isWalk = true) :
    c.primary call = false := by
  cases call with
  | lookup => cases c <;> rfl
  | _ => cases h

theorem refused_of_refuses {c : Callback} {call : FsCall} {reply : call.Reply}
    (h : c.refuses call reply = true) : call.refused reply = true := by
  unfold refuses at h
  rw [Bool.and_eq_true, Bool.and_eq_true] at h
  exact h.1.2

end Callback

/-- The result is an error. -/
def Fails {α : Type} (r : Except NtStatus α) : Prop := failureOf r ≠ none

theorem fails_error {α : Type} (status : NtStatus) :
    Fails (.error status : Except NtStatus α) := by simp [Fails, failureOf]

theorem onReply_fails {α γ : Type} {reply : Reply γ} (hreply : (!Reply.succeeds reply) = true)
    (toNtstatus : Errno → NtStatus) (f : γ → Routine (Except NtStatus α)) :
    (onReply reply toNtstatus f).Returns Fails := by
  rcases reply with _ | ⟨err⟩ | ⟨v⟩
  · exact .pure (fails_error _)
  · exact .pure (fails_error _)
  · cases hreply

theorem onOk_fails {α γ : Type} {r : Except NtStatus γ} (hr : Fails r)
    (f : γ → Routine (Except NtStatus α)) : (onOk r f).Returns Fails := by
  cases r with
  | error status => exact .pure (fails_error status)
  | ok v => exact absurd rfl hr

theorem statusResult_fails {reply : Reply Unit} (hreply : (!Reply.succeeds reply) = true) :
    Fails (statusResult reply) := by
  rcases reply with _ | ⟨err⟩ | ⟨⟩
  · exact fails_error _
  · exact fails_error _
  · cases hreply

/-! ## Calls of a callback -/

/-- Whenever a call that the callback is there for fails, the routine returns an error. -/
abbrev FailsWhenRefused (c : Callback) {α : Type} (p : Routine (Except NtStatus α)) : Prop :=
  p.Yields Emits fun evs r => ∀ call reply, .call call reply ∈ evs →
    c.refuses call reply = true → Fails r

namespace FailsWhenRefused
variable {c : Callback} {α γ : Type} (pf : Platform) (req : Request) (fileName : U16CStr)
  (context : AdapterContext)

/-- A routine that makes no such call. -/
abbrev Aside (c : Callback) {γ : Type} (p : Routine γ) : Prop := Calls (fun call => !c.primary call) p

theorem aside_refuses {p : Routine γ} (hp : Aside c p) {evs : List Event} {a : γ}
    (ht : p.Traces Emits evs a) {call : FsCall} {reply : call.Reply}
    (hcall : .call call reply ∈ evs) : c.refuses call reply = false := by
  have hprimary : c.primary call = false := by
    rcases hp.every evs a ht call reply hcall with hwalk | haside
    · exact c.primary_of_walk hwalk
    · simpa using haside
  rw [Callback.refuses, hprimary, Bool.false_and, Bool.false_and]

theorem aside {p : Routine (Except NtStatus α)} (hp : Aside c p) : FailsWhenRefused c p := by
  intro evs r ht call reply hcall hrefuses
  rw [aside_refuses hp ht hcall] at hrefuses
  cases hrefuses

theorem after {p : Routine γ} (hp : Aside c p) {f : γ → Routine (Except NtStatus α)}
    (hf : ∀ a, FailsWhenRefused c (f a)) : FailsWhenRefused c (p >>= f) := by
  intro evs r ht call reply hcall hrefuses
  obtain ⟨a, es, rest, ha, hr, rfl⟩ := Prog.traces_bind.mp ht
  rcases List.mem_append.mp hcall with hcall | hcall
  · rw [aside_refuses hp ha hcall] at hrefuses
    cases hrefuses
  · exact hf a rest r hr call reply hcall hrefuses

theorem call (call : FsCall) {f : call.Reply → Routine (Except NtStatus α)}
    (hfails : ∀ reply, c.refuses call reply = true → (f reply).Returns Fails)
    (hf : ∀ reply, c.refuses call reply = false → FailsWhenRefused c (f reply)) :
    FailsWhenRefused c (Routine.fs call >>= f) := by
  intro evs r ht call' reply' hcall hrefuses
  obtain ⟨reply, es, rest, ha, hr, rfl⟩ := Prog.traces_bind.mp ht
  cases hreply : c.refuses call reply with
  | true => exact (hfails reply hreply).traces hr
  | false =>
      rcases List.mem_append.mp hcall with hcall | hcall
      · obtain ⟨notes, own, hnotes, hown, rfl⟩ := Prog.traces_perform.mp ha
        obtain rfl : own = [.call call reply] := hown
        rcases List.mem_append.mp hcall with hcall | hcall
        · exact absurd (hnotes _ hcall) (by simp [Event.isNotify])
        · obtain ⟨rfl, heq⟩ := Event.call.inj (List.mem_singleton.mp hcall)
          rw [eq_of_heq heq, hreply] at hrefuses
          cases hrefuses
      · exact hf reply hreply rest r hr call' reply' hcall hrefuses

/-- A call whose reply is handed on in another form. -/
theorem callThen (call : FsCall) {g : call.Reply → γ} {f : γ → Routine (Except NtStatus α)}
    (hfails : ∀ reply, c.refuses call reply = true → (f (g reply)).Returns Fails)
    (hf : ∀ reply, FailsWhenRefused c (f (g reply))) :
    FailsWhenRefused c ((Routine.fs call >>= fun reply => pure (g reply)) >>= f) := by
  rw [Prog.bind_assoc]
  exact FailsWhenRefused.call call hfails fun reply _ => hf reply

theorem onOk {r : Except NtStatus γ} {f : γ → Routine (Except NtStatus α)}
    (hf : ∀ v, FailsWhenRefused c (f v)) : FailsWhenRefused c (onOk r f) :=
  onOk_cases (fun _ => aside (.pure _)) hf

theorem withResolved {f : AdapterContext → Routine (Except NtStatus α)}
    (hf : ∀ resolved, FailsWhenRefused c (f resolved)) :
    FailsWhenRefused c (withResolved pf req fileName context f) := by
  refine after (.of_madeOf (MadeOf.resolveContextOrPath pf _ _ _)) fun resolved => ?_
  cases resolved with
  | error err => exact aside (.pure _)
  | ok resolved => exact hf resolved

/-- The call, the drain and what is done with the payload. -/
theorem finished {reply : Reply γ} {toNtstatus : Errno → NtStatus}
    {f : γ → Routine (Except NtStatus α)} (hf : ∀ v, Aside c (f v)) :
    FailsWhenRefused c (drainResolverForgets req >>= fun _ => onReply reply toNtstatus f) :=
  aside (.bind (.drainResolverForgets req) fun _ => .onReply hf)

theorem refused_fails {reply : Reply γ} (hreply : (!Reply.succeeds reply) = true)
    (toNtstatus : Errno → NtStatus) (f : γ → Routine (Except NtStatus α)) :
    (drainResolverForgets req >>= fun _ => onReply reply toNtstatus f).Returns Fails :=
  .last fun _ => onReply_fails hreply toNtstatus f

/-! ### Creating -/

theorem openOrOpendir (request : OpenEntryRequest) (actualIno : INodeNo)
    {f : Reply ReplyOpenPayload → Routine (Except NtStatus α)}
    (hfails : ∀ reply, (!Reply.succeeds reply) = true → (f reply).Returns Fails)
    (hf : ∀ reply, FailsWhenRefused c (f reply)) :
    FailsWhenRefused c (openOrOpendir request actualIno >>= f) := by
  cases hdir : request.isDirOpen with
  | true =>
      rw [openOrOpendir_dir hdir]
      exact call (.opendir request.req actualIno ⟨request.openFlags⟩)
        (fun reply hreply => hfails reply (Callback.refused_of_refuses hreply)) fun reply _ => hf reply
  | false =>
      rw [openOrOpendir_file hdir]
      exact call (.open request.req actualIno ⟨request.openFlags⟩)
        (fun reply hreply => hfails reply (Callback.refused_of_refuses hreply)) fun reply _ => hf reply

theorem openResolvedPath (request : OpenEntryRequest) (actualIno : INodeNo) :
    FailsWhenRefused c (openResolvedPath request actualIno) :=
  openOrOpendir request actualIno (fun reply hreply => refused_fails _ hreply _ _) fun reply =>
    finished _ fun payload => .bind (.silent (by simp)) fun _ => .pure _

theorem openExistingEntry (request : OpenEntryRequest) :
    FailsWhenRefused c (openExistingEntry pf request) :=
  after (.of_madeOf (MadeOf.resolveOpenIno pf request)) fun _ => onOk fun _ =>
    openResolvedPath request _

theorem openCollisionEntry (request : OpenEntryRequest) :
    FailsWhenRefused c (openCollisionEntry pf request) := by
  unfold Confuse.openCollisionEntry
  split_ifs
  · exact after (.of_madeOf (MadeOf.invalidatePathCache pf _ _)) fun _ =>
      openExistingEntry pf request
  · exact openExistingEntry pf request

theorem createDirectoryEntry (create : CreateEntryRequest) :
    FailsWhenRefused c (createDirectoryEntry create) := by
  refine call (.mkdir create.req create.parentIno create.leaf create.mode 0)
    (fun reply hreply => ?_) fun reply _ => ?_
  · exact refused_fails _ (Callback.refused_of_refuses hreply) _ _
  · exact finished _ fun payload => .bind (.finishCreatedEntry _) fun _ => .pure _

/-- Only an error after which the entry is opened leaves the result open. -/
theorem createFileEntryOrOpenExisting {desiredAccess : AccessMask}
    {fileAttributes createDisposition createOptions : UInt32} {requestIds : RequestIds}
    (create : CreateEntryRequest) (openFlags : Int32) :
    FailsWhenRefused (.createFile fileName desiredAccess fileAttributes createDisposition
        createOptions requestIds)
      (createFileEntryOrOpenExisting pf create (createDispositionPlan createDisposition)
        openFlags) := by
  refine call (.create create.req create.parentIno create.leaf create.mode 0 openFlags)
    (fun reply hreply => ?_) fun reply _ => after (.drainResolverForgets _) fun _ => ?_
  · rcases reply with _ | ⟨err⟩ | ⟨payload⟩
    · exact .last fun _ => .pure (fails_error _)
    · have hopens : ¬ (createDispositionPlan createDisposition).opensExistingAfterCollision err := by
        simpa [Callback.opensInstead] using ((Bool.and_eq_true _ _).mp hreply).2
      refine .last fun _ => ?_
      dsimp only
      rw [if_neg hopens]
      exact .pure (fails_error _)
    · cases Callback.refused_of_refuses hreply
  · rcases reply with _ | ⟨err⟩ | ⟨payload⟩
    · exact aside (.pure _)
    · dsimp only
      split_ifs
      · exact openCollisionEntry pf _
      · exact aside (.pure _)
    · exact aside (.bind (.finishCreatedEntry _) fun _ => .pure _)

theorem createFile (desiredAccess : AccessMask)
    (fileAttributes createDisposition createOptions : UInt32) (requestIds : RequestIds) :
    FailsWhenRefused (.createFile fileName desiredAccess fileAttributes createDisposition
        createOptions requestIds)
      (createFile pf fileName desiredAccess fileAttributes createDisposition createOptions
        requestIds) := by
  refine after (.of_walks (.resolvePathIno _ pf _)) fun parent => ?_
  cases parent with
  | error err => exact aside (.bind (.drainResolverForgets _) fun _ => .pure _)
  | ok parentIno =>
      dsimp only [createInParent]
      split_ifs
      · exact aside (.of_madeOf (MadeOf.createRootContext pf fileName requestIds))
      · exact openExistingEntry pf _
      · exact createDirectoryEntry _
      · exact createFileEntryOrOpenExisting pf fileName _ _

/-! ### The other callbacks -/

theorem moveFile (newFileName : U16CStr) (replaceIfExisting : Bool) :
    FailsWhenRefused (.moveFile fileName newFileName replaceIfExisting context)
      (moveFile pf fileName newFileName replaceIfExisting context) := by
  rw [moveFile_eq]
  refine after (.of_madeOf (resolveMove_madeOf fileName newFileName replaceIfExisting context))
    fun plan => onOk fun plan => callThen (plan.rename (requestFromIds context.requestIds) fileName
      newFileName) (fun reply hreply => .last fun _ => ?_) fun reply => ?_
  · exact onOk_fails (statusResult_fails (Callback.refused_of_refuses hreply)) _
  · exact aside (.bind (.drainResolverForgets _) fun _ => .onOk fun _ =>
      .bind (.of_madeOf (MadeOf.invalidateRenamed pf _ _ _ _ _ _)) fun _ => .pure _)

theorem flushWithContext {f : Reply Unit → Routine (Except NtStatus α)}
    (hfails : ∀ reply, (!Reply.succeeds reply) = true → (f reply).Returns Fails)
    (hf : ∀ reply, FailsWhenRefused c (f reply)) :
    FailsWhenRefused c (flushWithContext req context >>= f) := by
  cases hdir : context.isDir with
  | true =>
      rw [show Confuse.flushWithContext req context
        = Routine.fs (.fsyncdir req context.ino context.fh false) from if_pos hdir]
      exact call (.fsyncdir req context.ino context.fh false)
        (fun reply hreply => hfails reply (Callback.refused_of_refuses hreply)) fun reply _ => hf reply
  | false =>
      rw [show Confuse.flushWithContext req context
        = Routine.fs (.fsync req context.ino context.fh false) from if_neg (by simp [hdir])]
      exact call (.fsync req context.ino context.fh false)
        (fun reply hreply => hfails reply (Callback.refused_of_refuses hreply)) fun reply _ => hf reply

theorem flushFileBuffers : FailsWhenRefused c (flushFileBuffers pf fileName context) :=
  withResolved pf _ fileName context fun resolved => flushWithContext _ resolved
    (fun _ hreply => .last fun _ => .pure (statusResult_fails hreply))
    fun _ => aside (.bind (.drainResolverForgets _) fun _ => .pure _)

theorem setattrRoute (args : Except NtStatus SetattrArgs) :
    FailsWhenRefused c (setattrRoute pf fileName context args) := by
  refine withResolved pf _ fileName context fun resolved => onOk fun args => ?_
  refine call (.setattr _ resolved.ino args) (fun reply hreply => ?_) fun reply _ => ?_
  · exact refused_fails _ (Callback.refused_of_refuses hreply) _ _
  · exact finished _ fun _ => .bind (.of_madeOf (MadeOf.finishMetadataMutation pf _ _ _)) fun _ =>
      .pure _

theorem setAllocationSize (allocSize : Int64) :
    FailsWhenRefused c (setAllocationSize pf fileName allocSize context) := by
  refine withResolved pf _ fileName context fun resolved => ?_
  unfold allocationSizeWithContext
  cases nonnegativeI64ToU64 allocSize with
  | error status => exact aside (.pure _)
  | ok length =>
      refine callThen (.fallocate _ resolved.ino resolved.fh 0 length FALLOC_FL_KEEP_SIZE)
        (fun reply hreply => ?_) fun reply => ?_
      · exact refused_fails _ (Callback.refused_of_refuses hreply) _ _
      · exact finished _ fun _ => .bind (.of_madeOf (MadeOf.finishMetadataMutation pf _ _ _))
          fun _ => .pure _

theorem getDiskFreeSpace (pid : UInt32) : FailsWhenRefused c (getDiskFreeSpace pid) := by
  refine call (.statfs _ .ROOT) (fun reply hreply => ?_) fun reply _ => ?_
  · exact onReply_fails (Callback.refused_of_refuses hreply) _ _
  · exact aside (.onReply fun _ => .pure _)

theorem getFileInformation : FailsWhenRefused c (getFileInformation pf fileName context) := by
  refine withResolved pf _ fileName context fun resolved => after (.silent (by simp))
    fun cachedAttr => ?_
  cases cachedAttr with
  | some attr => exact aside (.bind (.drainResolverForgets _) fun _ => .pure _)
  | none =>
      refine call (.getattr _ resolved.ino (some resolved.fh)) (fun reply hreply => ?_)
        fun reply _ => ?_
      · exact refused_fails _ (Callback.refused_of_refuses hreply) _ _
      · exact finished _ fun _ => .bind (.silent (by simp)) fun _ => .pure _

theorem readFile (offset : Int64) (bufferLen : ℕ) :
    FailsWhenRefused c (readFile pf fileName offset bufferLen context) := by
  refine withResolved pf _ fileName context fun resolved => onOk fun offset => onOk fun size => ?_
  refine call (.read _ resolved.ino resolved.fh offset size _ _) (fun reply hreply => ?_)
    fun reply _ => ?_
  · exact refused_fails _ (Callback.refused_of_refuses hreply) _ _
  · exact finished _ fun _ => .pure _

theorem writeFile (offset : Int64) (buffer : List UInt8) (writeToEof pagingIo : Bool) :
    FailsWhenRefused (.writeFile fileName offset buffer writeToEof pagingIo context)
      (writeFile pf fileName offset buffer writeToEof pagingIo context) := by
  have : AllowsObserving fun call =>
      !(Callback.writeFile fileName offset buffer writeToEof pagingIo context).primary call :=
    ⟨fun call hcall => by cases call <;> first | rfl | cases hcall⟩
  refine withResolved pf _ fileName context fun resolved =>
    after (.of_madeOf (MadeOf.dokanWritePlan pf _ resolved _ _ _ _)) fun plan => onOk fun plan => ?_
  refine call (.write _ resolved.ino resolved.fh plan.1 _ _ _ _) (fun reply hreply => ?_)
    fun reply _ => ?_
  · exact refused_fails _ (Callback.refused_of_refuses hreply) _ _
  · exact finished _ fun _ => .bind (.of_madeOf (MadeOf.finishMetadataMutation pf _ _ _)) fun _ =>
      .pure _

theorem setFileSecurity (descriptor : List UInt8) :
    FailsWhenRefused c (setFileSecurity pf fileName descriptor context) := by
  refine withResolved pf _ fileName context fun resolved => ?_
  refine call (.setxattr _ resolved.ino _ descriptor 0 0) (fun reply hreply => ?_) fun reply _ => ?_
  · exact refused_fails _ (Callback.refused_of_refuses hreply) _ _
  · exact finished _ fun _ => .bind (.silent (by simp)) fun _ => .pure _

theorem setlkWithContext (start «end» : UInt64) (typ : Int32) :
    FailsWhenRefused c (setlkWithContext req context start «end» typ) := by
  refine call (.setlk req context.ino context.fh _ start «end» typ _ false) (fun reply hreply => ?_)
    fun reply _ => ?_
  · exact refused_fails _ (Callback.refused_of_refuses hreply) _ _
  · exact finished _ fun _ => .pure _

theorem lockFile (offset length : Int64) :
    FailsWhenRefused (.lockFile fileName offset length context)
      (lockFile pf fileName offset length context) := by
  refine withResolved pf _ fileName context fun resolved => onOk fun range =>
    after (.fs rfl) fun query => ?_
  rcases query with _ | ⟨err⟩ | ⟨lock⟩
  · exact setlkWithContext _ resolved _ _ _
  · exact aside (.pure _)
  · dsimp only
    split_ifs
    · exact aside (.pure _)
    · exact setlkWithContext _ resolved _ _ _

theorem unlockFile (offset length : Int64) :
    FailsWhenRefused c (unlockFile pf fileName offset length context) :=
  withResolved pf _ fileName context fun resolved => onOk fun _ => setlkWithContext _ resolved _ _ _

end FailsWhenRefused

/-- Whenever a call that a callback is there for fails, so does the callback. -/
theorem Callback.fails_when_refused (pf : Platform) (c : Callback) :
    (c.routine pf).Yields Emits fun evs r => ∀ call reply, .call call reply ∈ evs →
      c.refuses call reply = true → c.failure r ≠ none := by
  have hnone : (∀ call, c.primary call = false) → (c.routine pf).Yields Emits fun evs r =>
      ∀ call reply, .call call reply ∈ evs → c.refuses call reply = true → c.failure r ≠ none := by
    intro hprimary evs r _ call reply _ hrefuses
    rw [Callback.refuses, hprimary, Bool.false_and, Bool.false_and] at hrefuses
    cases hrefuses
  cases c with
  | createFile fileName desiredAccess fileAttributes createDisposition createOptions requestIds =>
      exact FailsWhenRefused.createFile pf fileName _ _ _ _ _
  | moveFile fileName newFileName replaceIfExisting context =>
      exact FailsWhenRefused.moveFile pf fileName context newFileName replaceIfExisting
  | flushFileBuffers fileName context =>
      exact FailsWhenRefused.flushFileBuffers pf fileName context
  | setEndOfFile fileName offset context =>
      exact FailsWhenRefused.setattrRoute pf fileName context _
  | setFileAttributes fileName fileAttributes context =>
      exact FailsWhenRefused.setattrRoute pf fileName context _
  | setFileTime fileName creationTime lastAccessTime lastWriteTime context =>
      exact FailsWhenRefused.setattrRoute pf fileName context _
  | setAllocationSize fileName allocSize context =>
      exact FailsWhenRefused.setAllocationSize pf fileName context allocSize
  | getDiskFreeSpace pid => exact FailsWhenRefused.getDiskFreeSpace pid
  | getFileInformation fileName context =>
      exact FailsWhenRefused.getFileInformation pf fileName context
  | readFile fileName offset bufferLen context =>
      exact FailsWhenRefused.readFile pf fileName context offset bufferLen
  | writeFile fileName offset buffer writeToEof pagingIo context =>
      exact FailsWhenRefused.writeFile pf fileName context offset buffer writeToEof pagingIo
  | setFileSecurity fileName descriptor context =>
      exact FailsWhenRefused.setFileSecurity pf fileName context descriptor
  | lockFile fileName offset length context =>
      exact FailsWhenRefused.lockFile pf fileName context offset length
  | unlockFile fileName offset length context =>
      exact FailsWhenRefused.unlockFile pf fileName context offset length
  | _ => exact hnone fun call => by cases call <;> rfl

/-! ## Resolutions of a callback -/

section Resolutions
variable (pf : Platform)

def contextResolves (fileName : U16CStr) (context : AdapterContext) : Routine Bool := do
  let resolved ← resolveContextOrPath pf (requestFromIds context.requestIds) fileName context
  pure resolved.isOk

def openInoResolves (request : OpenEntryRequest) : Routine Bool := do
  let actualIno ← resolveOpenIno pf request
  pure actualIno.isOk

def openCollisionResolves (request : OpenEntryRequest) : Routine Bool := do
  if request.pathIno = ⟨0⟩ then
    invalidatePathCache request.req request.fileName
  openInoResolves pf request

def createFileEntryResolves (create : CreateEntryRequest) (createPlan : CreateDispositionPlan)
    (openFlags : Int32) : Routine Bool := do
  let state : Reply ReplyCreatePayload ←
    Routine.fs (.create create.req create.parentIno create.leaf create.mode 0 openFlags)
  drainResolverForgets create.req
  match state with
  | some (.error err) =>
      if createPlan.opensExistingAfterCollision err then
        openCollisionResolves pf (.fromCreate create openFlags)
      else pure true
  | _ => pure true

def createInParentResolves (fileName : U16CStr) (desiredAccess : AccessMask)
    (fileAttributes createDisposition createOptions : UInt32) (requestIds : RequestIds)
    (parentIno : INodeNo) : Routine Bool :=
  let req := requestFromIds requestIds
  let leaf := (splitParentAndName fileName).2
  let pathIno := knownPathIno fileName
  if leaf.points = [] then pure true
  else
    let createPlan := createDispositionPlan createDisposition
    let isDirOpen := isDirectoryOpen createOptions
    let openFlags := accessMaskToOpenFlags desiredAccess
    let mode := modeFromFileAttributes fileAttributes
    let create : CreateEntryRequest := {
      req, fileName, parentIno, leaf, pathIno, requestIds, mode, isDirOpen }
    if !createPlan.createsEntry then
      openInoResolves pf { req, fileName, pathIno, requestIds, openFlags, isDirOpen }
    else if isDirOpen then pure true
    else createFileEntryResolves pf create createPlan openFlags

/-- `create_file` up to the end of its resolutions: the parent's and, where an existing entry is
opened, the path's. -/
def createResolves (fileName : U16CStr) (desiredAccess : AccessMask)
    (fileAttributes createDisposition createOptions : UInt32) (requestIds : RequestIds) :
    Routine Bool := do
  match ← resolveParentIno pf (requestFromIds requestIds) (splitParentAndName fileName).1 with
  | .error _ => pure false
  | .ok parentIno =>
      createInParentResolves pf fileName desiredAccess fileAttributes createDisposition
        createOptions requestIds parentIno

/-- A callback up to the end of the resolutions that it needs; the result is whether they have
succeeded. The look at a move's target is not one of them, nor is the resolution of the parent whose
attributes end with a mutation that is done. `cleanup` and `close_file` have no result to report
in. -/
def Callback.resolves : Callback → Routine Bool
  | .createFile fileName desiredAccess fileAttributes createDisposition createOptions requestIds =>
      createResolves pf fileName desiredAccess fileAttributes createDisposition createOptions
        requestIds
  | .moveFile fileName newFileName _ context => do
      let move ← locateMove pf fileName newFileName context
      pure move.isOk
  | .findFiles fileName context | .findFilesWithPattern fileName _ context => do
      let ino ← directoryIno pf (requestFromIds context.requestIds) fileName.toStringLossy context
      pure ino.isOk
  | .cleanup .. | .closeFile .. | .getDiskFreeSpace .. => pure true
  | .deleteFile fileName context | .deleteDirectory fileName context
  | .flushFileBuffers fileName context | .setEndOfFile fileName _ context
  | .setFileAttributes fileName _ context | .setFileTime fileName _ _ _ context
  | .setAllocationSize fileName _ context | .getFileInformation fileName context
  | .readFile fileName _ _ context | .writeFile fileName _ _ _ _ context
  | .getFileSecurity fileName _ _ context | .setFileSecurity fileName _ context
  | .lockFile fileName _ _ context | .unlockFile fileName _ _ context
  | .findStreams fileName context => contextResolves pf fileName context

end Resolutions

/-- Where the run of `q` returns `false`, the run of `p` returns an error. -/
def Heralds {α : Type} (q : Routine Bool) (p : Routine (Except NtStatus α)) : Prop :=
  ∀ (σ : Type) (M : Prog.Machine effects σ) (s : σ), (q.run M s).1 = false → Fails (p.run M s).1

namespace Heralds
variable {α γ : Type} (pf : Platform) (fileName : U16CStr) (context : AdapterContext)

theorem nothing (p : Routine (Except NtStatus α)) : Heralds (pure true) p :=
  fun _ _ _ h => nomatch h

theorem fails (q : Routine Bool) {p : Routine (Except NtStatus α)} (hp : p.Returns Fails) :
    Heralds q p := fun _ _ s _ => hp.run s

theorem bind (p : Routine γ) {g : γ → Routine Bool} {f : γ → Routine (Except NtStatus α)}
    (h : ∀ a, Heralds (g a) (f a)) : Heralds (p >>= g) (p >>= f) := by
  intro σ M s hfalse
  rw [Prog.run_bind] at hfalse ⊢
  exact h _ σ M _ hfalse

theorem onOk (p : Routine (Except NtStatus γ)) (f : γ → Routine (Except NtStatus α)) :
    Heralds (p >>= fun r => pure r.isOk) (p >>= fun r => Confuse.onOk r f) := by
  refine bind p fun r => ?_
  cases r with
  | error status => exact fails _ (.pure (fails_error status))
  | ok v => exact nothing _

theorem withResolved (f : AdapterContext → Routine (Except NtStatus α)) :
    Heralds (contextResolves pf fileName context)
      (withResolved pf (requestFromIds context.requestIds) fileName context f) := by
  refine bind _ fun resolved => ?_
  cases resolved with
  | error err => exact fails _ (.pure (fails_error _))
  | ok resolved => exact nothing _

theorem openExistingEntry (request : OpenEntryRequest) :
    Heralds (openInoResolves pf request) (openExistingEntry pf request) := onOk _ _

theorem openCollisionEntry (request : OpenEntryRequest) :
    Heralds (openCollisionResolves pf request) (openCollisionEntry pf request) := by
  unfold openCollisionResolves Confuse.openCollisionEntry
  split_ifs
  · exact bind _ fun _ => onOk _ _
  · exact onOk _ _

theorem createFileEntryOrOpenExisting (create : CreateEntryRequest) (plan : CreateDispositionPlan)
    (openFlags : Int32) :
    Heralds (createFileEntryResolves pf create plan openFlags)
      (createFileEntryOrOpenExisting pf create plan openFlags) := by
  refine bind _ fun state => bind _ fun _ => ?_
  rcases state with _ | ⟨err⟩ | ⟨payload⟩
  · exact nothing _
  · dsimp only
    split_ifs
    · exact openCollisionEntry pf _
    · exact nothing _
  · exact nothing _

theorem createFile (desiredAccess : AccessMask)
    (fileAttributes createDisposition createOptions : UInt32) (requestIds : RequestIds) :
    Heralds (createResolves pf fileName desiredAccess fileAttributes createDisposition createOptions
        requestIds)
      (createFile pf fileName desiredAccess fileAttributes createDisposition createOptions
        requestIds) := by
  refine bind _ fun parent => ?_
  cases parent with
  | error err => exact fails _ (.last fun _ => .pure (fails_error _))
  | ok parentIno =>
      dsimp only [createInParentResolves, createInParent]
      split_ifs
      · exact nothing _
      · exact openExistingEntry pf _
      · exact nothing _
      · exact createFileEntryOrOpenExisting pf _ _ _

theorem moveFile (newFileName : U16CStr) (replaceIfExisting : Bool) :
    Heralds (do
        let move ← locateMove pf fileName newFileName context
        pure move.isOk)
      (moveFile pf fileName newFileName replaceIfExisting context) := by
  rw [moveFile_eq_locate]
  refine bind _ fun move => ?_
  cases move with
  | error err => exact fails _ (.pure (fails_error _))
  | ok move => exact nothing _

end Heralds

/-- Where a resolution that it needs fails, a callback fails. -/
theorem Callback.fails_unresolved (pf : Platform) (c : Callback) {σ : Type}
    (M : Prog.Machine effects σ) (s : σ) (hfails : ((c.resolves pf).run M s).1 = false) :
    c.failure ((c.routine pf).run M s).1 ≠ none := by
  cases c with
  | createFile fileName desiredAccess fileAttributes createDisposition createOptions requestIds =>
      exact Heralds.createFile pf fileName _ _ _ _ _ σ M s hfails
  | moveFile fileName newFileName replaceIfExisting context =>
      exact Heralds.moveFile pf fileName context newFileName replaceIfExisting σ M s hfails
  | findFiles fileName context => exact Heralds.onOk _ _ σ M s hfails
  | findFilesWithPattern fileName pattern context => exact Heralds.onOk _ _ σ M s hfails
  | cleanup fileName deleteOnClose context => cases hfails
  | closeFile fileName context => cases hfails
  | getDiskFreeSpace pid => cases hfails
  | _ => exact Heralds.withResolved pf _ _ _ σ M s hfails

/-! ## Every callback -/

/-- No errno leaves the adapter as a success. A callback that fails does so with one of the error
statuses; a resolution that it needs and that fails, and a failed call that it is there for, make it
fail. -/
theorem no_errno_leaks :
    (∀ status ∈ errorStatuses, status < 0) ∧
    (∀ volumeName fsName volumeFlags status,
      getVolumeInformation volumeName fsName volumeFlags = .error status →
        status ∈ errorStatuses) ∧
    (∀ answer status, facadeMountedWith answer = .error status → status ∈ errorStatuses) ∧
    ∀ (β φ : Type) (pf : Platform) (h : Host β φ) (notices : Notices) (c : Callback)
      (w : World β φ),
      (∀ status, c.failure ((c.routine pf).run (machine pf h notices) w).1 = some status →
        status ∈ errorStatuses) ∧
      (((c.resolves pf).run (machine pf h notices) w).1 = false →
        c.failure ((c.routine pf).run (machine pf h notices) w).1 ≠ none) ∧
      ∀ call reply, .call call reply ∈ w.newEvents pf h notices (c.routine pf) →
        c.refuses call reply = true →
          c.failure ((c.routine pf).run (machine pf h notices) w).1 ≠ none := by
  refine ⟨errorStatuses_neg, ?_, ?_, fun β φ pf h notices c w => ⟨?_, ?_, ?_⟩⟩
  · intro volumeName fsName volumeFlags status heq
    exact getVolumeInformation_severe volumeName fsName volumeFlags status (by rw [heq]; rfl)
  · intro answer status heq
    exact facadeMountedWith_severe answer status (by rw [heq]; rfl)
  · exact (c.failure_severe pf).run w
  · exact c.fails_unresolved pf (machine pf h notices) w
  · exact c.fails_when_refused pf _ _ (World.newEvents_traces pf h notices (c.routine pf) w)

/-- Reads are answered with a negative errno. -/
def unreadableReply : (c : FsCall) → c.Reply
  | .read .. => (some (.error (-5)) : Reply (List UInt8))
  | c => c.unanswered

/-- The errno of a read does not become the status of the callback. -/
theorem no_errno_leaks_read :
    ∃ status, Callback.failure (.readFile fileF 0 4 { ino := ⟨5⟩ })
      (((Callback.readFile fileF 0 4 { ino := ⟨5⟩ }).routine .ascii).run
        (machine .ascii (.stateless unreadableReply) undisturbed) World.mounted).1 = some status ∧
      status < 0 := by
  obtain ⟨hneg, -, -, hcallback⟩ := no_errno_leaks
  obtain ⟨hstatus, -, hrefused⟩ := hcallback Unit Unit .ascii (.stateless unreadableReply) undisturbed
    (.readFile fileF 0 4 { ino := ⟨5⟩ }) World.mounted
  have hfails := hrefused (.read ⟨INVALID_UID_GID, INVALID_UID_GID, 0⟩ ⟨5⟩ ⟨0⟩ 0 4 ⟨0⟩ none)
    (some (.error (-5)) : Reply (List UInt8)) (List.Mem.head _) rfl
  obtain ⟨status, hsome⟩ := Option.ne_none_iff_exists'.mp hfails
  exact ⟨status, hsome, hneg status (hstatus status hsome)⟩

end Confuse
