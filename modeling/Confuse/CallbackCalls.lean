import Confuse.Callbacks
import Confuse.PlainRoutes

/-!
# The calls of a callback

All but four callbacks are plain. Besides path walks and observing calls a callback makes only the
calls that it is there for. The flags of a read, a write or a release are those of the callback's
context, and the flags of an open come from the access mask.
-/

namespace Confuse
open Interaction

namespace Callback

/-- The callbacks that neither hand out a lookup reference nor change the namespace, path walks
apart. -/
def isPlain : Callback → Bool
  | .createFile .. | .cleanup .. | .moveFile .. | .findFilesWithPattern .. => false
  | _ => true

/-- The context that a callback is called with. -/
def context? : Callback → Option AdapterContext
  | .createFile .. | .getDiskFreeSpace .. => none
  | .cleanup _ _ context | .closeFile _ context | .deleteFile _ context
  | .deleteDirectory _ context | .moveFile _ _ _ context | .findFiles _ context
  | .findFilesWithPattern _ _ context | .flushFileBuffers _ context | .setEndOfFile _ _ context
  | .setFileAttributes _ _ context | .setFileTime _ _ _ _ context
  | .setAllocationSize _ _ context | .getFileInformation _ context | .readFile _ _ _ context
  | .writeFile _ _ _ _ _ context | .getFileSecurity _ _ _ context | .setFileSecurity _ _ context
  | .lockFile _ _ _ context | .unlockFile _ _ _ context | .findStreams _ context => some context

/-- The calls of a callback besides path walks and observing calls. -/
def changing : Callback → FsCall → Bool
  | .createFile _ _ _ _ createOptions _, .mkdir .. => isDirectoryOpen createOptions
  | .createFile _ desiredAccess _ _ createOptions _, .create _ _ _ _ _ flags =>
      !isDirectoryOpen createOptions && flags = accessMaskToOpenFlags desiredAccess
  | .createFile _ desiredAccess _ _ _ _, .open _ _ flags =>
      flags = ⟨accessMaskToOpenFlags desiredAccess⟩
  | .createFile _ desiredAccess _ _ _ _, .opendir _ _ flags =>
      flags = ⟨accessMaskToOpenFlags desiredAccess⟩
  | .cleanup _ _ context, .rmdir .. => context.isDir
  | .cleanup _ _ context, .unlink .. => !context.isDir
  | .closeFile _ context, .release _ _ _ flags _ _ =>
      !context.isDir && flags = openFlagsFromFopenFlags context.flags
  | .closeFile _ context, .releasedir _ _ _ flags =>
      context.isDir && flags = openFlagsFromFopenFlags context.flags
  | .flushFileBuffers _ context, .fsync .. => context.ino = ⟨0⟩ || !context.isDir
  | .flushFileBuffers _ context, .fsyncdir .. => context.ino = ⟨0⟩ || context.isDir
  | .moveFile .., .rename .. => true
  | .findFilesWithPattern .., .readdirplus .. => true
  | .setEndOfFile .., .setattr .. => true
  | .setFileAttributes .., .setattr .. => true
  | .setFileTime .., .setattr .. => true
  | .setAllocationSize .., .fallocate .. => true
  | .readFile _ _ _ context, .read _ _ _ _ _ flags _ => flags = context.ioFlags
  | .writeFile _ _ _ _ _ context, .write _ _ _ _ _ _ flags _ => flags = context.ioFlags
  | .setFileSecurity .., .setxattr .. => true
  | _, _ => false

def mayCall (c : Callback) (call : FsCall) : Bool := call.isObserving || c.changing call

theorem mayCall_of_changing {c : Callback} {call : FsCall} (h : c.changing call = true) :
    c.mayCall call = true := by rw [mayCall, h, Bool.or_true]

instance (c : Callback) : AllowsObserving c.mayCall :=
  ⟨fun call h => by rw [mayCall, h, Bool.true_or]⟩

/-! ## Plain callbacks -/

theorem mayCall_isPlain {c : Callback} (hc : c.isPlain = true) {call : FsCall}
    (h : c.mayCall call = true) : call.isPlain = true := by
  rcases (Bool.or_eq_true _ _).mp h with hobserving | hchanging
  · exact AllowsObserving.allows call hobserving
  · cases call <;> first | rfl | (cases c <;> first | (cases hchanging; done) | cases hc)

theorem madeOf (pf : Platform) {c : Callback} (h : c.isPlain = true) :
    MadeOf pf c.mayCall (c.routine pf) := by
  cases c with
  | createFile => cases h
  | cleanup => cases h
  | moveFile => cases h
  | findFilesWithPattern => cases h
  | closeFile fileName context =>
      exact .closeFile pf fileName
        (fun hdir _ _ _ _ _ => mayCall_of_changing (by simp [changing, hdir]))
        fun hdir _ _ _ => mayCall_of_changing (by simp [changing, hdir])
  | deleteFile fileName context => exact .deleteFile pf fileName context
  | deleteDirectory fileName context => exact .deleteDirectory pf fileName context
  | findFiles fileName context => exact .findFiles pf fileName context
  | flushFileBuffers fileName context =>
      have hflush : ∀ resolved, context.Resolves resolved →
          context.ino = ⟨0⟩ ∨ context.isDir = resolved.isDir := fun resolved hresolved =>
        or_iff_not_imp_left.mpr fun hino => by rw [hresolved.eq hino]
      refine .flushFileBuffers pf fileName (fun resolved hresolved hdir _ _ _ => ?_)
        fun resolved hresolved hdir _ _ _ => ?_
      · exact mayCall_of_changing (by simpa [changing, hdir] using hflush resolved hresolved)
      · exact mayCall_of_changing (by simpa [changing, hdir] using hflush resolved hresolved)
  | setEndOfFile fileName offset context =>
      exact .setattrRoute pf fileName context (fun _ _ _ => rfl) _
  | setFileAttributes fileName fileAttributes context =>
      exact .setattrRoute pf fileName context (fun _ _ _ => rfl) _
  | setFileTime fileName creationTime lastAccessTime lastWriteTime context =>
      exact .setattrRoute pf fileName context (fun _ _ _ => rfl) _
  | setAllocationSize fileName allocSize context =>
      exact .setAllocationSize pf fileName context (fun _ _ _ _ _ _ => rfl) allocSize
  | getDiskFreeSpace pid => exact .getDiskFreeSpace pf pid
  | getFileInformation fileName context => exact .getFileInformation pf fileName context
  | readFile fileName offset bufferLen context =>
      exact .readFile pf fileName offset bufferLen fun _ _ _ _ _ _ => decide_eq_true rfl
  | writeFile fileName offset buffer writeToEof pagingIo context =>
      exact .writeFile pf fileName offset buffer writeToEof pagingIo
        fun _ _ _ _ _ _ _ => decide_eq_true rfl
  | getFileSecurity fileName hasBuffer bufferLength context =>
      exact .getFileSecurity pf fileName context hasBuffer bufferLength
  | setFileSecurity fileName descriptor context =>
      exact .setFileSecurity pf fileName context (fun _ _ _ _ _ _ => rfl) descriptor
  | lockFile fileName offset length context => exact .lockFile pf fileName context offset length
  | unlockFile fileName offset length context =>
      exact .unlockFile pf fileName context offset length
  | findStreams fileName context => exact .findStreams pf fileName context

theorem plainRoutine (pf : Platform) {c : Callback} (h : c.isPlain = true) :
    PlainRoutine pf (c.routine pf) := (madeOf pf h).widen fun _ => mayCall_isPlain h

end Callback

/-! ## All callbacks -/

/-- The effects of the loop over a `readdirplus` reply. -/
def Effect.isListing : Effect → Bool
  | .table (.rememberCreated _) | .deliver _ _ | .fillFindData _ => true
  | _ => false

theorem emitReaddirplusPatternEntries_performs (pf : Platform) (req : Request)
    (fileName pattern : U16CStr) (ino : INodeNo) (emittedOffset : Option Int64)
    (entries : List DirectoryPlusEntryPayload) :
    (emitReaddirplusPatternEntries pf req fileName pattern ino emittedOffset entries).Performs
      fun e : Effect => e.isListing := by
  induction entries generalizing emittedOffset with
  | nil => exact .pure _
  | cons entry rest ih =>
      unfold emitReaddirplusPatternEntries
      cases U16CStr.fromStr (joinChildPath fileName entry.name) with
      | none => exact .pure _
      | some path =>
          refine .bind (.bind (.perform rfl) fun _ => .perform rfl) fun _ => ?_
          cases U16CStr.fromStr entry.name.toStringLossy with
          | none => exact .pure _
          | some name =>
              dsimp only
              cases pf.isNameInExpression pattern name true with
              | false => exact ih _
              | true =>
                  refine .bind (.perform rfl) fun accepted => ?_
                  cases accepted with
                  | true => exact ih _
                  | false => exact .pure _

/-- What holds of the calls that a routine performs holds of the calls among its events. -/
theorem calls_every {P : FsCall → Prop} {α : Type} {p : Routine α}
    (hp : p.Performs fun e : Effect => ∀ c, e = .fs c → P c) :
    p.EveryTrace Emits fun evs => ∀ c reply, .call c reply ∈ evs → P c := by
  refine Prog.EveryTrace.of_performs ⟨by simp, fun h h' c reply he =>
    (List.mem_append.mp he).elim (h c reply) (h' c reply)⟩ (fun e r evs hok he c reply hc => ?_) hp
  obtain ⟨notes, own, hnotes, hown, rfl⟩ := he
  rcases List.mem_append.mp hc with hc | hc
  · exact absurd (hnotes _ hc) (by simp [Event.isNotify])
  cases e with
  | fs c' =>
      obtain rfl : own = [.call c' r] := hown
      obtain ⟨rfl, -⟩ := by simpa using hc
      exact hok _ rfl
  | table o =>
      obtain ⟨now, rfl⟩ := hown
      simp at hc
  | deliver req o =>
      obtain ⟨now, forgets, rfl⟩ := hown
      simp at hc
  | openState o => simp [show own = [] from hown] at hc
  | fillFindData data => simp [show own = [.fillFindData data r] from hown] at hc
  | fillFindStreamData data => simp [show own = [.fillFindStreamData data r] from hown] at hc

/-- Besides the effects of path walks the routine makes only calls in `ok`. -/
abbrev Calls (ok : FsCall → Bool) {α : Type} (p : Routine α) : Prop :=
  p.Performs fun e : Effect => e.isWalk ∨ ∀ c, e = .fs c → ok c = true

namespace Calls
variable {pf : Platform} {ok : FsCall → Bool} {α γ : Type}

theorem pure (a : α) : Calls ok (Pure.pure a : Routine α) := Prog.Performs.pure a

theorem bind {p : Routine α} {f : α → Routine γ} (hp : Calls ok p) (hf : ∀ a, Calls ok (f a)) :
    Calls ok (p >>= f) := Prog.Performs.bind hp hf

theorem fs {c : FsCall} (h : ok c = true) : Calls ok (Routine.fs c) :=
  Prog.Performs.perform (.inr fun _ hc => Effect.fs.inj hc ▸ h)

theorem silent {e : Effect} (h : ∀ c, e ≠ .fs c) : Calls ok (Prog.perform (S := effects) e) :=
  Prog.Performs.perform (.inr fun c hc => absurd hc (h c))

theorem of_madeOf {p : Routine α} (hp : MadeOf pf ok p) : Calls ok p := by
  refine (MadeOf.performs hp).mono ?_
  rintro e (hwalk | ⟨c, rfl, hc⟩ | ⟨-, hno⟩)
  · exact .inl hwalk
  · exact .inr fun _ he => Effect.fs.inj he ▸ hc
  · exact .inr fun c he => absurd he (hno c)

theorem of_walks {p : Routine α} (hp : Walks p) : Calls ok p := hp.mono fun _ => .inl

/-- What the events of the calls of a routine are. -/
theorem every {p : Routine α} (hp : Calls ok p) : p.EveryTrace Emits fun evs =>
    ∀ c reply, .call c reply ∈ evs → (Effect.fs c).isWalk ∨ ok c = true := by
  refine calls_every (P := fun c => (Effect.fs c).isWalk ∨ ok c = true) (hp.mono fun e he c hc => ?_)
  subst hc
  exact he.imp_right fun hok => hok c rfl

theorem drainResolverForgets (req : Request) : Calls ok (drainResolverForgets req) :=
  silent (by simp)

theorem onReply {reply : Reply γ} {toNtstatus : Errno → NtStatus}
    {f : γ → Routine (Except NtStatus α)} (hf : ∀ v, Calls ok (f v)) :
    Calls ok (onReply reply toNtstatus f) :=
  onReply_cases (fun _ => pure _) fun v _ => hf v

theorem onOk {result : Except NtStatus γ} {f : γ → Routine (Except NtStatus α)}
    (hf : ∀ v, Calls ok (f v)) : Calls ok (onOk result f) :=
  onOk_cases (fun _ => pure _) hf

theorem rememberCreatedPath (req : Request) (created : CreatedPath) :
    Calls ok (rememberCreatedPath req created) :=
  bind (silent (by simp)) fun _ => drainResolverForgets req

theorem finishCreatedEntry (created : CreatedEntry) : Calls ok (finishCreatedEntry created) :=
  bind (silent (by simp)) fun _ => bind (silent (by simp)) fun _ => bind (silent (by simp)) fun _ =>
    rememberCreatedPath _ _

theorem createDirectoryEntry {create : CreateEntryRequest}
    (hok : ∀ req parent name mode umask, ok (.mkdir req parent name mode umask) = true) :
    Calls ok (createDirectoryEntry create) :=
  bind (fs (hok _ _ _ _ _)) fun _ => bind (drainResolverForgets _) fun _ => onReply fun _ =>
    bind (finishCreatedEntry _) fun _ => pure _

theorem createFileEntryOrOpenExisting {create : CreateEntryRequest} {openFlags : Int32}
    (hok : ∀ req parent name mode umask, ok (.create req parent name mode umask openFlags) = true)
    (hopens : MadeOf.Opens ok openFlags) (plan : CreateDispositionPlan) :
    Calls ok (createFileEntryOrOpenExisting pf create plan openFlags) := by
  refine bind (fs (hok _ _ _ _ _)) fun state => bind (drainResolverForgets _) fun _ => ?_
  rcases state with _ | ⟨err⟩ | ⟨payload⟩
  · exact pure _
  · dsimp only
    split_ifs
    · exact of_madeOf (MadeOf.openCollisionEntry pf hopens)
    · exact pure _
  · exact bind (finishCreatedEntry _) fun _ => pure _

theorem emitReaddirplusPatternEntries (req : Request) (fileName pattern : U16CStr) (ino : INodeNo)
    (emittedOffset : Option Int64) (entries : List DirectoryPlusEntryPayload) :
    Calls ok (emitReaddirplusPatternEntries pf req fileName pattern ino emittedOffset entries) := by
  refine (emitReaddirplusPatternEntries_performs pf req fileName pattern ino emittedOffset
    entries).mono fun e he => .inr fun c hc => ?_
  rw [hc] at he
  cases he

end Calls

namespace Callback
variable (pf : Platform)

theorem createFile_calls (fileName : U16CStr) (desiredAccess : AccessMask)
    (fileAttributes createDisposition createOptions : UInt32) (requestIds : RequestIds) :
    Calls (Callback.createFile fileName desiredAccess fileAttributes createDisposition createOptions
        requestIds).mayCall
      (Confuse.createFile pf fileName desiredAccess fileAttributes createDisposition createOptions
        requestIds) := by
  have hopens : MadeOf.Opens (Callback.createFile fileName desiredAccess fileAttributes
      createDisposition createOptions requestIds).mayCall (accessMaskToOpenFlags desiredAccess) :=
    fun _ _ => ⟨decide_eq_true rfl, decide_eq_true rfl⟩
  refine .bind (.of_walks (.resolvePathIno _ pf _)) fun parent => ?_
  cases parent with
  | error err => exact .bind (.drainResolverForgets _) fun _ => .pure _
  | ok parentIno =>
      dsimp only [createInParent]
      split_ifs with _ _ hdir
      · exact .of_madeOf (MadeOf.createRootContext pf fileName requestIds)
      · exact .of_madeOf (MadeOf.openExistingEntry pf hopens)
      · exact .createDirectoryEntry fun _ _ _ _ _ => mayCall_of_changing hdir
      · exact .createFileEntryOrOpenExisting
          (fun _ _ _ _ _ => mayCall_of_changing (by simpa [changing] using hdir)) hopens _

theorem cleanup_calls (fileName : U16CStr) (deleteOnClose : Bool) (context : AdapterContext) :
    Calls (Callback.cleanup fileName deleteOnClose context).mayCall
      (Confuse.cleanup pf fileName deleteOnClose context) := by
  cases deleteOnClose with
  | false => exact .pure _
  | true =>
      refine .bind (.of_walks (.resolvePathIno _ pf _)) fun parent => ?_
      cases parent with
      | error err => exact .drainResolverForgets _
      | ok parentIno =>
          refine .bind ?_ fun status => .bind (.drainResolverForgets _) fun _ => ?_
          · unfold rmdirOrUnlink
            cases hdir : context.isDir with
            | true =>
                exact .fs (c := .rmdir _ _ _) (mayCall_of_changing (by simp [changing, hdir]))
            | false =>
                exact .fs (c := .unlink _ _ _) (mayCall_of_changing (by simp [changing, hdir]))
          · rcases status with _ | ⟨err⟩ | ⟨⟩
            · exact .pure _
            · exact .pure _
            · exact .of_madeOf (MadeOf.invalidateRemoved pf _ fileName context parentIno)

theorem moveFile_calls (fileName newFileName : U16CStr) (replaceIfExisting : Bool)
    (context : AdapterContext) :
    Calls (Callback.moveFile fileName newFileName replaceIfExisting context).mayCall
      (Confuse.moveFile pf fileName newFileName replaceIfExisting context) := by
  refine .bind (.of_walks (.resolvePathIno _ pf _)) fun oldParent => ?_
  cases oldParent with
  | error err => exact .pure _
  | ok oldParentIno =>
      refine .bind (.of_walks (.resolvePathIno _ pf _)) fun newParent => ?_
      cases newParent with
      | error err => exact .pure _
      | ok newParentIno =>
          refine .bind (.of_madeOf (MadeOf.resolveContextOrPath pf _ _ _)) fun _ =>
            .bind (.of_madeOf (MadeOf.precheckRename pf _ _ _)) fun _ => .onOk fun _ => ?_
          exact .bind (.bind (.fs rfl) fun _ => .pure _) fun _ => .bind (.drainResolverForgets _)
            fun _ => .onOk fun _ => .bind (.of_madeOf (MadeOf.invalidateRenamed pf _ _ _ _ _ _))
              fun _ => .pure _

theorem findFilesWithPattern_calls (fileName pattern : U16CStr) (context : AdapterContext) :
    Calls (Callback.findFilesWithPattern fileName pattern context).mayCall
      (Confuse.findFilesWithPattern pf fileName pattern context) := by
  refine .bind (.of_madeOf (MadeOf.directoryIno pf _ _ _)) fun _ => .onOk fun ino =>
    .bind (.silent (by simp)) fun reqOffset => .bind (.fs rfl) fun reply =>
      .bind (.drainResolverForgets _) fun _ => ?_
  split_ifs
  · exact .of_madeOf (MadeOf.findFilesFallback pf _ _ _ _ _ _)
  · exact .bind (.emitReaddirplusPatternEntries _ _ _ _ _ _) fun _ => .onOk fun _ =>
      .bind (.silent (by simp)) fun _ => .pure _

theorem calls (c : Callback) : Calls c.mayCall (c.routine pf) := by
  cases hplain : c.isPlain with
  | true => exact .of_madeOf (madeOf pf hplain)
  | false =>
      cases c with
      | createFile => exact createFile_calls pf _ _ _ _ _ _
      | cleanup => exact cleanup_calls pf _ _ _
      | moveFile => exact moveFile_calls pf _ _ _ _
      | findFilesWithPattern => exact findFilesWithPattern_calls pf _ _ _
      | _ => cases hplain

end Callback
end Confuse
