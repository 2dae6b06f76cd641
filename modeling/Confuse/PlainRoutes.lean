import Confuse.Handlers

/-!
# Handlers that leave the namespace alone

Most handler methods resolve a path and then make calls that neither hand out a lookup reference nor
change the namespace. They are put together from a few kinds of blocks, so that a fact about each
kind is a fact about all of them.
-/

namespace Confuse

open Interaction PathResolver

/-- Calls that neither hand out a lookup reference nor change the namespace. -/
def FsCall.isPlain : FsCall → Bool
  | .lookup .. | .mkdir .. | .create .. | .readdirplus .. | .rename .. | .unlink .. | .rmdir .. =>
      false
  | _ => true

/-- Plain calls that neither transfer or flush data, nor change attributes, nor open or close
anything. -/
def FsCall.isObserving : FsCall → Bool
  | .getattr .. | .readdir .. | .statfs .. | .getxattr .. | .listxattr .. | .access .. | .getlk ..
  | .setlk .. => true
  | _ => false

/-- A class of calls that contains the observing ones. -/
class AllowsObserving (ok : FsCall → Bool) : Prop where
  allows : ∀ c : FsCall, c.isObserving = true → ok c = true

instance : AllowsObserving FsCall.isPlain := ⟨fun c h => by cases c <;> first | rfl | cases h⟩

/-- Sections on attributes. -/
def TableOp.isPlain : TableOp → Bool
  | .cachedAttr _ | .rememberAttr .. | .invalidateInodeAttr _ => true
  | _ => false

/-- Sections that read attributes or end their validity. -/
def TableOp.readsOrEnds : TableOp → Bool
  | .cachedAttr _ | .invalidateInodeAttr _ => true
  | _ => false

theorem TableOp.isPlain_of_readsOrEnds {o : TableOp} (h : o.readsOrEnds) : o.isPlain := by
  cases o <;> first | rfl | cases h

/-- The effects of a path walk. -/
def Effect.isWalk : Effect → Bool
  | .fs (.lookup ..) | .table (.cached ..) | .table (.rememberPositive _)
  | .table (.rememberNegative ..) | .deliver _ _ => true
  | _ => false

def Effect.isPlain : Effect → Bool
  | .fs c => c.isPlain
  | .table o => o.isPlain
  | .deliver _ _ | .openState _ | .fillFindData _ | .fillFindStreamData _ => true

/-- What `get_file_information` does when no attributes are remembered. -/
def fetchAttr (req : Request) (resolved : AdapterContext) : Routine (Except NtStatus FileInfo) := do
  let payload : Reply ReplyAttrPayload ←
    Routine.fs (.getattr req resolved.ino (some resolved.fh))
  drainResolverForgets req
  onReply payload errnoToNtstatus fun payload => do
    let _ ← Routine.table (.rememberAttr payload.attr.ino payload.attr payload.ttl)
    pure (.ok (fileInfo payload.attr))

/-- The blocks of a plain routine whose calls are all in `ok`; a path resolution is one block, and so
is asking for attributes and remembering the answer. -/
inductive Plain (pf : Platform) (ok : FsCall → Bool) : (β : Type) → Routine β → Prop
  | fs (c : FsCall) (h : ok c = true) : Plain pf ok c.Reply (.fs c)
  | table (o : TableOp) (h : o.readsOrEnds) : Plain pf ok o.Result (.table o)
  | deliver (req : Request) (o : DrainOp) : Plain pf ok Unit (.deliver req o)
  | openState (o : OpenStateOp) : Plain pf ok o.Result (.openState o)
  | fillFindData (data : FindData) : Plain pf ok Bool (.fillFindData data)
  | fillFindStreamData (data : FindStreamData) : Plain pf ok Bool (.fillFindStreamData data)
  | resolve (req : Request) (path : OsStr) : Plain pf ok _ (resolvePathIno pf req path)
  | fetchAttr (req : Request) (resolved : AdapterContext)
      (h : ok (.getattr req resolved.ino (some resolved.fh)) = true) :
      Plain pf ok _ (fetchAttr req resolved)

namespace AdapterContext

/-- A context with an inode stands for itself; any other is resolved anew, without flags. -/
def Resolves (context resolved : AdapterContext) : Prop :=
  if context.ino ≠ ⟨0⟩ then resolved = context else resolved.flags = ⟨0⟩

/-- The flags of the reads and writes for a context. -/
def ioFlags (context : AdapterContext) : OpenFlags :=
  openFlagsFromFopenFlags (if context.ino ≠ ⟨0⟩ then context.flags else ⟨0⟩)

variable {context resolved : AdapterContext}

theorem Resolves.eq (h : context.Resolves resolved) (hino : context.ino ≠ ⟨0⟩) :
    resolved = context := by rwa [Resolves, if_pos hino] at h

theorem Resolves.ioFlags_eq (h : context.Resolves resolved) :
    openFlagsFromFopenFlags resolved.flags = context.ioFlags := by
  unfold Resolves at h
  unfold ioFlags
  split_ifs at h with hino
  · rw [h, if_pos hino]
  · rw [h, if_neg hino]

end AdapterContext

/-! ## Path walks -/

abbrev Walks {α : Type} (p : Routine α) : Prop := p.Performs fun e : Effect => e.isWalk

namespace Walks
variable {α γ : Type} (req : Request)

theorem pure (a : α) : Walks (Pure.pure a : Routine α) := Prog.Performs.pure a

theorem bind {p : Routine α} {f : α → Routine γ} (hp : Walks p) (hf : ∀ a, Walks (f a)) :
    Walks (p >>= f) := Prog.Performs.bind hp hf

theorem effect {e : Effect} (h : e.isWalk) : Walks (Prog.perform (S := effects) e) :=
  Prog.Performs.perform h

theorem drainResolverForgets : Walks (drainResolverForgets req) := effect rfl

theorem cachedPathComponent (path : OsStr) (parent : INodeNo) (parentGeneration : Generation) :
    Walks (cachedPathComponent req path parent parentGeneration) := by
  refine .bind (effect rfl) fun cached => ?_
  rcases cached with _ | ⟨err⟩ | ⟨entry⟩
  · exact .pure _
  · exact .bind (drainResolverForgets req) fun _ => .pure _
  · exact .pure _

theorem rememberNegativeLookup (err : Errno) (component : LookupComponent) :
    Walks (rememberNegativeLookup req err component) := by
  unfold Confuse.rememberNegativeLookup
  split_ifs
  · exact .bind (effect rfl) fun _ => drainResolverForgets req
  · exact drainResolverForgets req

theorem lookupPathComponent (component : LookupComponent) :
    Walks (lookupPathComponent req component) := by
  refine .bind (effect rfl) fun reply => ?_
  rcases reply with _ | ⟨err⟩ | ⟨payload⟩
  · exact .bind (drainResolverForgets req) fun _ => .pure _
  · exact .bind (rememberNegativeLookup req err component) fun _ => .pure _
  · exact .bind (effect rfl) fun _ => .pure _

theorem resolveComponent (component : LookupComponent) :
    Walks (resolveComponent req component) := by
  refine .bind (cachedPathComponent req _ _ _) fun cached => ?_
  rcases cached with err | _ | entry
  · exact .pure _
  · exact lookupPathComponent req component
  · exact .pure _

theorem walkComponents (currentPath : Str) (current : ResolvedEntry) (components : List Str) :
    Walks (walkComponents req currentPath current components) := by
  induction components generalizing currentPath current with
  | nil => exact .pure _
  | cons component rest ih =>
      refine .bind (resolveComponent req _) fun resolved => ?_
      cases resolved with
      | error err => exact .pure _
      | ok entry => exact ih _ entry

theorem resolvePathIno (pf : Platform) (path : OsStr) :
    Walks (resolvePathIno pf req path) := by
  unfold Confuse.resolvePathIno
  split_ifs
  · exact .pure _
  · refine .bind (effect rfl) fun _ => .bind (walkComponents req _ _ _) fun walked => ?_
    cases walked <;> exact .pure _

end Walks

/-! ## Plain routines -/

/-- A plain routine whose calls are all in `ok`. -/
abbrev MadeOf (pf : Platform) (ok : FsCall → Bool) {α : Type} (p : Routine α) : Prop :=
  Composed (Plain pf ok) p

abbrev PlainRoutine (pf : Platform) {α : Type} (p : Routine α) : Prop := MadeOf pf FsCall.isPlain p

theorem MadeOf.widen {pf : Platform} {ok ok' : FsCall → Bool} (h : ∀ c, ok c = true → ok' c = true)
    {α : Type} {p : Routine α} (hp : MadeOf pf ok p) : MadeOf pf ok' p := by
  refine Composed.mono (fun γ q hq => ?_) hp
  cases hq with
  | fs c hc => exact .fs c (h c hc)
  | table o ho => exact .table o ho
  | deliver req o => exact .deliver req o
  | openState o => exact .openState o
  | fillFindData data => exact .fillFindData data
  | fillFindStreamData data => exact .fillFindStreamData data
  | resolve req path => exact .resolve req path
  | fetchAttr req resolved hc => exact .fetchAttr req resolved (h _ hc)

/-- A plain routine performs walks and effects other than calls outside its class. -/
theorem MadeOf.performs {pf : Platform} {ok : FsCall → Bool} {α : Type} {p : Routine α}
    (hp : MadeOf pf ok p) :
    p.Performs fun e : Effect => e.isWalk ∨ ((∃ c, e = .fs c ∧ ok c = true) ∨
      e.isPlain ∧ ∀ c, e ≠ .fs c) := by
  refine Composed.performs (fun γ q hq => ?_) hp
  cases hq with
  | fs c h => exact .perform (.inr (.inl ⟨c, rfl, h⟩))
  | table o h => exact .perform (.inr (.inr ⟨TableOp.isPlain_of_readsOrEnds h, by simp⟩))
  | deliver req o => exact .perform (.inr (.inr ⟨rfl, by simp⟩))
  | openState o => exact .perform (.inr (.inr ⟨rfl, by simp⟩))
  | fillFindData data => exact .perform (.inr (.inr ⟨rfl, by simp⟩))
  | fillFindStreamData data => exact .perform (.inr (.inr ⟨rfl, by simp⟩))
  | resolve req path => exact (Walks.resolvePathIno req pf path).mono fun _ => .inl
  | fetchAttr req resolved h =>
      refine .bind (.perform (.inr (.inl ⟨_, rfl, h⟩))) fun reply => .bind (.perform (.inl rfl))
        fun _ => ?_
      rcases reply with _ | ⟨err⟩ | ⟨payload⟩
      · exact .pure _
      · exact .pure _
      · exact .bind (.perform (.inr (.inr ⟨rfl, by simp⟩))) fun _ => .pure _

/-- A plain routine performs plain effects and walks. -/
theorem PlainRoutine.performs {pf : Platform} {α : Type} {p : Routine α}
    (hp : PlainRoutine pf p) : p.Performs fun e : Effect => e.isWalk ∨ e.isPlain := by
  refine (MadeOf.performs hp).mono ?_
  rintro e (hwalk | ⟨c, rfl, hc⟩ | ⟨hplain, -⟩)
  · exact .inl hwalk
  · exact .inr hc
  · exact .inr hplain

namespace MadeOf
variable (pf : Platform) (req : Request) {ok : FsCall → Bool}

theorem fs {c : FsCall} (h : ok c = true) : MadeOf pf ok (Routine.fs c) :=
  .block (.fs c h)

theorem table (o : TableOp) (h : o.readsOrEnds) : MadeOf pf ok (Routine.table o) :=
  .block (.table o h)

theorem openState (o : OpenStateOp) : MadeOf pf ok (Routine.openState o) :=
  .block (.openState o)

theorem drainResolverForgets : MadeOf pf ok (drainResolverForgets req) :=
  .block (.deliver req _)

theorem invalidateInodeAttr (ino : INodeNo) : MadeOf pf ok (invalidateInodeAttr ino) :=
  table pf (.invalidateInodeAttr ino) rfl

theorem invalidatePathCache (path : U16CStr) : MadeOf pf ok (invalidatePathCache req path) :=
  .block (.deliver req _)

theorem rememberOpenContext (fileName : U16CStr) (ctx : AdapterContext) :
    MadeOf pf ok (rememberOpenContext fileName ctx) :=
  openState pf (.rememberOpenContext fileName.toStringLossy ctx)

theorem remapOpenStateAfterRename (fileName newFileName : U16CStr) :
    MadeOf pf ok (remapOpenStateAfterRename fileName newFileName) :=
  .bind (openState pf (.remapHandles _ _)) fun _ => openState pf (.remapOffsets _ _)

theorem resolveContextOrPath (path : U16CStr) (context : AdapterContext) :
    MadeOf pf ok (resolveContextOrPath pf req path context) := by
  unfold Confuse.resolveContextOrPath
  cases resolveCtx path context with
  | some ctx => exact .pure _
  | none =>
      refine .bind (.block (.resolve req _)) fun resolved => ?_
      cases resolved <;> exact .pure _

theorem withResolvedContext {α : Type} {path : U16CStr} {context : AdapterContext}
    {f : AdapterContext → Routine (Except NtStatus α)}
    (hf : ∀ ctx, context.Resolves ctx → MadeOf pf ok (f ctx)) :
    MadeOf pf ok (withResolved pf req path context f) := by
  unfold Confuse.withResolved Confuse.resolveContextOrPath resolveCtx
  split_ifs with hino hroot
  · exact hf context (by rw [AdapterContext.Resolves, if_pos hino])
  · exact hf _ (by rw [AdapterContext.Resolves, if_neg hino])
  · dsimp only
    rw [Prog.bind_assoc]
    refine .bind (.block (.resolve req _)) fun resolved => ?_
    cases resolved with
    | error err => exact .pure _
    | ok ino => exact hf _ (by rw [AdapterContext.Resolves, if_neg hino])

theorem withResolved {α : Type} {path : U16CStr} {context : AdapterContext}
    {f : AdapterContext → Routine (Except NtStatus α)} (hf : ∀ ctx, MadeOf pf ok (f ctx)) :
    MadeOf pf ok (withResolved pf req path context f) := by
  refine .bind (resolveContextOrPath pf req path context) fun resolved => ?_
  cases resolved with
  | error err => exact .pure _
  | ok ctx => exact hf ctx

theorem invalidateParentAttrForPath (path : U16CStr) :
    MadeOf pf ok (invalidateParentAttrForPath pf req path) := by
  refine .bind (.block (.resolve req _)) fun parent => ?_
  cases parent with
  | error err => exact .pure _
  | ok parentIno => exact invalidateInodeAttr pf parentIno

theorem finishMetadataMutation (path : U16CStr) (ino : INodeNo) :
    MadeOf pf ok (finishMetadataMutation pf req path ino) :=
  .bind (invalidateInodeAttr pf ino) fun _ => .bind (invalidateParentAttrForPath pf req path)
    fun _ => invalidatePathCache pf req path

theorem onOk {α γ : Type} {result : Except NtStatus γ}
    {f : γ → Routine (Except NtStatus α)} (hf : ∀ v, MadeOf pf ok (f v)) :
    MadeOf pf ok (onOk result f) :=
  onOk_cases (fun _ => .pure _) hf

theorem onReply {α γ : Type} {reply : Reply γ} {toNtstatus : Errno → NtStatus}
    {f : γ → Routine (Except NtStatus α)} (hf : ∀ v, MadeOf pf ok (f v)) :
    MadeOf pf ok (onReply reply toNtstatus f) :=
  onReply_cases (fun _ => .pure _) fun v _ => hf v

variable (fileName : U16CStr) (context : AdapterContext)

theorem closeWithContext {context : AdapterContext}
    (hrelease : context.isDir = false → ∀ req ino fh owner flush, ok (.release req ino fh
      (openFlagsFromFopenFlags context.flags) owner flush) = true)
    (hreleasedir : context.isDir = true → ∀ req ino fh, ok (.releasedir req ino fh
      (openFlagsFromFopenFlags context.flags)) = true) :
    MadeOf pf ok (closeWithContext req context) := by
  unfold Confuse.closeWithContext
  split_ifs with hdir
  · exact .bind (fs pf (hreleasedir hdir _ _ _)) fun _ => .pure _
  · exact .bind (fs pf (hrelease (Bool.eq_false_iff.mpr hdir) _ _ _ _ _)) fun _ => .pure _

theorem flushWithContext {context : AdapterContext}
    (hfsync : context.isDir = false → ∀ req ino fh, ok (.fsync req ino fh false) = true)
    (hfsyncdir : context.isDir = true → ∀ req ino fh, ok (.fsyncdir req ino fh false) = true) :
    MadeOf pf ok (flushWithContext req context) := by
  unfold Confuse.flushWithContext
  cases hdir : context.isDir with
  | true => exact fs pf (c := .fsyncdir req context.ino context.fh false) (hfsyncdir hdir _ _ _)
  | false => exact fs pf (c := .fsync req context.ino context.fh false) (hfsync hdir _ _ _)

theorem flushFileBuffers {context : AdapterContext}
    (hfsync : ∀ resolved, context.Resolves resolved → resolved.isDir = false →
      ∀ req ino fh, ok (.fsync req ino fh false) = true)
    (hfsyncdir : ∀ resolved, context.Resolves resolved → resolved.isDir = true →
      ∀ req ino fh, ok (.fsyncdir req ino fh false) = true) :
    MadeOf pf ok (flushFileBuffers pf fileName context) :=
  withResolvedContext pf _ fun resolved hresolved =>
    .bind (flushWithContext pf _ (hfsync resolved hresolved) (hfsyncdir resolved hresolved))
      fun _ => .bind (drainResolverForgets pf _) fun _ => .pure _

theorem allocationSizeWithContext
    (hok : ∀ req ino fh offset length mode, ok (.fallocate req ino fh offset length mode) = true)
    (context : AdapterContext) (allocSize : Int64) :
    MadeOf pf ok (allocationSizeWithContext req context allocSize) :=
  onOk pf fun _ => .bind (fs pf (hok _ _ _ _ _ _)) fun _ => .pure _

theorem setattrRoute (hok : ∀ req ino args, ok (.setattr req ino args) = true)
    (args : Except NtStatus SetattrArgs) : MadeOf pf ok (setattrRoute pf fileName context args) :=
  withResolved pf _ fun resolved => onOk pf fun _ => .bind (fs pf (hok _ _ _)) fun _ =>
    .bind (drainResolverForgets pf _) fun _ => onReply pf fun _ =>
      .bind (finishMetadataMutation pf _ fileName resolved.ino) fun _ => .pure _

theorem setAllocationSize
    (hok : ∀ req ino fh offset length mode, ok (.fallocate req ino fh offset length mode) = true)
    (allocSize : Int64) :
    MadeOf pf ok (setAllocationSize pf fileName allocSize context) :=
  withResolved pf _ fun resolved =>
    .bind (allocationSizeWithContext pf _ hok resolved allocSize) fun _ => onOk pf fun _ =>
      .bind (drainResolverForgets pf _) fun _ => onReply pf fun _ =>
        .bind (finishMetadataMutation pf _ fileName resolved.ino) fun _ => .pure _

theorem readFile {context : AdapterContext} (offset : Int64) (bufferLen : ℕ)
    (hok : ∀ req ino fh offset size owner,
      ok (.read req ino fh offset size context.ioFlags owner) = true) :
    MadeOf pf ok (readFile pf fileName offset bufferLen context) := by
  refine withResolvedContext pf _ fun resolved hresolved => onOk pf fun _ => onOk pf fun _ => ?_
  rw [hresolved.ioFlags_eq]
  exact .bind (fs pf (hok _ _ _ _ _ _)) fun _ => .bind (drainResolverForgets pf _) fun _ =>
    onReply pf fun _ => .pure _

theorem setFileSecurity
    (hok : ∀ req ino name value flags position,
      ok (.setxattr req ino name value flags position) = true) (descriptor : List UInt8) :
    MadeOf pf ok (setFileSecurity pf fileName descriptor context) :=
  withResolved pf _ fun resolved => .bind (fs pf (hok _ _ _ _ _ _)) fun _ =>
    .bind (drainResolverForgets pf _) fun _ => onReply pf fun _ =>
      .bind (invalidateInodeAttr pf resolved.ino) fun _ => .pure _

theorem directoryIno (pathKey : Str) : MadeOf pf ok (directoryIno pf req pathKey context) := by
  unfold Confuse.directoryIno
  split
  · exact .pure _
  · refine .bind (.block (.resolve req _)) fun resolved => ?_
    cases resolved <;> exact .pure _

theorem rememberDirectoryOffset (pathKey : Str) (reqOffset : Int64)
    (emittedOffset : Option Int64) :
    MadeOf pf ok (rememberDirectoryOffset pathKey reqOffset emittedOffset) :=
  openState pf (.insertOffset _ _)

theorem closeFile {context : AdapterContext}
    (hrelease : context.isDir = false → ∀ req ino fh owner flush, ok (.release req ino fh
      (openFlagsFromFopenFlags context.flags) owner flush) = true)
    (hreleasedir : context.isDir = true → ∀ req ino fh, ok (.releasedir req ino fh
      (openFlagsFromFopenFlags context.flags)) = true) :
    MadeOf pf ok (closeFile fileName context) :=
  .bind (closeWithContext pf _ hrelease hreleasedir) fun _ =>
    .bind (openState pf (.removeHandle _)) fun _ => openState pf (.removeOffset _)

theorem resolveOpenIno (request : OpenEntryRequest) :
    MadeOf pf ok (resolveOpenIno pf request) := by
  unfold Confuse.resolveOpenIno
  split_ifs
  · exact .pure _
  · refine .bind (.block (.resolve _ _)) fun resolved => ?_
    cases resolved with
    | ok ino => exact .pure _
    | error err => exact .bind (drainResolverForgets pf _) fun _ => .pure _

theorem createRootContext (requestIds : RequestIds) :
    MadeOf pf ok (createRootContext fileName requestIds) :=
  .bind (rememberOpenContext pf _ _) fun _ => .pure _

theorem invalidateMoved (movedIno : Option INodeNo) :
    MadeOf pf ok (invalidateMoved movedIno) := by
  cases movedIno with
  | none => exact .pure _
  | some ino => exact invalidateInodeAttr pf ino

theorem invalidateRenamed (newFileName : U16CStr) (oldParentIno newParentIno : INodeNo)
    (movedIno : Option INodeNo) :
    MadeOf pf ok (invalidateRenamed req fileName newFileName oldParentIno newParentIno
      movedIno) :=
  .bind (invalidateMoved pf movedIno) fun _ =>
    .bind (remapOpenStateAfterRename pf fileName newFileName) fun _ =>
      .bind (invalidatePathCache pf req fileName) fun _ =>
        .bind (invalidatePathCache pf req newFileName) fun _ =>
          .bind (invalidateInodeAttr pf oldParentIno) fun _ => invalidateInodeAttr pf newParentIno

theorem invalidateRemoved (parentIno : INodeNo) :
    MadeOf pf ok (invalidateRemoved req fileName context parentIno) := by
  refine .bind (invalidatePathCache pf req fileName) fun _ => ?_
  split_ifs
  · exact .bind (invalidateInodeAttr pf _) fun _ => invalidateInodeAttr pf parentIno
  · exact invalidateInodeAttr pf parentIno

theorem precheckTarget : MadeOf pf ok (precheckTarget pf req fileName) := by
  refine .bind (.block (.resolve req _)) fun resolved => ?_
  cases resolved with
  | ok ino => exact .bind (drainResolverForgets pf _) fun _ => .pure _
  | error err =>
      refine .bind (drainResolverForgets pf _) fun _ => ?_
      split_ifs <;> exact .pure _

theorem precheckRename (replaceIfExisting : Bool) :
    MadeOf pf ok (precheckRename pf req fileName replaceIfExisting) := by
  cases replaceIfExisting with
  | true => exact .pure _
  | false => exact precheckTarget pf req fileName

/-- The calls of an open with the given flags are in the class. -/
def Opens (ok : FsCall → Bool) (flags : Int32) : Prop :=
  ∀ req ino, ok (.open req ino ⟨flags⟩) = true ∧ ok (.opendir req ino ⟨flags⟩) = true

theorem openOrOpendir {request : OpenEntryRequest} (hok : Opens ok request.openFlags)
    (actualIno : INodeNo) : MadeOf pf ok (openOrOpendir request actualIno) := by
  unfold Confuse.openOrOpendir
  cases request.isDirOpen with
  | true => exact fs pf (c := .opendir request.req actualIno ⟨request.openFlags⟩) (hok _ _).2
  | false => exact fs pf (c := .open request.req actualIno ⟨request.openFlags⟩) (hok _ _).1

theorem openResolvedPath {request : OpenEntryRequest} (hok : Opens ok request.openFlags)
    (actualIno : INodeNo) : MadeOf pf ok (openResolvedPath request actualIno) :=
  .bind (openOrOpendir pf hok actualIno) fun _ => .bind (drainResolverForgets pf _) fun _ =>
    onReply pf fun _ => .bind (rememberOpenContext pf _ _) fun _ => .pure _

theorem openExistingEntry {request : OpenEntryRequest} (hok : Opens ok request.openFlags) :
    MadeOf pf ok (openExistingEntry pf request) :=
  .bind (resolveOpenIno pf request) fun _ => onOk pf fun _ => openResolvedPath pf hok _

theorem openCollisionEntry {request : OpenEntryRequest} (hok : Opens ok request.openFlags) :
    MadeOf pf ok (openCollisionEntry pf request) := by
  unfold Confuse.openCollisionEntry
  split_ifs
  · exact .bind (invalidatePathCache pf _ _) fun _ => openExistingEntry pf hok
  · exact openExistingEntry pf hok

/-! ## Helpers with observing calls -/

variable [AllowsObserving ok]

theorem observe {c : FsCall} (h : c.isObserving = true) : MadeOf pf ok (Routine.fs c) :=
  .block (.fs c (AllowsObserving.allows c h))

theorem synthesizedSecurityDescriptorFromFs (ino : INodeNo) (fh : FileHandle) :
    MadeOf pf ok (synthesizedSecurityDescriptorFromFs req ino fh) :=
  .bind (observe pf rfl) fun _ => onReply pf fun _ => .pure _

theorem precheckFileDelete (ino : INodeNo) : MadeOf pf ok (precheckFileDelete req ino) := by
  refine .bind (observe pf rfl) fun _ => onReply pf fun payload => ?_
  split_ifs
  · exact .pure _
  · refine .bind (observe pf rfl) fun access => ?_
    rcases access with _ | ⟨err⟩ | ⟨⟩
    · exact .pure _
    · dsimp only
      split_ifs <;> exact .pure _
    · exact .pure _

theorem precheckDirectoryDelete (ino : INodeNo) :
    MadeOf pf ok (precheckDirectoryDelete req ino) := by
  refine .bind (observe pf rfl) fun _ => onReply pf fun payload => ?_
  split_ifs
  · exact .pure _
  · refine .bind (observe pf rfl) fun reply => ?_
    split_ifs <;> exact .pure _

theorem dokanWritePlan (context : AdapterContext) (offset : Int64) (len : ℕ)
    (writeToEof pagingIo : Bool) :
    MadeOf pf ok (dokanWritePlan req context offset len writeToEof pagingIo) := by
  unfold Confuse.dokanWritePlan
  split
  · exact .pure _
  · split
    · exact .pure _
    · refine .bind (observe pf rfl) fun _ => onReply pf fun payload => onOk pf fun start => ?_
      split_ifs <;> exact .pure _

/-! ## Handlers -/

theorem deleteFile : MadeOf pf ok (deleteFile pf fileName context) :=
  withResolved pf _ fun resolved => .bind (precheckFileDelete pf _ resolved.ino) fun _ =>
    .bind (drainResolverForgets pf _) fun _ => .pure _

theorem deleteDirectory : MadeOf pf ok (deleteDirectory pf fileName context) :=
  withResolved pf _ fun resolved => .bind (precheckDirectoryDelete pf _ resolved.ino) fun _ =>
    .bind (drainResolverForgets pf _) fun _ => .pure _

theorem getDiskFreeSpace (pid : UInt32) : MadeOf pf ok (getDiskFreeSpace pid) :=
  .bind (observe pf rfl) fun _ => onReply pf fun _ => .pure _

theorem getFileInformation : MadeOf pf ok (getFileInformation pf fileName context) := by
  refine withResolved pf _ fun resolved => .bind (table pf (.cachedAttr _) rfl) fun cachedAttr => ?_
  cases cachedAttr with
  | some attr => exact .bind (drainResolverForgets pf _) fun _ => .pure _
  | none => exact .block (.fetchAttr _ resolved (AllowsObserving.allows _ rfl))

theorem writeFile {context : AdapterContext} (offset : Int64) (buffer : List UInt8)
    (writeToEof pagingIo : Bool) (hok : ∀ req ino fh offset data writeFlags owner,
      ok (.write req ino fh offset data writeFlags context.ioFlags owner) = true) :
    MadeOf pf ok (writeFile pf fileName offset buffer writeToEof pagingIo context) := by
  refine withResolvedContext pf _ fun resolved hresolved =>
    .bind (dokanWritePlan pf _ resolved offset _ _ _) fun _ => onOk pf fun _ => ?_
  dsimp only
  rw [hresolved.ioFlags_eq]
  exact .bind (fs pf (hok _ _ _ _ _ _ _)) fun _ => .bind (drainResolverForgets pf _) fun _ =>
    onReply pf fun _ => .bind (finishMetadataMutation pf _ fileName resolved.ino) fun _ => .pure _

theorem fetchSecurityDescriptorData (resolved : AdapterContext) (data : List UInt8)
    (sizeHint : Option UInt32) (bufferLength : UInt32) :
    MadeOf pf ok (fetchSecurityDescriptorData req resolved data sizeHint bufferLength) := by
  unfold Confuse.fetchSecurityDescriptorData
  cases xattrNeedsDataFetch data sizeHint with
  | none => exact .pure _
  | some fetchSize =>
      refine .bind (observe pf rfl) fun fetch => ?_
      rcases fetch.status with _ | ⟨err⟩ | ⟨data⟩
      · exact .pure _
      · dsimp only
        split_ifs
        · exact synthesizedSecurityDescriptorFromFs pf req _ _
        · exact .pure _
      · exact .pure _

theorem copyExistingOrFetchedSecurityDescriptor (resolved : AdapterContext) (data : List UInt8)
    (sizeHint : Option UInt32) (hasBuffer : Bool) (bufferLength : UInt32) :
    MadeOf pf ok (copyExistingOrFetchedSecurityDescriptor req resolved data sizeHint hasBuffer
      bufferLength) := by
  refine onOk pf fun needed => ?_
  split_ifs
  · exact .pure _
  · exact .bind (fetchSecurityDescriptorData pf req resolved data sizeHint bufferLength) fun _ =>
      onOk pf fun _ => .pure _

theorem getFileSecurity (hasBuffer : Bool) (bufferLength : UInt32) :
    MadeOf pf ok (getFileSecurity pf fileName hasBuffer bufferLength context) := by
  refine withResolved pf _ fun resolved => .bind (observe pf rfl) fun reply =>
    .bind (drainResolverForgets pf _) fun _ => ?_
  rcases reply.status with _ | ⟨err⟩ | ⟨data⟩
  · exact .pure _
  · dsimp only
    split_ifs
    · exact .bind (synthesizedSecurityDescriptorFromFs pf _ _ _) fun _ => onOk pf fun _ => .pure _
    · exact .pure _
  · exact copyExistingOrFetchedSecurityDescriptor pf _ resolved data reply.sizeHint hasBuffer
      bufferLength

theorem setlkWithContext (resolved : AdapterContext) (start «end» : UInt64) (typ : Int32) :
    MadeOf pf ok (setlkWithContext req resolved start «end» typ) :=
  .bind (observe pf rfl) fun _ => .bind (drainResolverForgets pf _) fun _ => onReply pf fun _ => .pure _

theorem lockFile (offset length : Int64) :
    MadeOf pf ok (lockFile pf fileName offset length context) := by
  refine withResolved pf _ fun resolved => onOk pf fun range => .bind (observe pf rfl) fun query => ?_
  rcases query with _ | ⟨err⟩ | ⟨lock⟩
  · exact setlkWithContext pf _ resolved _ _ _
  · exact .pure _
  · dsimp only
    split_ifs
    · exact .pure _
    · exact setlkWithContext pf _ resolved _ _ _

theorem unlockFile (offset length : Int64) :
    MadeOf pf ok (unlockFile pf fileName offset length context) :=
  withResolved pf _ fun resolved => onOk pf fun _ => setlkWithContext pf _ resolved _ _ _

theorem fetchStreamXattrList (ino : INodeNo) (reply : ReplyXattr) :
    MadeOf pf ok (fetchStreamXattrList req ino reply) := by
  unfold Confuse.fetchStreamXattrList
  rcases reply.status with _ | ⟨err⟩ | ⟨data⟩
  · exact .pure _
  · exact .pure _
  · dsimp only
    cases xattrNeedsDataFetch data reply.sizeHint with
    | none => exact .pure _
    | some fetchSize => exact .bind (observe pf rfl) fun _ => .pure _

theorem emitNamedStreams (ino : INodeNo) (names : List (List UInt8)) :
    MadeOf pf ok (emitNamedStreams req ino names) := by
  induction names with
  | nil => exact .pure _
  | cons rawName rest ih =>
      unfold Confuse.emitNamedStreams
      cases streamNameFromXattr rawName with
      | none => exact ih
      | some streamName =>
          refine .bind (observe pf rfl) fun reply => ?_
          cases U16CStr.fromStr streamName with
          | none => exact .pure _
          | some name =>
              refine .bind (.block (.fillFindStreamData _)) fun accepted => ?_
              cases accepted with
              | true => exact ih
              | false => exact .pure _

theorem findStreams : MadeOf pf ok (findStreams pf fileName context) := by
  refine withResolved pf _ fun resolved => .bind (observe pf rfl) fun attr => ?_
  dsimp only
  cases U16CStr.fromStr "::$DATA".toList with
  | none => exact .pure _
  | some default =>
      refine .bind (.block (.fillFindStreamData _)) fun accepted => ?_
      cases accepted with
      | false => exact .pure _
      | true =>
          refine .bind (observe pf rfl) fun reply =>
            .bind (fetchStreamXattrList pf _ resolved.ino reply) fun listData =>
              .bind (drainResolverForgets pf _) fun _ => ?_
          rcases listData with _ | ⟨err⟩ | ⟨data⟩
          · exact .pure _
          · dsimp only
            split_ifs <;> exact .pure _
          · exact emitNamedStreams pf _ resolved.ino _

theorem readdirEntryAttr (ino : INodeNo) : MadeOf pf ok (readdirEntryAttr req ino) := by
  refine .bind (observe pf rfl) fun status => ?_
  rcases status with _ | ⟨err⟩ | ⟨payload⟩ <;> exact .pure _

theorem emitReaddirEntries (emittedOffset : Option Int64) (entries : List DirectoryEntryPayload) :
    MadeOf pf ok (emitReaddirEntries req emittedOffset entries) := by
  induction entries generalizing emittedOffset with
  | nil => exact .pure _
  | cons entry rest ih =>
      unfold Confuse.emitReaddirEntries
      refine .bind (readdirEntryAttr pf req entry.ino) fun attr => ?_
      cases U16CStr.fromStr entry.name.toStringLossy with
      | none => exact .pure _
      | some fileName =>
          refine .bind (.block (.fillFindData _)) fun accepted => ?_
          cases accepted with
          | true => exact ih _
          | false => exact .pure _

theorem emitReaddirPatternEntries (pattern : U16CStr) (emittedOffset : Option Int64)
    (entries : List DirectoryEntryPayload) :
    MadeOf pf ok (emitReaddirPatternEntries pf req pattern emittedOffset entries) := by
  induction entries generalizing emittedOffset with
  | nil => exact .pure _
  | cons entry rest ih =>
      unfold Confuse.emitReaddirPatternEntries
      cases U16CStr.fromStr entry.name.toStringLossy with
      | none => exact .pure _
      | some fileName =>
          dsimp only
          cases pf.isNameInExpression pattern fileName true with
          | false => exact ih _
          | true =>
              refine .bind (readdirEntryAttr pf req entry.ino) fun attr =>
                .bind (.block (.fillFindData _)) fun accepted => ?_
              cases accepted with
              | true => exact ih _
              | false => exact .pure _

theorem findFiles : MadeOf pf ok (findFiles pf fileName context) :=
  .bind (directoryIno pf _ context _) fun _ => onOk pf fun _ =>
    .bind (openState pf (.directoryOffset _)) fun _ => .bind (observe pf rfl) fun reply =>
      .bind (drainResolverForgets pf _) fun _ =>
        .bind (emitReaddirEntries pf _ none reply.entries) fun _ => onOk pf fun _ =>
          .bind (rememberDirectoryOffset pf _ _ _) fun _ => .pure _

theorem findFilesFallback (pathKey : Str) (pattern : U16CStr) (ino : INodeNo) (fh : FileHandle)
    (reqOffset : Int64) :
    MadeOf pf ok (findFilesFallback pf req pathKey pattern ino fh reqOffset) :=
  .bind (observe pf rfl) fun fallback => .bind (drainResolverForgets pf _) fun _ =>
    .bind (emitReaddirPatternEntries pf req pattern none fallback.entries) fun _ =>
      onOk pf fun _ => .bind (rememberDirectoryOffset pf _ _ _) fun _ => .pure _

end MadeOf
end Confuse
