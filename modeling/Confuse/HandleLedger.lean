import Confuse.PlainRoutes
import Confuse.Sessions

/-!
# Opens and releases

A reply to `open`, `create` or `opendir` hands out a file handle for an inode, and `release` or
`releasedir` gives one back. The context that `create_file` returns is backed by such a reply of the
same call, unless its route never opens anything (the root, `mkdir`) or stores another kind of
handle than it got (a `create` answered with a directory).
-/

namespace Confuse

open Interaction

/-- Whether it is a directory's, the inode, and the file handle. -/
abbrev HandleKey := Bool × INodeNo × FileHandle

def AdapterContext.key (context : AdapterContext) : HandleKey :=
  (context.isDir, context.ino, context.fh)

theorem Reply.reads_failed {α γ : Type} {f : α → γ} {reply : Reply α}
    (h : ∀ v, reply ≠ some (.ok v)) : Reply.reads f reply = [] := by
  rcases reply with _ | ⟨err⟩ | ⟨v⟩
  · rfl
  · rfl
  · exact absurd rfl (h v)

namespace FsCall

/-- The file handles that an answered call hands out. -/
def handedOut : (c : FsCall) → c.Reply → List HandleKey
  | .open _ ino _, reply => Reply.reads (fun payload : ReplyOpenPayload => (false, ino, payload.fh)) reply
  | .opendir _ ino _, reply =>
      Reply.reads (fun payload : ReplyOpenPayload => (true, ino, payload.fh)) reply
  | .create .., reply =>
      Reply.reads (fun payload : ReplyCreatePayload => (false, payload.attr.ino, payload.fh)) reply
  | _, _ => []

/-- The file handles that a call gives back. -/
def released : FsCall → List HandleKey
  | .release _ ino fh _ _ _ => [(false, ino, fh)]
  | .releasedir _ ino fh _ => [(true, ino, fh)]
  | _ => []

/-- The call made a directory: an answered `mkdir`, or a `create` answered with a directory. -/
def makesDirectory : (c : FsCall) → c.Reply → Bool
  | .mkdir .., reply =>
      !(Reply.reads (fun payload : ReplyEntryPayload => payload.attr.ino) reply).isEmpty
  | .create .., reply =>
      (Reply.reads (fun payload : ReplyCreatePayload => payload.attr.kind) reply).contains .directory
  | _, _ => false

end FsCall

namespace Event

def handedOut : Event → HandleKey → ℕ
  | .call c reply, key => (c.handedOut reply).count key
  | _, _ => 0

def released : Event → HandleKey → ℕ
  | .call c _, key => c.released.count key
  | _, _ => 0

def makesDirectory : Event → Bool
  | .call c reply => c.makesDirectory reply
  | _ => false

/-- The event has nothing to do with file handles. -/
def isIdle : Event → Bool
  | .call c reply => c.handedOut reply = [] ∧ c.released = [] ∧ !c.makesDirectory reply
  | _ => true

end Event

open Event (handedOut released)

/-! ## Idle events -/

def Idle (log : List Event) : Prop := ∀ e ∈ log, e.isIdle

theorem idle_joins : Prog.Joins Idle where
  nil := by simp [Idle]
  append h h' e he := (List.mem_append.mp he).elim (h e) (h' e)

namespace Idle
variable {log : List Event}

theorem handedOut_eq (h : Idle log) (key : HandleKey) : along handedOut log key = 0 := by
  refine along_eq_zero _ fun e he => ?_
  have hidle := h e he
  cases e <;> simp_all [handedOut, Event.isIdle]

theorem released_eq (h : Idle log) (key : HandleKey) : along released log key = 0 := by
  refine along_eq_zero _ fun e he => ?_
  have hidle := h e he
  cases e <;> simp_all [released, Event.isIdle]

theorem makesDirectory_eq (h : Idle log) : ∀ e ∈ log, e.makesDirectory = false := by
  intro e he
  have hidle := h e he
  cases e <;> simp_all [Event.makesDirectory, Event.isIdle]

end Idle

/-- Effects that leave the file handles alone whatever the answer. -/
def Effect.isIdle : Effect → Bool
  | .fs (.open ..) | .fs (.opendir ..) | .fs (.create ..) | .fs (.mkdir ..) | .fs (.release ..)
  | .fs (.releasedir ..) => false
  | _ => true

abbrev IdleRoutine {α : Type} (p : Routine α) : Prop := p.Performs fun e : Effect => e.isIdle

theorem idle_notes {notes : List Event} (h : ∀ n ∈ notes, Event.isNotify n) : Idle notes := by
  intro n hn
  have hnotify := h n hn
  cases n <;> simp_all [Event.isNotify, Event.isIdle]

theorem IdleRoutine.idle {α : Type} {p : Routine α} (hp : IdleRoutine p) :
    p.EveryTrace Emits Idle := by
  refine Prog.EveryTrace.of_performs idle_joins (fun e r es hok he => ?_) hp
  obtain ⟨notes, own, hnotes, hown, rfl⟩ := he
  refine idle_joins.append (idle_notes hnotes) fun e' he' => ?_
  cases e with
  | fs c =>
      obtain rfl : own = [.call c r] := hown
      obtain rfl := List.mem_singleton.mp he'
      cases c <;> first | rfl | simp [Effect.isIdle] at hok
  | table o =>
      obtain ⟨now, rfl⟩ := hown
      obtain rfl := List.mem_singleton.mp he'
      rfl
  | deliver req o =>
      obtain ⟨now, forgets, rfl⟩ := hown
      rcases List.mem_cons.mp he' with rfl | he'
      · rfl
      · obtain ⟨f, -, rfl⟩ := List.mem_map.mp he'
        rfl
  | openState o => simp [show own = [] from hown] at he'
  | fillFindData data =>
      obtain rfl : own = [.fillFindData data r] := hown
      obtain rfl := List.mem_singleton.mp he'
      rfl
  | fillFindStreamData data =>
      obtain rfl : own = [.fillFindStreamData data r] := hown
      obtain rfl := List.mem_singleton.mp he'
      rfl

namespace IdleRoutine
variable {α γ : Type}

theorem pure (a : α) : IdleRoutine (Pure.pure a : Routine α) := Prog.Performs.pure a

theorem bind {p : Routine α} {f : α → Routine γ} (hp : IdleRoutine p)
    (hf : ∀ a, IdleRoutine (f a)) : IdleRoutine (p >>= f) := Prog.Performs.bind hp hf

theorem effect {e : Effect} (h : e.isIdle) : IdleRoutine (Prog.perform (S := effects) e) :=
  Prog.Performs.perform h

theorem of_walks {p : Routine α} (hp : Walks p) : IdleRoutine p := by
  refine hp.mono fun e he => ?_
  cases e with
  | fs c => cases c <;> first | rfl | simp [Effect.isWalk] at he
  | _ => rfl

theorem resolvePathIno (pf : Platform) (req : Request) (path : OsStr) :
    IdleRoutine (resolvePathIno pf req path) := of_walks (Walks.resolvePathIno req pf path)

theorem drainResolverForgets (req : Request) : IdleRoutine (drainResolverForgets req) := effect rfl

theorem finishCreatedEntry (created : CreatedEntry) : IdleRoutine (finishCreatedEntry created) :=
  bind (effect rfl) fun _ => bind (effect rfl) fun _ => bind (effect rfl) fun _ =>
    bind (effect rfl) fun _ => drainResolverForgets _

theorem resolveOpenIno (pf : Platform) (request : OpenEntryRequest) :
    IdleRoutine (resolveOpenIno pf request) := by
  unfold Confuse.resolveOpenIno
  split_ifs
  · exact pure _
  · refine bind (resolvePathIno pf _ _) fun resolved => ?_
    cases resolved with
    | ok ino => exact pure _
    | error err => exact bind (drainResolverForgets _) fun _ => pure _

theorem withResolved {pf : Platform} {req : Request} {path : U16CStr} {context : AdapterContext}
    {f : AdapterContext → Routine (Except NtStatus α)} (hf : ∀ ctx, IdleRoutine (f ctx)) :
    IdleRoutine (withResolved pf req path context f) := by
  refine bind ?_ fun resolved => ?_
  · unfold resolveContextOrPath
    cases resolveCtx path context with
    | some ctx => exact pure _
    | none =>
        refine bind (resolvePathIno pf _ _) fun resolved => ?_
        cases resolved <;> exact pure _
  · cases resolved with
    | error err => exact pure _
    | ok ctx => exact hf ctx

theorem onOk {result : Except NtStatus γ} {f : γ → Routine (Except NtStatus α)}
    (hf : ∀ v, IdleRoutine (f v)) : IdleRoutine (onOk result f) :=
  onOk_cases (fun _ => pure _) hf

theorem setlkWithContext (req : Request) (resolved : AdapterContext) (start «end» : UInt64)
    (typ : Int32) : IdleRoutine (setlkWithContext req resolved start «end» typ) := by
  refine bind (effect rfl) fun status => bind (drainResolverForgets _) fun _ => ?_
  rcases status with _ | ⟨err⟩ | ⟨⟩ <;> exact pure _

theorem lockFile (pf : Platform) (fileName : U16CStr) (offset length : Int64)
    (context : AdapterContext) : IdleRoutine (lockFile pf fileName offset length context) := by
  refine withResolved fun resolved => onOk fun (start, «end») => bind (effect rfl) fun query => ?_
  rcases query with _ | ⟨err⟩ | ⟨lock⟩
  · exact setlkWithContext _ _ _ _ _
  · exact pure _
  · dsimp only
    split_ifs
    · exact pure _
    · exact setlkWithContext _ _ _ _ _

theorem unlockFile (pf : Platform) (fileName : U16CStr) (offset length : Int64)
    (context : AdapterContext) : IdleRoutine (unlockFile pf fileName offset length context) :=
  withResolved fun _ => onOk fun _ => setlkWithContext _ _ _ _ _

end IdleRoutine

/-! ## The call behind a context -/

/-- The context has no lock owner and stores the file handle of the reply; when the call made a
directory, the context is a directory's and no `opendir` handed anything out. -/
def Backs (c : FsCall) (reply : c.Reply) (context : AdapterContext) : Prop :=
  context.lockOwner = none ∧
    if c.makesDirectory reply then context.isDir = true ∧ ∀ key ∈ c.handedOut reply, key.1 = false
    else c.handedOut reply = [context.key]

/-- One call of the log is behind the context, and the others have nothing to do with file
handles. -/
inductive OpenedBy (context : AdapterContext) : List Event → Prop
  | intro {l l' : List Event} {c : FsCall} {reply : c.Reply} (hl : Idle l) (hl' : Idle l')
      (hreleased : c.released = []) (hbacks : Backs c reply context) :
      OpenedBy context (l ++ .call c reply :: l')

/-- The log of a `create_file` call that does not open the root. -/
structure Opening (evs : List Event) (result : Except NtStatus CreateFileInfo) : Prop where
  unreleased : ∀ key, along released evs key = 0
  opened : ∀ info, result = .ok info → OpenedBy info.context evs
  failed : ∀ status, result = .error status → ∀ key, along handedOut evs key = 0

theorem opening_of_error {evs : List Event} (h : Idle evs) (err : NtStatus) :
    Opening evs (.error err) := ⟨h.released_eq, by simp, fun _ _ => h.handedOut_eq⟩

theorem Opening.idle_append {l evs : List Event} {result : Except NtStatus CreateFileInfo}
    (hl : Idle l) (h : Opening evs result) : Opening (l ++ evs) result := by
  refine ⟨fun key => ?_, fun info hinfo => ?_, fun status hstatus key => ?_⟩
  · rw [along_append, hl.released_eq, h.unreleased]
  · obtain ⟨hl₁, hl₂, hreleased, hbacks⟩ := h.opened info hinfo
    rw [← List.append_assoc]
    exact .intro (idle_joins.append hl hl₁) hl₂ hreleased hbacks
  · rw [along_append, hl.handedOut_eq, h.failed status hstatus]

/-- After the answered call a routine only does idle things and returns a context that it backs; it
fails only when the call handed out nothing. -/
abbrev Finishes (c : FsCall) (reply : c.Reply) (p : Routine (Except NtStatus CreateFileInfo)) :
    Prop :=
  p.Yields Emits fun l result => Idle l ∧ (∀ info, result = .ok info → Backs c reply info.context) ∧
    ∀ status, result = .error status → c.handedOut reply = []

namespace Finishes
variable {α : Type} {c : FsCall} {reply : c.Reply}

theorem error (hreply : c.handedOut reply = []) (err : NtStatus) :
    Finishes c reply (Pure.pure (.error err) : Routine (Except NtStatus CreateFileInfo)) :=
  Prog.Yields.pure ⟨idle_joins.nil, by simp, fun _ _ => hreply⟩

theorem ok {info : CreateFileInfo} (h : Backs c reply info.context) :
    Finishes c reply (Pure.pure (.ok info) : Routine (Except NtStatus CreateFileInfo)) :=
  Prog.Yields.pure ⟨idle_joins.nil, fun _ hinfo => Except.ok.inj hinfo ▸ h, by simp⟩

theorem after {p : Routine α} {f : α → Routine (Except NtStatus CreateFileInfo)}
    (hp : IdleRoutine p) (hf : ∀ a, Finishes c reply (f a)) : Finishes c reply (p >>= f) :=
  Prog.Yields.bind (P := fun l _ => Idle l) hp.idle hf fun _ _ _ _ hl h =>
    ⟨idle_joins.append hl h.1, h.2⟩

theorem onReply {γ : Type} {status : Reply γ} {toNtstatus : Errno → NtStatus}
    {f : γ → Routine (Except NtStatus CreateFileInfo)}
    (hfailed : (∀ v, status ≠ some (.ok v)) → c.handedOut reply = [])
    (hf : ∀ v, status = some (.ok v) → Finishes c reply (f v)) :
    Finishes c reply (onReply status toNtstatus f) := by
  rcases status with _ | ⟨err⟩ | ⟨v⟩
  · exact error (hfailed (by simp)) _
  · exact error (hfailed (by simp)) _
  · exact hf v rfl

end Finishes

theorem createdIno_eq {create : CreateEntryRequest} (hpath : create.pathIno = ⟨0⟩)
    (attr : FileAttr) : createdIno create attr = attr.ino := by
  unfold createdIno
  split_ifs with hzero
  · rfl
  · rw [hpath, not_not.mp hzero]

abbrev OpeningRoutine (p : Routine (Except NtStatus CreateFileInfo)) : Prop :=
  p.Yields Emits Opening

namespace OpeningRoutine
variable {α : Type}

theorem error (err : NtStatus) :
    OpeningRoutine (Pure.pure (.error err) : Routine (Except NtStatus CreateFileInfo)) :=
  Prog.Yields.pure (opening_of_error idle_joins.nil err)

theorem after {p : Routine α} {f : α → Routine (Except NtStatus CreateFileInfo)}
    (hp : IdleRoutine p) (hf : ∀ a, OpeningRoutine (f a)) : OpeningRoutine (p >>= f) :=
  Prog.Yields.bind (P := fun l _ => Idle l) hp.idle hf fun _ _ _ _ => Opening.idle_append

/-- The events of a call: it is behind the context, or it failed and the rest opens it. -/
theorem call {c : FsCall} (hreleased : c.released = [])
    {f : c.Reply → Routine (Except NtStatus CreateFileInfo)}
    (hf : ∀ reply, Finishes c reply (f reply) ∨
      (Event.call c reply).isIdle ∧ OpeningRoutine (f reply)) :
    OpeningRoutine (Routine.fs c >>= f) := by
  intro evs result ht
  obtain ⟨reply, es, rest, hes, hrest, rfl⟩ := Prog.traces_bind.mp ht
  obtain ⟨notes, own, hnotes, hown, rfl⟩ := Prog.traces_perform.mp hes
  obtain rfl : own = [.call c reply] := hown
  rw [List.append_assoc]
  refine .idle_append (idle_notes hnotes) ?_
  rcases hf reply with hopens | ⟨hidle, hopens⟩
  · obtain ⟨hl, hbacks, hfailed⟩ := hopens rest result hrest
    refine ⟨fun key => ?_, fun info hinfo => ?_, fun status hstatus key => ?_⟩
    · simp [along_cons, hl.released_eq, released, hreleased]
    · exact .intro (l := []) idle_joins.nil hl hreleased (hbacks info hinfo)
    · simp [along_cons, hl.handedOut_eq, handedOut, hfailed status hstatus]
  · exact .idle_append (by simpa [Idle] using hidle) (hopens rest result hrest)

theorem openResolvedPath (request : OpenEntryRequest) (actualIno : INodeNo) :
    OpeningRoutine (openResolvedPath request actualIno) := by
  unfold Confuse.openResolvedPath
  cases hdir : request.isDirOpen with
  | true =>
    rw [openOrOpendir_dir hdir]
    refine call (c := .opendir request.req actualIno ⟨request.openFlags⟩) rfl fun opened => .inl ?_
    refine .after (.drainResolverForgets _) fun _ => .onReply Reply.reads_failed fun payload hpayload =>
      .after (.effect rfl) fun _ => .ok ?_
    subst hpayload
    simp [Backs, FsCall.makesDirectory, FsCall.handedOut, Reply.reads, AdapterContext.key]
  | false =>
    rw [openOrOpendir_file hdir]
    refine call (c := .open request.req actualIno ⟨request.openFlags⟩) rfl fun opened => .inl ?_
    refine .after (.drainResolverForgets _) fun _ => .onReply Reply.reads_failed fun payload hpayload =>
      .after (.effect rfl) fun _ => .ok ?_
    subst hpayload
    simp [Backs, FsCall.makesDirectory, FsCall.handedOut, Reply.reads, AdapterContext.key]

theorem onOk {γ : Type} {result : Except NtStatus γ}
    {f : γ → Routine (Except NtStatus CreateFileInfo)} (hf : ∀ v, OpeningRoutine (f v)) :
    OpeningRoutine (onOk result f) :=
  onOk_cases (fun _ => error _) hf

theorem openExistingEntry (pf : Platform) (request : OpenEntryRequest) :
    OpeningRoutine (openExistingEntry pf request) :=
  after (.resolveOpenIno pf request) fun _ => onOk fun _ => openResolvedPath request _

theorem openCollisionEntry (pf : Platform) (request : OpenEntryRequest) :
    OpeningRoutine (openCollisionEntry pf request) := by
  unfold Confuse.openCollisionEntry
  split_ifs
  · exact after (.effect rfl) fun _ => openExistingEntry pf request
  · exact openExistingEntry pf request

theorem createDirectoryEntry (create : CreateEntryRequest) :
    OpeningRoutine (createDirectoryEntry create) := by
  refine call (c := .mkdir create.req create.parentIno create.leaf create.mode 0) rfl
    fun state => .inl ?_
  refine .after (.drainResolverForgets _) fun _ => .onReply (fun _ => rfl) fun payload hpayload =>
    .after (.finishCreatedEntry _) fun _ => .ok ?_
  subst hpayload
  simp [Backs, FsCall.makesDirectory, FsCall.handedOut, Reply.reads]

theorem finishCreatedFile {create : CreateEntryRequest} (hpath : create.pathIno = ⟨0⟩)
    (hdir : create.isDirOpen = false) {req : Request} {parent : INodeNo} {name : OsStr}
    {mode umask : UInt32} {flags : Int32} (payload : ReplyCreatePayload) :
    Finishes (.create req parent name mode umask flags)
      (some (.ok payload) : Reply ReplyCreatePayload) (finishCreatedFile create payload) := by
  refine .after (.finishCreatedEntry _) fun _ => .ok ?_
  have hino := createdIno_eq hpath payload.attr
  by_cases hkind : payload.attr.kind = .directory
  · simp [Backs, FsCall.makesDirectory, FsCall.handedOut, Reply.reads, hkind]
  · simp [Backs, FsCall.makesDirectory, FsCall.handedOut, Reply.reads, AdapterContext.key, hkind,
      hdir, hino, Ne.symm hkind]

theorem createFileEntryOrOpenExisting (pf : Platform) {create : CreateEntryRequest}
    (hpath : create.pathIno = ⟨0⟩) (hdir : create.isDirOpen = false) (plan : CreateDispositionPlan)
    (openFlags : Int32) :
    OpeningRoutine (createFileEntryOrOpenExisting pf create plan openFlags) := by
  refine call rfl fun state => ?_
  rcases state with _ | ⟨err⟩ | ⟨payload⟩
  · exact .inl (.after (.drainResolverForgets _) fun _ => .error rfl _)
  · refine .inr ⟨rfl, after (.drainResolverForgets _) fun _ => ?_⟩
    dsimp only
    split_ifs
    · exact openCollisionEntry pf _
    · exact error _
  · exact .inl (.after (.drainResolverForgets _) fun _ => finishCreatedFile hpath hdir payload)

end OpeningRoutine

theorem knownPathIno_of_leaf {fileName : U16CStr}
    (hleaf : (splitParentAndName fileName).2.points ≠ []) : knownPathIno fileName = ⟨0⟩ := by
  refine if_neg fun hroot => hleaf ?_
  unfold splitParentAndName
  rw [hroot]
  rfl

theorem createFile_opening (pf : Platform) {fileName : U16CStr} (desiredAccess : AccessMask)
    (fileAttributes createDisposition createOptions : UInt32) (requestIds : RequestIds)
    (hleaf : (splitParentAndName fileName).2.points ≠ []) :
    OpeningRoutine (createFile pf fileName desiredAccess fileAttributes createDisposition
      createOptions requestIds) := by
  refine .after (.resolvePathIno pf _ _) fun parent => ?_
  cases parent with
  | error err => exact .after (.drainResolverForgets _) fun _ => .error _
  | ok parentIno =>
      dsimp only [createInParent]
      rw [if_neg hleaf]
      split_ifs with hplan hdir
      · exact .openExistingEntry pf _
      · exact .createDirectoryEntry _
      · exact .createFileEntryOrOpenExisting pf (knownPathIno_of_leaf hleaf)
          (Bool.eq_false_iff.mpr hdir) _ _

/-- A context that is returned has no lock owner. -/
def Unowned (result : Except NtStatus CreateFileInfo) : Prop :=
  ∀ info, result = .ok info → info.context.lockOwner = none

theorem createFile_unowned (pf : Platform) (fileName : U16CStr) (desiredAccess : AccessMask)
    (fileAttributes createDisposition createOptions : UInt32) (requestIds : RequestIds) :
    (createFile pf fileName desiredAccess fileAttributes createDisposition createOptions
      requestIds).Yields Emits fun _ => Unowned := by
  by_cases hleaf : (splitParentAndName fileName).2.points = []
  · refine .last fun parent => ?_
    cases parent with
    | error err => exact .last fun _ => .pure (by simp [Unowned])
    | ok parentIno =>
        dsimp only [createInParent]
        rw [if_pos hleaf]
        exact .last fun _ => .pure (by simp [Unowned])
  · intro evs result ht info hinfo
    obtain ⟨-, -, -, hbacks⟩ := (createFile_opening pf _ _ _ _ _ hleaf evs result ht).opened info hinfo
    exact hbacks.1

/-- The root is opened without a call. -/
theorem createFile_root (pf : Platform) {fileName : U16CStr} (desiredAccess : AccessMask)
    (fileAttributes createDisposition createOptions : UInt32) (requestIds : RequestIds)
    (hleaf : (splitParentAndName fileName).2.points = []) :
    IdleRoutine (createFile pf fileName desiredAccess fileAttributes createDisposition
      createOptions requestIds) := by
  refine .bind (.resolvePathIno pf _ _) fun parent => ?_
  cases parent with
  | error err => exact .bind (.drainResolverForgets _) fun _ => .pure _
  | ok parentIno =>
      dsimp only [createInParent]
      rw [if_pos hleaf]
      exact .bind (.effect rfl) fun _ => .pure _

theorem OpenedBy.handedOut_pos_iff {context : AdapterContext} {evs : List Event}
    (h : OpenedBy context evs) :
    0 < along handedOut evs context.key ↔ ∀ e ∈ evs, e.makesDirectory = false := by
  obtain ⟨hl, hl', -, hbacks⟩ := h
  rename_i l l' c reply
  rw [along_append, along_cons, hl.handedOut_eq, hl'.handedOut_eq]
  replace hbacks := hbacks.2
  cases hkind : c.makesDirectory reply with
  | true =>
      rw [if_pos hkind] at hbacks
      refine iff_of_false ?_ fun hall => ?_
      · have hnone : context.key ∉ c.handedOut reply := fun hmem =>
          absurd (hbacks.2 _ hmem) (by simp [AdapterContext.key, hbacks.1])
        simp [handedOut, List.count_eq_zero_of_not_mem hnone]
      · have hcall := hall (.call c reply) (by simp)
        rw [Event.makesDirectory, hkind] at hcall
        exact absurd hcall (by simp)
  | false =>
      rw [if_neg (by simp [hkind])] at hbacks
      refine iff_of_true (by simp [handedOut, hbacks]) fun e he => ?_
      rcases List.mem_append.mp he with he | he
      · exact hl.makesDirectory_eq e he
      · rcases List.mem_cons.mp he with rfl | he
        · exact hkind
        · exact hl'.makesDirectory_eq e he

theorem closeFile_released (fileName : U16CStr) (context : AdapterContext) :
    (closeFile fileName context).EveryTrace Emits fun evs =>
      ∀ key, along released evs key = [context.key].count key := by
  have hrelease : (closeWithContext (requestFromIds context.requestIds) context).EveryTrace Emits
      fun evs => ∀ key, along released evs key = [context.key].count key := by
    have hcall : ∀ c : FsCall, c.released = [context.key] → (Routine.fs c).EveryTrace Emits
        fun evs => ∀ key, along released evs key = [context.key].count key := by
      rintro c hc evs reply ht key
      obtain ⟨notes, own, hnotes, hown, rfl⟩ := Prog.traces_perform.mp ht
      obtain rfl : own = [.call c reply] := hown
      rw [along_append, (idle_notes hnotes).released_eq, along_cons, along_nil, released, hc,
        Nat.zero_add, Nat.add_zero]
    have hdone : ∀ {γ : Type} {p : Routine γ}, (p.EveryTrace Emits fun evs =>
        ∀ key, along released evs key = [context.key].count key) →
          (p >>= fun _ => (pure () : Routine Unit)).EveryTrace Emits fun evs =>
            ∀ key, along released evs key = [context.key].count key := fun hp =>
      Prog.EveryTrace.seq (Q := Idle) (fun l l' h h' key => by
        rw [along_append, h, h'.released_eq, Nat.add_zero]) hp fun _ => (IdleRoutine.pure ()).idle
    unfold closeWithContext
    split_ifs with hdir
    · exact hdone (hcall _ (by simp [FsCall.released, AdapterContext.key, hdir]))
    · exact hdone (hcall _ (by simp [FsCall.released, AdapterContext.key, hdir]))
  refine Prog.EveryTrace.seq (Q := Idle) (fun l l' h h' key => by
    rw [along_append, h, h'.released_eq, Nat.add_zero]) hrelease fun _ => ?_
  exact (IdleRoutine.bind (.effect rfl) fun _ => .effect rfl).idle

/-! ## Sessions -/

/-- The handle's `create_file` call named an entry below the root, and none of its replies made a
directory. -/
def Handle.backed (handle : Handle) : Bool :=
  (splitParentAndName handle.fileName).2.points ≠ [] ∧
    handle.opening.all fun e => !e.makesDirectory

/-- A file handle of the call backs the context that `create_file` returns exactly when the handle
is backed. -/
theorem createFile_handedOut_iff (pf : Platform) (fileName : U16CStr) (desiredAccess : AccessMask)
    (fileAttributes createDisposition createOptions : UInt32) (requestIds : RequestIds) :
    (createFile pf fileName desiredAccess fileAttributes createDisposition createOptions
      requestIds).Yields Emits fun evs result => (∀ key, along released evs key = 0) ∧
        ∀ info, result = .ok info → (0 < along handedOut evs info.context.key ↔
          (⟨fileName, info.context, evs⟩ : Handle).backed) := by
  intro evs result ht
  by_cases hleaf : (splitParentAndName fileName).2.points = []
  · have hidle := (createFile_root pf _ _ _ _ _ hleaf).idle evs result ht
    refine ⟨hidle.released_eq, fun info _ => ?_⟩
    rw [hidle.handedOut_eq]
    simp [Handle.backed, hleaf]
  · obtain ⟨hreleased, hopened⟩ := createFile_opening pf _ _ _ _ _ hleaf evs result ht
    refine ⟨hreleased, fun info hinfo => ?_⟩
    rw [(hopened info hinfo).handedOut_pos_iff]
    simp [Handle.backed, hleaf]

namespace Session
variable {β φ : Type}

/-- `close_file` is called only for handles that are backed. -/
def Sound (s : Session β φ) : SessionStep → Prop
  | .closeFile n _ => ∀ handle, s.handles.lookup n = some handle → handle.backed
  | _ => True

/-- The open handles that are backed and store this file handle. -/
def holders (s : Session β φ) (key : HandleKey) : ℕ :=
  s.handles.total fun _ handle => if handle.backed ∧ handle.context.key = key then 1 else 0

/-- What has been released and what open handles will release has been handed out before. -/
structure Paired (s : Session β φ) : Prop where
  below : Below released handedOut s.world.log
  owed : ∀ key, along released s.world.log key + s.holders key ≤ along handedOut s.world.log key
  fresh : ∀ n, s.next ≤ n → s.handles.lookup n = none

variable {pf : Platform} {h : Host β φ} {notices : Notices} {s s' : Session β φ}

theorem paired_initial (ttl : Duration) (backend : β) (caller : φ) :
    (initial ttl backend caller : Session β φ).Paired where
  below := (below_joins _ _).nil
  owed _ := le_rfl
  fresh _ _ := rfl

/-- Events that release only what is owed keep every prefix in order. -/
theorem below_append {l l' : List Event} (hl : Below released handedOut l)
    (howed : ∀ key, along released l key + along released l' key ≤ along handedOut l key) :
    Below released handedOut (l ++ l') := by
  intro m hm key
  rcases prefix_join hm with hm | ⟨k, rfl, hk⟩
  · exact hl m hm key
  · have hle := along_le_of_prefix released hk key
    have hkey := howed key
    rw [along_append, along_append]
    omega

/-- A callback that releases nothing and changes no handle. -/
theorem Paired.idle (hs : s.Paired) {evs : List Event} (hlog : s'.world.log = s.world.log ++ evs)
    (hreleased : ∀ key, along released evs key = 0) (hhandles : s'.handles = s.handles)
    (hnext : s'.next = s.next) : s'.Paired where
  below := by
    rw [hlog]
    refine below_append hs.below fun key => ?_
    have hbelow := hs.below _ List.prefix_rfl key
    rw [hreleased]
    omega
  owed key := by
    have howed := hs.owed key
    rw [hlog, along_append, along_append, hreleased, holders, hhandles]
    unfold holders at howed
    omega
  fresh n hn := by rw [hhandles]; exact hs.fresh n (hnext ▸ hn)

/-- A new handle is backed by a file handle of its own call, or not backed at all. -/
theorem Paired.opened (hs : s.Paired) {evs : List Event} (handle : Handle)
    (hlog : s'.world.log = s.world.log ++ evs) (hreleased : ∀ key, along released evs key = 0)
    (hbacked : handle.backed → 0 < along handedOut evs handle.context.key)
    (hhandles : s'.handles = s.handles.insert s.next handle) (hnext : s'.next = s.next + 1) :
    s'.Paired where
  below := by
    rw [hlog]
    refine below_append hs.below fun key => ?_
    have hbelow := hs.below _ List.prefix_rfl key
    rw [hreleased]
    omega
  owed key := by
    have howed := hs.owed key
    have htotal := KeyedMap.total_erase (fun _ (handle : Handle) =>
      if handle.backed ∧ handle.context.key = key then 1 else 0) s.next s.handles
    rw [hs.fresh s.next le_rfl, Option.elim_none, Nat.zero_add] at htotal
    have hnew : (if handle.backed ∧ handle.context.key = key then 1 else 0)
        ≤ along handedOut evs key := by
      split_ifs with hkey
      · exact hkey.2 ▸ hbacked hkey.1
      · exact Nat.zero_le _
    rw [hlog, along_append, along_append, hreleased, holders, hhandles, KeyedMap.total_insert,
      ← htotal]
    unfold holders at howed
    omega
  fresh n hn := by
    rw [hhandles, AList.lookup_insert_ne (by omega)]
    exact hs.fresh n (by omega)

/-- Closing a backed handle releases what it was owed. -/
theorem Paired.closed (hs : s.Paired) {evs : List Event} {n : ℕ} {handle : Handle}
    (hlookup : s.handles.lookup n = some handle) (hbacked : handle.backed)
    (hlog : s'.world.log = s.world.log ++ evs)
    (hreleased : ∀ key, along released evs key = [handle.context.key].count key)
    (hhandles : s'.handles = s.handles.erase n) (hnext : s'.next = s.next) : s'.Paired := by
  have htotal : ∀ key, s.holders key = [handle.context.key].count key + s'.holders key := by
    intro key
    have herase := KeyedMap.total_erase (fun _ (handle : Handle) =>
      if handle.backed ∧ handle.context.key = key then 1 else 0) n s.handles
    rw [hlookup, Option.elim_some] at herase
    rw [holders, holders, hhandles, herase]
    simp [hbacked, List.count_singleton]
  refine ⟨?_, fun key => ?_, fun k hk => ?_⟩
  · rw [hlog]
    refine below_append hs.below fun key => ?_
    have howed := hs.owed key
    have hkey := htotal key
    rw [hreleased]
    omega
  · have howed := hs.owed key
    have hkey := htotal key
    rw [hlog, along_append, along_append, hreleased]
    omega
  · rw [hhandles]
    by_cases hkn : k = n
    · rw [hkn, AList.lookup_erase]
    · rw [AList.lookup_erase_ne hkn]
      exact hs.fresh k (hnext ▸ hk)

theorem Paired.step (hs : s.Paired) {st : SessionStep} (hsound : s.Sound st) :
    (s.step pf h notices st).Paired := by
  cases st with
  | createFile fileName desiredAccess fileAttributes createDisposition createOptions requestIds =>
      obtain ⟨evs, ht, hleads, -⟩ := World.run_leads pf h notices (createFile pf fileName
        desiredAccess fileAttributes createDisposition createOptions requestIds) s.world
      obtain ⟨hreleased, hopened⟩ := createFile_handedOut_iff pf _ _ _ _ _ _ evs _ ht
      dsimp only [Session.step]
      cases hserved : ((createFile pf fileName desiredAccess fileAttributes createDisposition
          createOptions requestIds).run (machine pf h notices) s.world).1 with
      | error err => exact hs.idle hleads.log hreleased rfl rfl
      | ok info =>
          refine hs.opened ⟨fileName, info.context, _⟩ hleads.log hreleased ?_ rfl rfl
          rw [hleads.log, List.drop_left]
          exact (hopened info hserved).mpr
  | closeFile n fileName =>
      dsimp only [Session.step]
      cases hlookup : s.handles.lookup n with
      | none => exact hs
      | some handle =>
          obtain ⟨evs, ht, hleads, -⟩ := World.run_leads pf h notices
            (closeFile fileName handle.context) s.world
          exact hs.closed hlookup (hsound handle hlookup) hleads.log
            (closeFile_released _ _ evs _ ht) rfl rfl
  | lockFile n fileName offset length =>
      dsimp only [Session.step]
      cases s.handles.lookup n with
      | none => exact hs
      | some handle =>
          obtain ⟨evs, ht, hleads, -⟩ := World.run_leads pf h notices
            (lockFile pf fileName offset length handle.context) s.world
          exact hs.idle hleads.log
            ((IdleRoutine.lockFile pf _ _ _ _).idle evs _ ht).released_eq rfl rfl
  | unlockFile n fileName offset length =>
      dsimp only [Session.step]
      cases s.handles.lookup n with
      | none => exact hs
      | some handle =>
          obtain ⟨evs, ht, hleads, -⟩ := World.run_leads pf h notices
            (unlockFile pf fileName offset length handle.context) s.world
          exact hs.idle hleads.log
            ((IdleRoutine.unlockFile pf _ _ _ _).idle evs _ ht).released_eq rfl rfl

/-- In every session that closes backed handles only, each release is matched with a reply before it
that handed out this file handle for this inode, `releasedir` with one of `opendir`. -/
theorem releases_are_paired (pf : Platform) (h : Host β φ) (notices : Notices) (ttl : Duration)
    (backend : β) (caller : φ) (steps : List SessionStep)
    (hsound : ∀ before st, before ++ [st] <+: steps →
      ((initial ttl backend caller : Session β φ).run pf h notices before).Sound st) :
    Below released handedOut
      ((initial ttl backend caller : Session β φ).run pf h notices steps).world.log :=
  (run_induction (P := Paired) (paired_initial ttl backend caller)
    (fun _ _ hs hsound => hs.step hsound) hsound).below

def openAndClose (path : U16CStr) : List SessionStep :=
  [.createFile path GENERIC_READ 0 FILE_OPEN 0 (.unavailable 1), .closeFile 0 path]

theorem releases_are_paired_file :
    Below released handedOut (mounted.run .ascii (.stateless (oneFile (.fromSecs 10))) undisturbed
      (openAndClose fileF)).world.log := by
  refine releases_are_paired .ascii (.stateless (oneFile (.fromSecs 10))) undisturbed (.fromSecs 1)
    () () (openAndClose fileF) fun before st hbefore => ?_
  rcases before with _ | ⟨first, _ | ⟨second, before⟩⟩
  · obtain rfl : st = _ := by simpa [openAndClose] using hbefore
    trivial
  · obtain ⟨rfl, rfl⟩ : first = _ ∧ st = _ := by simpa [openAndClose] using hbefore
    intro handle hlookup
    obtain rfl := Option.some.inj hlookup
    decide
  · simp [openAndClose] at hbefore

/-- The handle of the root is released although nothing opened it. -/
theorem root_release_is_unpaired :
    ¬ Below released handedOut (mounted.run .ascii (.stateless FsCall.unanswered) undisturbed
      (openAndClose rootPath)).world.log := by
  intro hbelow
  exact absurd (hbelow _ List.prefix_rfl (true, .ROOT, ⟨0⟩)) (by decide)

end Session
end Confuse
