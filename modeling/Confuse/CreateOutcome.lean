import Confuse.HandleLedger

/-!
# What `create_file` returns

A successful `create_file` call below the root has exactly one answered `open`, `opendir`, `create` or
`mkdir`, and returns what this reply stands for.
-/

namespace Confuse
open Interaction

/-- What `create_file` returns for the root. -/
def rootInfo (requestIds : RequestIds) : CreateFileInfo where
  context := { ino := .ROOT, isDir := true, requestIds := requestIds }
  isDir := true
  newFileCreated := false

def openedInfo (isDirOpen : Bool) (requestIds : RequestIds) (ino : INodeNo)
    (payload : ReplyOpenPayload) : CreateFileInfo where
  context := { fh := payload.fh, flags := payload.flags, ino, isDir := isDirOpen, requestIds }
  isDir := isDirOpen
  newFileCreated := false

def createdInfo (isDirOpen : Bool) (requestIds : RequestIds) (payload : ReplyCreatePayload) :
    CreateFileInfo :=
  let isDir := payload.attr.kind = .directory || isDirOpen
  { context := { fh := payload.fh, flags := payload.flags, ino := payload.attr.ino, isDir
                 requestIds }
    isDir
    newFileCreated := true }

def madeInfo (requestIds : RequestIds) (payload : ReplyEntryPayload) : CreateFileInfo where
  context := { ino := payload.attr.ino, isDir := true, requestIds }
  isDir := true
  newFileCreated := true

/-- What an answered call stands for. -/
def FsCall.infos (isDirOpen : Bool) (requestIds : RequestIds) :
    (c : FsCall) → c.Reply → List CreateFileInfo
  | .open _ ino _, reply => Reply.reads (openedInfo isDirOpen requestIds ino) reply
  | .opendir _ ino _, reply => Reply.reads (openedInfo isDirOpen requestIds ino) reply
  | .create .., reply => Reply.reads (createdInfo isDirOpen requestIds) reply
  | .mkdir .., reply => Reply.reads (madeInfo requestIds) reply
  | _, _ => []

def Event.infos (isDirOpen : Bool) (requestIds : RequestIds) : Event → List CreateFileInfo
  | .call c reply => c.infos isDirOpen requestIds reply
  | _ => []

theorem Reply.reads_nil {α γ δ : Type} {f : α → γ} {g : α → δ} {reply : Reply α}
    (h : Reply.reads f reply = []) : Reply.reads g reply = [] :=
  Reply.reads_failed fun _ hreply => by
    rw [hreply] at h
    cases h

variable {isDirOpen : Bool} {requestIds : RequestIds}

theorem Idle.infos_eq {evs : List Event} (h : Idle evs) :
    evs.flatMap (Event.infos isDirOpen requestIds) = [] := by
  refine List.flatMap_eq_nil_iff.mpr fun e he => ?_
  have hidle := h e he
  cases e with
  | call c reply =>
      obtain ⟨hhanded, -, hmade⟩ := of_decide_eq_true hidle
      cases c with
      | «open» => exact Reply.reads_nil hhanded
      | opendir => exact Reply.reads_nil hhanded
      | create => exact Reply.reads_nil hhanded
      | mkdir =>
          refine Reply.reads_nil (f := fun payload : ReplyEntryPayload => payload.attr.ino) ?_
          simpa [FsCall.makesDirectory] using hmade
      | _ => rfl
  | _ => rfl

/-- When the routine succeeds, its replies and those before it stand for exactly what it returns. -/
abbrev Returns (isDirOpen : Bool) (requestIds : RequestIds) (before : List CreateFileInfo)
    (p : Routine (Except NtStatus CreateFileInfo)) : Prop :=
  p.Yields Emits fun evs result => ∀ info, result = .ok info →
    before ++ evs.flatMap (Event.infos isDirOpen requestIds) = [info]

namespace Returns
variable {α : Type} {before : List CreateFileInfo}

theorem error (status : NtStatus) : Returns isDirOpen requestIds before
    (Pure.pure (.error status) : Routine (Except NtStatus CreateFileInfo)) :=
  Prog.Yields.pure (by simp)

theorem ok {info : CreateFileInfo} (h : before = [info]) : Returns isDirOpen requestIds before
    (Pure.pure (.ok info) : Routine (Except NtStatus CreateFileInfo)) :=
  Prog.Yields.pure fun _ hinfo => by simpa [← Except.ok.inj hinfo] using h

theorem after {p : Routine α} {f : α → Routine (Except NtStatus CreateFileInfo)}
    (hp : IdleRoutine p) (hf : ∀ a, Returns isDirOpen requestIds before (f a)) :
    Returns isDirOpen requestIds before (p >>= f) :=
  Prog.Yields.bind (P := fun evs _ => Idle evs) hp.idle hf fun l l' _ _ hl h info hinfo => by
    simpa [hl.infos_eq] using h info hinfo

theorem call {c : FsCall} {f : c.Reply → Routine (Except NtStatus CreateFileInfo)}
    (hf : ∀ reply, Returns isDirOpen requestIds (before ++ c.infos isDirOpen requestIds reply)
      (f reply)) : Returns isDirOpen requestIds before (Routine.fs c >>= f) := by
  intro evs result ht info hinfo
  obtain ⟨reply, es, rest, hes, hrest, rfl⟩ := Prog.traces_bind.mp ht
  obtain ⟨notes, own, hnotes, hown, rfl⟩ := Prog.traces_perform.mp hes
  obtain rfl : own = [.call c reply] := hown
  simpa [(idle_notes hnotes).infos_eq, Event.infos] using hf reply rest result hrest info hinfo

theorem onReply {γ : Type} {reply : Reply γ} {toNtstatus : Errno → NtStatus}
    {f : γ → Routine (Except NtStatus CreateFileInfo)}
    (hf : ∀ v, reply = some (.ok v) → Returns isDirOpen requestIds before (f v)) :
    Returns isDirOpen requestIds before (onReply reply toNtstatus f) :=
  onReply_cases (fun _ => error _) hf

theorem onOk {γ : Type} {result : Except NtStatus γ}
    {f : γ → Routine (Except NtStatus CreateFileInfo)}
    (hf : ∀ v, Returns isDirOpen requestIds before (f v)) :
    Returns isDirOpen requestIds before (onOk result f) :=
  onOk_cases (fun _ => error _) hf

theorem openResolvedPath (request : OpenEntryRequest) (actualIno : INodeNo) :
    Returns request.isDirOpen request.requestIds [] (openResolvedPath request actualIno) := by
  unfold Confuse.openResolvedPath
  cases hdir : request.isDirOpen with
  | true =>
      rw [openOrOpendir_dir hdir]
      refine call (c := .opendir request.req actualIno ⟨request.openFlags⟩) fun opened =>
        after (.drainResolverForgets _) fun _ => onReply fun payload hpayload =>
          after (.effect rfl) fun _ => ok ?_
      subst hpayload
      rfl
  | false =>
      rw [openOrOpendir_file hdir]
      refine call (c := .open request.req actualIno ⟨request.openFlags⟩) fun opened =>
        after (.drainResolverForgets _) fun _ => onReply fun payload hpayload =>
          after (.effect rfl) fun _ => ok ?_
      subst hpayload
      rfl

theorem openExistingEntry (pf : Platform) (request : OpenEntryRequest) :
    Returns request.isDirOpen request.requestIds [] (openExistingEntry pf request) :=
  after (.resolveOpenIno pf request) fun _ => onOk fun _ => openResolvedPath request _

theorem openCollisionEntry (pf : Platform) (request : OpenEntryRequest) :
    Returns request.isDirOpen request.requestIds [] (openCollisionEntry pf request) := by
  unfold Confuse.openCollisionEntry
  split_ifs
  · exact after (.effect rfl) fun _ => openExistingEntry pf request
  · exact openExistingEntry pf request

theorem createDirectoryEntry {create : CreateEntryRequest} (hpath : create.pathIno = ⟨0⟩) :
    Returns isDirOpen create.requestIds [] (createDirectoryEntry create) := by
  refine call fun state => after (.drainResolverForgets _) fun _ => onReply fun payload hpayload =>
    after (.finishCreatedEntry _) fun _ => ok ?_
  subst hpayload
  simp [FsCall.infos, Reply.reads, madeInfo, createdIno_eq hpath]

theorem createFileEntryOrOpenExisting (pf : Platform) {create : CreateEntryRequest}
    (hpath : create.pathIno = ⟨0⟩) (plan : CreateDispositionPlan) (openFlags : Int32) :
    Returns create.isDirOpen create.requestIds []
      (createFileEntryOrOpenExisting pf create plan openFlags) := by
  refine call fun state => after (.drainResolverForgets _) fun _ => ?_
  rcases state with _ | ⟨err⟩ | ⟨payload⟩
  · exact error _
  · dsimp only
    split_ifs
    · exact openCollisionEntry pf (.fromCreate create openFlags)
    · exact error _
  · refine after (.finishCreatedEntry _) fun _ => ok ?_
    simp [FsCall.infos, Reply.reads, createdInfo, createdIno_eq hpath]

end Returns

/-- The outcome of `create_file`: the root is opened without a call that counts, and below it the
replies stand for what is returned. -/
theorem createFile_returns (pf : Platform) (fileName : U16CStr) (desiredAccess : AccessMask)
    (fileAttributes createDisposition createOptions : UInt32) (requestIds : RequestIds) :
    (createFile pf fileName desiredAccess fileAttributes createDisposition createOptions
      requestIds).Yields Emits fun evs result => ∀ info, result = .ok info →
        if (splitParentAndName fileName).2.points = [] then info = rootInfo requestIds ∧ Idle evs
        else evs.flatMap (Event.infos (isDirectoryOpen createOptions) requestIds) = [info] := by
  by_cases hleaf : (splitParentAndName fileName).2.points = []
  · have hidle := (createFile_root pf desiredAccess fileAttributes createDisposition createOptions
      requestIds hleaf).idle
    have hroot : (createFile pf fileName desiredAccess fileAttributes createDisposition
        createOptions requestIds).Yields Emits fun _ result =>
          ∀ info, result = .ok info → info = rootInfo requestIds := by
      refine .last fun parent => ?_
      cases parent with
      | error err => exact .last fun _ => .pure (by simp)
      | ok parentIno =>
          dsimp only [createInParent]
          rw [if_pos hleaf]
          exact .last fun _ => .pure fun _ hinfo => (Except.ok.inj hinfo).symm
    intro evs result ht info hinfo
    rw [if_pos hleaf]
    exact ⟨hroot evs result ht info hinfo, hidle evs result ht⟩
  · simp only [if_neg hleaf]
    refine (Returns.after (.resolvePathIno pf _ _) fun parent => ?_ : Returns _ _ [] _)
    cases parent with
    | error err => exact .after (.drainResolverForgets _) fun _ => .error _
    | ok parentIno =>
        dsimp only [createInParent]
        rw [if_neg hleaf]
        split_ifs
        · exact .openExistingEntry pf _
        · exact .createDirectoryEntry (knownPathIno_of_leaf hleaf)
        · exact .createFileEntryOrOpenExisting pf (knownPathIno_of_leaf hleaf) _ _

/-- The entry of `oneFile`, opened with the access mask. -/
def openFile (desiredAccess : AccessMask) : Routine (Except NtStatus CreateFileInfo) :=
  createFile .ascii fileF desiredAccess 0 FILE_OPEN 0 (.unavailable 1)

def openedFile : AdapterContext where
  fh := ⟨7⟩
  ino := ⟨5⟩
  requestIds := .unavailable 1

end Confuse
