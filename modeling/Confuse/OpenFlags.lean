import Confuse.CallbackCalls
import Confuse.CreateOutcome

/-!
# Open flags

The flags of `open`, `opendir` and `create` are the access mode that the access mask asks for, and
nothing else; in particular no disposition asks for a truncation. The reply's flags are what the
context keeps, and what the later reads, writes and releases for the context pass.
-/

namespace Confuse
open Interaction

/-! ## What an open asks for -/

namespace FsCall

/-- The call asks for a file of length 0. -/
def asksToTruncate : FsCall → Bool
  | .setattr _ _ args => args.size = some 0
  | .open _ _ flags => flags.bits &&& O_TRUNC ≠ 0
  | .opendir _ _ flags => flags.bits &&& O_TRUNC ≠ 0
  | .create _ _ _ _ _ flags => flags &&& O_TRUNC ≠ 0
  | _ => false

/-- The call can take contents away from an existing file. -/
def discards (c : FsCall) : Bool :=
  c.asksToTruncate || match c with
    | .setattr .. | .write .. | .fallocate .. | .unlink .. | .rename .. => true
    | _ => false

end FsCall

theorem accessMaskToOpenFlags_noTrunc (desiredAccess : AccessMask) :
    accessMaskToOpenFlags desiredAccess &&& O_TRUNC = 0 := by
  unfold accessMaskToOpenFlags
  dsimp only
  split <;> rfl

theorem createFile_discards {fileName : U16CStr} {desiredAccess : AccessMask}
    {fileAttributes createDisposition createOptions : UInt32} {requestIds : RequestIds}
    {c : FsCall} (h : (Effect.fs c).isWalk ∨ (Callback.createFile fileName desiredAccess
      fileAttributes createDisposition createOptions requestIds).mayCall c = true) :
    c.discards = false := by
  have hflags := accessMaskToOpenFlags_noTrunc desiredAccess
  cases c with
  | «open» req ino flags =>
      obtain rfl : flags = ⟨accessMaskToOpenFlags desiredAccess⟩ := by
        simpa [Effect.isWalk, Callback.mayCall, FsCall.isObserving, Callback.changing] using h
      simp [FsCall.discards, FsCall.asksToTruncate, hflags]
  | opendir req ino flags =>
      obtain rfl : flags = ⟨accessMaskToOpenFlags desiredAccess⟩ := by
        simpa [Effect.isWalk, Callback.mayCall, FsCall.isObserving, Callback.changing] using h
      simp [FsCall.discards, FsCall.asksToTruncate, hflags]
  | create req parent name mode umask flags =>
      obtain ⟨-, rfl⟩ : isDirectoryOpen createOptions = false ∧
          flags = accessMaskToOpenFlags desiredAccess := by
        simpa [Effect.isWalk, Callback.mayCall, FsCall.isObserving, Callback.changing] using h
      simp [FsCall.discards, FsCall.asksToTruncate, hflags]
  | setattr | write | fallocate | unlink | rename =>
      simp [Effect.isWalk, Callback.mayCall, FsCall.isObserving, Callback.changing] at h
  | _ => rfl

/-- The three overwriting dispositions are served like those that keep what they open. -/
theorem createFile_overwrite (pf : Platform) (fileName : U16CStr) (desiredAccess : AccessMask)
    (fileAttributes createOptions : UInt32) (requestIds : RequestIds) :
    createFile pf fileName desiredAccess fileAttributes FILE_OVERWRITE createOptions requestIds
        = createFile pf fileName desiredAccess fileAttributes FILE_OPEN createOptions requestIds ∧
      ∀ disposition ∈ [FILE_OVERWRITE_IF, FILE_SUPERSEDE],
        createFile pf fileName desiredAccess fileAttributes disposition createOptions requestIds
          = createFile pf fileName desiredAccess fileAttributes FILE_OPEN_IF createOptions
              requestIds := by
  refine ⟨rfl, fun disposition hdisposition => ?_⟩
  have hcollision : ∀ err, CreateDispositionPlan.supersede.opensExistingAfterCollision err
      = CreateDispositionPlan.createThenOpenOnExists.opensExistingAfterCollision err := fun _ => rfl
  rcases List.mem_pair.mp hdisposition with rfl | rfl
  · rfl
  · unfold createFile createFileImpl createInParent createFileEntryOrOpenExisting
    simp only [show createDispositionPlan FILE_SUPERSEDE = .supersede from rfl,
      show createDispositionPlan FILE_OPEN_IF = .createThenOpenOnExists from rfl, hcollision]
    rfl

namespace World
variable {β φ : Type} (pf : Platform) (h : Host β φ) (notices : Notices)

theorem createFile_discards_nothing (w : World β φ) (fileName : U16CStr)
    (desiredAccess : AccessMask) (fileAttributes createDisposition createOptions : UInt32)
    (requestIds : RequestIds) {c : FsCall} {reply : c.Reply}
    (hc : .call c reply ∈ w.newEvents pf h notices (createFile pf fileName desiredAccess
      fileAttributes createDisposition createOptions requestIds)) : c.discards = false := by
  have hcalls := (Callback.createFile_calls pf fileName desiredAccess fileAttributes
    createDisposition createOptions requestIds).every _ _ (newEvents_traces pf h notices _ w)
  exact createFile_discards (hcalls c reply hc)

/-- No call of `create_file` takes contents away, and the overwriting dispositions are served like
those that keep what they open. -/
theorem create_file_keeps_contents (w : World β φ) (fileName : U16CStr)
    (desiredAccess : AccessMask) (fileAttributes createDisposition createOptions : UInt32)
    (requestIds : RequestIds) :
    (∀ c reply, .call c reply ∈ w.newEvents pf h notices (createFile pf fileName desiredAccess
        fileAttributes createDisposition createOptions requestIds) → c.discards = false) ∧
      createFile pf fileName desiredAccess fileAttributes FILE_OVERWRITE createOptions requestIds
        = createFile pf fileName desiredAccess fileAttributes FILE_OPEN createOptions requestIds ∧
      ∀ disposition ∈ [FILE_OVERWRITE_IF, FILE_SUPERSEDE],
        createFile pf fileName desiredAccess fileAttributes disposition createOptions requestIds
          = createFile pf fileName desiredAccess fileAttributes FILE_OPEN_IF createOptions
              requestIds :=
  ⟨fun _ _ hc => createFile_discards_nothing pf h notices w _ _ _ _ _ _ hc,
    createFile_overwrite pf _ _ _ _ _⟩

/-- An existing file is opened for overwriting, and nothing asks for its truncation. -/
theorem overwrite_truncates_nothing :
    let h := Host.stateless (oneFile (.fromSecs 10))
    let w := World.mounted
    let overwrite := createFile .ascii fileF GENERIC_WRITE 0 FILE_OVERWRITE 0 (.unavailable 1)
    (∃ payload : ReplyEntryPayload,
        h.reply (.lookup ⟨INVALID_UID_GID, INVALID_UID_GID, 1⟩ .ROOT (.new "f".toList)) ()
          = (some (.ok payload), ()) ∧
        payload.attr.ino = ⟨5⟩ ∧ payload.attr.kind = .regularFile) ∧
      (∃ info, (overwrite.run (machine .ascii h undisturbed) w).1 = .ok info ∧
        info.context.ino = ⟨5⟩) ∧
      ∀ c reply, .call c reply ∈ w.newEvents .ascii h undisturbed overwrite →
        c.asksToTruncate = false := by
  refine ⟨⟨_, rfl, rfl, rfl⟩, ⟨_, rfl, rfl⟩, fun c reply hc => ?_⟩
  exact (Bool.or_eq_false_iff.mp (createFile_discards_nothing _ _ _ _ _ _ _ _ _ _ hc)).1

end World

/-! ## What the later calls pass -/

namespace FsCall

/-- The flags of a read, a write or a release. -/
def ioFlags : FsCall → List OpenFlags
  | .read _ _ _ _ _ flags _ | .write _ _ _ _ _ _ flags _ | .release _ _ _ flags _ _
  | .releasedir _ _ _ flags => [flags]
  | _ => []

/-- The inode and the flags of an answered open, and the flags of the reply. -/
def openings : (c : FsCall) → c.Reply → List (INodeNo × OpenFlags × FopenFlags)
  | .open _ ino flags, reply =>
      Reply.reads (fun payload : ReplyOpenPayload => (ino, flags, payload.flags)) reply
  | .opendir _ ino flags, reply =>
      Reply.reads (fun payload : ReplyOpenPayload => (ino, flags, payload.flags)) reply
  | .create _ _ _ _ _ flags, reply =>
      Reply.reads (fun payload : ReplyCreatePayload => (payload.attr.ino, ⟨flags⟩, payload.flags))
        reply
  | _, _ => []

end FsCall

def Event.openings : Event → List (INodeNo × OpenFlags × FopenFlags)
  | .call c reply => c.openings reply
  | _ => []

theorem Callback.ioFlags_eq {c : Callback} {context : AdapterContext}
    (hcontext : c.context? = some context) {call : FsCall}
    (hcall : (Effect.fs call).isWalk ∨ c.mayCall call = true) {flags : OpenFlags}
    (hflags : flags ∈ call.ioFlags) :
    flags = openFlagsFromFopenFlags context.flags ∨ flags = context.ioFlags := by
  cases call with
  | read | write | release | releasedir =>
      obtain rfl := List.mem_singleton.mp hflags
      cases c <;> simp_all [Effect.isWalk, Callback.mayCall, FsCall.isObserving,
        Callback.changing, Callback.context?]
  | _ => simp [FsCall.ioFlags] at hflags

theorem AdapterContext.accMode_ioFlags (context : AdapterContext) :
    context.ioFlags.accMode = if context.ino = ⟨0⟩ then .O_RDONLY
      else (openFlagsFromFopenFlags context.flags).accMode := by
  unfold AdapterContext.ioFlags
  by_cases hino : context.ino = ⟨0⟩
  · rw [if_pos hino, if_neg (not_not_intro hino)]
    rfl
  · rw [if_neg hino, if_pos hino]

namespace World
variable {β φ : Type} (pf : Platform) (h : Host β φ) (notices : Notices)

/-- Every read, write or release that a later callback makes for the context has this access mode. -/
def CarriesMode (w : World β φ) (context : AdapterContext) (mode : OpenAccMode) : Prop :=
  ∀ (between : List Callback) (c : Callback), c.context? = some context →
    ∀ call reply, .call call reply ∈ (w.serve pf h notices between).newEvents pf h notices
      (c.routine pf) → ∀ flags ∈ call.ioFlags, flags.accMode = mode

variable {pf h notices} in
/-- A callback that makes a call with certain flags needs their access mode to be the carried one. -/
theorem CarriesMode.accMode {w : World β φ} {context : AdapterContext} {mode : OpenAccMode}
    (hw : w.CarriesMode pf h notices context mode) {c : Callback}
    (hcontext : c.context? = some context) {flags : OpenFlags}
    (hcalls : (c.routine pf).EveryTrace Emits fun evs =>
      ∃ call reply, .call call reply ∈ evs ∧ flags ∈ call.ioFlags) : flags.accMode = mode := by
  obtain ⟨call, reply, hcall, hflags⟩ := hcalls _ _ (newEvents_traces pf h notices _ w)
  exact hw [] c hcontext call reply hcall flags hflags

end World

theorem fs_bind_calls {α : Type} {c : FsCall} (f : c.Reply → Routine α) {flags : OpenFlags}
    (hflags : flags ∈ c.ioFlags) : (Routine.fs c >>= f).EveryTrace Emits fun evs =>
      ∃ call reply, .call call reply ∈ evs ∧ flags ∈ call.ioFlags := by
  intro evs a ht
  obtain ⟨reply, es, rest, hes, -, rfl⟩ := Prog.traces_bind.mp ht
  obtain ⟨notes, own, -, hown, rfl⟩ := Prog.traces_perform.mp hes
  obtain rfl : own = [.call c reply] := hown
  exact ⟨c, reply, by simp, hflags⟩

theorem closeFile_calls (fileName : U16CStr) (context : AdapterContext) :
    (closeFile fileName context).EveryTrace Emits fun evs => ∃ call reply, .call call reply ∈ evs ∧
      openFlagsFromFopenFlags context.flags ∈ call.ioFlags := by
  unfold closeFile closeWithContext
  cases context.isDir with
  | true => exact fs_bind_calls (c := .releasedir _ _ _ _) _ (List.mem_singleton.mpr rfl)
  | false => exact fs_bind_calls (c := .release _ _ _ _ _ _) _ (List.mem_singleton.mpr rfl)

/-- Without an inode in its context, a read of the root passes no flags. -/
theorem readFile_root_calls (pf : Platform) {context : AdapterContext}
    (hino : context.ino = ⟨0⟩) :
    (readFile pf rootPath 0 0 context).EveryTrace Emits fun evs => ∃ call reply,
      .call call reply ∈ evs ∧ (⟨0⟩ : OpenFlags) ∈ call.ioFlags := by
  have hroot : resolveCtx rootPath context = some { ino := .ROOT, isDir := true
                                                    requestIds := context.requestIds } := by
    unfold resolveCtx
    rw [if_neg (not_not_intro hino), if_pos (by rfl)]
  unfold readFile withResolved resolveContextOrPath
  rw [hroot]
  exact fs_bind_calls (c := .read _ _ _ _ _ _ _) _ (List.mem_singleton.mpr rfl)

theorem World.carriesMode_iff {β φ : Type} (pf : Platform) (h : Host β φ) (notices : Notices)
    (w : World β φ) (context : AdapterContext) (mode : OpenAccMode) :
    w.CarriesMode pf h notices context mode ↔
      (openFlagsFromFopenFlags context.flags).accMode = mode ∧
        (context.ino = ⟨0⟩ → mode = .O_RDONLY) := by
  constructor
  · intro hw
    refine ⟨hw.accMode (c := .closeFile rootPath context) rfl (closeFile_calls _ _), fun hino => ?_⟩
    exact (hw.accMode (c := .readFile rootPath 0 0 context) rfl
      (readFile_root_calls pf hino)).symm
  · rintro ⟨hmode, hzero⟩ between c hcontext call reply hcall flags hflags
    have hcalls := (Callback.calls pf c).every _ _ (newEvents_traces pf h notices _ _) call reply hcall
    rcases Callback.ioFlags_eq hcontext hcalls hflags with rfl | rfl
    · exact hmode
    · rw [AdapterContext.accMode_ioFlags]
      split_ifs with hino
      · exact (hzero hino).symm
      · exact hmode

/-- The inode and the reply's flags of an open are those of the context that it stands for. -/
theorem Event.infos_of_openings (isDirOpen : Bool) (requestIds : RequestIds) {e : Event}
    {o : INodeNo × OpenFlags × FopenFlags} (ho : o ∈ e.openings) :
    ∃ info ∈ e.infos isDirOpen requestIds, info.context.ino = o.1 ∧ info.context.flags = o.2.2 := by
  have hreads : ∀ {α : Type} {f : α → INodeNo × OpenFlags × FopenFlags} {g : α → CreateFileInfo}
      {reply : Reply α}, o ∈ Reply.reads f reply →
        (∀ v, (g v).context.ino = (f v).1 ∧ (g v).context.flags = (f v).2.2) →
          ∃ info ∈ Reply.reads g reply, info.context.ino = o.1 ∧ info.context.flags = o.2.2 := by
    rintro α f g (_ | ⟨err⟩ | ⟨v⟩) hmem hfg
    · cases hmem
    · cases hmem
    · obtain rfl := List.mem_singleton.mp hmem
      exact ⟨g v, List.mem_singleton.mpr rfl, hfg v⟩
  cases e with
  | call c reply =>
      cases c with
      | «open» => exact hreads ho fun _ => ⟨rfl, rfl⟩
      | opendir => exact hreads ho fun _ => ⟨rfl, rfl⟩
      | create => exact hreads ho fun _ => ⟨rfl, rfl⟩
      | _ => cases ho
  | _ => cases ho

/-- The reads, writes and releases for a context carry the access mode of its open exactly when the
reply's flags, read as open flags, have this access mode; a handle on inode 0 is resolved anew, for
reading only. -/
theorem access_mode_carried_iff {β φ : Type} (pf : Platform) (h : Host β φ) (notices : Notices)
    (w : World β φ) (fileName : U16CStr) (desiredAccess : AccessMask)
    (fileAttributes createDisposition createOptions : UInt32) (requestIds : RequestIds)
    (info : CreateFileInfo) (ino : INodeNo) (flags : OpenFlags) (replied : FopenFlags) :
    let create := createFile pf fileName desiredAccess fileAttributes createDisposition
      createOptions requestIds
    let served := create.run (machine pf h notices) w
    served.1 = .ok info →
      (ino, flags, replied) ∈ (w.newEvents pf h notices create).flatMap Event.openings →
        (served.2.CarriesMode pf h notices info.context flags.accMode ↔
          (openFlagsFromFopenFlags replied).accMode = flags.accMode ∧
            (ino = ⟨0⟩ → flags.accMode = .O_RDONLY)) := by
  intro create served hserved hopening
  have hreturns := createFile_returns pf fileName desiredAccess fileAttributes createDisposition
    createOptions requestIds _ _ (World.newEvents_traces pf h notices create w) info hserved
  obtain ⟨e, he, ho⟩ := List.mem_flatMap.mp hopening
  obtain ⟨info', hinfo', rfl, rfl⟩ := e.infos_of_openings (isDirectoryOpen createOptions) requestIds ho
  have hmem := List.mem_flatMap.mpr ⟨e, he, hinfo'⟩
  split_ifs at hreturns with hleaf
  · rw [hreturns.2.infos_eq] at hmem
    cases hmem
  · rw [hreturns, List.mem_singleton] at hmem
    rw [hmem]
    exact World.carriesMode_iff pf h notices _ info.context _

theorem access_mode_carried_iff_read :
    let h := Host.stateless (oneFile (.fromSecs 10))
    ((openFile GENERIC_READ).run (machine .ascii h undisturbed) .mounted).2.CarriesMode .ascii h
      undisturbed openedFile .O_RDONLY :=
  (access_mode_carried_iff .ascii (.stateless (oneFile (.fromSecs 10))) undisturbed .mounted fileF
    GENERIC_READ 0 FILE_OPEN 0 (.unavailable 1) ⟨openedFile, false, false⟩ ⟨5⟩ ⟨O_RDONLY⟩ ⟨0⟩ rfl
    (by decide)).mpr ⟨rfl, by decide⟩

/-- A file opened for writing, answered without reply flags, is released as one opened for
reading. -/
theorem write_mode_is_lost :
    let h := Host.stateless (oneFile (.fromSecs 10))
    let served := (openFile GENERIC_WRITE).run (machine .ascii h undisturbed) .mounted
    served.1 = .ok ⟨openedFile, false, false⟩ ∧
      (⟨5⟩, ⟨O_WRONLY⟩, ⟨0⟩) ∈ (World.mounted.newEvents .ascii h undisturbed
        (openFile GENERIC_WRITE)).flatMap Event.openings ∧
      ¬ served.2.CarriesMode .ascii h undisturbed openedFile (⟨O_WRONLY⟩ : OpenFlags).accMode := by
  refine ⟨rfl, by decide, fun hcarries => ?_⟩
  exact absurd ((World.carriesMode_iff _ _ _ _ _ _).mp hcarries).1 (by decide)

end Confuse
