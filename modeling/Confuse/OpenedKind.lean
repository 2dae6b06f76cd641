import Confuse.CallbackCalls
import Confuse.CreateOutcome

/-!
# Opened kinds

A context keeps whether it is a directory's, and `close_file`, `flush_file_buffers` and `cleanup` go
by it. What was created has the kind of the reply. What was opened has the kind that the caller asked
for, whatever the backend's inode is.
-/

namespace Confuse
open Interaction

/-- Every inode has a kind that does not change, and the backend makes what it is asked to make. -/
structure KindsFixed {β φ : Type} (h : Host β φ) (kind : INodeNo → FileType) : Prop where
  root : kind .ROOT = .directory
  mkdir : ∀ {req parent name mode umask b} {payload : ReplyEntryPayload},
    (h.reply (.mkdir req parent name mode umask) b).1 = some (.ok payload) →
      kind payload.attr.ino = .directory
  create : ∀ {req parent name mode umask flags b} {payload : ReplyCreatePayload},
    (h.reply (.create req parent name mode umask flags) b).1 = some (.ok payload) →
      kind payload.attr.ino = payload.attr.kind

/-- The inode of an answered `open` or `opendir`. -/
def FsCall.opened : (c : FsCall) → c.Reply → List INodeNo
  | .open _ ino _, reply => Reply.reads (fun _ : ReplyOpenPayload => ino) reply
  | .opendir _ ino _, reply => Reply.reads (fun _ : ReplyOpenPayload => ino) reply
  | _, _ => []

def Event.opened : Event → List INodeNo
  | .call c reply => c.opened reply
  | _ => []

/-- Whether the call treats the context's object as a directory. -/
def FsCall.asDirectory : FsCall → List Bool
  | .releasedir .. | .fsyncdir .. | .rmdir .. => [true]
  | .release .. | .fsync .. | .unlink .. => [false]
  | _ => []

/-! ## What a context stands for -/

namespace Event
variable {isDirOpen : Bool} {requestIds : RequestIds} {e : Event}

theorem infos_of_opened {ino : INodeNo} (h : ino ∈ e.opened) :
    ∃ info ∈ e.infos isDirOpen requestIds, info.context.ino = ino ∧
      info.newFileCreated = false := by
  have hreads : ∀ {reply : Reply ReplyOpenPayload} {i : INodeNo},
      ino ∈ Reply.reads (fun _ : ReplyOpenPayload => i) reply →
        ∃ info ∈ Reply.reads (openedInfo isDirOpen requestIds i) reply,
          info.context.ino = ino ∧ info.newFileCreated = false := by
    rintro (_ | ⟨err⟩ | ⟨v⟩) i hmem
    · cases hmem
    · cases hmem
    · exact ⟨_, List.mem_singleton.mpr rfl, (List.mem_singleton.mp hmem).symm, rfl⟩
  cases e with
  | call c reply =>
      cases c with
      | «open» => exact hreads h
      | opendir => exact hreads h
      | _ => cases h
  | _ => cases h

/-- What is opened has the kind that was asked for; what is made has the kind of the reply. -/
theorem isDir_of_infos {β φ : Type} {h : Host β φ} {kind : INodeNo → FileType}
    (hk : KindsFixed h kind) (hreplied : ∀ c reply, e = .call c reply →
      ∃ b, reply = (h.reply c b).1)
    (hcreate : ∀ req parent name mode umask flags reply,
      e = .call (.create req parent name mode umask flags) reply → isDirOpen = false)
    {info : CreateFileInfo} (hinfo : info ∈ e.infos isDirOpen requestIds) :
    info.isDir = info.context.isDir ∧
      ((info.context.ino ∈ e.opened ∧ info.isDir = isDirOpen) ∨
        (info.newFileCreated = true ∧
          (info.isDir = true ↔ kind info.context.ino = .directory))) := by
  cases e with
  | call c reply =>
      obtain ⟨b, hb⟩ := hreplied c reply rfl
      cases c with
      | «open» | opendir =>
          rcases reply with _ | ⟨err⟩ | ⟨payload⟩
          · cases hinfo
          · cases hinfo
          · obtain rfl := List.mem_singleton.mp hinfo
            exact ⟨rfl, .inl ⟨List.mem_singleton.mpr rfl, rfl⟩⟩
      | mkdir req parent name mode umask =>
          rcases reply with _ | ⟨err⟩ | ⟨payload⟩
          · cases hinfo
          · cases hinfo
          · obtain rfl := List.mem_singleton.mp hinfo
            exact ⟨rfl, .inr ⟨rfl, iff_of_true rfl (hk.mkdir hb.symm)⟩⟩
      | create req parent name mode umask flags =>
          rcases reply with _ | ⟨err⟩ | ⟨payload⟩
          · cases hinfo
          · cases hinfo
          · obtain rfl := List.mem_singleton.mp hinfo
            obtain rfl := hcreate req parent name mode umask flags _ rfl
            refine ⟨rfl, .inr ⟨rfl, ?_⟩⟩
            simp [createdInfo, hk.create hb.symm]
      | _ => cases hinfo
  | _ => cases hinfo

end Event

/-! ## What the later calls choose -/

theorem Callback.asDirectory_eq {c : Callback} {context : AdapterContext}
    (hcontext : c.context? = some context) (hino : context.ino ≠ ⟨0⟩) {call : FsCall}
    (hcall : (Effect.fs call).isWalk ∨ c.mayCall call = true) {asDirectory : Bool}
    (h : asDirectory ∈ call.asDirectory) : asDirectory = context.isDir := by
  cases call with
  | releasedir | fsyncdir | rmdir | release | fsync | unlink =>
      obtain rfl := List.mem_singleton.mp h
      cases c <;> simp_all [Effect.isWalk, Callback.mayCall, FsCall.isObserving,
        Callback.changing, Callback.context?]
  | _ => cases h

namespace World
variable {β φ : Type} (pf : Platform) (h : Host β φ) (notices : Notices)

/-- Every later call that releases, flushes or removes the context's object treats it as the kind of
its inode. Inode 0 stands for no object; callbacks resolve such a context anew. -/
def ChoosesByKind (w : World β φ) (kind : INodeNo → FileType) (context : AdapterContext) : Prop :=
  context.ino ≠ ⟨0⟩ → ∀ (between : List Callback) (c : Callback), c.context? = some context →
    ∀ call reply, .call call reply ∈ (w.serve pf h notices between).newEvents pf h notices
      (c.routine pf) → ∀ asDirectory ∈ call.asDirectory,
        (asDirectory = true ↔ kind context.ino = .directory)

variable {pf h notices} in
theorem choosesByKind_of_isDir {kind : INodeNo → FileType} {context : AdapterContext}
    (hkind : context.isDir = true ↔ kind context.ino = .directory) (w : World β φ) :
    w.ChoosesByKind pf h notices kind context := by
  intro hino between c hcontext call reply hcall asDirectory hmem
  have hcalls := (Callback.calls pf c).every _ _ (newEvents_traces pf h notices _ _) call reply hcall
  rw [Callback.asDirectory_eq hcontext hino hcalls hmem]
  exact hkind

/-- The kind of what `create_file` returns is the backend's, in the result, in the context and in
the later calls for the context, exactly when an entry that it opens is a directory if and only if
the caller asked for one. -/
theorem opened_kind_iff {kind : INodeNo → FileType} (hk : KindsFixed h kind) (w : World β φ)
    (fileName : U16CStr) (desiredAccess : AccessMask)
    (fileAttributes createDisposition createOptions : UInt32) (requestIds : RequestIds)
    (info : CreateFileInfo) :
    let create := createFile pf fileName desiredAccess fileAttributes createDisposition
      createOptions requestIds
    let served := create.run (machine pf h notices) w
    served.1 = .ok info →
      (((info.isDir = true ↔ kind info.context.ino = .directory) ∧
          (info.context.isDir = true ↔ kind info.context.ino = .directory) ∧
          served.2.ChoosesByKind pf h notices kind info.context) ↔
        ∀ ino ∈ (w.newEvents pf h notices create).flatMap Event.opened,
          (kind ino = .directory ↔ isDirectoryOpen createOptions = true)) := by
  intro create served hserved
  have ht := newEvents_traces pf h notices create w
  have hreturns := createFile_returns pf fileName desiredAccess fileAttributes createDisposition
    createOptions requestIds _ _ ht info hserved
  have hopened : ∀ ino ∈ (w.newEvents pf h notices create).flatMap Event.opened,
      ∃ info ∈ (w.newEvents pf h notices create).flatMap
        (Event.infos (isDirectoryOpen createOptions) requestIds),
          info.context.ino = ino ∧ info.newFileCreated = false := by
    intro ino hino
    obtain ⟨e, he, hino⟩ := List.mem_flatMap.mp hino
    obtain ⟨info, hinfo, hfacts⟩ := Event.infos_of_opened hino
    exact ⟨info, List.mem_flatMap.mpr ⟨e, he, hinfo⟩, hfacts⟩
  split_ifs at hreturns with hleaf
  · -- the root: nothing is opened
    obtain ⟨rfl, hidle⟩ := hreturns
    have hroot : true = true ↔ kind .ROOT = .directory := iff_of_true rfl hk.root
    refine iff_of_true ⟨hroot, hroot, choosesByKind_of_isDir hroot _⟩ fun ino hino => ?_
    obtain ⟨info, hinfo, -⟩ := hopened ino hino
    rw [hidle.infos_eq] at hinfo
    cases hinfo
  · rw [hreturns] at hopened
    obtain ⟨e, he, hinfo⟩ := List.mem_flatMap.mp (hreturns ▸ List.mem_singleton.mpr rfl :
      info ∈ (w.newEvents pf h notices create).flatMap _)
    have hcreate : ∀ req parent name mode umask flags reply,
        e = .call (.create req parent name mode umask flags) reply →
          isDirectoryOpen createOptions = false := by
      rintro req parent name mode umask flags reply rfl
      have hcall := (Callback.createFile_calls pf fileName desiredAccess fileAttributes
        createDisposition createOptions requestIds).every _ _ ht _ _ he
      simp only [Effect.isWalk, Callback.mayCall, FsCall.isObserving, Callback.changing,
        Bool.false_or, Bool.and_eq_true, Bool.not_eq_true', Bool.false_eq_true, false_or] at hcall
      exact hcall.1
    obtain ⟨hsame, hkind⟩ := Event.isDir_of_infos hk
      (fun c reply hc => newEvents_replied pf h notices create w (hc ▸ he)) hcreate hinfo
    rw [← hsame]
    rcases hkind with ⟨hino, hflag⟩ | ⟨hnew, hkind⟩
    · -- an existing entry was opened, as the kind that was asked for
      constructor
      · rintro ⟨hkind, -, -⟩ ino hopen
        obtain ⟨info', hinfo', rfl, -⟩ := hopened ino hopen
        rw [List.mem_singleton.mp hinfo', ← hkind, hflag]
      · intro hcond
        have hkind := hcond _ (List.mem_flatMap.mpr ⟨e, he, hino⟩)
        rw [← hflag] at hkind
        exact ⟨hkind.symm, hkind.symm, choosesByKind_of_isDir (hsame ▸ hkind.symm) _⟩
    · refine iff_of_true ⟨hkind, hkind, choosesByKind_of_isDir (hsame ▸ hkind) _⟩ fun ino hopen => ?_
      obtain ⟨info', hinfo', -, hold⟩ := hopened ino hopen
      rw [List.mem_singleton.mp hinfo', hnew] at hold
      cases hold

/-- Inode 5 is a file, all others are directories. -/
def fiveIsFile (ino : INodeNo) : FileType := if ino = ⟨5⟩ then .regularFile else .directory

theorem opened_kind_iff_file :
    let h := Host.stateless (oneFile (.fromSecs 10))
    ((openFile GENERIC_READ).run (machine .ascii h undisturbed) .mounted).2.ChoosesByKind .ascii h
      undisturbed fiveIsFile openedFile :=
  ((opened_kind_iff .ascii (.stateless (oneFile (.fromSecs 10))) undisturbed
    ⟨rfl, fun h => (by cases h), fun h => (by cases h)⟩ .mounted fileF GENERIC_READ 0 FILE_OPEN 0
    (.unavailable 1) ⟨openedFile, false, false⟩ rfl).mpr (by decide)).2.2

/-- A backend whose every lookup finds the directory with inode 5. -/
def oneDirectory : (c : FsCall) → c.Reply
  | .lookup .. => some (.ok (⟨.plain ⟨5⟩ .directory, .fromSecs 10, ⟨1⟩⟩ : ReplyEntryPayload))
  | c => oneFile (.fromSecs 10) c

/-- A directory opened without asking for one is released as a file. -/
theorem directory_released_as_file :
    let h := Host.stateless oneDirectory
    let kind := fun _ : INodeNo => FileType.directory
    let served := (openFile GENERIC_READ).run (machine .ascii h undisturbed) .mounted
    KindsFixed h kind ∧ served.1 = .ok ⟨openedFile, false, false⟩ ∧
      kind openedFile.ino = .directory ∧
      ¬ served.2.ChoosesByKind .ascii h undisturbed kind openedFile := by
  refine ⟨⟨rfl, fun h => (by cases h), fun h => (by cases h)⟩, rfl, rfl, fun hchooses => ?_⟩
  have hrelease := hchooses (by decide) [] (.closeFile fileF openedFile) rfl
    (.release ⟨INVALID_UID_GID, INVALID_UID_GID, 1⟩ ⟨5⟩ ⟨7⟩ ⟨0⟩ none false) none
    (List.mem_singleton.mpr rfl) false (List.mem_singleton.mpr rfl)
  exact absurd (hrelease.mpr rfl) (by decide)

end World
end Confuse
