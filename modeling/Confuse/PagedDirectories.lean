import Confuse.ResumedListings

/-!
# Directories in pages

A backend may answer a request with some of the entries after its offset; only an empty answer says
that there are no more. Neither a listing nor the check before a directory is deleted asks a second
time.
-/

namespace Confuse

open Interaction SortedCursor

/-- The backend answers a request with some of the entries after its offset, with none only when there
are none. -/
def Host.Pages {β φ : Type} (h : Host β φ) (d : Directory) (ino : INodeNo) : Prop :=
  ∀ req fh offset b, ∃ page, (h.reply (.readdir req ino fh offset) b).1
      = (⟨page, some (.ok ())⟩ : ReplyDirectory) ∧
    page <+: d.after offset ∧ (page = [] → d.after offset = [])

/-- The caller accepts every entry. -/
def Host.AcceptsAll {β φ : Type} (h : Host β φ) : Prop :=
  ∀ data caller, (h.fillFindData data caller).1 = true

/-- The entry is not `.` or `..`. -/
def DirectoryEntryPayload.IsChild (entry : DirectoryEntryPayload) : Prop := isDotName entry.name = false

namespace World
variable {β φ : Type} (pf : Platform) (h : Host β φ) (notices : Notices) (d : Directory)
  (fileName : U16CStr) (handle : DirectoryHandle) (req : Request) (ino : INodeNo)

/-- A listing from the start delivers every entry, and the check before a deletion passes a directory
only if it has no children. -/
structure ReadsToEnd (w : World β φ) : Prop where
  listed : ShowAll d.entries
    (listing (w.newEvents pf h notices (findFiles pf fileName handle.context))).delivered
  checked : ((precheckDirectoryDelete req ino).run (machine pf h notices) w).1 = .ok () →
    ∀ entry ∈ d.entries, ¬ entry.IsChild

/-- The reply to `getattr` in the check before a deletion. -/
def checkedAttr (w : World β φ) : Reply ReplyAttrPayload × β := h.reply (.getattr req ino none) w.backend

/-- The entries that the check before a deletion goes through. -/
def checkedPage (w : World β φ) : List DirectoryEntryPayload :=
  ReplyDirectory.entries (h.reply (.readdir req ino ⟨0⟩ 0) (w.checkedAttr h req ino).2).1

/-- The first page has what is needed: all entries, with names for the caller, for a listing, and a
child of a directory that has one for the check. -/
structure FirstPageSuffices (w : World β φ) : Prop where
  listed : (w.replyAt h fileName handle).entries = d.entries ∧
    ∀ entry ∈ d.entries, entry.fileName ≠ none
  checked : (∃ payload, (w.checkedAttr h req ino).1 = some (.ok payload) ∧
      payload.attr.kind = .directory) →
    (∃ entry ∈ w.checkedPage h req ino, entry.IsChild) ∨ ∀ entry ∈ d.entries, ¬ entry.IsChild

variable {h d}

/-- A caller that accepts everything gets the page up to the first name that it cannot be given. -/
theorem listed_iff {w : World β φ} (hpages : h.Pages d handle.context.ino) (haccepts : h.AcceptsAll)
    (hw : w.offsetAt fileName.toStringLossy = 0) :
    ShowAll d.entries
        (listing (w.newEvents pf h notices (findFiles pf fileName handle.context))).delivered
      ↔ (w.replyAt h fileName handle).entries = d.entries ∧
        ∀ entry ∈ d.entries, entry.fileName ≠ none := by
  obtain ⟨emitted, ⟨n, hshow, hend⟩, -⟩ := w.findFiles_listedTo pf h notices fileName handle
  obtain ⟨page, hreply, hinitial, -⟩ := hpages (requestFromIds handle.context.requestIds)
    handle.context.fh (w.requestAt fileName.toStringLossy) w.backend
  have hpage : (w.replyAt h fileName handle).entries = page := congrArg ReplyDirectory.entries hreply
  have hzero : w.requestAt fileName.toStringLossy = 0 := by
    rw [requestAt, hw]
    rfl
  rw [hzero, Directory.after_zero] at hinitial
  rw [hpage] at hshow hend ⊢
  constructor
  · intro hall
    refine ⟨hinitial.eq_of_length_le ?_, hall.fileName_ne_none⟩
    have hlength := hshow.length_eq
    rw [List.length_take, ← hall.length_eq] at hlength
    omega
  · rintro ⟨rfl, hnames⟩
    have hwhole : n = d.entries.length := by
      rcases hend with ⟨-, hstop⟩ | ⟨entry, hentry, hname, -⟩
      · refine hstop.resolve_right ?_
        rintro ⟨data, hdata⟩
        obtain ⟨caller, hcaller⟩ := newEvents_answered pf h notices _ w _ hdata
        rw [haccepts] at hcaller
        cases hcaller
      · exact absurd hname (hnames entry (List.mem_of_getElem? hentry))
    rwa [hwhole, List.take_length] at hshow

/-- What the check makes of a page. -/
def checkPage (reply : ReplyDirectory) : Except NtStatus Unit :=
  if reply.entries.any fun entry => !isDotName entry.name then .error STATUS_DIRECTORY_NOT_EMPTY
  else statusResult reply.status

def checkPageRoutine (reply : ReplyDirectory) : Routine (Except NtStatus Unit) :=
  if reply.entries.any fun entry => !isDotName entry.name then
    pure (.error STATUS_DIRECTORY_NOT_EMPTY)
  else pure (statusResult reply.status)

theorem run_checkPageRoutine (reply : ReplyDirectory) (w : World β φ) :
    ((checkPageRoutine reply).run (machine pf h notices) w).1 = checkPage reply := by
  unfold checkPageRoutine checkPage
  split_ifs <;> rfl

theorem checkPage_ok_iff (page : List DirectoryEntryPayload) :
    checkPage ⟨page, some (.ok ())⟩ = .ok () ↔ ∀ entry ∈ page, ¬ entry.IsChild := by
  unfold checkPage DirectoryEntryPayload.IsChild
  dsimp only
  split_ifs with hany
  · obtain ⟨entry, hentry, hchild⟩ := List.any_eq_true.mp hany
    have hdot : isDotName entry.name = false := by simpa using hchild
    exact iff_of_false (by simp) fun hnone => hnone entry hentry hdot
  · refine iff_of_true rfl fun entry hentry hdot => hany (List.any_eq_true.mpr ⟨entry, hentry, ?_⟩)
    simp [hdot]

/-- The check asks for the attributes and, of a directory, for one page. -/
theorem run_precheckDirectoryDelete (w : World β φ) :
    ((precheckDirectoryDelete req ino).run (machine pf h notices) w).1
      = match (w.checkedAttr h req ino).1 with
        | none => .error missingReplyStatus
        | some (.error err) => .error (errnoToNtstatus err)
        | some (.ok payload) =>
            if payload.attr.kind ≠ .directory then .error STATUS_NOT_A_DIRECTORY
            else checkPage (h.reply (.readdir req ino ⟨0⟩ 0) (w.checkedAttr h req ino).2).1 := by
  obtain ⟨w₁, hbackend, hrun⟩ := run_fs_bind pf h notices (.getattr req ino none)
    (fun status : Reply ReplyAttrPayload => onReply status errnoToNtstatus fun payload =>
      if payload.attr.kind ≠ .directory then pure (.error STATUS_NOT_A_DIRECTORY)
      else Routine.fs (.readdir req ino ⟨0⟩ 0) >>= fun reply => checkPageRoutine reply) w
  refine (congrArg Prod.fst hrun).trans ?_
  change ((onReply (w.checkedAttr h req ino).1 errnoToNtstatus _).run (machine pf h notices) w₁).1 = _
  rcases (w.checkedAttr h req ino).1 with _ | ⟨err⟩ | ⟨payload⟩
  · rfl
  · rfl
  · dsimp only [onReply]
    by_cases hkind : payload.attr.kind ≠ .directory
    · rw [if_pos hkind, if_pos hkind]
      rfl
    · rw [if_neg hkind, if_neg hkind]
      obtain ⟨w₂, -, hrun'⟩ := run_fs_bind pf h notices (.readdir req ino ⟨0⟩ 0) checkPageRoutine w₁
      refine (congrArg Prod.fst hrun').trans ?_
      rw [hbackend]
      exact run_checkPageRoutine pf notices _ w₂

/-- The check passes a directory exactly when its page holds no child. -/
theorem precheckDirectoryDelete_ok_iff {w : World β φ} (hpages : h.Pages d ino) :
    ((precheckDirectoryDelete req ino).run (machine pf h notices) w).1 = .ok () ↔
      (∃ payload, (w.checkedAttr h req ino).1 = some (.ok payload) ∧
        payload.attr.kind = .directory) ∧ ∀ entry ∈ w.checkedPage h req ino, ¬ entry.IsChild := by
  rw [run_precheckDirectoryDelete]
  obtain ⟨page, hreply, -, -⟩ := hpages req ⟨0⟩ 0 (w.checkedAttr h req ino).2
  have hpage : w.checkedPage h req ino = page := congrArg ReplyDirectory.entries hreply
  rw [hreply, hpage]
  rcases (w.checkedAttr h req ino).1 with _ | ⟨err⟩ | ⟨payload⟩
  · simp
  · simp
  · dsimp only
    by_cases hkind : payload.attr.kind = .directory
    · rw [if_neg (not_not.mpr hkind), checkPage_ok_iff]
      exact (and_iff_right ⟨payload, rfl, hkind⟩).symm
    · rw [if_pos hkind]
      simp [hkind]

/-- A directory is read to its end exactly when its first page has what is needed. -/
theorem readsToEnd_iff {w : World β φ} (hlisted : h.Pages d handle.context.ino)
    (hchecked : h.Pages d ino) (haccepts : h.AcceptsAll)
    (hw : w.offsetAt fileName.toStringLossy = 0) :
    w.ReadsToEnd pf h notices d fileName handle req ino
      ↔ w.FirstPageSuffices h d fileName handle req ino := by
  have hlist := listed_iff pf notices fileName handle hlisted haccepts hw
  have hcheck := precheckDirectoryDelete_ok_iff pf notices req ino (w := w) hchecked
  constructor
  · intro hreads
    refine ⟨hlist.mp hreads.listed, fun hkind => or_iff_not_imp_left.mpr fun hnone => ?_⟩
    refine hreads.checked (hcheck.mpr ⟨hkind, fun entry hentry hchild => ?_⟩)
    exact hnone ⟨entry, hentry, hchild⟩
  · intro hsuffices
    refine ⟨hlist.mpr hsuffices.listed, fun hok => ?_⟩
    obtain ⟨hkind, hpage⟩ := hcheck.mp hok
    refine (hsuffices.checked hkind).resolve_left ?_
    rintro ⟨entry, hentry, hchild⟩
    exact hpage entry hentry hchild

end World

namespace Directory

/-- A directory with one child. -/
def oneChild : Directory where
  entries := [⟨⟨5⟩, 1, .directory, .new ['.']⟩, ⟨⟨1⟩, 2, .directory, .new ['.', '.']⟩,
    ⟨⟨6⟩, 3, .regularFile, .new ['g']⟩]
  increasing := ⟨by simp [DirectoryEntryPayload.cookie], by decide⟩

/-- A backend that puts at most `n` entries on a page. -/
def pagesOf (n : ℕ) (d : Directory) : (c : FsCall) → c.Reply
  | .readdir _ _ _ offset => (⟨(d.after offset).take n, some (.ok ())⟩ : ReplyDirectory)
  | .getattr .. => (some (.ok ⟨.plain ⟨5⟩ .directory, .fromSecs 1⟩) : Reply ReplyAttrPayload)
  | c => c.unanswered

theorem pagesOf_pages {n : ℕ} (hn : 0 < n) (d : Directory) (ino : INodeNo) :
    (Host.stateless (d.pagesOf n)).Pages d ino := by
  intro req fh offset b
  refine ⟨(d.after offset).take n, rfl, List.take_prefix n _, fun hnil => ?_⟩
  rcases List.take_eq_nil_iff.mp hnil with hzero | hnil
  · omega
  · exact hnil

/-- One page holds the whole directory. -/
theorem readsToEnd_oneChild :
    World.mounted.ReadsToEnd .ascii (.stateless (pagesOf 3 oneChild)) undisturbed oneChild fileF
        ⟨directoryF, by decide⟩ ⟨0, 0, 1⟩ ⟨5⟩
      ↔ World.mounted.FirstPageSuffices (.stateless (pagesOf 3 oneChild)) oneChild fileF
        ⟨directoryF, by decide⟩ ⟨0, 0, 1⟩ ⟨5⟩ :=
  World.readsToEnd_iff .ascii undisturbed fileF ⟨directoryF, by decide⟩ ⟨0, 0, 1⟩ ⟨5⟩
    (pagesOf_pages (by omega) oneChild _) (pagesOf_pages (by omega) oneChild _) (fun _ _ => rfl) rfl

/-- The first page holds the dot entries alone: the child is not listed, and the directory passes the
check before a deletion. -/
theorem dot_page_hides_child :
    ¬ ∀ (β φ : Type) (pf : Platform) (h : Host β φ) (notices : Notices) (d : Directory)
      (fileName : U16CStr) (handle : DirectoryHandle) (req : Request) (ino : INodeNo) (w : World β φ),
      h.Pages d handle.context.ino → h.Pages d ino → h.AcceptsAll →
        w.offsetAt fileName.toStringLossy = 0 →
          w.ReadsToEnd pf h notices d fileName handle req ino := by
  intro hall
  have hreads := hall Unit Unit .ascii (.stateless (pagesOf 2 oneChild)) undisturbed oneChild fileF
    ⟨directoryF, by decide⟩ ⟨0, 0, 1⟩ ⟨5⟩ World.mounted (pagesOf_pages (by omega) oneChild _)
    (pagesOf_pages (by omega) oneChild _) (fun _ _ => rfl) rfl
  exact hreads.checked rfl ⟨⟨6⟩, 3, .regularFile, .new ['g']⟩ (by decide) rfl

end Directory
end Confuse
