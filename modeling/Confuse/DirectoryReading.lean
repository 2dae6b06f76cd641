import Confuse.OpenStateRuns
import Confuse.SortedCursor

/-!
# Reading static directories

The entries of a directory have increasing cookies, and a backend answers a request with entries
whose cookies are greater than the offset of the request. The entries that a caller accepts over the
listings of a handle should make up the directory from its start.
-/

namespace Confuse

open Interaction SortedCursor

/-- The place of an entry, as the offset of a request counts it. -/
def DirectoryEntryPayload.cookie (entry : DirectoryEntryPayload) : ℕ := entry.offset.toNat

/-- A directory: entries with increasing cookies, none of them zero. -/
structure Directory where
  entries : List DirectoryEntryPayload
  increasing : Increasing DirectoryEntryPayload.cookie 0 entries

/-- The entries after an offset. -/
def Directory.after (d : Directory) (offset : UInt64) : List DirectoryEntryPayload :=
  rest DirectoryEntryPayload.cookie d.entries offset.toNat

/-- The entry's name as the caller gets it; a name with a NUL has no such form. -/
def DirectoryEntryPayload.fileName (entry : DirectoryEntryPayload) : Option U16CStr :=
  U16CStr.fromStr entry.name.toStringLossy

/-- What `find_files` delivers for the entry, with the permissions that `getattr` answers. -/
def DirectoryEntryPayload.Shows (entry : DirectoryEntryPayload) (data : FindData) : Prop :=
  ∃ fileName perm, entry.fileName = some fileName ∧ data =
    { attributes := findFilesAttrFromKindAndPerm entry.kind perm
      creationTime := SystemTime.UNIX_EPOCH
      lastAccessTime := SystemTime.UNIX_EPOCH
      lastWriteTime := SystemTime.UNIX_EPOCH
      fileSize := 0
      fileName }

abbrev ShowAll : List DirectoryEntryPayload → List FindData → Prop :=
  List.Forall₂ DirectoryEntryPayload.Shows

theorem ShowAll.fileName_ne_none {entries : List DirectoryEntryPayload} {delivered : List FindData}
    (h : ShowAll entries delivered) : ∀ entry ∈ entries, entry.fileName ≠ none := by
  induction h with
  | nil => simp
  | cons hshows _ ih =>
      obtain ⟨fileName, -, hname, -⟩ := hshows
      intro entry hentry
      rcases List.mem_cons.mp hentry with rfl | hentry
      · simp [hname]
      · exact ih entry hentry

/-! ## The loop over the entries of a reply -/

/-- The caller refused an entry. -/
def Refused (evs : List Event) : Prop := ∃ data, .fillFindData data false ∈ evs

/-- The loop delivers some of the entries from the first one on. It ends at the end of the list, at an
entry that the caller refuses, or with an error at one whose name has no UTF-16 form. -/
def ListedTo (entries : List DirectoryEntryPayload) (emittedOffset : Option Int64) (evs : List Event)
    (r : Except NtStatus (Option Int64)) : Prop :=
  ∃ n, ShowAll (entries.take n) (listing evs).delivered ∧
    ((r = .ok (((entries.take n).getLast?.map fun e => e.offset.toInt64).or emittedOffset) ∧
        (n = entries.length ∨ Refused evs)) ∨
      ∃ e, entries[n]? = some e ∧ e.fileName = none ∧ r = .error STATUS_NOT_IMPLEMENTED)

section Joined
variable {entries : List DirectoryEntryPayload} {emittedOffset : Option Int64} {evs silent : List Event}
  {r : Except NtStatus (Option Int64)}

theorem ListedTo.prepend (h : ListedTo entries emittedOffset evs r)
    (hsilent : (listing silent).delivered = []) :
    ListedTo entries emittedOffset (silent ++ evs) r := by
  obtain ⟨n, hshow, hend⟩ := h
  refine ⟨n, ?_, hend.imp_left fun ⟨hr, hstop⟩ => ⟨hr, hstop.imp_right ?_⟩⟩
  · rwa [listing_append, hsilent, List.nil_append]
  · rintro ⟨data, hdata⟩
    exact ⟨data, List.mem_append_right _ hdata⟩

theorem ListedTo.append (h : ListedTo entries emittedOffset evs r)
    (hsilent : (listing silent).delivered = []) :
    ListedTo entries emittedOffset (evs ++ silent) r := by
  obtain ⟨n, hshow, hend⟩ := h
  refine ⟨n, ?_, hend.imp_left fun ⟨hr, hstop⟩ => ⟨hr, hstop.imp_right ?_⟩⟩
  · rwa [listing_append, hsilent, List.append_nil]
  · rintro ⟨data, hdata⟩
    exact ⟨data, List.mem_append_left _ hdata⟩

end Joined

theorem refused_of_emits {data : FindData} {evs : List Event}
    (h : Emits (.fillFindData data) (false : Bool) evs) : Refused evs := by
  obtain ⟨notes, own, -, hown, rfl⟩ := h
  obtain rfl : own = [.fillFindData data false] := hown
  exact ⟨data, List.mem_append_right notes (List.mem_singleton_self _)⟩

theorem Still.readdirEntryAttr (req : Request) (ino : INodeNo) : Still (readdirEntryAttr req ino) := by
  refine bind (effect rfl) fun status => ?_
  rcases status with _ | ⟨err⟩ | ⟨payload⟩ <;> exact .pure _

theorem emitReaddirEntries_listedTo (req : Request) (emittedOffset : Option Int64)
    (entries : List DirectoryEntryPayload) :
    (emitReaddirEntries req emittedOffset entries).Yields Emits (ListedTo entries emittedOffset) := by
  induction entries generalizing emittedOffset with
  | nil =>
      rintro evs r ⟨rfl, rfl⟩
      exact ⟨0, .nil, .inl ⟨rfl, .inl rfl⟩⟩
  | cons entry rest ih =>
      intro evs r ht
      unfold emitReaddirEntries at ht
      obtain ⟨attr, es, tail, hattr, hentry, rfl⟩ := Prog.traces_bind.mp ht
      have hsilent : (listing es).delivered = [] :=
        congrArg Listing.delivered (still_listing (Still.readdirEntryAttr req entry.ino) es attr hattr)
      refine ListedTo.prepend ?_ hsilent
      cases hname : U16CStr.fromStr entry.name.toStringLossy with
      | none =>
          rw [hname] at hentry
          obtain ⟨rfl, rfl⟩ := hentry
          exact ⟨0, .nil, .inr ⟨entry, rfl, hname, rfl⟩⟩
      | some fileName =>
          rw [hname] at hentry
          obtain ⟨accepted, es', tail', hfill, hloop, rfl⟩ := Prog.traces_bind.mp hentry
          have hfilled := listing_of_emits (Prog.traces_perform.mp hfill)
          cases accepted with
          | true =>
              obtain ⟨n, hshow, hend⟩ := ih (some entry.offset.toInt64) tail' r hloop
              refine ⟨n + 1, ?_, ?_⟩
              · rw [listing_append, hfilled, List.take_succ_cons]
                exact .cons ⟨fileName, attr.map FileAttr.perm, hname, rfl⟩ hshow
              · refine hend.imp (fun hended => ⟨?_, ?_⟩) fun herror => herror
                · rw [hended.1, List.take_succ_cons, List.getLast?_cons]
                  cases (rest.take n).getLast? <;> rfl
                · refine hended.2.imp (fun hn => by rw [hn, List.length_cons]) ?_
                  rintro ⟨data, hdata⟩
                  exact ⟨data, List.mem_append_right _ hdata⟩
          | false =>
              obtain ⟨rfl, rfl⟩ := hloop
              rw [List.append_nil]
              refine ⟨0, ?_, .inl ⟨rfl, .inr (refused_of_emits (Prog.traces_perform.mp hfill))⟩⟩
              rw [hfilled]
              exact .nil

/-- What a listing does with the reply of the backend. -/
def emitListed (req : Request) (reply : ReplyDirectory) :
    Routine (Except NtStatus (Option Int64 × Reply Unit)) := do
  drainResolverForgets req
  onOk (← emitReaddirEntries req none reply.entries) fun emittedOffset =>
    pure (.ok (emittedOffset, reply.status))

theorem emitListed_listedTo (req : Request) (reply : ReplyDirectory) :
    (emitListed req reply).Yields Emits fun evs r => ∃ emitted,
      ListedTo reply.entries none evs emitted ∧
        r = emitted.map fun emittedOffset => (emittedOffset, reply.status) := by
  intro evs r ht
  obtain ⟨_, es, tail, hdrain, hrest, rfl⟩ := Prog.traces_bind.mp ht
  obtain ⟨emitted, es', tail', hloop, hend, rfl⟩ := Prog.traces_bind.mp hrest
  have hsilent : (listing es).delivered = [] := congrArg Listing.delivered
    (still_listing (Still.effect (e := .deliver req .takePendingForgets) rfl) es _ hdrain)
  have hlisted := (emitReaddirEntries_listedTo req none reply.entries _ _ hloop).prepend hsilent
  cases emitted with
  | error status =>
      obtain ⟨rfl, rfl⟩ := hend
      rw [List.append_nil]
      exact ⟨.error status, hlisted, rfl⟩
  | ok emittedOffset =>
      obtain ⟨rfl, rfl⟩ := hend
      rw [List.append_nil]
      exact ⟨.ok emittedOffset, hlisted, rfl⟩

/-! ## One listing of a handle -/

namespace World
variable {β φ : Type} (pf : Platform) (h : Host β φ) (notices : Notices)

theorem machine_openState_backend (o : OpenStateOp) (w : World β φ) :
    (machine pf h notices (.openState o) w).2.backend = w.backend :=
  foldl_notify_backend pf (notices w.steps) w

/-- What lies between the two accesses to the offset asks the backend once and goes through its
reply. -/
theorem run_listEntries (req : Request) (ino : INodeNo) (fh : FileHandle) (offset : UInt64)
    (w : World β φ) :
    ∃ emitted, ListedTo (ReplyDirectory.entries (h.reply (.readdir req ino fh offset) w.backend).1)
        none (w.newEvents pf h notices (listEntries req ino fh offset)) emitted ∧
      ((listEntries req ino fh offset).run (machine pf h notices) w).1 = emitted.map
        fun emittedOffset => (emittedOffset,
          ReplyDirectory.status (h.reply (.readdir req ino fh offset) w.backend).1) := by
  rcases hrun : (Routine.fs (.readdir req ino fh offset)).run (machine pf h notices) w with
    ⟨reply, w₁⟩
  have hreply : reply = (h.reply (.readdir req ino fh offset) w.backend).1 :=
    (congrArg Prod.fst hrun).symm.trans (machine_fs_reply pf h notices _ w)
  have hsilent : (listing (w.newEvents pf h notices
      (Routine.fs (.readdir req ino fh offset)))).delivered = [] := congrArg Listing.delivered
    (listing_of_emits (Prog.traces_perform.mp (newEvents_traces pf h notices _ w)))
  have hevents := newEvents_bind pf h notices (Routine.fs (.readdir req ino fh offset))
    (emitListed req) w
  have hresult := Prog.run_bind (machine pf h notices) (Routine.fs (.readdir req ino fh offset))
    (emitListed req) w
  rw [hrun] at hevents hresult
  rw [← hreply]
  obtain ⟨emitted, hlisted, hemitted⟩ := emitListed_listedTo req reply _ _
    (newEvents_traces pf h notices (emitListed req reply) w₁)
  refine ⟨emitted, ?_, (congrArg Prod.fst hresult).trans hemitted⟩
  have hjoined := hlisted.prepend hsilent
  rwa [← hevents] at hjoined

/-- The reply that a listing of a handle goes through. -/
def replyAt (fileName : U16CStr) (handle : DirectoryHandle) (w : World β φ) : ReplyDirectory :=
  (h.reply (.readdir (requestFromIds handle.context.requestIds) handle.context.ino handle.context.fh
    (w.requestAt fileName.toStringLossy)) w.backend).1

/-- A listing goes through the reply from its offset and moves the offset behind what was accepted. -/
theorem findFiles_listedTo (fileName : U16CStr) (handle : DirectoryHandle) (w : World β φ) :
    ∃ emitted, ListedTo (w.replyAt h fileName handle).entries none
        (w.newEvents pf h notices (findFiles pf fileName handle.context)) emitted ∧
      ((findFiles pf fileName handle.context).run (machine pf h notices) w).2.requestAt
          fileName.toStringLossy
        = nextRequest (w.requestAt fileName.toStringLossy) (emitted.map
          fun emittedOffset => (emittedOffset, (w.replyAt h fileName handle).status)) := by
  let key := fileName.toStringLossy
  let req := requestFromIds handle.context.requestIds
  let ino := handle.context.ino
  let fh := handle.context.fh
  rw [findFiles_eq handle.opened]
  rcases hrun : (directoryOffset key).run (machine pf h notices) w with ⟨reqOffset, w₁⟩
  have hmachine : machine pf h notices (.openState (.directoryOffset key)) w = (reqOffset, w₁) := hrun
  have hbackend := machine_openState_backend pf h notices (.directoryOffset key) w
  obtain ⟨hanswer, hopen, -⟩ := machine_openState pf h notices (.directoryOffset key) w
  rw [hmachine] at hbackend hanswer hopen
  obtain ⟨emitted, hlisted, hemitted⟩ := run_listEntries pf h notices req ino fh
    (readdirOffset reqOffset) w₁
  have hkept := run_keepsOpenState pf h notices (.of_listsAt (.listEntries req ino fh)) w₁
    (p := listEntries req ino fh (readdirOffset reqOffset))
  rcases hrun' : (listEntries req ino fh (readdirOffset reqOffset)).run (machine pf h notices) w₁ with
    ⟨listed, w₂⟩
  rw [hrun'] at hemitted hkept
  have hopen₁ : w₁.openState = w.openState := hopen
  have hoffset : reqOffset = w₂.offsetAt key := by
    rw [offsetAt, hkept, hopen₁]
    exact hanswer
  have hrequest : w.requestAt = w₂.requestAt := by
    funext k
    rw [requestAt, requestAt, offsetAt, offsetAt, hkept, hopen₁]
  have hasked : readdirOffset reqOffset = w.requestAt key := by
    rw [hrequest, hoffset]
    rfl
  have hreply : (h.reply (.readdir req ino fh (readdirOffset reqOffset)) w₁.backend).1
      = w.replyAt h fileName handle := by
    rw [show w₁.backend = w.backend from hbackend, hasked]
    rfl
  rw [hreply] at hlisted hemitted
  obtain ⟨hsilent, hleft⟩ := rememberListed_spec pf h notices key w₂ listed
  rw [← hoffset] at hsilent hleft
  refine ⟨emitted, ?_, ?_⟩
  · rw [newEvents_bind, hrun]
    refine ListedTo.prepend ?_ (congrArg Listing.delivered (listing_openState pf h notices _ w))
    dsimp only
    rw [newEvents_bind, hrun']
    exact hlisted.append (congrArg Listing.delivered hsilent)
  · rw [Prog.run_bind, hrun]
    dsimp only
    rw [Prog.run_bind, hrun']
    refine (congrFun hleft key).trans ?_
    rw [Function.update_self, ← hrequest, show listed = _ from hemitted]

end World
end Confuse
