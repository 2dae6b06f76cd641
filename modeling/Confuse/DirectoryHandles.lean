import Confuse.ListingRuns
import Confuse.PlainRoutes
import Confuse.SharedCells

/-!
# Directory listings of several handles

The offset at which a listing resumes is remembered under the path key of the callback, whatever
handle it is for. The callbacks of handles are actions on cells that the handles share, one cell for
each path key.
-/

namespace Confuse

open Interaction

/-! ## Routines that leave the offsets alone -/

abbrev Still {α : Type} (p : Routine α) : Prop := p.Performs fun e : Effect => e.isStill

namespace Still
variable {α γ : Type}

theorem bind {p : Routine α} {f : α → Routine γ} (hp : Still p) (hf : ∀ a, Still (f a)) :
    Still (p >>= f) := Prog.Performs.bind hp hf

theorem effect {e : Effect} (h : e.isStill = true) : Still (Prog.perform (S := effects) e) :=
  Prog.Performs.perform h

theorem of_walks {p : Routine α} (hp : Walks p) : Still p := by
  refine hp.mono fun e he => ?_
  cases e with
  | fs c => cases c <;> first | rfl | cases he
  | table o => rfl
  | deliver req o => rfl
  | openState o => cases he
  | fillFindData data => cases he
  | fillFindStreamData data => rfl

theorem onReply {reply : Reply γ} {toNtstatus : Errno → NtStatus}
    {f : γ → Routine (Except NtStatus α)} (hf : ∀ v, Still (f v)) :
    Still (onReply reply toNtstatus f) :=
  onReply_cases (fun _ => .pure _) fun v _ => hf v

theorem onOk {result : Except NtStatus γ} {f : γ → Routine (Except NtStatus α)}
    (hf : ∀ v, Still (f v)) : Still (onOk result f) :=
  onOk_cases (fun _ => .pure _) hf

theorem finishCreatedEntry (created : CreatedEntry) : Still (finishCreatedEntry created) :=
  bind (effect rfl) fun _ => bind (effect rfl) fun _ => bind (effect rfl) fun _ =>
    bind (effect rfl) fun _ => effect rfl

theorem resolveOpenIno (pf : Platform) (request : OpenEntryRequest) :
    Still (resolveOpenIno pf request) := by
  unfold Confuse.resolveOpenIno
  split_ifs
  · exact .pure _
  · refine bind (of_walks (.resolvePathIno _ pf _)) fun resolved => ?_
    cases resolved with
    | error err => exact bind (effect rfl) fun _ => .pure _
    | ok ino => exact .pure _

theorem openResolvedPath (request : OpenEntryRequest) (actualIno : INodeNo) :
    Still (openResolvedPath request actualIno) := by
  refine bind ?_ fun opened => bind (effect rfl) fun _ => onReply fun payload =>
    bind (effect rfl) fun _ => .pure _
  cases hdir : request.isDirOpen with
  | true =>
      rw [openOrOpendir_dir hdir]
      exact effect rfl
  | false =>
      rw [openOrOpendir_file hdir]
      exact effect rfl

theorem openExistingEntry (pf : Platform) (request : OpenEntryRequest) :
    Still (openExistingEntry pf request) :=
  bind (resolveOpenIno pf request) fun _ => onOk fun _ => openResolvedPath request _

theorem openCollisionEntry (pf : Platform) (request : OpenEntryRequest) :
    Still (openCollisionEntry pf request) := by
  unfold Confuse.openCollisionEntry
  split_ifs
  · exact bind (effect rfl) fun _ => openExistingEntry pf request
  · exact openExistingEntry pf request

theorem createDirectoryEntry (create : CreateEntryRequest) : Still (createDirectoryEntry create) :=
  bind (effect rfl) fun _ => bind (effect rfl) fun _ => onReply fun _ =>
    bind (finishCreatedEntry _) fun _ => .pure _

theorem createFileEntryOrOpenExisting (pf : Platform) (create : CreateEntryRequest)
    (plan : CreateDispositionPlan) (openFlags : Int32) :
    Still (createFileEntryOrOpenExisting pf create plan openFlags) := by
  refine bind (effect rfl) fun state => bind (effect rfl) fun _ => ?_
  rcases state with _ | ⟨err⟩ | ⟨payload⟩
  · exact .pure _
  · dsimp only
    split_ifs
    · exact openCollisionEntry pf _
    · exact .pure _
  · exact bind (finishCreatedEntry _) fun _ => .pure _

theorem createFile (pf : Platform) (fileName : U16CStr) (desiredAccess : AccessMask)
    (fileAttributes createDisposition createOptions : UInt32) (requestIds : RequestIds) :
    Still (createFile pf fileName desiredAccess fileAttributes createDisposition createOptions
      requestIds) := by
  refine bind (of_walks (.resolvePathIno _ pf _)) fun parent => ?_
  cases parent with
  | error err => exact bind (effect rfl) fun _ => .pure _
  | ok parentIno =>
      dsimp only [createInParent]
      split_ifs
      · exact bind (effect rfl) fun _ => .pure _
      · exact openExistingEntry pf _
      · exact createDirectoryEntry _
      · exact createFileEntryOrOpenExisting pf _ _ _

theorem closeWithContext (req : Request) (context : AdapterContext) :
    Still (closeWithContext req context) := by
  unfold Confuse.closeWithContext
  split_ifs
  · exact bind (effect rfl) fun _ => .pure _
  · exact bind (effect rfl) fun _ => .pure _

end Still

/-! ## The callbacks of handles -/

/-- The context of an open handle; a context without an inode belongs to no handle. -/
structure DirectoryHandle where
  context : AdapterContext
  opened : context.ino ≠ ⟨0⟩

inductive DirectoryCall
  | createFile (fileName : U16CStr) (desiredAccess : AccessMask)
      (fileAttributes createDisposition createOptions : UInt32) (requestIds : RequestIds)
  | findFiles (fileName : U16CStr) (handle : DirectoryHandle)
  | findFilesWithPattern (fileName pattern : U16CStr) (handle : DirectoryHandle)
  | closeFile (fileName : U16CStr) (handle : DirectoryHandle)

namespace DirectoryCall

def callback : DirectoryCall → Callback
  | .createFile fileName desiredAccess fileAttributes createDisposition createOptions requestIds =>
      .createFile fileName desiredAccess fileAttributes createDisposition createOptions requestIds
  | .findFiles fileName handle => .findFiles fileName handle.context
  | .findFilesWithPattern fileName pattern handle =>
      .findFilesWithPattern fileName pattern handle.context
  | .closeFile fileName handle => .closeFile fileName handle.context

/-- The path key whose offset a callback uses. -/
def pathKey? : DirectoryCall → Option Str
  | .createFile .. => none
  | .findFiles fileName _ | .findFilesWithPattern fileName _ _ | .closeFile fileName _ =>
      some fileName.toStringLossy

/-- The path key under which a callback lists. -/
def listedKey? : DirectoryCall → Option Str
  | .findFiles fileName _ | .findFilesWithPattern fileName _ _ => some fileName.toStringLossy
  | _ => none

/-- What a callback does between its accesses to the offset. -/
def entries (pf : Platform) (offset : UInt64) :
    DirectoryCall → Routine (Except NtStatus (Option Int64 × Reply Unit))
  | .findFiles _ handle =>
      listEntries (requestFromIds handle.context.requestIds) handle.context.ino handle.context.fh
        offset
  | .findFilesWithPattern fileName pattern handle =>
      listMatchingEntries pf (requestFromIds handle.context.requestIds) fileName pattern
        handle.context.ino handle.context.fh offset
  | _ => pure (.error missingReplyStatus)

end DirectoryCall

/-- A callback that is made for a handle, and the state of the fill callback that comes with it. -/
structure HandleCall (η φ : Type) where
  handle : η
  call : DirectoryCall
  caller : φ

namespace World
variable {β φ η : Type} (pf : Platform) (h : Host β φ) (notices : Notices)

/-- The offset that is remembered under a path key. -/
def offsetAt (w : World β φ) (key : Str) : Int64 := (w.openState.dirOffsets.lookup key).getD 0

/-- The offset that a listing under a path key asks for. -/
def requestAt (w : World β φ) (key : Str) : UInt64 := readdirOffset (w.offsetAt key)

/-- The world when a callback is made. -/
def called (c : HandleCall η φ) (w : World β φ) : World β φ := { w with caller := c.caller }

def serveCall (c : HandleCall η φ) (w : World β φ) : World β φ :=
  ((c.call.callback.routine pf).run (machine pf h notices) (w.called c)).2

/-- What one callback requests and delivers. -/
def listingOf (c : HandleCall η φ) (w : World β φ) : Listing :=
  listing ((w.called c).newEvents pf h notices (c.call.callback.routine pf))

/-- What each callback requests and delivers, with the handles. -/
def listings : List (HandleCall η φ) → World β φ → List (η × Listing)
  | [], _ => []
  | c :: rest, w => (c.handle, w.listingOf pf h notices c) ::
      listings rest (w.serveCall pf h notices c)

end World

/-! ## What a listing reads and leaves -/

/-- The offset from which the next listing asks. -/
def nextRequest (offset : UInt64) : Except NtStatus (Option Int64 × Reply Unit) → UInt64
  | .ok (some emittedOffset, _) => readdirOffset emittedOffset
  | _ => offset

namespace World
variable {β φ : Type} (pf : Platform) (h : Host β φ) (notices : Notices)

theorem machine_openState (o : OpenStateOp) (w : World β φ) :
    (machine pf h notices (.openState o) w).1 = (o.apply w.openState).1 ∧
      (machine pf h notices (.openState o) w).2.openState = (o.apply w.openState).2 ∧
      (machine pf h notices (.openState o) w).2.caller = w.caller := by
  obtain ⟨hcaller, hopen⟩ := foldl_notify_caller pf h (notices w.steps) w
  exact ⟨congrArg (fun s => (o.apply s).1) hopen, congrArg (fun s => (o.apply s).2) hopen, hcaller⟩

theorem listing_openState (o : OpenStateOp) (w : World β φ) :
    listing (w.newEvents pf h notices (Routine.openState o)) = .none :=
  listing_of_emits (Prog.traces_perform.mp (newEvents_traces pf h notices (Routine.openState o) w))

theorem listing_pure {α : Type} (a : α) (w : World β φ) :
    listing (w.newEvents pf h notices (pure a : Routine α)) = .none :=
  congrArg listing (newEvents_pure pf h notices a w)

variable {pf h notices} in
theorem listing_bind_first {α γ : Type} {p : Routine α} (f : α → Routine γ) {w w' : World β φ} {a : α}
    (hrun : p.run (machine pf h notices) w = (a, w'))
    (hp : listing (w.newEvents pf h notices p) = .none) :
    listing (w.newEvents pf h notices (p >>= f)) = listing (w'.newEvents pf h notices (f a)) := by
  rw [newEvents_bind, hrun, listing_append, hp]
  rfl

variable {pf h notices} in
theorem listing_bind_last {α γ : Type} {p : Routine α} {f : α → Routine γ} {w w' : World β φ} {a : α}
    (hrun : p.run (machine pf h notices) w = (a, w'))
    (hf : listing (w'.newEvents pf h notices (f a)) = .none) :
    listing (w.newEvents pf h notices (p >>= f)) = listing (w.newEvents pf h notices p) := by
  rw [newEvents_bind, hrun, listing_append, hf]
  simp [Listing.none]

variable {pf h notices} in
theorem requestAt_insertOffset {w w' : World β φ} {key : Str} {offset : Int64}
    (h : w'.openState.dirOffsets = w.openState.dirOffsets.insert key offset) :
    w'.requestAt = Function.update w.requestAt key (readdirOffset offset) := by
  funext k
  unfold requestAt offsetAt
  rw [h]
  by_cases hk : k = key
  · rw [hk, AList.lookup_insert, Function.update_self]
    rfl
  · rw [AList.lookup_insert_ne hk, Function.update_of_ne hk]

variable {pf h notices} in
theorem requestAt_of_dirOffsets {w w' : World β φ}
    (h : w'.openState.dirOffsets = w.openState.dirOffsets) : w'.requestAt = w.requestAt := by
  funext k
  rw [requestAt, requestAt, offsetAt, offsetAt, h]

/-- The end of a listing shows nothing and remembers the next offset. -/
theorem rememberListed_spec (key : Str) (w : World β φ)
    (listed : Except NtStatus (Option Int64 × Reply Unit)) :
    listing (w.newEvents pf h notices (rememberListed key (w.offsetAt key) listed)) = .none ∧
      ((rememberListed key (w.offsetAt key) listed).run (machine pf h notices) w).2.requestAt
        = Function.update w.requestAt key (nextRequest (w.requestAt key) listed) := by
  rcases listed with status | ⟨emittedOffset, status⟩
  · exact ⟨listing_pure pf h notices _ w, (Function.update_eq_self key _).symm⟩
  · obtain ⟨-, hopen, -⟩ := machine_openState pf h notices
      (.insertOffset key (advanceOffsetOnEmitted (w.offsetAt key) emittedOffset)) w
    constructor
    · exact (listing_bind_last rfl (listing_pure pf h notices _ _)).trans
        (listing_openState pf h notices _ w)
    · refine (requestAt_insertOffset (congrArg OpenState.dirOffsets hopen)).trans ?_
      cases emittedOffset <;> rfl

variable {h} in
/-- What follows the reading of the offset. -/
theorem listing_rest (hstatic : h.StaticDirectories) (key : Str) {offset : UInt64}
    {p : Routine (Except NtStatus (Option Int64 × Reply Unit))} (hp : ListsAt offset p)
    (w w' : World β φ) (hcaller : w.caller = w'.caller) :
    listing (w.newEvents pf h notices (p >>= rememberListed key (w.offsetAt key)))
        = listing (w'.newEvents pf h undisturbed p) ∧
      ((p >>= rememberListed key (w.offsetAt key)).run (machine pf h notices) w).2.requestAt
        = Function.update w.requestAt key
          (nextRequest (w.requestAt key) (p.run (machine pf h undisturbed) w').1) := by
  obtain ⟨hresult, hlisted, hkept⟩ := run_alike pf hstatic hp notices undisturbed hcaller
  rw [← hresult, ← hlisted, Prog.run_bind]
  rcases hrun : p.run (machine pf h notices) w with ⟨listed, w₁⟩
  rw [hrun] at hkept
  have hoffsets : w₁.openState.dirOffsets = w.openState.dirOffsets := congrArg OpenState.dirOffsets hkept
  have hoffset : w₁.offsetAt key = w.offsetAt key := by rw [offsetAt, offsetAt, hoffsets]
  obtain ⟨hsilent, hleft⟩ := rememberListed_spec pf h notices key w₁ listed
  rw [hoffset, requestAt_of_dirOffsets hoffsets] at hleft
  rw [hoffset] at hsilent
  exact ⟨listing_bind_last hrun hsilent, hleft⟩

variable {h} in
/-- A listing shows and leaves what it does from the same offset on its own. -/
theorem listing_spec (hstatic : h.StaticDirectories) (key : Str)
    {p : UInt64 → Routine (Except NtStatus (Option Int64 × Reply Unit))}
    (hp : ∀ offset, ListsAt offset (p offset)) (w w' : World β φ) (hcaller : w.caller = w'.caller) :
    let routine := directoryOffset key >>= fun reqOffset =>
      p (readdirOffset reqOffset) >>= rememberListed key reqOffset
    listing (w.newEvents pf h notices routine)
        = listing (w'.newEvents pf h undisturbed (p (w.requestAt key))) ∧
      (routine.run (machine pf h notices) w).2.requestAt = Function.update w.requestAt key
        (nextRequest (w.requestAt key) ((p (w.requestAt key)).run (machine pf h undisturbed) w').1) := by
  intro routine
  obtain ⟨hanswer, hopen, hcalled⟩ := machine_openState pf h notices
    (.directoryOffset key) w
  rcases hrun : (directoryOffset key).run (machine pf h notices) w with ⟨reqOffset, w₁⟩
  have hmachine : machine pf h notices (.openState (.directoryOffset key)) w = (reqOffset, w₁) := hrun
  rw [hmachine] at hanswer hopen hcalled
  have hoffsets : w₁.openState.dirOffsets = w.openState.dirOffsets := congrArg OpenState.dirOffsets hopen
  have hoffset : w₁.offsetAt key = w.offsetAt key := by rw [offsetAt, offsetAt, hoffsets]
  obtain rfl : reqOffset = w₁.offsetAt key := hanswer.trans hoffset.symm
  obtain ⟨hlisted, hleft⟩ := listing_rest pf notices hstatic key (hp (w₁.requestAt key)) w₁ w'
    (hcalled.trans hcaller)
  rw [← requestAt_of_dirOffsets hoffsets]
  constructor
  · exact (listing_bind_first _ hrun (listing_openState pf h notices _ w)).trans hlisted
  · rw [Prog.run_bind, hrun]
    exact hleft

theorem createFile_spec {fileName : U16CStr} {desiredAccess : AccessMask}
    {fileAttributes createDisposition createOptions : UInt32} {requestIds : RequestIds}
    (w : World β φ) :
    let routine := createFile pf fileName desiredAccess fileAttributes createDisposition createOptions
      requestIds
    listing (w.newEvents pf h notices routine) = .none ∧
      (routine.run (machine pf h notices) w).2.requestAt = w.requestAt := by
  have hstill := Still.createFile pf fileName desiredAccess fileAttributes createDisposition
    createOptions requestIds
  exact ⟨still_listing hstill _ _ (newEvents_traces pf h notices _ w),
    requestAt_of_dirOffsets (run_still pf h hstill notices w)⟩

theorem still_openState {α : Type} {p : Routine α} (hp : Still p) (o : OpenStateOp) (w : World β φ) :
    listing (w.newEvents pf h notices (p >>= fun _ => Routine.openState o)) = .none ∧
      ∃ w₁ : World β φ, w₁.openState.dirOffsets = w.openState.dirOffsets ∧
        ((p >>= fun _ => Routine.openState o).run (machine pf h notices) w).2.openState
          = (o.apply w₁.openState).2 := by
  have hkept := run_still pf h hp notices w
  rcases hrun : p.run (machine pf h notices) w with ⟨a, w₁⟩
  rw [hrun] at hkept
  constructor
  · exact (listing_bind_last hrun (listing_openState pf h notices _ w₁)).trans
      (still_listing hp _ _ (newEvents_traces pf h notices _ w))
  · refine ⟨w₁, hkept, ?_⟩
    rw [Prog.run_bind, hrun]
    exact (machine_openState pf h notices o w₁).2.1

/-- Closing removes the offset under the path key, whichever handle left it there. -/
theorem closeFile_spec (fileName : U16CStr) (context : AdapterContext) (w : World β φ) :
    listing (w.newEvents pf h notices (closeFile fileName context)) = .none ∧
      ((closeFile fileName context).run (machine pf h notices) w).2.requestAt
        = Function.update w.requestAt fileName.toStringLossy 0 := by
  have hclosed : Still (closeWithContext (requestFromIds context.requestIds) context >>= fun _ =>
      Routine.openState (.removeHandle fileName.toStringLossy)) :=
    .bind (.closeWithContext _ context) fun _ => .effect rfl
  have hsplit : closeFile fileName context
      = (closeWithContext (requestFromIds context.requestIds) context >>= fun _ =>
          Routine.openState (.removeHandle fileName.toStringLossy)) >>= fun _ =>
        Routine.openState (.removeOffset fileName.toStringLossy) := (Prog.bind_assoc _ _ _).symm
  obtain ⟨hsilent, w₁, hkept, hopen⟩ := still_openState pf h notices hclosed
    (.removeOffset fileName.toStringLossy) w
  have hremoved : ((closeFile fileName context).run (machine pf h notices) w).2.openState.dirOffsets
      = w.openState.dirOffsets.erase fileName.toStringLossy := by
    rw [hsplit, ← hkept]
    exact congrArg OpenState.dirOffsets hopen
  refine ⟨by rw [hsplit]; exact hsilent, ?_⟩
  funext k
  unfold requestAt offsetAt
  rw [hremoved]
  by_cases hk : k = fileName.toStringLossy
  · rw [hk, AList.lookup_erase, Function.update_self]
    rfl
  · rw [AList.lookup_erase_ne hk, Function.update_of_ne hk]

end World

/-! ## The callbacks as actions on shared cells -/

namespace HandleCall
variable {β φ η : Type} (pf : Platform) (h : Host β φ) (backend : β)

/-- The world of a callback on its own. -/
def start (c : HandleCall η φ) : World β φ := .initial (.fromNanos 0) backend c.caller

/-- The offsets under the path keys, as cells that the handles share. -/
def cells : SharedCells η Str UInt64 Listing (HandleCall η φ) where
  user := HandleCall.handle
  cell c := c.call.pathKey?
  initial := 0
  view c offset := listing ((c.start backend).newEvents pf h undisturbed (c.call.entries pf offset))
  next c offset :=
    if c.call.listedKey?.isSome then
      nextRequest offset ((c.call.entries pf offset).run (machine pf h undisturbed) (c.start backend)).1
    else 0

variable {h}

/-- A callback in any world acts as it does on the cells. -/
theorem cells_spec (hstatic : h.StaticDirectories) (notices : Notices) (c : HandleCall η φ)
    (w : World β φ) :
    w.listingOf pf h notices c
        = (cells pf h backend).view c ((cells pf h backend).held w.requestAt c) ∧
      (w.serveCall pf h notices c).requestAt = (cells pf h backend).step w.requestAt c := by
  obtain ⟨handle, call, caller⟩ := c
  cases call with
  | createFile fileName desiredAccess fileAttributes createDisposition createOptions requestIds =>
      exact World.createFile_spec pf h notices { w with caller := caller }
  | findFiles fileName opened =>
      have hlisting := World.listing_spec pf notices hstatic fileName.toStringLossy
        (fun offset => ListsAt.listEntries (requestFromIds opened.context.requestIds)
          opened.context.ino opened.context.fh)
        { w with caller := caller } (.initial (.fromNanos 0) backend caller) rfl
      dsimp only at hlisting
      rw [← findFiles_eq opened.opened pf] at hlisting
      exact hlisting
  | findFilesWithPattern fileName pattern opened =>
      have hlisting := World.listing_spec pf notices hstatic fileName.toStringLossy
        (fun offset => ListsAt.listMatchingEntries pf (requestFromIds opened.context.requestIds)
          fileName pattern opened.context.ino opened.context.fh)
        { w with caller := caller } (.initial (.fromNanos 0) backend caller) rfl
      dsimp only at hlisting
      rw [← findFilesWithPattern_eq opened.opened pf] at hlisting
      exact hlisting
  | closeFile fileName opened =>
      exact World.closeFile_spec pf h notices fileName opened.context { w with caller := caller }

variable (h)

theorem held_of_listed {c : HandleCall η φ} {key : Str} (hc : c.call.listedKey? = some key)
    (s : Str → UInt64) : (cells pf h backend).held s c = s key := by
  obtain ⟨handle, call, caller⟩ := c
  cases call with
  | createFile => cases hc
  | closeFile => cases hc
  | findFiles fileName opened => exact congrArg s (Option.some.inj hc)
  | findFilesWithPattern fileName pattern opened => exact congrArg s (Option.some.inj hc)

/-- All requests of a listing are for its offset, and there is one. -/
theorem view_requested {c : HandleCall η φ} {key : Str} (hc : c.call.listedKey? = some key)
    (offset : UInt64) : ((cells pf h backend).view c offset).requested ≠ [] ∧
      ∀ o ∈ ((cells pf h backend).view c offset).requested, o = offset := by
  have hentries : ListsAt offset (c.call.entries pf offset) ∧
      ∀ evs a, (c.call.entries pf offset).Traces Emits evs a → (listing evs).requested ≠ [] := by
    obtain ⟨handle, call, caller⟩ := c
    cases call with
    | createFile => cases hc
    | closeFile => cases hc
    | findFiles fileName opened =>
        refine ⟨ListsAt.listEntries _ _ _, ?_⟩
        rintro evs a ⟨reply, es, rest, he, -, rfl⟩
        rw [listing_append, listing_of_emits he]
        simp [Effect.listed]
    | findFilesWithPattern fileName pattern opened =>
        refine ⟨ListsAt.listMatchingEntries pf _ _ _ _ _, ?_⟩
        rintro evs a ⟨reply, es, rest, he, -, rfl⟩
        rw [listing_append, listing_of_emits he]
        simp [Effect.listed]
  have htrace := World.newEvents_traces pf h undisturbed (c.call.entries pf offset) (c.start backend)
  exact ⟨hentries.2 _ _ htrace, requested_eq hentries.1 _ _ htrace⟩

theorem view_injective {c : HandleCall η φ} {key : Str} (hc : c.call.listedKey? = some key)
    {offset offset' : UInt64}
    (h' : (cells pf h backend).view c offset = (cells pf h backend).view c offset') :
    offset = offset' := by
  obtain ⟨hsome, hall⟩ := view_requested pf h backend hc offset
  obtain ⟨-, hall'⟩ := view_requested pf h backend hc offset'
  obtain ⟨o, ho⟩ := List.exists_mem_of_ne_nil _ hsome
  exact (hall o ho).symm.trans (hall' o (h' ▸ ho))

theorem view_of_not_listed {c : HandleCall η φ} (hc : c.call.listedKey? = none) (offset : UInt64) :
    (cells pf h backend).view c offset = .none := by
  obtain ⟨handle, call, caller⟩ := c
  cases call <;> first | rfl | cases hc

theorem cells_determined : (cells (η := η) pf h backend).Determined := by
  intro c offset offset' hview
  cases hc : c.call.listedKey? with
  | none => simp [cells, hc]
  | some key => rw [view_injective pf h backend hc hview]

/-- For each handle the offset that its last callback left under each path key, after one more
callback. -/
def leaves (c : HandleCall η φ) [DecidableEq η] (own : η → Str → UInt64) (after : World β φ) :
    η → Str → UInt64 :=
  c.call.pathKey?.elim own fun key =>
    Function.update own c.handle (Function.update (own c.handle) key (after.requestAt key))

end HandleCall

/-! ## Isolation -/

namespace World
variable {β φ η : Type} [DecidableEq η] (pf : Platform) (h : Host β φ) (notices : Notices)

def serveCalls (calls : List (HandleCall η φ)) (w : World β φ) : World β φ :=
  calls.foldl (fun w c => w.serveCall pf h notices c) w

/-- Every listing finds under its path key what the last callback of its own handle left there. -/
def FindsOwn (own : η → Str → UInt64) : List (HandleCall η φ) → World β φ → Prop
  | [], _ => True
  | c :: rest, w => (∀ key, c.call.listedKey? = some key → w.requestAt key = own c.handle key) ∧
      FindsOwn (c.leaves own (w.serveCall pf h notices c)) rest (w.serveCall pf h notices c)

/-- Every handle requests and gets what it would on its own, and its first listing starts at 0. -/
structure IsolatesHandles (calls : List (HandleCall η φ)) (w : World β φ) : Prop where
  alone : ∀ handle, ((w.listings pf h notices calls).filter fun l => l.1 = handle)
    = w.listings pf h notices (calls.filter fun c => c.handle = handle)
  fromStart : ∀ before c after, calls = before ++ c :: after → c.call.listedKey? ≠ none →
    (∀ c' ∈ before, c'.handle = c.handle → c'.call.listedKey? = none) →
    ∀ offset ∈ ((w.serveCalls pf h notices before).listingOf pf h notices c).requested, offset = 0

variable {h}

omit [DecidableEq η] in
theorem listings_eq (hstatic : h.StaticDirectories) (backend : β) (calls : List (HandleCall η φ))
    (w : World β φ) :
    w.listings pf h notices calls = (HandleCall.cells pf h backend).views w.requestAt calls := by
  induction calls generalizing w with
  | nil => rfl
  | cons c rest ih =>
      obtain ⟨hlisted, hleft⟩ := HandleCall.cells_spec pf backend hstatic notices c w
      rw [listings, ih, hlisted, hleft]
      rfl

theorem leaves_eq (hstatic : h.StaticDirectories) (backend : β) (c : HandleCall η φ)
    (own : η → Str → UInt64) (w : World β φ) :
    c.leaves own (w.serveCall pf h notices c)
      = (HandleCall.cells pf h backend).leave own w.requestAt c := by
  obtain ⟨-, hleft⟩ := HandleCall.cells_spec pf backend hstatic notices c w
  unfold HandleCall.leaves SharedCells.leave
  rw [hleft]
  change (c.call.pathKey?.elim own _) = c.call.pathKey?.elim own _
  cases hkey : c.call.pathKey? with
  | none => rfl
  | some key =>
      have hstep : (HandleCall.cells pf h backend).step w.requestAt c key
          = (HandleCall.cells pf h backend).next c (w.requestAt key) := by
        unfold SharedCells.step
        rw [show (HandleCall.cells pf h backend).cell c = some key from hkey, Option.elim_some,
          Function.update_self]
      rw [Option.elim_some, Option.elim_some, hstep]
      rfl

theorem undisturbed_iff_findsOwn (hstatic : h.StaticDirectories) (backend : β)
    (calls : List (HandleCall η φ)) (own : η → Str → UInt64) (w : World β φ) :
    (HandleCall.cells pf h backend).Undisturbed w.requestAt own calls
      ↔ w.FindsOwn pf h notices own calls := by
  induction calls generalizing own w with
  | nil => exact Iff.rfl
  | cons c rest ih =>
      obtain ⟨-, hleft⟩ := HandleCall.cells_spec pf backend hstatic notices c w
      have hrest := ih (c.leaves own (w.serveCall pf h notices c)) (w.serveCall pf h notices c)
      rw [hleft, leaves_eq pf notices hstatic backend] at hrest
      unfold SharedCells.Undisturbed FindsOwn
      rw [hrest, leaves_eq pf notices hstatic backend]
      refine and_congr_left fun _ => ?_
      cases hc : c.call.listedKey? with
      | none => simp [HandleCall.view_of_not_listed pf h backend hc]
      | some key =>
          rw [HandleCall.held_of_listed pf h backend hc, HandleCall.held_of_listed pf h backend hc]
          constructor
          · rintro hview key' hkey'
            obtain rfl : key = key' := Option.some.inj hkey'
            exact HandleCall.view_injective pf h backend hc hview
          · intro hfound
            rw [hfound key rfl]
            rfl

/-- Under every path key a handle leaves offset 0 until it lists. -/
theorem leaves_quiet (hstatic : h.StaticDirectories) (backend : β) {c : HandleCall η φ}
    {own : η → Str → UInt64} {handle : η} (hown : ∀ key, own handle key = 0)
    (hquiet : c.handle = handle → c.call.listedKey? = none) (w : World β φ) (key : Str) :
    c.leaves own (w.serveCall pf h notices c) handle key = 0 := by
  rw [leaves_eq pf notices hstatic backend]
  by_cases hc : c.handle = handle
  · have hnext : ∀ offset, (HandleCall.cells pf h backend).next c offset = 0 := fun offset => by
      simp [HandleCall.cells, hquiet hc]
    unfold SharedCells.leave
    cases (HandleCall.cells pf h backend).cell c with
    | none => exact hown key
    | some key' =>
        rw [Option.elim_some, hnext, show (HandleCall.cells pf h backend).user c = handle from hc,
          Function.update_self]
        by_cases hkey : key = key'
        · rw [hkey, Function.update_self]
        · rw [Function.update_of_ne hkey, hown]
  · rw [SharedCells.leave_of_ne (show (HandleCall.cells pf h backend).user c ≠ handle from hc), hown]

/-- A handle that has not listed yet finds offset 0. -/
theorem first_listing (hstatic : h.StaticDirectories) (backend : β)
    (before after : List (HandleCall η φ)) {c : HandleCall η φ} {own : η → Str → UInt64}
    {w : World β φ} (hown : ∀ key, own c.handle key = 0)
    (hquiet : ∀ c' ∈ before, c'.handle = c.handle → c'.call.listedKey? = none)
    (hfinds : w.FindsOwn pf h notices own (before ++ c :: after)) {key : Str}
    (hc : c.call.listedKey? = some key) : (w.serveCalls pf h notices before).requestAt key = 0 := by
  induction before generalizing own w with
  | nil => exact (hfinds.1 key hc).trans (hown key)
  | cons c' before ih =>
      exact ih (leaves_quiet pf notices hstatic backend hown (hquiet c' (List.mem_cons_self ..)) w)
        (fun c'' hc'' => hquiet c'' (List.mem_cons_of_mem _ hc'')) hfinds.2

omit [DecidableEq η] in
theorem requested_of_listed (hstatic : h.StaticDirectories) (backend : β) {c : HandleCall η φ}
    {key : Str} (hc : c.call.listedKey? = some key) (w : World β φ) :
    ∀ offset ∈ (w.listingOf pf h notices c).requested, offset = w.requestAt key := by
  intro offset hoffset
  rw [(HandleCall.cells_spec pf backend hstatic notices c w).1] at hoffset
  rw [HandleCall.held_of_listed pf h backend hc] at hoffset
  exact (HandleCall.view_requested pf h backend hc _).2 offset hoffset

theorem alone_iff (hstatic : h.StaticDirectories) (ttl : Duration) (backend : β) (caller : φ)
    (calls : List (HandleCall η φ)) :
    (∀ handle, (((World.initial ttl backend caller).listings pf h notices calls).filter
        fun l => l.1 = handle)
      = (World.initial ttl backend caller).listings pf h notices
          (calls.filter fun c => c.handle = handle))
      ↔ (World.initial ttl backend caller).FindsOwn pf h notices (fun _ _ => 0) calls := by
  rw [← undisturbed_iff_findsOwn pf notices hstatic backend,
    ← SharedCells.isolated_iff (HandleCall.cells_determined pf h backend)]
  refine forall_congr' fun handle => ?_
  rw [listings_eq pf notices hstatic backend, listings_eq pf notices hstatic backend]
  rfl

end World

/-- Handles that share path keys are isolated from each other exactly when every listing finds what
its own handle left. -/
theorem handles_isolated_iff {β φ η : Type} [DecidableEq η] (pf : Platform) (h : Host β φ)
    (notices : Notices) (hstatic : h.StaticDirectories) (ttl : Duration) (backend : β) (caller : φ)
    (calls : List (HandleCall η φ)) :
    (World.initial ttl backend caller).IsolatesHandles pf h notices calls
      ↔ (World.initial ttl backend caller).FindsOwn pf h notices (fun _ _ => 0) calls := by
  rw [← World.alone_iff pf notices hstatic]
  refine ⟨fun hisolated => hisolated.alone, fun halone => ⟨halone, ?_⟩⟩
  rintro before c after rfl hc hquiet offset hoffset
  obtain ⟨key, hkey⟩ := Option.ne_none_iff_exists'.mp hc
  have hfinds := (World.alone_iff pf notices hstatic ttl backend caller _).mp halone
  rw [World.requested_of_listed pf notices hstatic backend hkey _ offset hoffset]
  exact World.first_listing pf notices hstatic backend before after (fun _ => rfl) hquiet hfinds hkey

/-- A backend with a directory of one entry, at offset 1. -/
def oneEntry : (c : FsCall) → c.Reply
  | .readdir _ _ _ offset =>
      (⟨if offset = 0 then [⟨⟨6⟩, 1, .regularFile, .new ['a']⟩] else [], some (.ok ())⟩ : ReplyDirectory)
  | c => c.unanswered

/-- A handle of the directory with inode 5. -/
def handleOfFive : DirectoryHandle := ⟨{ ino := ⟨5⟩, isDir := true }, by decide⟩

def listFor (handle : ℕ) : HandleCall ℕ Unit := ⟨handle, .findFiles fileF handleOfFive, ()⟩

def closeFor (handle : ℕ) : HandleCall ℕ Unit := ⟨handle, .closeFile fileF handleOfFive, ()⟩

theorem handles_isolated_iff_closed :
    World.mounted.IsolatesHandles .ascii (.stateless oneEntry) undisturbed
      [listFor 0, listFor 0, closeFor 0, listFor 1] :=
  (handles_isolated_iff .ascii (.stateless oneEntry) undisturbed (fun _ _ _ _ => rfl) (.fromSecs 1) () ()
    [listFor 0, listFor 0, closeFor 0, listFor 1]).mpr (by
      refine ⟨?_, ?_, ?_, ?_, trivial⟩
      · rintro key ⟨⟩
        rfl
      · rintro key ⟨⟩
        rfl
      · rintro key ⟨⟩
      · rintro key ⟨⟩
        rfl)

/-- The second handle gets nothing: it is asked for from where the first one stopped. -/
theorem second_handle_resumes_first :
    ¬ ∀ (β φ η : Type) (_ : DecidableEq η) (pf : Platform) (h : Host β φ) (notices : Notices),
      h.StaticDirectories → ∀ (ttl : Duration) (backend : β) (caller : φ)
        (calls : List (HandleCall η φ)),
        (World.initial ttl backend caller).IsolatesHandles pf h notices calls := by
  intro hall
  have halone := (hall Unit Unit ℕ inferInstance .ascii (.stateless oneEntry) undisturbed
    (fun _ _ _ _ => rfl) (.fromSecs 1) () () [listFor 0, listFor 1]).alone 1
  have hrequested := congrArg (List.map fun l => l.2.requested) halone
  revert hrequested
  decide

end Confuse
