import Confuse.Callbacks

/-!
# Runs of a listing

A listing callback reads the offset remembered under its path key, asks the backend from there, fills
in entries and remembers the next offset. Everything between the two accesses to the offset leaves
the open state alone, and when directories are static it depends on the offset and the caller only.
-/

namespace Confuse

open Interaction

/-! ## What a listing shows -/

namespace Event

/-- The offset that a listing asks the backend for. -/
def requested? : Event → Option UInt64
  | .call (.readdir _ _ _ offset) _ => some offset
  | .call (.readdirplus _ _ _ offset) _ => some offset
  | _ => none

/-- The entry that the caller accepted. -/
def delivered? : Event → Option FindData
  | .fillFindData data true => some data
  | _ => none

end Event

/-- The offsets that are requested from the backend and the entries that are delivered. -/
structure Listing where
  requested : List UInt64
  delivered : List FindData
  deriving DecidableEq

def listing (evs : List Event) : Listing :=
  ⟨evs.filterMap Event.requested?, evs.filterMap Event.delivered?⟩

/-- A listing that asks for nothing and delivers nothing. -/
def Listing.none : Listing := ⟨[], []⟩

theorem listing_append (evs evs' : List Event) : listing (evs ++ evs')
    = ⟨(listing evs).requested ++ (listing evs').requested,
      (listing evs).delivered ++ (listing evs').delivered⟩ := by
  simp [listing]

theorem listing_append_congr {l l' m m' : List Event} (h : listing l = listing l')
    (h' : listing m = listing m') : listing (l ++ m) = listing (l' ++ m') := by
  rw [listing_append, listing_append, h, h']

theorem listing_of_silent {evs : List Event}
    (h : ∀ e ∈ evs, e.requested? = Option.none ∧ e.delivered? = Option.none) :
    listing evs = .none := by
  have hrequested : evs.filterMap Event.requested? = [] :=
    List.filterMap_eq_nil_iff.mpr fun e he => (h e he).1
  have hdelivered : evs.filterMap Event.delivered? = [] :=
    List.filterMap_eq_nil_iff.mpr fun e he => (h e he).2
  rw [listing, hrequested, hdelivered]
  rfl

theorem listing_notes {notes : List Event} (h : ∀ n ∈ notes, n.isNotify) :
    listing notes = .none := by
  refine listing_of_silent fun n hn => ?_
  have hnotify := h n hn
  cases n <;> first | exact ⟨rfl, rfl⟩ | simp [Event.isNotify] at hnotify

/-- What one effect shows, when it is answered. -/
def Effect.listed : (e : Effect) → e.Res → Listing
  | .fs (.readdir _ _ _ offset), _ => ⟨[offset], []⟩
  | .fs (.readdirplus _ _ _ offset), _ => ⟨[offset], []⟩
  | .fillFindData data, (true : Bool) => ⟨[], [data]⟩
  | _, _ => .none

theorem listing_of_leaves {e : Effect} {r : e.Res} {own : List Event} (h : e.Leaves r own) :
    listing own = e.listed r := by
  cases e with
  | fs c =>
      obtain rfl : own = [.call c r] := h
      cases c <;> rfl
  | table o =>
      obtain ⟨now, rfl⟩ := h
      rfl
  | deliver req o =>
      obtain ⟨now, forgets, rfl⟩ := h
      refine listing_of_silent fun e he => ?_
      rcases List.mem_cons.mp he with rfl | he
      · exact ⟨rfl, rfl⟩
      · obtain ⟨f, -, rfl⟩ := List.mem_map.mp he
        exact ⟨rfl, rfl⟩
  | openState o =>
      obtain rfl : own = [] := h
      rfl
  | fillFindData data =>
      obtain rfl : own = [.fillFindData data r] := h
      cases (r : Bool) <;> rfl
  | fillFindStreamData data =>
      obtain rfl : own = [.fillFindStreamData data r] := h
      rfl

theorem listing_of_emits {e : Effect} {r : e.Res} {evs : List Event} (h : Emits e r evs) :
    listing evs = e.listed r := by
  obtain ⟨notes, own, hnotes, hown, rfl⟩ := h
  rw [listing_append, listing_notes hnotes, listing_of_leaves hown]
  rfl

/-! ## The middle of a listing -/

/-- What `find_files` does between its two accesses to the offset. -/
def listEntries (req : Request) (ino : INodeNo) (fh : FileHandle) (offset : UInt64) :
    Routine (Except NtStatus (Option Int64 × Reply Unit)) := do
  let reply : ReplyDirectory ← Routine.fs (.readdir req ino fh offset)
  drainResolverForgets req
  onOk (← emitReaddirEntries req none reply.entries) fun emittedOffset =>
    pure (.ok (emittedOffset, reply.status))

/-- What `find_files_with_pattern` does between its two accesses to the offset. -/
def listMatchingEntries (pf : Platform) (req : Request) (fileName pattern : U16CStr) (ino : INodeNo)
    (fh : FileHandle) (offset : UInt64) :
    Routine (Except NtStatus (Option Int64 × Reply Unit)) := do
  let reply : ReplyDirectoryPlus ← Routine.fs (.readdirplus req ino fh offset)
  drainResolverForgets req
  if isUnsupported reply.status then do
    let fallback : ReplyDirectory ← Routine.fs (.readdir req ino fh offset)
    drainResolverForgets req
    onOk (← emitReaddirPatternEntries pf req pattern none fallback.entries) fun emittedOffset =>
      pure (.ok (emittedOffset, fallback.status))
  else do
    onOk (← emitReaddirplusPatternEntries pf req fileName pattern ino none reply.entries)
      fun emittedOffset => pure (.ok (emittedOffset, reply.status))

def rememberListed (pathKey : Str) (reqOffset : Int64) :
    Except NtStatus (Option Int64 × Reply Unit) → Routine (Except NtStatus Unit)
  | .error status => pure (.error status)
  | .ok (emittedOffset, status) => do
      rememberDirectoryOffset pathKey reqOffset emittedOffset
      pure (statusResult status)

theorem directoryIno_of_context {context : AdapterContext} (hino : context.ino ≠ ⟨0⟩)
    (pf : Platform) (req : Request) (pathKey : Str) :
    directoryIno pf req pathKey context = pure (.ok context.ino) := by
  simp [directoryIno, inoFromContextOrPath, hino, Option.filter]

theorem rememberListed_onOk (pathKey : Str) (reqOffset : Int64) (status : Reply Unit)
    (emitted : Except NtStatus (Option Int64)) :
    ((onOk emitted fun emittedOffset => pure (.ok (emittedOffset, status))) >>=
        rememberListed pathKey reqOffset)
      = onOk emitted fun emittedOffset =>
          rememberListed pathKey reqOffset (.ok (emittedOffset, status)) := by
  cases emitted <;> rfl

/-- The common shape of the two listings. -/
def listDirectory (pf : Platform) (req : Request) (pathKey : Str) (context : AdapterContext)
    (entries : INodeNo → UInt64 → Routine (Except NtStatus (Option Int64 × Reply Unit))) :
    Routine (Except NtStatus Unit) := do
  onOk (← directoryIno pf req pathKey context) fun ino => do
    let reqOffset ← directoryOffset pathKey
    let listed ← entries ino (readdirOffset reqOffset)
    rememberListed pathKey reqOffset listed

theorem findFiles_eq_listDirectory (pf : Platform) (fileName : U16CStr) (context : AdapterContext) :
    findFiles pf fileName context
      = listDirectory pf (requestFromIds context.requestIds) fileName.toStringLossy context
          fun ino offset => listEntries (requestFromIds context.requestIds) ino context.fh offset := by
  refine congrArg (directoryIno pf _ _ context >>= ·) (funext fun ino => congrArg (onOk ino) ?_)
  funext ino
  refine congrArg (directoryOffset fileName.toStringLossy >>= ·) (funext fun reqOffset => ?_)
  exact Prog.bind_eq_bind fun reply => Prog.bind_eq_bind fun _ => Prog.bind_eq_bind fun emitted =>
    (rememberListed_onOk _ _ _ _).symm

theorem findFilesWithPattern_eq_listDirectory (pf : Platform) (fileName pattern : U16CStr)
    (context : AdapterContext) : findFilesWithPattern pf fileName pattern context
      = listDirectory pf (requestFromIds context.requestIds) fileName.toStringLossy context
          fun ino offset => listMatchingEntries pf (requestFromIds context.requestIds) fileName pattern
            ino context.fh offset := by
  refine congrArg (directoryIno pf _ _ context >>= ·) (funext fun ino => congrArg (onOk ino) ?_)
  funext ino
  refine congrArg (directoryOffset fileName.toStringLossy >>= ·) (funext fun reqOffset => ?_)
  refine Prog.bind_eq_bind fun reply => Prog.bind_eq_bind fun _ => ?_
  by_cases hunsupported : isUnsupported (ReplyDirectoryPlus.status reply) = true
  · rw [if_pos hunsupported, if_pos hunsupported]
    exact Prog.bind_eq_bind fun fallback => Prog.bind_eq_bind fun _ =>
      Prog.bind_eq_bind fun emitted => (rememberListed_onOk _ _ _ _).symm
  · rw [if_neg hunsupported, if_neg hunsupported]
    exact Prog.bind_eq_bind fun emitted => (rememberListed_onOk _ _ _ _).symm

/-- A listing with a context that has an inode. -/
theorem listDirectory_of_context {context : AdapterContext} (hino : context.ino ≠ ⟨0⟩)
    (pf : Platform) (req : Request) (pathKey : Str)
    (entries : INodeNo → UInt64 → Routine (Except NtStatus (Option Int64 × Reply Unit))) :
    listDirectory pf req pathKey context entries = (do
      let reqOffset ← directoryOffset pathKey
      let listed ← entries context.ino (readdirOffset reqOffset)
      rememberListed pathKey reqOffset listed) := by
  unfold listDirectory
  rw [directoryIno_of_context hino]
  rfl

theorem findFiles_eq {context : AdapterContext} (hino : context.ino ≠ ⟨0⟩) (pf : Platform)
    (fileName : U16CStr) : findFiles pf fileName context = (do
      let reqOffset ← directoryOffset fileName.toStringLossy
      let listed ← listEntries (requestFromIds context.requestIds) context.ino context.fh
        (readdirOffset reqOffset)
      rememberListed fileName.toStringLossy reqOffset listed) := by
  rw [findFiles_eq_listDirectory, listDirectory_of_context hino]

theorem findFilesWithPattern_eq {context : AdapterContext} (hino : context.ino ≠ ⟨0⟩)
    (pf : Platform) (fileName pattern : U16CStr) :
    findFilesWithPattern pf fileName pattern context = (do
      let reqOffset ← directoryOffset fileName.toStringLossy
      let listed ← listMatchingEntries pf (requestFromIds context.requestIds) fileName pattern
        context.ino context.fh (readdirOffset reqOffset)
      rememberListed fileName.toStringLossy reqOffset listed) := by
  rw [findFilesWithPattern_eq_listDirectory, listDirectory_of_context hino]

/-! ## Routines that show nothing -/

/-- Effects that show nothing and keep the offsets. -/
def Effect.isStill : Effect → Bool
  | .fs (.readdir ..) | .fs (.readdirplus ..) | .fillFindData _ => false
  | .openState (.insertOffset ..) | .openState (.removeOffset _) | .openState (.remapOffsets ..) =>
      false
  | _ => true

theorem Effect.listed_of_isStill {e : Effect} (h : e.isStill = true) (r : e.Res) :
    e.listed r = .none := by
  cases e with
  | fs c => cases c <;> first | rfl | cases h
  | fillFindData data => cases h
  | _ => rfl

theorem still_listing {α : Type} {p : Routine α} (hp : p.Performs fun e : Effect => e.isStill) :
    p.EveryTrace Emits fun evs => listing evs = .none := by
  have hjoins : Prog.Joins fun evs => listing evs = .none := by
    refine ⟨rfl, fun h h' => ?_⟩
    rw [listing_append, h, h']
    rfl
  refine .of_performs hjoins (fun e r evs he hevs => ?_) hp
  exact (listing_of_emits hevs).trans (Effect.listed_of_isStill he r)

/-! ## Listings of static directories -/

/-- Calls that read directories and the attributes of their entries. -/
def FsCall.readsDirectory : FsCall → Bool
  | .readdir .. | .readdirplus .. | .getattr .. => true
  | _ => false

/-- Directories and the attributes of their entries do not change: what they answer depends on the
call alone. -/
def Host.StaticDirectories {β φ : Type} (h : Host β φ) : Prop :=
  ∀ c : FsCall, c.readsDirectory = true → ∀ b b', (h.reply c b).1 = (h.reply c b').1

/-- The effects between the two accesses to the offset, when it is `offset`. -/
def Effect.ListsAt (offset : UInt64) : Effect → Prop
  | .fs (.readdir _ _ _ o) => o = offset
  | .fs (.readdirplus _ _ _ o) => o = offset
  | .fs (.getattr ..) => True
  | .table (.rememberCreated _) | .deliver .. | .fillFindData _ => True
  | _ => False

/-! ### The effects of a listing -/

abbrev ListsAt (offset : UInt64) {α : Type} (p : Routine α) : Prop :=
  p.Performs (Effect.ListsAt offset)

namespace ListsAt
variable {offset : UInt64} {α γ : Type}

theorem bind {p : Routine α} {f : α → Routine γ} (hp : ListsAt offset p)
    (hf : ∀ a, ListsAt offset (f a)) : ListsAt offset (p >>= f) := Prog.Performs.bind hp hf

theorem effect {e : Effect} (h : e.ListsAt offset) :
    ListsAt offset (Prog.perform (S := effects) e) := Prog.Performs.perform h

theorem onOk {result : Except NtStatus γ} {f : γ → Routine (Except NtStatus α)}
    (hf : ∀ v, ListsAt offset (f v)) : ListsAt offset (onOk result f) :=
  onOk_cases (fun _ => .pure _) hf

theorem readdirEntryAttr (req : Request) (ino : INodeNo) :
    ListsAt offset (readdirEntryAttr req ino) := by
  refine bind (effect trivial) fun status => ?_
  rcases status with _ | ⟨err⟩ | ⟨payload⟩ <;> exact .pure _

theorem emitReaddirEntries (req : Request) (emittedOffset : Option Int64)
    (entries : List DirectoryEntryPayload) :
    ListsAt offset (emitReaddirEntries req emittedOffset entries) := by
  induction entries generalizing emittedOffset with
  | nil => exact .pure _
  | cons entry rest ih =>
      unfold Confuse.emitReaddirEntries
      refine bind (readdirEntryAttr req entry.ino) fun attr => ?_
      cases U16CStr.fromStr entry.name.toStringLossy with
      | none => exact .pure _
      | some fileName =>
          refine bind (effect trivial) fun accepted => ?_
          cases accepted with
          | true => exact ih _
          | false => exact .pure _

theorem emitReaddirPatternEntries (pf : Platform) (req : Request) (pattern : U16CStr)
    (emittedOffset : Option Int64) (entries : List DirectoryEntryPayload) :
    ListsAt offset (emitReaddirPatternEntries pf req pattern emittedOffset entries) := by
  induction entries generalizing emittedOffset with
  | nil => exact .pure _
  | cons entry rest ih =>
      unfold Confuse.emitReaddirPatternEntries
      cases U16CStr.fromStr entry.name.toStringLossy with
      | none => exact .pure _
      | some fileName =>
          dsimp only
          cases pf.isNameInExpression pattern fileName true with
          | false => exact ih _
          | true =>
              refine bind (readdirEntryAttr req entry.ino) fun attr =>
                bind (effect trivial) fun accepted => ?_
              cases accepted with
              | true => exact ih _
              | false => exact .pure _

theorem emitReaddirplusPatternEntries (pf : Platform) (req : Request) (fileName pattern : U16CStr)
    (ino : INodeNo) (emittedOffset : Option Int64) (entries : List DirectoryPlusEntryPayload) :
    ListsAt offset
      (emitReaddirplusPatternEntries pf req fileName pattern ino emittedOffset entries) := by
  induction entries generalizing emittedOffset with
  | nil => exact .pure _
  | cons entry rest ih =>
      unfold Confuse.emitReaddirplusPatternEntries
      cases U16CStr.fromStr (joinChildPath fileName entry.name) with
      | none => exact .pure _
      | some path =>
          refine bind (bind (effect trivial) fun _ => effect trivial) fun _ => ?_
          cases U16CStr.fromStr entry.name.toStringLossy with
          | none => exact .pure _
          | some name =>
              dsimp only
              cases pf.isNameInExpression pattern name true with
              | false => exact ih _
              | true =>
                  refine bind (effect trivial) fun accepted => ?_
                  cases accepted with
                  | true => exact ih _
                  | false => exact .pure _

theorem listEntries (req : Request) (ino : INodeNo) (fh : FileHandle) :
    ListsAt offset (listEntries req ino fh offset) :=
  bind (effect rfl) fun _ => bind (effect trivial) fun _ =>
    bind (emitReaddirEntries req none _) fun _ => onOk fun _ => .pure _

theorem listMatchingEntries (pf : Platform) (req : Request) (fileName pattern : U16CStr)
    (ino : INodeNo) (fh : FileHandle) :
    ListsAt offset (listMatchingEntries pf req fileName pattern ino fh offset) := by
  refine bind (effect rfl) fun reply => bind (effect trivial) fun _ => ?_
  split_ifs
  · exact bind (effect rfl) fun _ => bind (effect trivial) fun _ =>
      bind (emitReaddirPatternEntries pf req pattern none _) fun _ => onOk fun _ => .pure _
  · exact bind (emitReaddirplusPatternEntries pf req fileName pattern ino none _) fun _ =>
      onOk fun _ => .pure _

end ListsAt

/-- All requests of a listing are for its offset. -/
theorem requested_eq {α : Type} {offset : UInt64} {p : Routine α}
    (hp : p.Performs (Effect.ListsAt offset)) :
    p.EveryTrace Emits fun evs => ∀ o ∈ (listing evs).requested, o = offset := by
  refine .of_performs ⟨by simp [listing], fun h h' o ho => ?_⟩ (fun e r evs he hevs o ho => ?_) hp
  · rw [listing_append] at ho
    exact (List.mem_append.mp ho).elim (h o) (h' o)
  · rw [listing_of_emits hevs] at ho
    cases e with
    | fs c =>
        cases c <;> first | exact (List.mem_singleton.mp ho).trans he | cases ho
    | fillFindData data =>
        cases (r : Bool) <;> cases ho
    | _ => cases ho

namespace World
variable {β φ : Type}

theorem foldl_notify_caller (pf : Platform) (h : Host β φ) (ns : List NotifierCall) (w : World β φ) :
    (ns.foldl (notify pf h) w).caller = w.caller ∧
      (ns.foldl (notify pf h) w).openState = w.openState := by
  induction ns generalizing w with
  | nil => exact ⟨rfl, rfl⟩
  | cons n ns ih => exact ih (w.notify pf h n)

theorem foldl_forget_caller (h : Host β φ) (req : Request) (forgets : Forgets) (w : World β φ) :
    (forgets.foldl (forget h req) w).caller = w.caller ∧
      (forgets.foldl (forget h req) w).openState = w.openState := by
  induction forgets generalizing w with
  | nil => exact ⟨rfl, rfl⟩
  | cons f forgets ih => exact ih (w.forget h req f)

theorem deliver_caller (pf : Platform) (h : Host β φ) (req : Request) (o : DrainOp) (w : World β φ) :
    (w.deliver pf h req o).caller = w.caller ∧ (w.deliver pf h req o).openState = w.openState :=
  foldl_forget_caller h req _ _

variable (pf : Platform) (h : Host β φ)

theorem run_still {α : Type} {p : Routine α} (hp : p.Performs fun e : Effect => e.isStill)
    (notices : Notices) (w : World β φ) :
    (p.run (machine pf h notices) w).2.openState.dirOffsets = w.openState.dirOffsets := by
  refine hp.invariant (I := fun w' : World β φ => w'.openState.dirOffsets = w.openState.dirOffsets)
    (fun e w' he hw' => ?_) rfl
  have hbefore := (foldl_notify_caller pf h (notices w'.steps) w').2
  refine Eq.trans ?_ ((congrArg OpenState.dirOffsets hbefore).trans hw')
  cases e with
  | deliver req o => exact congrArg OpenState.dirOffsets (deliver_caller pf h req o _).2
  | openState o => cases o <;> first | rfl | cases he
  | _ => rfl

variable {h}

/-- An effect of a listing is answered alike wherever the caller stands alike. -/
theorem machine_alike (hstatic : h.StaticDirectories) {offset : UInt64} {e : Effect}
    (he : e.ListsAt offset) (notices notices' : Notices) {w w' : World β φ}
    (hcaller : w.caller = w'.caller) :
    (machine pf h notices e w).1 = (machine pf h notices' e w').1 ∧
      (machine pf h notices e w).2.caller = (machine pf h notices' e w').2.caller ∧
      (machine pf h notices e w).2.openState = w.openState := by
  obtain ⟨hnotified, hopen⟩ := foldl_notify_caller pf h (notices w.steps) w
  obtain ⟨hnotified', -⟩ := foldl_notify_caller pf h (notices' w'.steps) w'
  have hsame := (hnotified.trans hcaller).trans hnotified'.symm
  cases e with
  | fs c =>
      have hreads : c.readsDirectory = true := by cases c <;> first | rfl | cases he
      exact ⟨hstatic c hreads _ _, hsame, hopen⟩
  | table o => cases o <;> first | exact ⟨rfl, hsame, hopen⟩ | cases he
  | deliver req o =>
      obtain ⟨hdelivered, hkept⟩ := deliver_caller pf h req o ((notices w.steps).foldl (notify pf h) w)
      obtain ⟨hdelivered', -⟩ := deliver_caller pf h req o
        ((notices' w'.steps).foldl (notify pf h) w')
      exact ⟨rfl, (hdelivered.trans hsame).trans hdelivered'.symm, hkept.trans hopen⟩
  | fillFindData data =>
      exact ⟨congrArg (fun s => (h.fillFindData data s).1) hsame,
        congrArg (fun s => (h.fillFindData data s).2) hsame, hopen⟩
  | openState o => cases he
  | fillFindStreamData data => cases he

/-- So is a whole listing. -/
theorem run_alike (hstatic : h.StaticDirectories) {α : Type} {offset : UInt64} {p : Routine α}
    (hp : p.Performs (Effect.ListsAt offset)) (notices notices' : Notices) {w w' : World β φ}
    (hcaller : w.caller = w'.caller) :
    (p.run (machine pf h notices) w).1 = (p.run (machine pf h notices') w').1 ∧
      listing (w.newEvents pf h notices p) = listing (w'.newEvents pf h notices' p) ∧
      (p.run (machine pf h notices) w).2.openState = w.openState := by
  induction p generalizing w w' with
  | pure a =>
      refine ⟨rfl, congrArg listing ?_, rfl⟩
      exact (newEvents_pure pf h notices a w).trans (newEvents_pure pf h notices' a w').symm
  | op e next ih =>
      obtain ⟨hanswer, hafter, hopen⟩ := machine_alike pf hstatic hp.1 notices notices' hcaller
      obtain ⟨hresult, hlisted, hkept⟩ := ih _ (hp.2 (machine pf h notices e w).1) hafter
      have hshown : ∀ (n : Notices) (w : World β φ),
          listing (w.newEvents pf h n (Prog.perform e)) = e.listed (machine pf h n e w).1 :=
        fun n w => listing_of_emits (Prog.traces_perform.mp (newEvents_traces pf h n (Prog.perform e) w))
      refine ⟨?_, ?_, hkept.trans hopen⟩
      · rw [Prog.run_op, Prog.run_op, ← hanswer]
        exact hresult
      · rw [← Prog.perform_bind, newEvents_bind, newEvents_bind]
        refine listing_append_congr ?_ ?_
        · rw [hshown, hshown, hanswer]
        · rw [Prog.run_perform, Prog.run_perform, ← hanswer]
          exact hlisted

end World
end Confuse
