import Confuse.FailedCallbacks
import Confuse.Feeding

/-!
# What the listing loops offer

Each of the three loops over the entries of a listing offers the caller a list of records that depends
on the entries and on the attributes of their inodes alone, and ends with an error where a name has no
UTF-16 C string. A plan is such a list with its end; the runs of the loops follow their plans.
-/

namespace Confuse

open Interaction Feeding

/-! ## Plans -/

/-- The records to offer, each with the offset behind its entry, and whether the listing has an end
other than an unusable name. -/
structure ListingPlan where
  items : List (FindData × Int64)
  complete : Bool

namespace ListingPlan

def done : ListingPlan := ⟨[], true⟩

def unusable : ListingPlan := ⟨[], false⟩

def cons (item : FindData × Int64) (plan : ListingPlan) : ListingPlan :=
  ⟨item :: plan.items, plan.complete⟩

variable {φ : Type}

/-- Offer the records of a plan to the caller. -/
def fed (fill : FindData → φ → Bool × φ) (plan : ListingPlan) (caller : φ) :
    Fed (FindData × Int64) φ := feed (fun item => fill item.1) plan.items caller

/-- What the loop returns. -/
def result (plan : ListingPlan) (emittedOffset : Option Int64) (fed : Fed (FindData × Int64) φ) :
    Except NtStatus (Option Int64) :=
  if fed.accepted.length = plan.items.length ∧ plan.complete = false then
    .error STATUS_NOT_IMPLEMENTED
  else .ok ((fed.accepted.getLast?.map Prod.snd).or emittedOffset)

section Cons
variable {fill : FindData → φ → Bool × φ} {data : FindData} {offset : Int64} {caller : φ}
  (plan : ListingPlan)

theorem fed_cons_accepted (h : (fill data caller).1 = true) :
    (plan.cons (data, offset)).fed fill caller
      = ⟨(data, offset) :: (plan.fed fill (fill data caller).2).offered,
        (data, offset) :: (plan.fed fill (fill data caller).2).accepted,
        (plan.fed fill (fill data caller).2).state⟩ := feed_accepted h

theorem fed_cons_refused (h : (fill data caller).1 = false) :
    (plan.cons (data, offset)).fed fill caller = ⟨[(data, offset)], [], (fill data caller).2⟩ :=
  feed_refused h

/-- The first record is offered whatever becomes of it. -/
theorem fed_cons_head : ((plan.cons (data, offset)).fed fill caller).offered.head?
    = some (data, offset) := by
  cases hanswer : (fill data caller).1 with
  | false => rw [fed_cons_refused plan hanswer, List.head?_cons]
  | true => rw [fed_cons_accepted plan hanswer, List.head?_cons]

/-- Once a record is accepted its offset is the one to return, unless another one is accepted. -/
theorem result_cons_accepted (h : (fill data caller).1 = true) (emittedOffset : Option Int64) :
    (plan.cons (data, offset)).result emittedOffset ((plan.cons (data, offset)).fed fill caller)
      = plan.result (some offset) (plan.fed fill (fill data caller).2) := by
  rw [fed_cons_accepted plan h]
  unfold result cons
  simp only [List.length_cons, Nat.add_right_cancel_iff, List.getLast?_cons, Option.map_some]
  split_ifs
  · rfl
  · cases (plan.fed fill (fill data caller).2).accepted.getLast? <;> rfl

theorem result_cons_refused (h : (fill data caller).1 = false) (emittedOffset : Option Int64) :
    (plan.cons (data, offset)).result emittedOffset ((plan.cons (data, offset)).fed fill caller)
      = .ok emittedOffset := by
  rw [fed_cons_refused plan h]
  exact if_neg fun hall => by simp [cons] at hall

end Cons
end ListingPlan

/-- What `find_files` offers for an entry. -/
def plainData (entry : DirectoryEntryPayload) (attr : Option FileAttr) (fileName : U16CStr) :
    FindData where
  attributes := findFilesAttrFromKindAndPerm entry.kind (attr.map FileAttr.perm)
  creationTime := SystemTime.UNIX_EPOCH
  lastAccessTime := SystemTime.UNIX_EPOCH
  lastWriteTime := SystemTime.UNIX_EPOCH
  fileSize := 0
  fileName := fileName

/-- What the fallback of `find_files_with_pattern` offers for an entry. -/
def fullData (entry : DirectoryEntryPayload) (attr : Option FileAttr) (fileName : U16CStr) :
    FindData where
  attributes := findFilesAttrFromKindAndPerm entry.kind (attr.map FileAttr.perm)
  creationTime := attr.elim SystemTime.UNIX_EPOCH FileAttr.ctime
  lastAccessTime := attr.elim SystemTime.UNIX_EPOCH FileAttr.atime
  lastWriteTime := attr.elim SystemTime.UNIX_EPOCH FileAttr.mtime
  fileSize := attr.elim 0 FileAttr.size
  fileName := fileName

/-- What `find_files_with_pattern` offers for an entry that comes with its attributes. -/
def plusData (attr : FileAttr) (fileName : U16CStr) : FindData where
  attributes := filetypeToWindowsAttr attr.kind attr.perm
  creationTime := attr.ctime
  lastAccessTime := attr.atime
  lastWriteTime := attr.mtime
  fileSize := attr.size
  fileName := fileName

/-- The plan of the loops over `readdir` entries: `data` makes the records, `shows` selects names. -/
def readdirPlan (shows : U16CStr → Bool)
    (data : DirectoryEntryPayload → Option FileAttr → U16CStr → FindData)
    (attrs : INodeNo → Option FileAttr) : List DirectoryEntryPayload → ListingPlan
  | [] => .done
  | entry :: rest =>
      match U16CStr.fromStr entry.name.toStringLossy with
      | none => .unusable
      | some fileName =>
          if shows fileName then
            (readdirPlan shows data attrs rest).cons
              (data entry (attrs entry.ino) fileName, entry.offset.toInt64)
          else readdirPlan shows data attrs rest

/-- The plan of the loop over `readdirplus` entries. -/
def readdirplusPlan (directory : U16CStr) (shows : U16CStr → Bool) :
    List DirectoryPlusEntryPayload → ListingPlan
  | [] => .done
  | entry :: rest =>
      match U16CStr.fromStr (joinChildPath directory entry.name) with
      | none => .unusable
      | some _ =>
          match U16CStr.fromStr entry.name.toStringLossy with
          | none => .unusable
          | some fileName =>
              if shows fileName then
                (readdirplusPlan directory shows rest).cons
                  (plusData entry.attr fileName, entry.offset.toInt64)
              else readdirplusPlan directory shows rest

/-! ## What a run shows the caller -/

/-- The record that the caller is offered. -/
def Event.offered? : Event → Option FindData
  | .fillFindData data _ => some data
  | _ => none

/-- The records that the caller is offered, in order. -/
def offered (evs : List Event) : List FindData := evs.filterMap Event.offered?

theorem offered_append (evs evs' : List Event) : offered (evs ++ evs') = offered evs ++ offered evs' :=
  List.filterMap_append

/-- Effects that show the caller nothing and keep the open state. -/
def Effect.isUnshown : Effect → Bool
  | .fs _ | .table _ | .deliver _ _ | .openState (.directoryOffset _) => true
  | _ => false

theorem offered_notes {notes : List Event} (h : ∀ n ∈ notes, n.isNotify) : offered notes = [] := by
  refine List.filterMap_eq_nil_iff.mpr fun n hn => ?_
  have hnote := h n hn
  cases n <;> first | rfl | cases hnote

namespace World
variable {β φ : Type} (pf : Platform) (h : Host β φ) (notices : Notices)

/-- The second world looks to the caller like the first one. -/
structure Unshown (w w' : World β φ) : Prop where
  caller : w'.caller = w.caller
  openState : w'.openState = w.openState
  offered : offered w'.log = offered w.log

theorem Unshown.refl (w : World β φ) : w.Unshown w := ⟨rfl, rfl, rfl⟩

theorem Unshown.trans {w w' w'' : World β φ} (hw : w.Unshown w') (hw' : w'.Unshown w'') :
    w.Unshown w'' :=
  ⟨hw'.caller.trans hw.caller, hw'.openState.trans hw.openState, hw'.offered.trans hw.offered⟩

/-- The events of one effect. -/
theorem machine_log (e : Effect) (w : World β φ) : ∃ notes own, (∀ n ∈ notes, Event.isNotify n) ∧
    e.Leaves (machine pf h notices e w).1 own ∧
      (machine pf h notices e w).2.log = w.log ++ (notes ++ own) := by
  obtain ⟨notes, own, hnotes, hown, hevents⟩ := Prog.traces_perform.mp
    (newEvents_traces pf h notices (Prog.perform e) w)
  refine ⟨notes, own, hnotes, hown, ?_⟩
  rw [← hevents]
  exact run_log pf h notices (Prog.perform e) w

/-- The open state is none of the caller's business. -/
theorem machine_openState_unshown (o : OpenStateOp) (w : World β φ) :
    (machine pf h notices (.openState o) w).2.caller = w.caller ∧
      offered (machine pf h notices (.openState o) w).2.log = offered w.log := by
  obtain ⟨hcaller, -⟩ := foldl_notify_caller pf h (notices w.steps) w
  obtain ⟨notes, own, hnotes, hown, hlog⟩ := machine_log pf h notices (.openState o) w
  refine ⟨hcaller, ?_⟩
  rw [hlog, offered_append, offered_append, offered_notes hnotes, show own = [] from hown]
  simp [offered]

theorem machine_unshown {e : Effect} (he : e.isUnshown = true) (w : World β φ) :
    w.Unshown (machine pf h notices e w).2 := by
  obtain ⟨hcaller, hopen⟩ := foldl_notify_caller pf h (notices w.steps) w
  obtain ⟨notes, own, hnotes, hown, hlog⟩ := machine_log pf h notices e w
  have hoffered : Confuse.offered own = [] → Confuse.offered (machine pf h notices e w).2.log
      = Confuse.offered w.log := by
    intro hnone
    rw [hlog, offered_append, offered_append, offered_notes hnotes, hnone]
    simp
  cases e with
  | fs c =>
      refine ⟨hcaller, hopen, hoffered ?_⟩
      rw [show own = [.call c _] from hown]
      rfl
  | table o =>
      obtain ⟨now, rfl⟩ := hown
      exact ⟨hcaller, hopen, hoffered rfl⟩
  | deliver req o =>
      obtain ⟨hdelivered, hkept⟩ := deliver_caller pf h req o ((notices w.steps).foldl (notify pf h) w)
      obtain ⟨now, forgets, rfl⟩ := hown
      refine ⟨hdelivered.trans hcaller, hkept.trans hopen, hoffered ?_⟩
      refine List.filterMap_eq_nil_iff.mpr fun ev hev => ?_
      rcases List.mem_cons.mp hev with rfl | hev
      · rfl
      · obtain ⟨f, -, rfl⟩ := List.mem_map.mp hev
        rfl
  | openState o =>
      obtain ⟨hcaller, hoffered⟩ := machine_openState_unshown pf h notices o w
      cases o with
      | directoryOffset key => exact ⟨hcaller, (machine_openState pf h notices _ w).2.1, hoffered⟩
      | _ => cases he
  | fillFindData data => cases he
  | fillFindStreamData data => cases he

theorem run_unshown {α : Type} {p : Routine α} (hp : p.Performs fun e : Effect => e.isUnshown)
    (w : World β φ) : w.Unshown (p.run (machine pf h notices) w).2 :=
  hp.invariant (I := fun w' => w.Unshown w')
    (fun _ w' he hw' => hw'.trans (machine_unshown pf h notices he w')) (.refl w)

/-- Offering a record. -/
theorem machine_fill (data : FindData) (w : World β φ) :
    (machine pf h notices (.fillFindData data) w).1 = (h.fillFindData data w.caller).1 ∧
      (machine pf h notices (.fillFindData data) w).2.caller = (h.fillFindData data w.caller).2 ∧
      (machine pf h notices (.fillFindData data) w).2.openState = w.openState ∧
      offered (machine pf h notices (.fillFindData data) w).2.log = offered w.log ++ [data] := by
  obtain ⟨hcaller, hopen⟩ := foldl_notify_caller pf h (notices w.steps) w
  obtain ⟨notes, own, hnotes, hown, hlog⟩ := machine_log pf h notices (.fillFindData data) w
  refine ⟨congrArg (fun s => (h.fillFindData data s).1) hcaller,
    congrArg (fun s => (h.fillFindData data s).2) hcaller, hopen, ?_⟩
  rw [hlog, offered_append, offered_append, offered_notes hnotes,
    show own = [.fillFindData data _] from hown]
  rfl

end World

/-! ## The loops follow their plans -/

section Follows
variable {β φ : Type} (pf : Platform) (h : Host β φ) (notices : Notices)

/-- A run offers the records of the plan, and its result depends on what the caller makes of them. -/
structure Follows {ρ : Type} (plan : ListingPlan) (outcome : Fed (FindData × Int64) φ → ρ)
    (p : Routine ρ) : Prop where
  result : ∀ w, (p.run (machine pf h notices) w).1 = outcome (plan.fed h.fillFindData w.caller)
  caller : ∀ w, (p.run (machine pf h notices) w).2.caller
    = (plan.fed h.fillFindData w.caller).state
  openState : ∀ w, (p.run (machine pf h notices) w).2.openState = w.openState
  offered : ∀ w, offered (p.run (machine pf h notices) w).2.log
    = offered w.log ++ (plan.fed h.fillFindData w.caller).offered.map Prod.fst

namespace Follows
variable {pf h notices} {ρ : Type} {plan : ListingPlan} {outcome : Fed (FindData × Int64) φ → ρ}
  {emittedOffset : Option Int64}

theorem done :
    Follows pf h notices .done (ListingPlan.done.result emittedOffset) (pure (.ok emittedOffset)) :=
  ⟨fun _ => rfl, fun _ => rfl, fun _ => rfl, fun _ => (List.append_nil _).symm⟩

theorem unusable : Follows pf h notices .unusable (ListingPlan.unusable.result emittedOffset)
    (pure (.error STATUS_NOT_IMPLEMENTED)) :=
  ⟨fun _ => rfl, fun _ => rfl, fun _ => rfl, fun _ => (List.append_nil _).symm⟩

/-- A result may be worked on after a run. -/
theorem map {τ : Type} {p : Routine ρ} (hp : Follows pf h notices plan outcome p) {f : ρ → Routine τ}
    {g : ρ → τ} (hf : ∀ r, f r = pure (g r)) :
    Follows pf h notices plan (fun fed => g (outcome fed)) (p >>= f) := by
  refine ⟨fun w => ?_, fun w => ?_, fun w => ?_, fun w => ?_⟩ <;> rw [Prog.run_bind, hf]
  · rw [← hp.result w]
    rfl
  · exact hp.caller w
  · exact hp.openState w
  · exact hp.offered w

/-- Effects that the caller does not see may come before a loop. -/
theorem after {γ : Type} {p : Routine γ} (hp : p.Performs fun e : Effect => e.isUnshown)
    {P : γ → Prop} (hP : ∀ w, P (p.run (machine pf h notices) w).1)
    {f : γ → Routine ρ} (hf : ∀ v, P v → Follows pf h notices plan outcome (f v)) :
    Follows pf h notices plan outcome (p >>= f) := by
  have hrest : ∀ w : World β φ, Follows pf h notices plan outcome
      (f (p.run (machine pf h notices) w).1) := fun w => hf _ (hP w)
  refine ⟨fun w => ?_, fun w => ?_, fun w => ?_, fun w => ?_⟩ <;>
    rw [Prog.run_bind] <;> have hseen := World.run_unshown pf h notices hp w
  · rw [(hrest w).result, hseen.caller]
  · rw [(hrest w).caller, hseen.caller]
  · rw [(hrest w).openState, hseen.openState]
  · rw [(hrest w).offered, hseen.offered, hseen.caller]

/-- Offer one record and go on if it is accepted. -/
theorem offer {data : FindData} {offset : Int64} {q : Routine (Except NtStatus (Option Int64))}
    (hq : Follows pf h notices plan (plan.result (some offset)) q) :
    Follows pf h notices (plan.cons (data, offset))
      ((plan.cons (data, offset)).result emittedOffset) (do
      let accepted ← Routine.fillFindData data
      if accepted then q else pure (.ok emittedOffset)) := by
  have hrun : ∀ w, ((do
      let accepted ← Routine.fillFindData data
      if accepted then q else pure (.ok emittedOffset)) : Routine _).run (machine pf h notices) w
        = (if (h.fillFindData data w.caller).1 then q else pure (.ok emittedOffset)).run
          (machine pf h notices) (machine pf h notices (.fillFindData data) w).2 := by
    intro w
    rw [← (World.machine_fill pf h notices data w).1]
    rfl
  refine ⟨fun w => ?_, fun w => ?_, fun w => ?_, fun w => ?_⟩ <;> rw [hrun] <;>
    obtain ⟨-, hcaller, hopen, hoffered⟩ := World.machine_fill pf h notices data w <;>
    cases hanswer : (h.fillFindData data w.caller).1
  · rw [ListingPlan.result_cons_refused plan hanswer]
    rfl
  · rw [if_pos rfl, hq.result, hcaller, ListingPlan.result_cons_accepted plan hanswer]
  · rw [ListingPlan.fed_cons_refused plan hanswer]
    exact hcaller
  · rw [if_pos rfl, hq.caller, hcaller, ListingPlan.fed_cons_accepted plan hanswer]
  · exact hopen
  · rw [if_pos rfl, hq.openState, hopen]
  · rw [ListingPlan.fed_cons_refused plan hanswer]
    exact hoffered
  · rw [if_pos rfl, hq.offered, hoffered, hcaller, ListingPlan.fed_cons_accepted plan hanswer]
    simp

end Follows

/-- In any state the file system reports these attributes for the inodes of the entries. -/
def Host.Reports (attrs : INodeNo → Option FileAttr) (entries : List DirectoryEntryPayload) : Prop :=
  ∀ entry ∈ entries, ∀ req b, (Reply.toOption (α := ReplyAttrPayload)
    (h.reply (.getattr req entry.ino none) b).1).map ReplyAttrPayload.attr = attrs entry.ino

variable {h}

theorem run_readdirEntryAttr {attrs : INodeNo → Option FileAttr} {entries : List DirectoryEntryPayload}
    (hattrs : h.Reports attrs entries) {entry : DirectoryEntryPayload} (hentry : entry ∈ entries)
    (req : Request) (w : World β φ) :
    ((readdirEntryAttr req entry.ino).run (machine pf h notices) w).1 = attrs entry.ino := by
  have hread : readdirEntryAttr req entry.ino
      = Routine.fs (.getattr req entry.ino none) >>= fun status : Reply ReplyAttrPayload =>
        pure (status.toOption.map ReplyAttrPayload.attr) := by
    refine congrArg (Routine.fs (.getattr req entry.ino none) >>= ·) (funext fun status => ?_)
    rcases status with _ | ⟨err⟩ | ⟨payload⟩ <;> rfl
  refine (congrArg (fun p => (p.run (machine pf h notices) w).1) hread).trans ?_
  have hreply := World.machine_fs_reply pf h notices (.getattr req entry.ino none) w
  exact (congrArg (fun reply : Reply ReplyAttrPayload => reply.toOption.map ReplyAttrPayload.attr)
    hreply).trans (hattrs entry hentry req w.backend)

theorem readdirEntryAttr_unshown (req : Request) (ino : INodeNo) :
    (readdirEntryAttr req ino).Performs fun e : Effect => e.isUnshown := by
  refine .bind (.perform rfl) fun status => ?_
  rcases status with _ | ⟨err⟩ | ⟨payload⟩ <;> exact .pure _

theorem Host.Reports.rest {attrs : INodeNo → Option FileAttr} {entry : DirectoryEntryPayload}
    {rest : List DirectoryEntryPayload} (h' : h.Reports attrs (entry :: rest)) :
    h.Reports attrs rest := fun entry' hentry' => h' entry' (List.mem_cons_of_mem entry hentry')

theorem emitReaddirEntries_follows {attrs : INodeNo → Option FileAttr}
    {entries : List DirectoryEntryPayload} (hattrs : h.Reports attrs entries) (req : Request)
    (emittedOffset : Option Int64) :
    Follows pf h notices (readdirPlan (fun _ => true) plainData attrs entries)
      ((readdirPlan (fun _ => true) plainData attrs entries).result emittedOffset)
      (emitReaddirEntries req emittedOffset entries) := by
  induction entries generalizing emittedOffset with
  | nil => exact .done
  | cons entry rest ih =>
      unfold emitReaddirEntries readdirPlan
      refine .after (readdirEntryAttr_unshown req entry.ino) (P := fun attr => attr = attrs entry.ino)
        (run_readdirEntryAttr pf notices hattrs List.mem_cons_self req) fun attr hattr => ?_
      cases U16CStr.fromStr entry.name.toStringLossy with
      | none => exact .unusable
      | some fileName =>
          subst hattr
          exact .offer (ih hattrs.rest _)

theorem emitReaddirPatternEntries_follows {attrs : INodeNo → Option FileAttr}
    {entries : List DirectoryEntryPayload} (hattrs : h.Reports attrs entries) (req : Request)
    (pattern : U16CStr) (emittedOffset : Option Int64) :
    let plan := readdirPlan (fun name => pf.isNameInExpression pattern name true) fullData attrs entries
    Follows pf h notices plan (plan.result emittedOffset)
      (emitReaddirPatternEntries pf req pattern emittedOffset entries) := by
  induction entries generalizing emittedOffset with
  | nil => exact .done
  | cons entry rest ih =>
      unfold emitReaddirPatternEntries readdirPlan
      cases U16CStr.fromStr entry.name.toStringLossy with
      | none => exact .unusable
      | some fileName =>
          dsimp only
          cases pf.isNameInExpression pattern fileName true with
          | false => exact ih hattrs.rest emittedOffset
          | true =>
              refine .after (readdirEntryAttr_unshown req entry.ino)
                (P := fun attr => attr = attrs entry.ino)
                (run_readdirEntryAttr pf notices hattrs List.mem_cons_self req) fun attr hattr => ?_
              subst hattr
              exact .offer (ih hattrs.rest _)

theorem emitReaddirplusPatternEntries_follows (req : Request) (fileName pattern : U16CStr)
    (ino : INodeNo) (emittedOffset : Option Int64) (entries : List DirectoryPlusEntryPayload) :
    let plan := readdirplusPlan fileName (fun name => pf.isNameInExpression pattern name true) entries
    Follows pf h notices plan (plan.result emittedOffset)
      (emitReaddirplusPatternEntries pf req fileName pattern ino emittedOffset entries) := by
  induction entries generalizing emittedOffset with
  | nil => exact .done
  | cons entry rest ih =>
      unfold emitReaddirplusPatternEntries readdirplusPlan
      cases U16CStr.fromStr (joinChildPath fileName entry.name) with
      | none => exact .unusable
      | some path =>
          refine .after (.bind (.perform rfl) fun _ => .perform rfl) (P := fun _ => True)
            (fun _ => trivial) fun _ _ => ?_
          cases U16CStr.fromStr entry.name.toStringLossy with
          | none => exact .unusable
          | some name =>
              dsimp only
              cases pf.isNameInExpression pattern name true with
              | false => exact ih emittedOffset
              | true => exact .offer (ih _)

/-! ## The routes -/

/-- What a route returns for a plan and the status of its reply. -/
def ListingPlan.listed (plan : ListingPlan) (status : Reply Unit) (fed : Fed (FindData × Int64) φ) :
    Except NtStatus (Option Int64 × Reply Unit) :=
  (plan.result none fed).map fun emittedOffset => (emittedOffset, status)

theorem onOk_pair (status : Reply Unit) (emitted : Except NtStatus (Option Int64)) :
    (onOk emitted fun emittedOffset => pure (.ok (emittedOffset, status)))
      = pure (emitted.map fun emittedOffset => (emittedOffset, status)) := by
  cases emitted <;> rfl

/-- An answer that does not depend on the state of the file system comes before a loop. -/
theorem Follows.answered {ρ : Type} {plan : ListingPlan} {outcome : Fed (FindData × Int64) φ → ρ}
    {c : FsCall} {reply : c.Reply} (hreply : ∀ b, (h.reply c b).1 = reply)
    {f : c.Reply → Routine ρ} (hf : Follows pf h notices plan outcome (f reply)) :
    Follows pf h notices plan outcome (Routine.fs c >>= f) := by
  have hp : (Routine.fs c).Performs fun e : Effect => e.isUnshown := .perform rfl
  refine .after hp (P := fun answer : c.Reply => answer = reply) (fun w => ?_) fun answer hanswer => ?_
  · exact (World.machine_fs_reply pf h notices c w).trans (hreply w.backend)
  · rw [hanswer]
    exact hf

theorem Follows.drained {ρ : Type} {plan : ListingPlan} {outcome : Fed (FindData × Int64) φ → ρ}
    (req : Request) {f : Unit → Routine ρ} (hf : Follows pf h notices plan outcome (f ())) :
    Follows pf h notices plan outcome (drainResolverForgets req >>= f) :=
  .after (.perform rfl) (P := fun _ => True) (fun _ => trivial) fun _ _ => hf

theorem listEntries_follows {attrs : INodeNo → Option FileAttr} {reply : ReplyDirectory}
    (req : Request) {ino : INodeNo} {fh : FileHandle} {offset : UInt64}
    (hreaddir : ∀ b, (h.reply (.readdir req ino fh offset) b).1 = reply)
    (hattrs : h.Reports attrs reply.entries) :
    let plan := readdirPlan (fun _ => true) plainData attrs reply.entries
    Follows pf h notices plan (plan.listed reply.status) (listEntries req ino fh offset) :=
  .answered pf notices hreaddir (.drained pf notices req
    ((emitReaddirEntries_follows pf notices hattrs req none).map (onOk_pair reply.status)))

/-- `find_files_with_pattern` on a file system without `readdirplus`. -/
theorem listMatchingEntries_fallback_follows {attrs : INodeNo → Option FileAttr}
    {reply : ReplyDirectory} (req : Request) (fileName pattern : U16CStr) {ino : INodeNo}
    {fh : FileHandle} {offset : UInt64}
    (hplus : ∀ b, isUnsupported (ReplyDirectoryPlus.status
      (h.reply (.readdirplus req ino fh offset) b).1) = true)
    (hreaddir : ∀ b, (h.reply (.readdir req ino fh offset) b).1 = reply)
    (hattrs : h.Reports attrs reply.entries) :
    let plan := readdirPlan (fun name => pf.isNameInExpression pattern name true) fullData attrs
      reply.entries
    Follows pf h notices plan (plan.listed reply.status)
      (listMatchingEntries pf req fileName pattern ino fh offset) := by
  have hp : (Routine.fs (.readdirplus req ino fh offset)).Performs fun e : Effect => e.isUnshown :=
    .perform rfl
  refine .after hp (P := fun answer : ReplyDirectoryPlus => isUnsupported answer.status = true)
    (fun w => ?_) fun answer hanswer => .drained pf notices req ?_
  · have hreply := World.machine_fs_reply pf h notices (.readdirplus req ino fh offset) w
    exact (congrArg (fun answer : ReplyDirectoryPlus => isUnsupported answer.status) hreply).trans
      (hplus w.backend)
  · rw [if_pos hanswer]
    exact .answered pf notices hreaddir (.drained pf notices req
      ((emitReaddirPatternEntries_follows pf notices hattrs req pattern none).map
        (onOk_pair reply.status)))

theorem listMatchingEntries_plus_follows {reply : ReplyDirectoryPlus} (req : Request)
    (fileName pattern : U16CStr) {ino : INodeNo} {fh : FileHandle} {offset : UInt64}
    (hplus : ∀ b, (h.reply (.readdirplus req ino fh offset) b).1 = reply)
    (hsupported : isUnsupported reply.status = false) :
    let plan := readdirplusPlan fileName (fun name => pf.isNameInExpression pattern name true)
      reply.entries
    Follows pf h notices plan (plan.listed reply.status)
      (listMatchingEntries pf req fileName pattern ino fh offset) := by
  refine .answered pf notices hplus (.drained pf notices req ?_)
  rw [if_neg (by simp [hsupported])]
  exact (emitReaddirplusPatternEntries_follows pf notices req fileName pattern ino none
    reply.entries).map (onOk_pair reply.status)

end Follows

/-! ## What a listing leaves -/

/-- What the caller sees of a listing: its result, what it was offered and its state after it, and the
open state, in which the offset is stored. -/
@[ext]
structure CallerView (φ : Type) where
  result : Except NtStatus Unit
  offered : List FindData
  caller : φ
  openState : OpenState

/-- What a plan leaves: the offset is stored under the key unless the listing ends with an error. -/
def ListingPlan.view {φ : Type} (plan : ListingPlan) (status : Reply Unit) (pathKey : Str)
    (reqOffset : Int64) (fill : FindData → φ → Bool × φ) (caller : φ) (openState : OpenState) :
    CallerView φ :=
  let fed := plan.fed fill caller
  match plan.result none fed with
  | .error err => ⟨.error err, fed.offered.map Prod.fst, fed.state, openState⟩
  | .ok emittedOffset =>
      ⟨statusResult status, fed.offered.map Prod.fst, fed.state, { openState with
        dirOffsets := openState.dirOffsets.insert pathKey
          (advanceOffsetOnEmitted reqOffset emittedOffset) }⟩

namespace ListingPlan
variable {φ : Type} {plan : ListingPlan} {status : Reply Unit} {pathKey : Str} {reqOffset : Int64}
  {fill : FindData → φ → Bool × φ} {caller : φ} {openState : OpenState}

theorem view_error {err : NtStatus} (h : plan.result none (plan.fed fill caller) = .error err) :
    plan.view status pathKey reqOffset fill caller openState
      = ⟨.error err, (plan.fed fill caller).offered.map Prod.fst, (plan.fed fill caller).state,
        openState⟩ := by
  unfold view
  dsimp only
  rw [h]

theorem view_ok {emittedOffset : Option Int64}
    (h : plan.result none (plan.fed fill caller) = .ok emittedOffset) :
    plan.view status pathKey reqOffset fill caller openState
      = ⟨statusResult status, (plan.fed fill caller).offered.map Prod.fst,
        (plan.fed fill caller).state, { openState with
          dirOffsets := openState.dirOffsets.insert pathKey
            (advanceOffsetOnEmitted reqOffset emittedOffset) }⟩ := by
  unfold view
  dsimp only
  rw [h]

/-- Plans that go the same way and end alike leave the same. -/
theorem view_congr {plan' : ListingPlan} (hfed : plan.fed fill caller = plan'.fed fill caller)
    (hresult : plan.result none (plan.fed fill caller) = plan'.result none (plan'.fed fill caller)) :
    plan.view status pathKey reqOffset fill caller openState
      = plan'.view status pathKey reqOffset fill caller openState := by
  unfold view
  dsimp only
  rw [hresult, hfed]

@[simp] theorem view_offered : (plan.view status pathKey reqOffset fill caller openState).offered
    = (plan.fed fill caller).offered.map Prod.fst := by
  unfold view
  dsimp only
  split <;> rfl

end ListingPlan

namespace World
variable {β φ : Type} (pf : Platform) (h : Host β φ) (notices : Notices)

/-- What the caller sees of a run. -/
def view (p : Routine (Except NtStatus Unit)) (w : World β φ) : CallerView φ where
  result := (p.run (machine pf h notices) w).1
  offered := offered (w.newEvents pf h notices p)
  caller := (p.run (machine pf h notices) w).2.caller
  openState := (p.run (machine pf h notices) w).2.openState

theorem offered_newEvents {α : Type} {p : Routine α} {w : World β φ} {data : List FindData}
    (hdata : offered (p.run (machine pf h notices) w).2.log = offered w.log ++ data) :
    offered (w.newEvents pf h notices p) = data := by
  rw [run_log, offered_append] at hdata
  exact List.append_cancel_left hdata

section Listing
variable (req : Request) (pathKey : Str) (context : AdapterContext)
  (entries : INodeNo → UInt64 → Routine (Except NtStatus (Option Int64 × Reply Unit)))

theorem directoryIno_walks : Walks (directoryIno pf req pathKey context) := by
  unfold directoryIno
  split
  · exact .pure _
  · refine .bind (.resolvePathIno req pf _) fun resolved => ?_
    cases resolved <;> exact .pure _

theorem directoryIno_unshown :
    (directoryIno pf req pathKey context).Performs fun e : Effect => e.isUnshown := by
  refine (directoryIno_walks pf req pathKey context).mono fun e he => ?_
  cases e <;> first | rfl | cases he

/-- Without an inode there is nothing to list. -/
theorem view_listDirectory_error {w : World β φ} {err : NtStatus}
    (hino : ((directoryIno pf req pathKey context).run (machine pf h notices) w).1 = .error err) :
    w.view pf h notices (listDirectory pf req pathKey context entries)
      = ⟨.error err, [], w.caller, w.openState⟩ := by
  have hseen := run_unshown pf h notices (directoryIno_unshown pf req pathKey context) w
  have hrun : (listDirectory pf req pathKey context entries).run (machine pf h notices) w
      = (.error err, ((directoryIno pf req pathKey context).run (machine pf h notices) w).2) := by
    unfold listDirectory
    rw [Prog.run_bind, hino]
    rfl
  have hoffered : offered (w.newEvents pf h notices
      (listDirectory pf req pathKey context entries)) = [] :=
    offered_newEvents pf h notices (by rw [hrun, hseen.offered, List.append_nil])
  unfold view
  rw [hrun, hoffered, hseen.caller, hseen.openState]

theorem run_listUnremembered {w : World β φ} {ino : INodeNo}
    (hino : ((directoryIno pf req pathKey context).run (machine pf h notices) w).1 = .ok ino) :
    ∃ w₁ : World β φ, w.Unshown w₁ ∧
      (listUnremembered pf req pathKey context entries).run (machine pf h notices) w
        = (entries ino (w.requestAt pathKey)).run (machine pf h notices) w₁ := by
  have hseen := run_unshown pf h notices (directoryIno_unshown pf req pathKey context) w
  set w₁ := ((directoryIno pf req pathKey context).run (machine pf h notices) w).2 with hw₁
  refine ⟨(machine pf h notices (.openState (.directoryOffset pathKey)) w₁).2,
    hseen.trans (machine_unshown pf h notices rfl w₁), ?_⟩
  have hoffset : ((directoryOffset pathKey).run (machine pf h notices) w₁).1 = w.offsetAt pathKey := by
    refine (machine_openState pf h notices (.directoryOffset pathKey) w₁).1.trans ?_
    rw [offsetAt, ← hseen.openState]
    rfl
  unfold listUnremembered
  rw [Prog.run_bind, hino, ← hw₁]
  dsimp only [onOk]
  rw [Prog.run_bind, hoffset]
  rfl

/-- A listing whose entries follow a plan leaves what the plan leaves. -/
theorem view_listDirectory {w : World β φ} {ino : INodeNo} {plan : ListingPlan} {status : Reply Unit}
    (hino : ((directoryIno pf req pathKey context).run (machine pf h notices) w).1 = .ok ino)
    (hentries : Follows pf h notices plan (plan.listed status) (entries ino (w.requestAt pathKey))) :
    w.view pf h notices (listDirectory pf req pathKey context entries)
      = plan.view status pathKey (w.offsetAt pathKey) h.fillFindData w.caller w.openState := by
  obtain ⟨w₁, hseen, hrun⟩ := run_listUnremembered pf h notices req pathKey context entries hino
  have hlisted : (plan.result none (plan.fed h.fillFindData w.caller)).map (fun o => (o, status))
      = ((entries ino (w.requestAt pathKey)).run (machine pf h notices) w₁).1 := by
    rw [hentries.result, hseen.caller]
    rfl
  set w₂ := ((entries ino (w.requestAt pathKey)).run (machine pf h notices) w₁).2 with hw₂
  have hcaller : w₂.caller = (plan.fed h.fillFindData w.caller).state := by
    rw [hw₂, hentries.caller, hseen.caller]
  have hopen : w₂.openState = w.openState := by rw [hw₂, hentries.openState, hseen.openState]
  have hoffered : offered w₂.log
      = offered w.log ++ (plan.fed h.fillFindData w.caller).offered.map Prod.fst := by
    rw [hw₂, hentries.offered, hseen.offered, hseen.caller]
  have hall : (listDirectory pf req pathKey context entries).run (machine pf h notices) w
      = (rememberListed pathKey (w.offsetAt pathKey) ((plan.result none
          (plan.fed h.fillFindData w.caller)).map fun o => (o, status))).run
        (machine pf h notices) w₂ := by
    rw [run_listDirectory, hrun, hlisted]
  cases hresult : plan.result none (plan.fed h.fillFindData w.caller) with
  | error err =>
      rw [hresult] at hall
      replace hall : _ = (Except.error err, w₂) := hall
      rw [ListingPlan.view_error hresult]
      exact CallerView.ext (congrArg Prod.fst hall)
        (offered_newEvents pf h notices (by rw [hall, hoffered]))
        ((congrArg (fun run => run.2.caller) hall).trans hcaller)
        ((congrArg (fun run => run.2.openState) hall).trans hopen)
  | ok emittedOffset =>
      rw [hresult] at hall
      obtain ⟨hstatus, hstored⟩ := rememberListed_ok pf h notices pathKey emittedOffset status
        (w.offsetAt pathKey) w₂
      obtain ⟨hkept, hsilent⟩ := machine_openState_unshown pf h notices
        (.insertOffset pathKey (advanceOffsetOnEmitted (w.offsetAt pathKey) emittedOffset)) w₂
      rw [ListingPlan.view_ok hresult, ← hopen]
      exact CallerView.ext ((congrArg Prod.fst hall).trans hstatus)
        (offered_newEvents pf h notices (by rw [hall, ← hoffered]; exact hsilent))
        ((congrArg (fun run => run.2.caller) hall).trans (hkept.trans hcaller))
        ((congrArg (fun run => run.2.openState) hall).trans hstored)

end Listing
end World
end Confuse
