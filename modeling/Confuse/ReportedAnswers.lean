import Confuse.CallbackLedger
import Confuse.ConfiguredResolvers
import Confuse.LoggedHistories

/-!
# Reported answers

A file system may change behind the adapter's back, and the caches may then serve what holds no longer.
They serve it for a bounded time only: each of their answers repeats what the file system has reported,
within the time to live that was reported with it or, for a missing name, is configured.
-/

namespace Confuse

open Interaction PathResolver

/-! ## Reports -/

/-- What a file system tells: a child of a parent, its absence, or the attributes of an inode. -/
inductive Report
  | child (parent : INodeNo) (name : OsStr) (entry : ResolvedEntry) (ttl : Duration)
  | absent (parent : INodeNo) (name : OsStr)
  | attr (ino : INodeNo) (attr : FileAttr) (ttl : Duration)

/-- What the reply to a lookup reports. -/
def Reply.lookupReports (parent : INodeNo) (name : OsStr) : Reply ReplyEntryPayload → List Report
  | some (.ok payload) => [.child parent name ⟨payload.attr.ino, payload.generation⟩ payload.ttl]
  | some (.error err) => if err = ENOENT then [.absent parent name] else []
  | none => []

/-- What the entries of a listing report, whatever the status of the listing is. -/
def ReplyDirectoryPlus.reports (parent : INodeNo) (reply : ReplyDirectoryPlus) : List Report :=
  reply.entries.map fun entry =>
    .child parent entry.name ⟨entry.attr.ino, entry.generation⟩ entry.ttl

def FsCall.reports : (c : FsCall) → c.Reply → List Report
  | .lookup _ parent name, reply => Reply.lookupReports parent name reply
  | .mkdir _ parent name _ _, reply => Reply.reads (fun payload : ReplyEntryPayload =>
      .child parent name ⟨payload.attr.ino, payload.generation⟩ payload.ttl) reply
  | .create _ parent name _ _ _, reply => Reply.reads (fun payload : ReplyCreatePayload =>
      .child parent name ⟨payload.attr.ino, payload.generation⟩ payload.ttl) reply
  | .readdirplus _ ino _ _, reply => ReplyDirectoryPlus.reports ino reply
  | .getattr .., reply => Reply.reads (fun payload : ReplyAttrPayload =>
      .attr payload.attr.ino payload.attr payload.ttl) reply
  | _, _ => []

/-- What a section remembers. -/
def TableOp.repeats : TableOp → Option Report
  | .rememberPositive record =>
      some (.child record.parent record.name ⟨record.attr.ino, record.generation⟩ record.ttl)
  | .rememberCreated c => some (.child c.parent c.name ⟨c.attr.ino, c.generation⟩ c.ttl)
  | .rememberNegative _ parent _ name => some (.absent parent name)
  | .rememberAttr ino attr ttl => some (.attr ino attr ttl)
  | _ => none

/-- The path under which a section remembers something. -/
def TableOp.path? : TableOp → Option OsStr
  | .rememberPositive record => some record.path
  | .rememberCreated c => some (.new c.path.toStringLossy)
  | .rememberNegative path _ _ _ => some path
  | _ => none

namespace Event

def reports : Event → List Report
  | .call c reply => c.reports reply
  | _ => []

def repeats : Event → Option Report
  | .table _ o _ => o.repeats
  | _ => none

end Event

/-! ## Faithful logs -/

/-- Whatever a log remembers was known, or the log has reported it before. -/
def Faithful (known : Report → Prop) : List Event → Prop
  | [] => True
  | e :: log => (∀ report, e.repeats = some report → known report) ∧
      Faithful (fun report => known report ∨ report ∈ e.reports) log

section Faithful
variable {known known' : Report → Prop} {l l' log : List Event} {e : Event} {report : Report}

theorem Faithful.mono (h : Faithful known log) (hknown : ∀ report, known report → known' report) :
    Faithful known' log := by
  induction log generalizing known known' with
  | nil => trivial
  | cons e log ih =>
      exact ⟨fun report hreport => hknown _ (h.1 report hreport),
        ih h.2 fun report => Or.imp_left (hknown report)⟩

theorem faithful_append : Faithful known (l ++ l') ↔ Faithful known l ∧
    Faithful (fun report => known report ∨ ∃ e ∈ l, report ∈ e.reports) l' := by
  induction l generalizing known with
  | nil => simp [Faithful]
  | cons e l ih =>
      rw [List.cons_append, Faithful, Faithful, ih, and_assoc]
      simp only [List.mem_cons, exists_eq_or_imp, or_assoc]

theorem faithful_joins (known : Report → Prop) : Prog.Joins (Faithful known) where
  nil := trivial
  append h h' := faithful_append.mpr ⟨h, h'.mono fun _ => .inl⟩

theorem faithful_of_silent (h : ∀ e ∈ log, e.repeats = none) : Faithful known log := by
  induction log generalizing known with
  | nil => trivial
  | cons e log ih =>
      rw [List.forall_mem_cons] at h
      refine ⟨fun report hreport => ?_, ih h.2⟩
      cases h.1.symm.trans hreport

/-- In a faithful log that starts without knowledge everything was reported before. -/
theorem Faithful.reported {first rest : List Event}
    (h : Faithful (fun _ => False) (first ++ e :: rest)) (hreport : e.repeats = some report) :
    ∃ event ∈ first, report ∈ event.reports :=
  ((faithful_append.mp h).2.1 report hreport).resolve_left id

end Faithful

/-! ## Faithful routines -/

abbrev FaithfulRoutine (known : Report → Prop) {α : Type} (p : Routine α) : Prop :=
  p.EveryTrace Emits (Faithful known)

namespace FaithfulRoutine
variable {known : Report → Prop} {α γ : Type}

theorem pure (a : α) : FaithfulRoutine known (Pure.pure a : Routine α) :=
  Prog.EveryTrace.pure (faithful_joins known) a

theorem bind {p : Routine α} {f : α → Routine γ} (hp : FaithfulRoutine known p)
    (hf : ∀ a, FaithfulRoutine known (f a)) : FaithfulRoutine known (p >>= f) :=
  Prog.EveryTrace.bind (faithful_joins known) hp hf

theorem faithful_notes {notes : List Event} (h : ∀ n ∈ notes, Event.isNotify n) :
    Faithful known notes := by
  refine faithful_of_silent fun n hn => ?_
  have hnotify := h n hn
  cases n <;> first | rfl | cases hnotify

/-- A section remembers what is known; other effects remember nothing. -/
theorem effect {e : Effect}
    (h : ∀ o, e = .table o → ∀ report, o.repeats = some report → known report) :
    FaithfulRoutine known (Prog.perform (S := effects) e) := by
  refine Prog.EveryTrace.perform fun r evs he => ?_
  obtain ⟨notes, own, hnotes, hown, rfl⟩ := he
  refine (faithful_joins known).append (faithful_notes hnotes) ?_
  cases e with
  | fs c =>
      obtain rfl : own = [.call c r] := hown
      exact faithful_of_silent fun e he => by rw [List.mem_singleton.mp he]; rfl
  | table o =>
      obtain ⟨now, rfl⟩ := hown
      exact ⟨h o rfl, trivial⟩
  | deliver req o =>
      obtain ⟨now, forgets, rfl⟩ := hown
      refine faithful_of_silent fun e he => ?_
      rcases List.mem_cons.mp he with rfl | he
      · rfl
      · obtain ⟨f, -, rfl⟩ := List.mem_map.mp he
        rfl
  | openState o =>
      obtain rfl : own = [] := hown
      trivial
  | fillFindData data =>
      obtain rfl : own = [.fillFindData data r] := hown
      exact faithful_of_silent fun e he => by rw [List.mem_singleton.mp he]; rfl
  | fillFindStreamData data =>
      obtain rfl : own = [.fillFindStreamData data r] := hown
      exact faithful_of_silent fun e he => by rw [List.mem_singleton.mp he]; rfl

theorem silent {e : Effect} (h : ∀ o, e = .table o → o.repeats = none) :
    FaithfulRoutine known (Prog.perform (S := effects) e) :=
  effect fun o ho report hreport => by cases (h o ho).symm.trans hreport

theorem remembers {o : TableOp} {report : Report} (ho : o.repeats = some report)
    (hknown : known report) : FaithfulRoutine known (Routine.table o) := by
  refine effect fun o' ho' report' hreport => ?_
  obtain rfl : o = o' := by cases ho'; rfl
  obtain rfl := Option.some.inj (ho.symm.trans hreport)
  exact hknown

theorem deliver (req : Request) (o : DrainOp) : FaithfulRoutine known (Routine.deliver req o) :=
  silent fun o ho => by cases ho

theorem openState (o : OpenStateOp) : FaithfulRoutine known (Routine.openState o) :=
  silent fun o ho => by cases ho

theorem fs (c : FsCall) : FaithfulRoutine known (Routine.fs c) := silent fun o ho => by cases ho

/-- What follows a call knows what the reply reports. -/
theorem call {c : FsCall} {f : c.Reply → Routine α} (hf : ∀ reply,
    FaithfulRoutine (fun report => known report ∨ report ∈ c.reports reply) (f reply)) :
    FaithfulRoutine known (Routine.fs c >>= f) := by
  intro evs a ht
  obtain ⟨reply, es, rest, hes, hrest, rfl⟩ := Prog.traces_bind.mp ht
  obtain ⟨notes, own, hnotes, hown, rfl⟩ := Prog.traces_perform.mp hes
  obtain rfl : own = [.call c reply] := hown
  rw [List.append_assoc]
  refine (faithful_joins known).append (faithful_notes hnotes) ⟨fun report hreport => ?_, ?_⟩
  · cases hreport
  · exact hf reply rest a hrest

/-! ## Path walks -/

variable (req : Request)

theorem drainResolverForgets : FaithfulRoutine known (drainResolverForgets req) := deliver req _

theorem lookupPathComponent (component : LookupComponent) :
    FaithfulRoutine known (lookupPathComponent req component) := by
  refine call fun reply => ?_
  rcases reply with _ | ⟨err⟩ | ⟨payload⟩
  · exact bind (drainResolverForgets req) fun _ => pure _
  · refine bind ?_ fun _ => pure _
    unfold rememberNegativeLookup
    split_ifs with herr
    · refine bind (remembers rfl (.inr ?_)) fun _ => drainResolverForgets req
      change _ ∈ Reply.lookupReports _ _ (some (.error err))
      rw [Reply.lookupReports, if_pos herr]
      exact List.mem_singleton_self _
    · exact drainResolverForgets req
  · exact bind (remembers rfl (.inr (List.mem_singleton_self _))) fun _ => pure _

theorem resolveComponent (component : LookupComponent) :
    FaithfulRoutine known (resolveComponent req component) := by
  refine bind ?_ fun cached => ?_
  · refine bind (silent fun o ho => by cases ho; rfl) fun cached => ?_
    rcases cached with _ | ⟨err⟩ | ⟨entry⟩
    · exact pure _
    · exact bind (drainResolverForgets req) fun _ => pure _
    · exact pure _
  · rcases cached with err | _ | entry
    · exact pure _
    · exact lookupPathComponent req component
    · exact pure _

theorem walkComponents (currentPath : Str) (current : ResolvedEntry) (components : List Str) :
    FaithfulRoutine known (walkComponents req currentPath current components) := by
  induction components generalizing currentPath current with
  | nil => exact pure _
  | cons component rest ih =>
      refine bind (resolveComponent req _) fun resolved => ?_
      cases resolved with
      | error err => exact pure _
      | ok entry => exact ih _ entry

theorem resolvePathIno (pf : Platform) (path : OsStr) :
    FaithfulRoutine known (resolvePathIno pf req path) := by
  unfold Confuse.resolvePathIno
  split_ifs
  · exact pure _
  · refine bind (deliver req _) fun _ => bind (walkComponents req _ _ _) fun walked => ?_
    cases walked <;> exact pure _

/-! ## Callbacks -/

/-- Routines that leave the namespace alone remember attributes that were just reported. -/
theorem of_plain {pf : Platform} {p : Routine α} (hp : PlainRoutine pf p) :
    FaithfulRoutine known p := by
  refine Composed.everyTrace (faithful_joins known) (fun γ q hq => ?_) hp
  cases hq with
  | fs c h => exact fs c
  | table o h =>
      refine silent fun o' ho' => ?_
      cases ho'
      cases o <;> first | rfl | cases h
  | deliver req o => exact deliver req o
  | openState o => exact openState o
  | fillFindData data => exact silent fun o ho => by cases ho
  | fillFindStreamData data => exact silent fun o ho => by cases ho
  | resolve req path => exact resolvePathIno req pf path
  | fetchAttr req resolved h =>
      refine call fun reply => bind (drainResolverForgets req) fun _ => ?_
      rcases reply with _ | ⟨err⟩ | ⟨payload⟩
      · exact pure _
      · exact pure _
      · exact bind (remembers rfl (.inr (List.mem_singleton_self _))) fun _ => pure _

theorem rememberCreatedPath {created : CreatedPath}
    (hknown : known (.child created.parent created.name ⟨created.attr.ino, created.generation⟩
      created.ttl)) : FaithfulRoutine known (rememberCreatedPath req created) :=
  bind (remembers rfl hknown) fun _ => drainResolverForgets req

theorem finishCreatedEntry {created : CreatedEntry}
    (hknown : known (.child created.parentIno created.leaf
      ⟨created.attr.ino, created.generation⟩ created.ttl)) :
    FaithfulRoutine known (finishCreatedEntry created) :=
  bind (openState _) fun _ => bind (silent fun o ho => by cases ho; rfl) fun _ =>
    bind (silent fun o ho => by cases ho; rfl) fun _ => rememberCreatedPath _ hknown

theorem createDirectoryEntry (create : CreateEntryRequest) :
    FaithfulRoutine known (createDirectoryEntry create) := by
  refine call fun reply => bind (drainResolverForgets _) fun _ => ?_
  rcases reply with _ | ⟨err⟩ | ⟨payload⟩
  · exact pure _
  · exact pure _
  · exact bind (finishCreatedEntry (.inr (List.mem_singleton_self _))) fun _ => pure _

variable (pf : Platform)

theorem createFileEntryOrOpenExisting (create : CreateEntryRequest) (plan : CreateDispositionPlan)
    (openFlags : Int32) :
    FaithfulRoutine known (createFileEntryOrOpenExisting pf create plan openFlags) := by
  refine call fun reply => bind (drainResolverForgets _) fun _ => ?_
  rcases reply with _ | ⟨err⟩ | ⟨payload⟩
  · exact pure _
  · dsimp only
    split_ifs
    · exact of_plain (MadeOf.openCollisionEntry pf fun _ _ => ⟨rfl, rfl⟩)
    · exact pure _
  · exact bind (finishCreatedEntry (.inr (List.mem_singleton_self _))) fun _ => pure _

theorem createFile (fileName : U16CStr) (desiredAccess : AccessMask)
    (fileAttributes createDisposition createOptions : UInt32) (requestIds : RequestIds) :
    FaithfulRoutine known (createFile pf fileName desiredAccess fileAttributes createDisposition
      createOptions requestIds) := by
  refine bind (resolvePathIno _ pf _) fun parent => ?_
  cases parent with
  | error err => exact bind (drainResolverForgets _) fun _ => pure _
  | ok parentIno =>
      dsimp only [createInParent]
      split_ifs
      · exact of_plain (MadeOf.createRootContext pf fileName requestIds)
      · exact of_plain (MadeOf.openExistingEntry pf fun _ _ => ⟨rfl, rfl⟩)
      · exact createDirectoryEntry _
      · exact createFileEntryOrOpenExisting pf _ _ _

theorem renameAndInvalidate (pf : Platform) (fileName newFileName : U16CStr) (oldParentIno newParentIno : INodeNo)
    (movedIno : Option INodeNo) :
    FaithfulRoutine known (renameAndInvalidate req fileName newFileName oldParentIno newParentIno
      movedIno) :=
  bind (bind (fs _) fun _ => pure _) fun _ => bind (drainResolverForgets _) fun _ =>
    onOk_cases (fun _ => pure _) fun _ =>
      bind (of_plain (MadeOf.invalidateRenamed pf _ _ _ _ _ _)) fun _ => pure _

theorem moveFile (fileName newFileName : U16CStr) (replaceIfExisting : Bool)
    (context : AdapterContext) :
    FaithfulRoutine known (moveFile pf fileName newFileName replaceIfExisting context) := by
  refine bind (resolvePathIno _ pf _) fun oldParent => ?_
  cases oldParent with
  | error err => exact pure _
  | ok oldParentIno =>
      refine bind (resolvePathIno _ pf _) fun newParent => ?_
      cases newParent with
      | error err => exact pure _
      | ok newParentIno =>
          exact bind (of_plain (MadeOf.resolveContextOrPath pf _ _ _))
            fun _ => bind (of_plain (MadeOf.precheckRename pf _ _ _)) fun _ =>
              onOk_cases (fun _ => pure _) fun _ => renameAndInvalidate _ pf _ _ _ _ _

theorem cleanup (fileName : U16CStr) (deleteOnClose : Bool) (context : AdapterContext) :
    FaithfulRoutine known (cleanup pf fileName deleteOnClose context) := by
  unfold Confuse.cleanup
  cases deleteOnClose with
  | false => exact pure _
  | true =>
      refine bind (resolvePathIno _ pf _) fun parent => ?_
      cases parent with
      | error err => exact drainResolverForgets _
      | ok parentIno =>
          have hremoved : FaithfulRoutine known (rmdirOrUnlink
              (requestFromIds context.requestIds) context parentIno
              (splitParentAndName fileName).2) := by
            unfold rmdirOrUnlink
            cases context.isDir with
            | true => exact fs (.rmdir ..)
            | false => exact fs (.unlink ..)
          refine bind hremoved fun status => bind (drainResolverForgets _) fun _ => ?_
          rcases status with _ | ⟨err⟩ | ⟨⟩
          · exact pure _
          · exact pure _
          · exact of_plain (MadeOf.invalidateRemoved pf _ _ _ _)

/-- The loop over a listing remembers its entries. -/
theorem emitReaddirplusPatternEntries (fileName pattern : U16CStr) (ino : INodeNo)
    (emittedOffset : Option Int64) {entries : List DirectoryPlusEntryPayload}
    (hknown : ∀ entry ∈ entries,
      known (.child ino entry.name ⟨entry.attr.ino, entry.generation⟩ entry.ttl)) :
    FaithfulRoutine known (emitReaddirplusPatternEntries pf req fileName pattern ino emittedOffset
      entries) := by
  induction entries generalizing emittedOffset with
  | nil => exact pure _
  | cons entry rest ih =>
      rw [List.forall_mem_cons] at hknown
      unfold Confuse.emitReaddirplusPatternEntries
      cases U16CStr.fromStr (joinChildPath fileName entry.name) with
      | none => exact pure _
      | some path =>
          refine bind (rememberCreatedPath req hknown.1) fun _ => ?_
          cases U16CStr.fromStr entry.name.toStringLossy with
          | none => exact pure _
          | some name =>
              dsimp only
              split_ifs
              · exact ih _ hknown.2
              · refine bind (silent fun o ho => by cases ho) fun accepted => ?_
                cases accepted with
                | true => exact ih _ hknown.2
                | false => exact pure _

theorem findFilesWithPattern (fileName pattern : U16CStr) (context : AdapterContext) :
    FaithfulRoutine known (findFilesWithPattern pf fileName pattern context) := by
  refine bind (of_plain (MadeOf.directoryIno pf _ context _)) fun ino => ?_
  cases ino with
  | error status => exact pure _
  | ok ino =>
      refine bind (openState _) fun reqOffset => call fun reply =>
        bind (drainResolverForgets _) fun _ => ?_
      split_ifs
      · exact of_plain (MadeOf.findFilesFallback pf _ _ _ _ _ _)
      · refine bind (emitReaddirplusPatternEntries _ pf fileName pattern ino none
          fun entry hentry => .inr (List.mem_map_of_mem hentry)) fun emitted => ?_
        cases emitted with
        | error status => exact pure _
        | ok offset =>
            exact bind (of_plain (MadeOf.rememberDirectoryOffset pf _ _ _))
              fun _ => pure _

end FaithfulRoutine

theorem Callback.faithful (pf : Platform) (known : Report → Prop) (c : Callback) :
    FaithfulRoutine known (c.routine pf) := by
  cases hplain : c.isPlain with
  | true => exact .of_plain (Callback.plainRoutine pf hplain)
  | false =>
      cases c with
      | createFile => exact .createFile pf _ _ _ _ _ _
      | cleanup => exact .cleanup pf _ _ _
      | moveFile => exact .moveFile pf _ _ _ _
      | findFilesWithPattern => exact .findFilesWithPattern pf _ _ _
      | _ => cases hplain

end Confuse
