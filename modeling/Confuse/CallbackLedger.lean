import Confuse.CallbackCalls

/-!
# Booking the granted references

Between two calls a callback records in the resolver what the replies granted: a lookup, `mkdir` or
`create` reply is recorded before the next call is made. Only the listing of `find_files_with_pattern`
can leave references unrecorded at its end, or record some that no reply granted.
-/

namespace Confuse

open Interaction
open Event (granted recorded drained forgotten)

/-- What is granted is recorded before the next call. -/
abbrev Booked := Settles recorded granted

/-- Events without a call of the file system or the caller that record `k`. -/
structure Books (k : INodeNo → ℕ) (log : List Event) : Prop where
  silent : ∀ e ∈ log, e.isCall = false
  unfilled : answers log = []
  sum : ∀ i, along recorded log i = k i

theorem Books.append {k k' : INodeNo → ℕ} {l l' : List Event} (h : Books k l) (h' : Books k' l') :
    Books (fun i => k i + k' i) (l ++ l') where
  silent e he := (List.mem_append.mp he).elim (h.silent e) (h'.silent e)
  unfilled := by rw [answers_append, h.unfilled, h'.unfilled, List.append_nil]
  sum i := by rw [along_append, h.sum, h'.sum]

theorem books_joins : Prog.Joins (Books fun _ => 0) where
  nil := ⟨by simp, rfl, fun _ => rfl⟩
  append h h' := h.append h'

theorem granted_of_silent {e : Event} (h : e.isCall = false) (i : INodeNo) : granted e i = 0 := by
  cases e <;> first | rfl | simp [Event.isCall] at h

theorem booked_joins : Prog.Joins Booked := settles_joins recorded granted

theorem Books.booked {log : List Event} (h : Books (fun _ => 0) log) : Booked log := by
  have hzero : ∀ m, m <+: log → ∀ i, along recorded m i = 0 ∧ along granted m i = 0 := by
    intro m hm i
    have hle := along_le_of_prefix recorded hm i
    rw [h.sum] at hle
    exact ⟨by omega, along_eq_zero granted fun e he => granted_of_silent (h.silent e (hm.subset he)) i⟩
  refine ⟨fun m hm i => ?_, fun m c reply hm i => ?_, fun i => ?_⟩
  · rw [(hzero m hm i).1]
    exact Nat.zero_le _
  · obtain ⟨hr, hg⟩ := hzero m ((List.prefix_append _ _).trans hm) i
    rw [hr, hg]
  · obtain ⟨hr, hg⟩ := hzero log List.prefix_rfl i
    rw [hr, hg]

theorem books_notes {notes : List Event} (h : ∀ n ∈ notes, Event.isNotify n) :
    Books (fun _ => 0) notes :=
  ⟨fun n hn => (notes_zero h n hn).1, answers_notes h,
    fun i => along_eq_zero _ fun n hn => ((notes_zero h n hn).2 i).2.1⟩

theorem booked_notes {notes : List Event} (h : ∀ n ∈ notes, Event.isNotify n) : Booked notes :=
  (books_notes h).booked

/-! ## Rules -/

/-- Every run of `p` makes no call and records `k`. -/
abbrev BooksRoutine {α : Type} (k : INodeNo → ℕ) (p : Routine α) : Prop :=
  p.EveryTrace Emits (Books k)

abbrev BookedRoutine {α : Type} (p : Routine α) : Prop := p.EveryTrace Emits Booked

namespace BooksRoutine
variable {α γ : Type}

theorem pure (a : α) : BooksRoutine (fun _ => 0) (Pure.pure a : Routine α) :=
  Prog.EveryTrace.pure books_joins a

/-- What comes before records nothing. -/
theorem after {k : INodeNo → ℕ} {p : Routine α} {f : α → Routine γ}
    (hp : BooksRoutine (fun _ => 0) p) (hf : ∀ a, BooksRoutine k (f a)) :
    BooksRoutine k (p >>= f) :=
  Prog.EveryTrace.seq (fun _ _ h h' => by simpa using h.append h') hp hf

/-- What comes after records nothing. -/
theorem before {k : INodeNo → ℕ} {p : Routine α} {f : α → Routine γ}
    (hp : BooksRoutine k p) (hf : ∀ a, BooksRoutine (fun _ => 0) (f a)) :
    BooksRoutine k (p >>= f) :=
  Prog.EveryTrace.seq (fun _ _ h h' => by simpa using h.append h') hp hf

theorem effect {k : INodeNo → ℕ} {e : Effect} (h : ∀ r own, e.Leaves r own → Books k own) :
    BooksRoutine k (Prog.perform (S := effects) e) := by
  refine Prog.EveryTrace.perform fun r evs he => ?_
  obtain ⟨notes, own, hnotes, hown, rfl⟩ := he
  simpa using (books_notes hnotes).append (h r own hown)

theorem table (o : TableOp) :
    BooksRoutine (fun i => if o.recordedIno = some i then 1 else 0) (Routine.table o) := by
  refine effect fun r own hown => ?_
  obtain ⟨now, rfl⟩ := hown
  exact ⟨by simp [Event.isCall], rfl, fun i => by simp [recorded]⟩

theorem records {o : TableOp} {ino : INodeNo} (h : o.recordedIno = some ino) :
    BooksRoutine (fun i => [ino].count i) (Routine.table o) := by
  simpa [h, List.count_singleton] using table o

theorem neutral {o : TableOp} (h : o.recordedIno = none) :
    BooksRoutine (fun _ => 0) (Routine.table o) := by
  simpa [h] using table o

theorem deliver (req : Request) (o : DrainOp) :
    BooksRoutine (fun _ => 0) (Routine.deliver req o) := by
  refine effect fun r own hown => ?_
  obtain ⟨now, forgets, rfl⟩ := hown
  refine ⟨fun e he => ?_, List.filterMap_eq_nil_iff.mpr fun e he => ?_,
    fun i => along_eq_zero _ fun e he => ?_⟩
  all_goals
    rcases List.mem_cons.mp he with rfl | he
    · rfl
    · obtain ⟨f, -, rfl⟩ := List.mem_map.mp he
      rfl

theorem openState (o : OpenStateOp) : BooksRoutine (fun _ => 0) (Routine.openState o) :=
  effect fun _ own hown => by simpa [show own = [] from hown] using books_joins.nil

theorem drainResolverForgets (req : Request) :
    BooksRoutine (fun _ => 0) (drainResolverForgets req) := deliver req _

theorem invalidateInodeAttr (ino : INodeNo) :
    BooksRoutine (fun _ => 0) (invalidateInodeAttr ino) := neutral rfl

/-- The section of `remember_created_path` and the drain after it. -/
theorem rememberCreatedPath (req : Request) (created : CreatedPath) :
    BooksRoutine (fun i => [created.attr.ino].count i) (rememberCreatedPath req created) :=
  before (records (o := .rememberCreated created) rfl) fun _ => drainResolverForgets req

theorem finishCreatedEntry (created : CreatedEntry) :
    BooksRoutine (fun i => [created.attr.ino].count i) (finishCreatedEntry created) :=
  after (openState _) fun _ => after (invalidateInodeAttr _) fun _ =>
    after (invalidateInodeAttr _) fun _ => rememberCreatedPath _ _

theorem finishCreatedFile (create : CreateEntryRequest) (payload : ReplyCreatePayload) :
    BooksRoutine (fun i => [payload.attr.ino].count i) (finishCreatedFile create payload) :=
  before (finishCreatedEntry _) fun _ => pure _

theorem rememberNegativeLookup (req : Request) (err : Errno) (component : LookupComponent) :
    BooksRoutine (fun _ => 0) (rememberNegativeLookup req err component) := by
  unfold Confuse.rememberNegativeLookup
  split_ifs
  · exact after (neutral rfl) fun _ => drainResolverForgets req
  · exact drainResolverForgets req

end BooksRoutine

/-! ## Calls and their booking -/

namespace BookedRoutine
variable {α γ : Type}

theorem pure (a : α) : BookedRoutine (Pure.pure a : Routine α) :=
  Prog.EveryTrace.pure booked_joins a

theorem bind {p : Routine α} {f : α → Routine γ} (hp : BookedRoutine p)
    (hf : ∀ a, BookedRoutine (f a)) : BookedRoutine (p >>= f) :=
  Prog.EveryTrace.bind booked_joins hp hf

theorem of_books {p : Routine α} (hp : BooksRoutine (fun _ => 0) p) : BookedRoutine p :=
  hp.mono Books.booked

/-- A call whose reply is booked by what follows, or grants nothing. -/
theorem call {c : FsCall} {f : c.Reply → Routine α}
    (hf : ∀ reply, BooksRoutine (fun i => (c.granted reply).count i) (f reply) ∨
      c.granted reply = [] ∧ BookedRoutine (f reply)) : BookedRoutine (Routine.fs c >>= f) := by
  intro evs a ht
  obtain ⟨reply, es, rest, hes, hrest, rfl⟩ := Prog.traces_bind.mp ht
  obtain ⟨notes, own, hnotes, hown, rfl⟩ := Prog.traces_perform.mp hes
  rw [show own = [.call c reply] from hown, List.append_assoc]
  refine booked_joins.append (booked_notes hnotes) ?_
  rcases hf reply with hbooks | ⟨hnone, hbooked⟩
  · obtain ⟨hsilent, -, hsum⟩ := hbooks rest a hrest
    exact settles_cons hsilent (fun i => rfl) (fun e he i => granted_of_silent (hsilent e he) i) hsum
  · refine booked_joins.append (settles_of_zero ?_) (hbooked rest a hrest)
    simp [recorded, granted, hnone]

theorem lookupPathComponent (req : Request) (component : LookupComponent) :
    BookedRoutine (lookupPathComponent req component) := by
  refine call fun reply => .inl ?_
  rcases reply with _ | ⟨err⟩ | ⟨payload⟩
  · exact .before (.drainResolverForgets req) fun _ => .pure _
  · exact .before (.rememberNegativeLookup req err component) fun _ => .pure _
  · exact .before (.records rfl) fun _ => .pure _

theorem cachedPathComponent (req : Request) (path : OsStr) (parent : INodeNo)
    (parentGeneration : Generation) :
    BookedRoutine (cachedPathComponent req path parent parentGeneration) := by
  refine of_books (.after (.neutral rfl) fun cached => ?_)
  rcases cached with _ | ⟨err⟩ | ⟨entry⟩
  · exact .pure _
  · exact .before (.drainResolverForgets req) fun _ => .pure _
  · exact .pure _

theorem resolveComponent (req : Request) (component : LookupComponent) :
    BookedRoutine (resolveComponent req component) := by
  refine bind (cachedPathComponent req _ _ _) fun cached => ?_
  rcases cached with err | _ | entry
  · exact pure _
  · exact lookupPathComponent req component
  · exact pure _

theorem walkComponents (req : Request) (currentPath : Str) (current : ResolvedEntry)
    (components : List Str) : BookedRoutine (walkComponents req currentPath current components) := by
  induction components generalizing currentPath current with
  | nil => exact pure _
  | cons component rest ih =>
      refine bind (resolveComponent req _) fun resolved => ?_
      cases resolved with
      | error err => exact pure _
      | ok entry => exact ih _ entry

theorem resolvePathIno (pf : Platform) (req : Request) (path : OsStr) :
    BookedRoutine (resolvePathIno pf req path) := by
  unfold Confuse.resolvePathIno
  split_ifs
  · exact pure _
  · refine bind (of_books (.deliver req _)) fun _ => bind (walkComponents req _ _ _) fun walked => ?_
    cases walked <;> exact pure _

theorem granted_of_isPlain {c : FsCall} (h : c.isPlain) (reply : c.Reply) :
    c.granted reply = [] := by
  cases c <;> first | rfl | simp [FsCall.isPlain] at h

theorem fs {c : FsCall} (h : ∀ reply : c.Reply, c.granted reply = []) :
    BookedRoutine (Routine.fs c) := by
  have hcall := call (c := c) (f := fun reply => (Pure.pure reply : Routine c.Reply))
    fun reply => .inr ⟨h reply, pure reply⟩
  exact hcall

/-- Routines that leave the namespace alone book what their path resolutions are granted. -/
theorem of_plain {pf : Platform} {p : Routine α} (hp : PlainRoutine pf p) : BookedRoutine p := by
  refine Composed.everyTrace booked_joins (fun γ q hq => ?_) hp
  cases hq with
  | fs c h => exact fs (granted_of_isPlain h)
  | table o h => exact of_books (.neutral (by cases o <;> first | rfl | cases h))
  | deliver req o => exact of_books (.deliver req o)
  | openState o => exact of_books (.openState o)
  | fillFindData data =>
      refine Prog.EveryTrace.perform fun r evs he => ?_
      obtain ⟨notes, own, hnotes, hown, rfl⟩ := he
      obtain rfl : own = [.fillFindData data r] := hown
      exact booked_joins.append (booked_notes hnotes) (settles_of_zero (by simp [recorded, granted]))
  | fillFindStreamData data =>
      refine Prog.EveryTrace.perform fun r evs he => ?_
      obtain ⟨notes, own, hnotes, hown, rfl⟩ := he
      obtain rfl : own = [.fillFindStreamData data r] := hown
      exact booked_joins.append (booked_notes hnotes) (settles_of_zero (by simp [recorded, granted]))
  | resolve req path => exact resolvePathIno pf req path
  | fetchAttr req resolved h =>
      refine .bind booked_joins (fs (granted_of_isPlain h)) fun reply =>
        .bind booked_joins (of_books (.deliver req .takePendingForgets)) fun _ => ?_
      rcases reply with _ | ⟨err⟩ | ⟨payload⟩
      · exact pure _
      · exact pure _
      · exact .bind booked_joins (of_books (.neutral rfl)) fun _ => pure _

/-! ## Callbacks that grant references or change the namespace -/

variable (pf : Platform)

theorem createDirectoryEntry (create : CreateEntryRequest) :
    BookedRoutine (createDirectoryEntry create) := by
  refine call fun reply => .inl ?_
  rcases reply with _ | ⟨err⟩ | ⟨payload⟩
  · exact .after (.drainResolverForgets _) fun _ => .pure _
  · exact .after (.drainResolverForgets _) fun _ => .pure _
  · exact .after (.drainResolverForgets _) fun _ => .before (.finishCreatedEntry _) fun _ => .pure _

theorem createFileEntryOrOpenExisting (create : CreateEntryRequest) (plan : CreateDispositionPlan)
    (openFlags : Int32) :
    BookedRoutine (createFileEntryOrOpenExisting pf create plan openFlags) := by
  refine call fun reply => ?_
  rcases reply with _ | ⟨err⟩ | ⟨payload⟩
  · exact .inl (.after (.drainResolverForgets _) fun _ => .pure _)
  · refine .inr ⟨rfl, bind (of_books (.drainResolverForgets _)) fun _ => ?_⟩
    dsimp only
    split_ifs
    · exact of_plain (MadeOf.openCollisionEntry pf fun _ _ => ⟨rfl, rfl⟩)
    · exact pure _
  · exact .inl (.after (.drainResolverForgets _) fun _ => .finishCreatedFile create payload)

theorem createFile (fileName : U16CStr) (desiredAccess : AccessMask)
    (fileAttributes createDisposition createOptions : UInt32) (requestIds : RequestIds) :
    BookedRoutine (createFile pf fileName desiredAccess fileAttributes createDisposition
      createOptions requestIds) := by
  refine bind (resolvePathIno pf _ _) fun parent => ?_
  cases parent with
  | error err => exact bind (of_books (.drainResolverForgets _)) fun _ => pure _
  | ok parentIno =>
      dsimp only [createInParent]
      split_ifs
      · exact of_plain (MadeOf.createRootContext pf fileName requestIds)
      · exact of_plain (MadeOf.openExistingEntry pf fun _ _ => ⟨rfl, rfl⟩)
      · exact createDirectoryEntry _
      · exact createFileEntryOrOpenExisting pf _ _ _

theorem onOk {status : Except NtStatus γ} {f : γ → Routine (Except NtStatus α)}
    (hf : ∀ v, BookedRoutine (f v)) : BookedRoutine (onOk status f) :=
  onOk_cases (fun _ => pure _) hf

theorem renameAndInvalidate (pf : Platform) (req : Request) (fileName newFileName : U16CStr)
    (oldParentIno newParentIno : INodeNo) (movedIno : Option INodeNo) :
    BookedRoutine (renameAndInvalidate req fileName newFileName oldParentIno newParentIno
      movedIno) :=
  bind (bind (fs fun _ => rfl) fun _ => pure _) fun _ =>
    bind (of_books (.drainResolverForgets _)) fun _ => onOk fun _ =>
      bind (of_plain (MadeOf.invalidateRenamed pf _ _ _ _ _ _)) fun _ => pure _

theorem moveFile (fileName newFileName : U16CStr) (replaceIfExisting : Bool)
    (context : AdapterContext) :
    BookedRoutine (moveFile pf fileName newFileName replaceIfExisting context) := by
  refine bind (resolvePathIno pf _ _) fun oldParent => ?_
  cases oldParent with
  | error err => exact pure _
  | ok oldParentIno =>
      refine bind (resolvePathIno pf _ _) fun newParent => ?_
      cases newParent with
      | error err => exact pure _
      | ok newParentIno =>
          exact bind (of_plain (MadeOf.resolveContextOrPath pf _ _ _)) fun _ =>
            bind (of_plain (MadeOf.precheckRename pf _ _ _)) fun _ =>
              onOk fun _ => renameAndInvalidate pf _ _ _ _ _ _

theorem rmdirOrUnlink (req : Request) (context : AdapterContext) (parentIno : INodeNo)
    (leaf : OsStr) : BookedRoutine (rmdirOrUnlink req context parentIno leaf) := by
  unfold Confuse.rmdirOrUnlink
  cases context.isDir with
  | true => exact fs (c := .rmdir req parentIno leaf) fun _ => rfl
  | false => exact fs (c := .unlink req parentIno leaf) fun _ => rfl

theorem cleanup (fileName : U16CStr) (deleteOnClose : Bool) (context : AdapterContext) :
    BookedRoutine (cleanup pf fileName deleteOnClose context) := by
  unfold Confuse.cleanup
  cases deleteOnClose with
  | false => exact pure _
  | true =>
      refine bind (resolvePathIno pf _ _) fun parent => ?_
      cases parent with
      | error err => exact of_books (.drainResolverForgets _)
      | ok parentIno =>
          refine bind (rmdirOrUnlink _ _ _ _) fun status =>
            bind (of_books (.drainResolverForgets _)) fun _ => ?_
          rcases status with _ | ⟨err⟩ | ⟨⟩
          · exact pure _
          · exact pure _
          · exact of_plain (MadeOf.invalidateRemoved pf _ _ _ _)

end BookedRoutine

/-! ## Listings -/

/-- The entries that a listing's loop records when the fill callback gives certain answers: it stops
at a name that is no C string and at the first entry that the callback refuses. -/
def visitedEntries (pf : Platform) (fileName pattern : U16CStr) :
    List DirectoryPlusEntryPayload → List Bool → List DirectoryPlusEntryPayload
  | [] => fun _ => []
  | entry :: rest =>
      match U16CStr.fromStr (joinChildPath fileName entry.name) with
      | none => fun _ => []
      | some _ =>
          match U16CStr.fromStr entry.name.toStringLossy with
          | none => fun _ => [entry]
          | some name =>
              if !pf.isNameInExpression pattern name true then
                fun answers => entry :: visitedEntries pf fileName pattern rest answers
              else fun answers => entry :: match answers with
                | true :: answers => visitedEntries pf fileName pattern rest answers
                | _ => []

theorem visitedEntries_starts (pf : Platform) (fileName pattern : U16CStr)
    (entries : List DirectoryPlusEntryPayload) (answers : List Bool) :
    visitedEntries pf fileName pattern entries answers <+: entries := by
  induction entries generalizing answers with
  | nil => exact List.prefix_rfl
  | cons entry rest ih =>
      have hone : [entry] <+: entry :: rest := ⟨rest, rfl⟩
      have hnext : ∀ answers, entry :: visitedEntries pf fileName pattern rest answers
          <+: entry :: rest := fun answers => (List.prefix_cons_inj entry).mpr (ih answers)
      unfold visitedEntries
      cases U16CStr.fromStr (joinChildPath fileName entry.name) with
      | none => exact List.nil_prefix
      | some path =>
          cases U16CStr.fromStr entry.name.toStringLossy with
          | none => exact hone
          | some name =>
              dsimp only
              cases pf.isNameInExpression pattern name true with
              | false => exact hnext answers
              | true =>
                  rcases answers with _ | ⟨_ | _, answers⟩
                  · exact hone
                  · exact hone
                  · exact hnext answers

/-- Events without a call of the file system that record the entries `visited`, as the answers of the
fill callback determine them. -/
structure Lists (visited : List Bool → List DirectoryPlusEntryPayload) (log : List Event) :
    Prop where
  silent : ∀ e ∈ log, e.isCall = false
  sum : ∀ i, along recorded log i
    = ((visited (answers log)).map fun entry => entry.attr.ino).count i

namespace Lists
variable {visited : List Bool → List DirectoryPlusEntryPayload} {l l' : List Event}

theorem of_books (h : Books (fun _ => 0) l) : Lists (fun _ => []) l :=
  ⟨h.silent, fun i => by simpa using h.sum i⟩

theorem cons {entry : DirectoryPlusEntryPayload} (h : Books (fun i => [entry.attr.ino].count i) l)
    (h' : Lists visited l') : Lists (fun answers => entry :: visited answers) (l ++ l') where
  silent e he := (List.mem_append.mp he).elim (h.silent e) (h'.silent e)
  sum i := by
    rw [along_append, h.sum, h'.sum, answers_append, h.unfilled, List.nil_append, ← List.count_append]
    rfl

theorem after (h : Books (fun _ => 0) l) (h' : Lists visited l') : Lists visited (l ++ l') where
  silent e he := (List.mem_append.mp he).elim (h.silent e) (h'.silent e)
  sum i := by
    rw [along_append, h.sum, h'.sum, answers_append, h.unfilled, List.nil_append, Nat.zero_add]

theorem before (h : Lists visited l) (h' : Books (fun _ => 0) l') : Lists visited (l ++ l') where
  silent e he := (List.mem_append.mp he).elim (h.silent e) (h'.silent e)
  sum i := by
    rw [along_append, h.sum, h'.sum, answers_append, h'.unfilled, List.append_nil, Nat.add_zero]

/-- The fill callback decides whether the loop goes on. -/
theorem fill {data : FindData} {accepted : Bool} (h : accepted = true → Lists visited l)
    (h' : accepted = false → Books (fun _ => 0) l) :
    Lists (fun | true :: answers => visited answers | _ => [])
      (.fillFindData data accepted :: l) := by
  cases accepted with
  | true =>
      refine ⟨fun e he => ?_, fun i => by simpa [recorded, answers, Event.answer?] using (h rfl).sum i⟩
      exact (List.mem_cons.mp he).elim (fun heq => heq ▸ rfl) ((h rfl).silent e)
  | false =>
      refine ⟨fun e he => ?_, fun i => by simpa [recorded, answers, Event.answer?] using (h' rfl).sum i⟩
      exact (List.mem_cons.mp he).elim (fun heq => heq ▸ rfl) ((h' rfl).silent e)

end Lists

/-- The loop over a listing records exactly the visited entries. -/
theorem emitReaddirplusPatternEntries_lists (pf : Platform) (req : Request)
    (fileName pattern : U16CStr) (ino : INodeNo) (emittedOffset : Option Int64)
    (entries : List DirectoryPlusEntryPayload) :
    (emitReaddirplusPatternEntries pf req fileName pattern ino emittedOffset entries).EveryTrace
      Emits (Lists (visitedEntries pf fileName pattern entries)) := by
  have hnone : ∀ {α : Type} (a : α), (pure a : Routine α).EveryTrace Emits
      (Lists fun _ => []) := fun a => Prog.EveryTrace.mono .of_books (BooksRoutine.pure a)
  induction entries generalizing emittedOffset with
  | nil => exact hnone _
  | cons entry rest ih =>
      unfold emitReaddirplusPatternEntries visitedEntries
      have hrecord : ∀ {v} (path) {f : Unit → Routine (Except NtStatus (Option Int64))},
          (∀ u, (f u).EveryTrace Emits (Lists v)) →
            (rememberCreatedPath req ⟨path, ino, entry.name, entry.attr, entry.generation,
              entry.ttl⟩ >>= f).EveryTrace Emits (Lists fun answers => entry :: v answers) :=
        fun path _ hf => .seq (fun _ _ h h' => .cons h h') (BooksRoutine.rememberCreatedPath req _) hf
      cases U16CStr.fromStr (joinChildPath fileName entry.name) with
      | none => exact hnone _
      | some path =>
          cases U16CStr.fromStr entry.name.toStringLossy with
          | none => exact hrecord path fun _ => hnone _
          | some name =>
              dsimp only
              cases pf.isNameInExpression pattern name true with
              | false => exact hrecord path fun _ => ih _
              | true =>
                  refine hrecord path fun _ evs a ht => ?_
                  obtain ⟨accepted, es, tail, hes, htail, rfl⟩ := Prog.traces_bind.mp ht
                  obtain ⟨notes, own, hnotes, hown, rfl⟩ := Prog.traces_perform.mp hes
                  obtain rfl : own = [.fillFindData _ accepted] := hown
                  rw [List.append_assoc]
                  refine .after (books_notes hnotes) (.fill ?_ ?_)
                  · rintro rfl
                    exact ih _ tail a htail
                  · rintro rfl
                    exact BooksRoutine.pure _ tail a htail

theorem findFilesPlus_lists (pf : Platform) (req : Request) (fileName pattern : U16CStr)
    (ino : INodeNo) (reqOffset : Int64) (reply : ReplyDirectoryPlus) :
    (findFilesPlus pf req fileName pattern ino reqOffset reply).EveryTrace Emits
      (Lists (visitedEntries pf fileName pattern reply.entries)) := by
  refine Prog.EveryTrace.seq (fun _ _ => Lists.before) (emitReaddirplusPatternEntries_lists pf req
    fileName pattern ino none reply.entries) fun emitted => ?_
  cases emitted with
  | error err => exact BooksRoutine.pure _
  | ok offset => exact BooksRoutine.before (.openState _) fun _ => .pure _

/-- A `readdirplus` call that the backend supports. -/
def Event.isListing : Event → Bool
  | .call (.readdirplus ..) reply => !isUnsupported (ReplyDirectoryPlus.status reply)
  | _ => false

def Unlisted (log : List Event) : Prop := ∀ e ∈ log, e.isListing = false

theorem unlisted_joins : Prog.Joins Unlisted where
  nil := by simp [Unlisted]
  append h h' e he := (List.mem_append.mp he).elim (h e) (h' e)

theorem unlisted_of_silent {log : List Event} (h : ∀ e ∈ log, e.isCall = false) : Unlisted log := by
  intro e he
  have hcall := h e he
  cases e <;> first | rfl | simp [Event.isCall] at hcall

theorem PlainRoutine.unlisted {pf : Platform} {α : Type} {p : Routine α} (hp : PlainRoutine pf p) :
    p.EveryTrace Emits Unlisted := by
  refine Prog.EveryTrace.of_performs unlisted_joins (fun e r es hok he => ?_) hp.performs
  obtain ⟨notes, own, hnotes, hown, rfl⟩ := he
  refine unlisted_joins.append (unlisted_of_silent (books_notes hnotes).silent) ?_
  cases e with
  | fs c =>
      obtain rfl : own = [.call c r] := hown
      intro e he
      obtain rfl := List.mem_singleton.mp he
      cases c <;> first | rfl | simp [Effect.isWalk, Effect.isPlain, FsCall.isPlain] at hok
  | table o =>
      obtain ⟨now, rfl⟩ := hown
      simp [Unlisted, Event.isListing]
  | deliver req o =>
      obtain ⟨now, forgets, rfl⟩ := hown
      intro e he
      rcases List.mem_cons.mp he with rfl | he
      · rfl
      · obtain ⟨f, -, rfl⟩ := List.mem_map.mp he
        rfl
  | openState o => simp [Unlisted, show own = [] from hown]
  | fillFindData data => simp [Unlisted, Event.isListing, show own = [.fillFindData data r] from hown]
  | fillFindStreamData data =>
      simp [Unlisted, Event.isListing, show own = [.fillFindStreamData data r] from hown]

/-- A log that ends in a listing and the records of its visited entries. -/
inductive Listed (pf : Platform) (fileName pattern : U16CStr) : List Event → Prop
  | intro {l rest : List Event} {req : Request} {ino : INodeNo} {fh : FileHandle}
      {offset : UInt64} {reply : ReplyDirectoryPlus} (hl : Booked l) (hunlisted : Unlisted l)
      (hsupported : isUnsupported reply.status = false)
      (hrest : Lists (visitedEntries pf fileName pattern reply.entries) rest) :
      Listed pf fileName pattern (l ++ .call (.readdirplus req ino fh offset) reply :: rest)

/-- The log of one callback. -/
def OneCallback (pf : Platform) (log : List Event) : Prop :=
  Booked log ∨ ∃ fileName pattern, Listed pf fileName pattern log

/-- The call is no listing, or its reply grants a reference for each entry. -/
def FsCall.grantsAll : (c : FsCall) → c.Reply → Bool
  | .readdirplus .., reply => ReplyDirectoryPlus.granted reply
      = (ReplyDirectoryPlus.entries reply).map fun entry => entry.attr.ino
  | _, _ => true

def Event.grantsAll : Event → Bool
  | .call c reply => c.grantsAll reply
  | _ => true

namespace OneCallback
variable {pf : Platform} {log : List Event}

theorem atCalls (h : OneCallback pf log) : AtCalls recorded granted log := by
  rcases h with h | ⟨fileName, pattern, ⟨hl, -, -, hrest⟩⟩
  · exact h.atCalls
  · exact hl.append_atCalls (atCalls_of_silent_tail hrest.silent)

theorem below (h : OneCallback pf log) (hall : ∀ e ∈ log, e.grantsAll) :
    Below recorded granted log := by
  rcases h with h | ⟨fileName, pattern, ⟨hl, -, -, hrest⟩⟩
  · exact h.below
  · refine (below_joins _ _).append hl.below (below_of_tail (fun i => rfl) fun i => ?_)
    have hgrants := hall _ (List.mem_append_right _ List.mem_cons_self)
    rw [hrest.sum]
    refine (((visitedEntries_starts pf fileName pattern _ _).sublist.map _).count_le i).trans (le_of_eq ?_)
    exact congrArg (List.count i) (of_decide_eq_true hgrants).symm

end OneCallback

theorem granted_of_isUnsupported {reply : ReplyDirectoryPlus} (h : isUnsupported reply.status) :
    reply.granted = [] := by
  obtain ⟨entries, _ | ⟨err⟩ | ⟨⟩⟩ := reply
  · rfl
  · rfl
  · simp [isUnsupported] at h

/-- The log of a listing callback: all is booked and nothing is listed, or it ends in the one
listing. -/
theorem findFilesWithPattern_traces (pf : Platform) (fileName pattern : U16CStr)
    (context : AdapterContext) :
    (findFilesWithPattern pf fileName pattern context).EveryTrace Emits fun evs =>
      (Booked evs ∧ Unlisted evs) ∨ Listed pf fileName pattern evs := by
  have hplain : ∀ {α : Type} {p : Routine α}, PlainRoutine pf p →
      p.EveryTrace Emits fun evs => Booked evs ∧ Unlisted evs := fun hp evs a ht =>
    ⟨BookedRoutine.of_plain hp evs a ht, hp.unlisted evs a ht⟩
  have hstart : ∀ {l l' : List Event}, (Booked l ∧ Unlisted l) →
      ((Booked l' ∧ Unlisted l') ∨ Listed pf fileName pattern l') →
        (Booked (l ++ l') ∧ Unlisted (l ++ l')) ∨ Listed pf fileName pattern (l ++ l') := by
    rintro l l' hl (hl' | ⟨hl', hunlisted, hsupported, hrest⟩)
    · exact .inl ⟨booked_joins.append hl.1 hl'.1, unlisted_joins.append hl.2 hl'.2⟩
    · rw [← List.append_assoc]
      exact .inr (.intro (booked_joins.append hl.1 hl') (unlisted_joins.append hl.2 hunlisted)
        hsupported hrest)
  refine .seq (fun _ _ => hstart) (hplain (MadeOf.directoryIno pf _ context _)) fun ino => ?_
  cases ino with
  | error status => exact (hplain (.pure _)).mono .inl
  | ok ino =>
      refine .seq (fun _ _ => hstart) (hplain (MadeOf.openState pf _))
        fun reqOffset evs a ht => ?_
      obtain ⟨reply, es, rest, hes, hrest, rfl⟩ := Prog.traces_bind.mp ht
      obtain ⟨notes, own, hnotes, hown, rfl⟩ := Prog.traces_perform.mp hes
      obtain rfl : own = [.call (.readdirplus _ ino context.fh (readdirOffset reqOffset)) reply] :=
        hown
      have hquiet : Booked notes ∧ Unlisted notes :=
        ⟨booked_notes hnotes, unlisted_of_silent (books_notes hnotes).silent⟩
      rw [List.append_assoc]
      by_cases hunsupported : isUnsupported (ReplyDirectoryPlus.status reply)
      · rw [if_pos hunsupported] at hrest
        refine hstart hquiet (.inl ?_)
        obtain ⟨hbooked, hunlisted⟩ := hplain (Composed.bind
          (MadeOf.drainResolverForgets pf _) fun _ =>
            MadeOf.findFilesFallback pf _ _ _ _ _ _) rest a hrest
        refine ⟨booked_joins.append (settles_of_zero ?_) hbooked,
          unlisted_joins.append ?_ hunlisted⟩
        · simp [recorded, granted, FsCall.granted, granted_of_isUnsupported hunsupported]
        · simp [Unlisted, Event.isListing, hunsupported]
      · rw [if_neg hunsupported] at hrest
        refine .inr (.intro hquiet.1 hquiet.2 (by simpa using hunsupported) ?_)
        exact Prog.EveryTrace.seq (fun _ _ => Lists.after) (BooksRoutine.drainResolverForgets _)
          (fun _ => findFilesPlus_lists pf _ _ _ _ _ _) rest a hrest

theorem every_oneCallback (pf : Platform) (c : Callback) :
    (c.routine pf).EveryTrace Emits (OneCallback pf) := by
  cases hplain : c.isPlain with
  | true => exact (BookedRoutine.of_plain (Callback.plainRoutine pf hplain)).mono .inl
  | false =>
      cases c with
      | createFile => exact (BookedRoutine.createFile pf _ _ _ _ _ _).mono .inl
      | cleanup => exact (BookedRoutine.cleanup pf _ _ _).mono .inl
      | moveFile => exact (BookedRoutine.moveFile pf _ _ _ _).mono .inl
      | findFilesWithPattern =>
          exact (findFilesWithPattern_traces pf _ _ _).mono (Or.imp And.left fun h => ⟨_, _, h⟩)
      | _ => cases hplain

end Confuse
