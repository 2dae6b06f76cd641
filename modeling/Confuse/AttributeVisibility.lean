import Confuse.MutationRoutes

/-!
# Own mutations through the attribute cache

In a run whose every removed name is accounted for, `get_file_information` returns what an immediate
`getattr` would give, up to the access time. The other names are those of replaced targets that no
path entry leads to: `move_file` does not invalidate their attributes.
-/

namespace Confuse

open Interaction PathResolver

/-! ## Whole runs -/

section Runs
variable {β φ : Type} (pf : Platform) (h : Host β φ) (notices : Notices)
  (attrs : β → INodeNo → Option FileAttr) (child : β → INodeNo → OsStr → Option INodeNo)

/-- Every name that the callback removes is of an inode that is accounted for: if the call changes its
attributes, none are remembered, or the callback invalidates them. -/
def Callback.Covered (w : World β φ) : Callback → Prop
  | .cleanup fileName true context =>
      let req := requestFromIds context.requestIds
      let leaf := (splitParentAndName fileName).2
      let found := (resolveParentIno pf req (splitParentAndName fileName).1).run
        (machine pf h notices) w
      ∀ parentIno, found.1 = .ok parentIno →
        ∀ i ∈ (child found.2.backend parentIno leaf).toList,
          found.2.Accounts h attrs (removal req context parentIno leaf)
            (removalPending pf.caseFold fileName context parentIno) i
  | .moveFile fileName newFileName replaceIfExisting context =>
      let req := requestFromIds context.requestIds
      let found := (resolveMove pf fileName newFileName replaceIfExisting context).run
        (machine pf h notices) w
      ∀ plan, found.1 = .ok plan →
        ∀ i ∈ (plan.rename req fileName newFileName).children (child found.2.backend),
          found.2.Accounts h attrs (plan.rename req fileName newFileName)
            (plan.pending pf.caseFold fileName newFileName) i
  | _ => True

/-- Every callback of the run is covered. -/
def World.EachCovered : List Callback → World β φ → Prop
  | [], _ => True
  | c :: callbacks, w => c.Covered pf h notices attrs child w ∧
      EachCovered callbacks ((c.routine pf).run (machine pf h notices) w).2

variable {pf h notices attrs child}

theorem moveFile_settled (hown : OwnMutations h attrs child) (fileName newFileName : U16CStr)
    (replaceIfExisting : Bool) (context : AdapterContext) {w : World β φ} (hw : w.Settled attrs)
    (hcovered : (Callback.moveFile fileName newFileName replaceIfExisting context).Covered pf h
      notices attrs child w) :
    ((moveFile pf fileName newFileName replaceIfExisting context).run (machine pf h notices)
      w).2.Settled attrs := by
  have hplanned : Triple (machine pf h notices) _ _ _ := settled_harmless hown
    (resolveMove_madeOf fileName newFileName replaceIfExisting context)
  obtain ⟨actual, hfound⟩ := hplanned w hw
  rw [moveFile_eq, Prog.run_bind]
  unfold Callback.Covered at hcovered
  dsimp only at hcovered
  cases hplan : ((resolveMove pf fileName newFileName replaceIfExisting context).run
      (machine pf h notices) w).1 with
  | error status => exact ⟨actual, hfound⟩
  | ok plan =>
      exact renameAndInvalidate_settled hown _ fileName newFileName plan _
        ⟨hfound, hcovered plan hplan⟩

theorem cleanup_settled (hown : OwnMutations h attrs child) (fileName : U16CStr)
    (deleteOnClose : Bool) (context : AdapterContext) {w : World β φ} (hw : w.Settled attrs)
    (hcovered : (Callback.cleanup fileName deleteOnClose context).Covered pf h notices attrs child
      w) :
    ((cleanup pf fileName deleteOnClose context).run (machine pf h notices) w).2.Settled attrs := by
  cases deleteOnClose with
  | false => exact hw
  | true =>
      have hresolved : Triple (machine pf h notices) _ _ _ := settled_harmless hown
        (.block (.resolve (requestFromIds context.requestIds) (splitParentAndName fileName).1))
      obtain ⟨actual, hfound⟩ := hresolved w hw
      unfold Callback.Covered at hcovered
      dsimp only at hcovered
      unfold cleanup cleanupDeleteOnClose
      rw [if_pos rfl, Prog.run_bind]
      cases hparent : ((resolveParentIno pf (requestFromIds context.requestIds)
          (splitParentAndName fileName).1).run (machine pf h notices) w).1 with
      | error err => exact ⟨actual, triple_drainPending hown _ _ hfound⟩
      | ok parentIno =>
          exact removeAndInvalidate_settled hown _ fileName context parentIno _ _
            ⟨hfound, hcovered parentIno hparent⟩

/-- A covered callback keeps what the resolver remembers right. -/
theorem Callback.settled (hown : OwnMutations h attrs child) (c : Callback) {w : World β φ}
    (hw : w.Settled attrs) (hcovered : c.Covered pf h notices attrs child w) :
    ((c.routine pf).run (machine pf h notices) w).2.Settled attrs := by
  have hharmless : c.isPlain → (∀ call, c.mayCall call → call.keepsAttributes) →
      ((c.routine pf).run (machine pf h notices) w).2.Settled attrs := fun hplain hkeeps =>
    settled_harmless hown ((Callback.madeOf pf hplain).widen hkeeps) w hw
  have hkeeps : (∀ call, c.changing call → call.keepsAttributes) →
      ∀ call, c.mayCall call → call.keepsAttributes := fun hchanging call hcall =>
    ((Bool.or_eq_true _ _).mp hcall).elim (AllowsObserving.allows call) (hchanging call)
  cases c with
  | createFile fileName desiredAccess fileAttributes createDisposition createOptions requestIds =>
      exact createFile_settled hown fileName desiredAccess fileAttributes createDisposition
        createOptions requestIds w hw
  | cleanup fileName deleteOnClose context =>
      exact cleanup_settled hown fileName deleteOnClose context hw hcovered
  | moveFile fileName newFileName replaceIfExisting context =>
      exact moveFile_settled hown fileName newFileName replaceIfExisting context hw hcovered
  | findFilesWithPattern fileName pattern context =>
      exact findFilesWithPattern_settled hown fileName pattern context w hw
  | setEndOfFile fileName offset context => exact setattrRoute_settled hown fileName context _ w hw
  | setFileAttributes fileName fileAttributes context =>
      exact setattrRoute_settled hown fileName context _ w hw
  | setFileTime fileName creationTime lastAccessTime lastWriteTime context =>
      exact setattrRoute_settled hown fileName context _ w hw
  | setAllocationSize fileName allocSize context =>
      exact setAllocationSize_settled hown fileName allocSize context w hw
  | writeFile fileName offset buffer writeToEof pagingIo context =>
      exact writeFile_settled hown fileName offset buffer writeToEof pagingIo context w hw
  | setFileSecurity fileName descriptor context =>
      exact setFileSecurity_settled hown fileName descriptor context w hw
  | _ => exact hharmless rfl (hkeeps fun call hcall => by cases call <;> first | rfl | cases hcall)

theorem World.serve_settled (hown : OwnMutations h attrs child) (callbacks : List Callback)
    {w : World β φ} (hw : w.Settled attrs)
    (hcovered : w.EachCovered pf h notices attrs child callbacks) :
    (w.serve pf h notices callbacks).Settled attrs := by
  induction callbacks generalizing w with
  | nil => exact hw
  | cons c callbacks ih => exact ih (c.settled hown hw hcovered.1) hcovered.2

/-- File information up to the access time. -/
def FileInfo.settled (info : FileInfo) : FileInfo :=
  { info with lastAccessTime := SystemTime.UNIX_EPOCH }

variable (h) in
/-- The file information is what an immediate `getattr` would give, up to the access time. -/
def World.Shows (ino : INodeNo) (info : FileInfo) (w : World β φ) : Prop :=
  ∀ req fh, ∃ payload : ReplyAttrPayload,
    (h.reply (.getattr req ino fh) w.backend).1 = (some (.ok payload) : Reply ReplyAttrPayload) ∧
      (fileInfo payload.attr).settled = info.settled

theorem Reports.shows (hown : OwnMutations h attrs child) {w : World β φ} {ino : INodeNo}
    {info : FileInfo} (hreports : Reports (attrs w.backend) ino (.ok info)) :
    w.Shows h ino info := by
  intro req fh
  obtain ⟨attr, hattr, rfl⟩ := hreports info rfl
  have hanswer := hown.answered req ino fh w.backend
  rw [hattr] at hanswer
  rcases hreply : (h.reply (.getattr req ino fh) w.backend).1 with _ | ⟨err⟩ | ⟨payload⟩
  · rw [hreply] at hanswer
    cases hanswer
  · rw [hreply] at hanswer
    cases hanswer
  · rw [hreply] at hanswer
    have hsettled : payload.attr.settled = attr.settled := Option.some.inj hanswer
    refine ⟨payload, rfl, ?_⟩
    change fileInfo payload.attr.settled = fileInfo attr.settled
    rw [hsettled]

/-- In a covered run `get_file_information` shows the attributes of the inode that it resolves. -/
theorem own_mutations_visible (hown : OwnMutations h attrs child) (ttl : Duration) (backend : β)
    (caller : φ) (callbacks : List Callback)
    (hcovered : (World.initial ttl backend caller).EachCovered pf h notices attrs child callbacks)
    (fileName : U16CStr) (context : AdapterContext) (info : FileInfo)
    (hinfo : ((getFileInformation pf fileName context).run (machine pf h notices)
      ((World.initial ttl backend caller).serve pf h notices callbacks)).1 = .ok info) :
    ∃ resolved, ((resolveContextOrPath pf (requestFromIds context.requestIds) fileName context).run
        (machine pf h notices)
        ((World.initial ttl backend caller).serve pf h notices callbacks)).1 = .ok resolved ∧
      ((getFileInformation pf fileName context).run (machine pf h notices)
        ((World.initial ttl backend caller).serve pf h notices callbacks)).2.Shows h resolved.ino
        info := by
  have hserved := World.serve_settled hown callbacks (World.initial_settled attrs ttl backend caller)
    hcovered
  generalize (World.initial ttl backend caller).serve pf h notices callbacks = w at hserved hinfo ⊢
  have hresolve : Triple (machine pf h notices) _ _ _ := settled_harmless hown
    (MadeOf.resolveContextOrPath pf (requestFromIds context.requestIds) fileName context)
  obtain ⟨actual, hfound⟩ := hresolve w hserved
  have hbody : getFileInformation pf fileName context
      = withResolved pf (requestFromIds context.requestIds) fileName context
          (servedInfo (requestFromIds context.requestIds)) := rfl
  rw [hbody, withResolved, Prog.run_bind] at hinfo ⊢
  cases hresolved : ((resolveContextOrPath pf (requestFromIds context.requestIds) fileName
      context).run (machine pf h notices) w).1 with
  | error err =>
      rw [hresolved] at hinfo
      cases hinfo
  | ok resolved =>
      rw [hresolved] at hinfo
      refine ⟨resolved, rfl, ?_⟩
      obtain ⟨hreports, hfresh⟩ := servedInfo_reports hown (requestFromIds context.requestIds)
        resolved _ hfound
      dsimp only at hinfo ⊢
      rw [hinfo, ← hfresh.backend] at hreports
      exact Reports.shows hown hreports

end Runs

/-! ## A replaced target -/

/-- The files `a` and `b` in the root, where `b` has a second link `c`, before and after `a` has
replaced `b`. -/
def linkedName (replaced : Bool) (parent : INodeNo) (name : OsStr) : Option INodeNo :=
  if parent = .ROOT then
    if name = .new ['a'] then if replaced then none else some ⟨5⟩
    else if name = .new ['b'] then some (if replaced then ⟨5⟩ else ⟨6⟩)
    else if name = .new ['c'] then some ⟨6⟩
    else none
  else none

def linkedAttr (replaced : Bool) (ino : INodeNo) : FileAttr :=
  { FileAttr.plain ino .regularFile with nlink := if ino = ⟨6⟩ ∧ replaced = false then 2 else 1 }

/-- The rename of `a` to `b`. -/
def replacesB (replaced : Bool) (parent : INodeNo) (name : OsStr) (newparent : INodeNo)
    (newname : OsStr) : Bool :=
  parent = .ROOT && name = .new ['a'] && newparent = .ROOT && newname = .new ['b'] && !replaced

/-- Entries have no validity; attributes are valid for ten seconds. -/
def linkedReply : (c : FsCall) → Bool → c.Reply × Bool
  | .lookup _ parent name, replaced =>
      ((match linkedName replaced parent name with
        | some ino => some (.ok ⟨linkedAttr replaced ino, .fromNanos 0, ⟨1⟩⟩)
        | none => some (.error ENOENT) : Reply ReplyEntryPayload), replaced)
  | .getattr _ ino _, replaced =>
      ((some (.ok ⟨linkedAttr replaced ino, .fromSecs 10⟩) : Reply ReplyAttrPayload), replaced)
  | .open .., replaced => ((some (.ok ⟨⟨7⟩, ⟨0⟩⟩) : Reply ReplyOpenPayload), replaced)
  | .rename _ parent name newparent newname _, replaced =>
      ((if replacesB replaced parent name newparent newname then some (.ok ())
        else some (.error ENOENT) : Reply Unit),
        replaced || replacesB replaced parent name newparent newname)
  | c, replaced => (c.unanswered, replaced)

def Host.linked : Host Bool Unit where
  reply := linkedReply
  forget _ _ _ replaced := replaced
  clock _ := 0
  fillFindData _ caller := (true, caller)
  fillFindStreamData _ caller := (true, caller)

theorem linked_ownMutations :
    OwnMutations .linked (fun replaced ino => some (linkedAttr replaced ino)) linkedName where
  answered req i fh b := rfl
  named b i attr hattr := by
    cases hattr
    rfl
  forgotten req ino n b := rfl
  kept c b i hi := by
    cases c with
    | rename req parent name newparent newname flags =>
        change some (linkedAttr (b || replacesB b parent name newparent newname) i)
          = some (linkedAttr b i)
        cases hreplaces : replacesB b parent name newparent newname with
        | false => rw [Bool.or_false]
        | true =>
            obtain ⟨⟨⟨⟨rfl, rfl⟩, rfl⟩, rfl⟩, hb⟩ : (((parent = .ROOT ∧ name = .new ['a']) ∧
                newparent = .ROOT) ∧ newname = .new ['b']) ∧ b = false := by
              simpa [replacesB] using hreplaces
            subst hb
            have hsix : i ≠ ⟨6⟩ := by
              rintro rfl
              exact hi (show _ ∈ [INodeNo.ROOT, .ROOT, ⟨5⟩, ⟨6⟩] by decide)
            unfold linkedAttr
            rw [if_neg fun heq => hsix heq.1, if_neg fun heq => hsix heq.1]
    | _ => rfl

def pathLinkA : U16CStr := ⟨[92, 97], by simp⟩

def pathLinkB : U16CStr := ⟨[92, 98], by simp⟩

/-- The handle that opening `b` gives. -/
def handleOfB : AdapterContext where
  fh := ⟨7⟩
  ino := ⟨6⟩
  requestIds := .unavailable 1

def openB : Callback := .createFile pathLinkB 0 0 FILE_OPEN 0 (.unavailable 1)

def replaceB : Callback := .moveFile pathLinkA pathLinkB true {}

/-- The world before any callback. -/
def World.linked : World Bool Unit := .initial (.fromSecs 1) false ()

example : ((openB.routine .ascii).run (machine .ascii .linked undisturbed) World.linked).1
    = .ok ⟨handleOfB, false, false⟩ := by rfl

/-- Attributes of `b` that were not remembered before it is replaced. -/
theorem own_mutations_visible_fetched :
    ∃ resolved, ((resolveContextOrPath .ascii (requestFromIds (.unavailable 1)) pathLinkB
        handleOfB).run
        (machine .ascii .linked undisturbed)
        (World.linked.serve .ascii .linked undisturbed [openB, replaceB])).1 = .ok resolved ∧
      ((getFileInformation .ascii pathLinkB handleOfB).run (machine .ascii .linked undisturbed)
        (World.linked.serve .ascii .linked undisturbed [openB, replaceB])).2.Shows .linked
        resolved.ino (fileInfo (linkedAttr true ⟨6⟩)) := by
  refine own_mutations_visible linked_ownMutations (.fromSecs 1) false () [openB, replaceB] ?_
    pathLinkB handleOfB (fileInfo (linkedAttr true ⟨6⟩)) rfl
  have hplanned : ((resolveMove .ascii pathLinkA pathLinkB true {}).run
      (machine .ascii .linked undisturbed)
      (World.linked.serve .ascii .linked undisturbed [openB])).1
      = .ok ⟨.ROOT, .ROOT, some ⟨5⟩⟩ := by rfl
  refine ⟨trivial, fun plan hplan i hi hchanged => .inl ?_, trivial⟩
  obtain rfl : (⟨.ROOT, .ROOT, some ⟨5⟩⟩ : MovePlan) = plan := Except.ok.inj (hplanned.symm.trans hplan)
  have hchild : i ∈ [(⟨5⟩ : INodeNo), ⟨6⟩] := hi
  rcases List.mem_pair.mp hchild with rfl | rfl <;> rfl

/-- The attributes of `b` were remembered; when it is replaced they stay, with the old number of
links. -/
theorem replaced_target_shown_stale :
    ¬ ∀ (β φ : Type) (pf : Platform) (h : Host β φ) (notices : Notices)
      (attrs : β → INodeNo → Option FileAttr) (child : β → INodeNo → OsStr → Option INodeNo),
      OwnMutations h attrs child → ∀ (ttl : Duration) (backend : β) (caller : φ)
        (callbacks : List Callback) (fileName : U16CStr) (context : AdapterContext) (info : FileInfo),
        ((getFileInformation pf fileName context).run (machine pf h notices)
          ((World.initial ttl backend caller).serve pf h notices callbacks)).1 = .ok info →
        ∃ resolved, ((resolveContextOrPath pf (requestFromIds context.requestIds) fileName
            context).run (machine pf h notices)
            ((World.initial ttl backend caller).serve pf h notices callbacks)).1 = .ok resolved ∧
          ((getFileInformation pf fileName context).run (machine pf h notices)
            ((World.initial ttl backend caller).serve pf h notices callbacks)).2.Shows h
            resolved.ino info := by
  intro hall
  obtain ⟨resolved, hresolved, hshows⟩ := hall Bool Unit .ascii .linked undisturbed _ _
    linked_ownMutations (.fromSecs 1) false ()
    [openB, .getFileInformation pathLinkB handleOfB, replaceB] pathLinkB handleOfB
    (fileInfo (linkedAttr false ⟨6⟩)) (by rfl)
  obtain rfl : handleOfB = resolved := Except.ok.inj hresolved
  obtain ⟨payload, hpayload, hsame⟩ := hshows (requestFromIds (.unavailable 1)) none
  have hattr : some (Except.ok ⟨linkedAttr true ⟨6⟩, .fromSecs 10⟩) = some (Except.ok payload) :=
    hpayload
  cases hattr
  revert hsame
  decide

end Confuse
