import Confuse.CreateOutcome
import Confuse.NamespaceCoherence

/-!
# Create dispositions

What `create_file` has to do with an absent and with a present entry, for the three dispositions that
do not discard contents. The file system is truthful and permits the operation. The route through
`mkdir` has no open after a collision, so FILE_OPEN_IF fails on a directory that is there; and an entry
that is made but whose expiry is not an instant ends the callback with a panic.
-/

namespace Confuse

open Interaction NameTree PathResolver
open Event (handedOut)

/-- The node at the end of some path, when it is a directory. -/
def IsDirectory (n : Namespace) (dir : INodeNo → Generation → Bool) (i : INodeNo) : Prop :=
  ∃ ks g, walk n rootEntry ks = some (i, g) ∧ dir i g

/-- The file system permits creations and opens: in a ready state it makes what is absent, and it opens
what is there as what it is. -/
structure Permits {β φ : Type} (cf : CaseFold) (h : Host β φ) (ns : β → Namespace)
    (dir : INodeNo → Generation → Bool) (ready : β → Prop) : Prop where
  still_ready : ∀ {c : FsCall} {b}, c.keepsNames → ready b → ready (h.reply c b).2
  ready_forget : ∀ req i n {b}, ready b → ready (h.forget req i n b)
  mkdir_absent : ∀ req {p name} mode umask {b}, ready b → IsDirectory (ns b) dir p →
    IsComponent name.toStringLossy → ns b p (nameKey cf name) = none →
      ∃ payload : ReplyEntryPayload,
        (h.reply (.mkdir req p name mode umask) b).1 = some (.ok payload)
  create_absent : ∀ req {p name} mode umask flags {b}, ready b → IsDirectory (ns b) dir p →
    IsComponent name.toStringLossy → ns b p (nameKey cf name) = none →
      ∃ payload : ReplyCreatePayload,
        (h.reply (.create req p name mode umask flags) b).1 = some (.ok payload)
  mkdir_present : ∀ req {p name} mode umask {b v}, ns b p (nameKey cf name) = some v →
    (h.reply (.mkdir req p name mode umask) b).1 = some (.error EEXIST)
  create_present : ∀ req {p name} mode umask flags {b v}, ns b p (nameKey cf name) = some v →
    (h.reply (.create req p name mode umask flags) b).1 = some (.error EEXIST)
  open_file : ∀ req {p k i g} flags {b}, ns b p k = some (i, g) → dir i g = false →
    ∃ payload : ReplyOpenPayload, (h.reply (.open req i flags) b).1 = some (.ok payload)
  open_directory : ∀ req {p k i g} flags {b}, ns b p k = some (i, g) → dir i g = true →
    ∃ payload : ReplyOpenPayload, (h.reply (.opendir req i flags) b).1 = some (.ok payload)

/-- An open: a present name is returned, and an absent one stops it. -/
def Found (n : Namespace) (parent : INodeNo) (key : Str) (result : Except NtStatus CreateFileInfo) :
    Prop :=
  match n parent key with
  | none => ∃ status, result = .error status
  | some (ino, _) => ∃ info, result = .ok info ∧ info.newFileCreated = false ∧
      info.context.ino = ino

/-- A creation: the absent name is made and returned, and a present one stops it. -/
def Made (n n' : Namespace) (parent : INodeNo) (key : Str)
    (result : Except NtStatus CreateFileInfo) : Prop :=
  match n parent key with
  | none => ∃ info g, result = .ok info ∧ info.newFileCreated = true ∧
      n' = assign n parent key (some (info.context.ino, g))
  | some _ => result = .error STATUS_OBJECT_NAME_COLLISION ∧ n' = n

/-- What the dispositions FILE_CREATE, FILE_OPEN and FILE_OPEN_IF have to do with the name `key` of
`parent`, from the names `n` to the names `n'`. -/
def Disposed (n n' : Namespace) (parent : INodeNo) (key : Str) (createDisposition : UInt32)
    (result : Except NtStatus CreateFileInfo) : Prop :=
  if createDisposition = FILE_CREATE then Made n n' parent key result
  else if createDisposition = FILE_OPEN then Found n parent key result ∧ n' = n
  else if n parent key = none then Made n n' parent key result
  else Found n parent key result ∧ n' = n

/-- What the dispositions do: FILE_OPEN_IF fails on a directory that is there. -/
def Served (isDirOpen : Bool) (n n' : Namespace) (parent : INodeNo) (key : Str)
    (createDisposition : UInt32) (result : Except NtStatus CreateFileInfo) : Prop :=
  if createDisposition = FILE_OPEN_IF ∧ isDirOpen ∧ n parent key ≠ none then
    result = .error STATUS_OBJECT_NAME_COLLISION
  else Disposed n n' parent key createDisposition result

section Served
variable {isDirOpen : Bool} {n n' : Namespace} {parent : INodeNo} {key : Str}
  {result : Except NtStatus CreateFileInfo}

theorem served_create (h : Made n n' parent key result) :
    Served isDirOpen n n' parent key FILE_CREATE result := by
  rw [Served, if_neg fun hcond => absurd hcond.1 (by decide), Disposed, if_pos rfl]
  exact h

theorem served_open (h : Found n parent key result ∧ n' = n) :
    Served isDirOpen n n' parent key FILE_OPEN result := by
  rw [Served, if_neg fun hcond => absurd hcond.1 (by decide), Disposed, if_neg (by decide),
    if_pos rfl]
  exact h

theorem served_openIf_directory (hdir : isDirOpen = true) (h : Made n n' parent key result) :
    Served isDirOpen n n' parent key FILE_OPEN_IF result := by
  unfold Served
  by_cases habsent : n parent key = none
  · rw [if_neg fun hcond => hcond.2.2 habsent, Disposed, if_neg (by decide), if_neg (by decide),
      if_pos habsent]
    exact h
  · obtain ⟨v, hv⟩ := Option.ne_none_iff_exists'.mp habsent
    rw [if_pos ⟨rfl, hdir, habsent⟩]
    rw [Made, hv] at h
    exact h.1

theorem served_openIf_file (hdir : ¬ isDirOpen = true)
    (h : if n parent key ≠ none then Found n parent key result ∧ n' = n
      else Made n n' parent key result) :
    Served isDirOpen n n' parent key FILE_OPEN_IF result := by
  rw [Served, if_neg fun hcond => hdir hcond.2.1, Disposed, if_neg (by decide), if_neg (by decide)]
  by_cases habsent : n parent key = none
  · rw [if_pos habsent]
    rwa [if_neg (not_not_intro habsent)] at h
  · rw [if_neg habsent]
    rwa [if_pos habsent] at h

end Served

section Routes
variable {β φ : Type} {pf : Platform} {h : Host β φ} {notices : Notices} {ns : β → Namespace}
  {used : β → INodeNo → Generation → Prop} {dir : INodeNo → Generation → Bool} {ready : β → Prop}
  {n : Namespace}

/-- An open of what is there succeeds. -/
theorem openResolvedPath_spec (ht : Truthful pf.caseFold h ns used)
    (hp : Permits pf.caseFold h ns dir ready) (request : OpenEntryRequest) {p : INodeNo} {k : Str}
    {i : INodeNo} {g : Generation} (hchild : n p k = some (i, g))
    (hkind : dir i g = request.isDirOpen) :
    Triple (machine pf h notices) (World.Agrees ns used nowhere n) (openResolvedPath request i)
      fun r w => (∃ info, r = .ok info ∧ info.newFileCreated = false ∧ info.context.ino = i) ∧
        w.Agrees ns used nowhere n := by
  have hopened : Triple (machine pf h notices) (World.Agrees ns used nowhere n)
      (openOrOpendir request i) fun a w => (∃ payload : ReplyOpenPayload, a = some (.ok payload)) ∧
        w.Agrees ns used nowhere n := by
    cases hdir : request.isDirOpen with
    | true =>
        rw [openOrOpendir_dir hdir]
        exact triple_call (c := .opendir _ _ _) ht rfl fun b hb =>
          hp.open_directory _ _ (hb ▸ hchild) (hkind.trans hdir)
    | false =>
        rw [openOrOpendir_file hdir]
        exact triple_call (c := .open _ _ _) ht rfl fun b hb =>
          hp.open_file _ _ (hb ▸ hchild) (hkind.trans hdir)
  refine hopened.bind fun opened => .assume ?_
  rintro ⟨payload, rfl⟩
  refine (triple_drain ht _ _).bind fun _ => (triple_steady ht (.perform rfl)).bind fun _ => ?_
  exact .pure fun w hw => ⟨⟨_, rfl, rfl, rfl⟩, hw⟩

/-- The open route finds what the namespace has. -/
theorem openExistingEntry_spec (ht : Truthful pf.caseFold h ns used)
    (hp : Permits pf.caseFold h ns dir ready) (request : OpenEntryRequest) {parent : INodeNo}
    (hpath : Located pf.caseFold n request.fileName parent) (hunknown : request.pathIno = ⟨0⟩)
    (hkind : ∀ i g, n parent (nameKey pf.caseFold (splitParentAndName request.fileName).2)
      = some (i, g) → dir i g = request.isDirOpen) :
    Triple (machine pf h notices) (World.Agrees ns used nowhere n) (openExistingEntry pf request)
      fun r w => Found n parent (nameKey pf.caseFold (splitParentAndName request.fileName).2) r ∧
        w.Agrees ns used nowhere n := by
  obtain ⟨g, hreached⟩ := hpath.reached
  have hwalk : walk n rootEntry (keyOf pf.caseFold request.fileName.path)
      = n parent (nameKey pf.caseFold (splitParentAndName request.fileName).2) := by
    rw [hpath.keyOf_path, Located.place, walk_concat, hreached, Option.bind_some]
  unfold openExistingEntry resolveOpenIno
  rw [if_neg (not_not.mpr hunknown), Prog.bind_assoc]
  refine (resolvePathIno_spec ht _ _).bind fun a => .assume ?_
  rintro rfl
  rw [resolved, hwalk]
  unfold Found
  cases hchild : n parent (nameKey pf.caseFold (splitParentAndName request.fileName).2) with
  | none =>
      dsimp only
      rw [Prog.bind_assoc]
      exact (triple_drain ht _ _).bind fun _ => .pure fun w hw => ⟨⟨_, rfl⟩, hw⟩
  | some v => exact openResolvedPath_spec ht hp request hchild (hkind v.1 v.2 hchild)

theorem openCollisionEntry_spec (ht : Truthful pf.caseFold h ns used)
    (hp : Permits pf.caseFold h ns dir ready) (request : OpenEntryRequest) {parent : INodeNo}
    (hpath : Located pf.caseFold n request.fileName parent) (hunknown : request.pathIno = ⟨0⟩)
    (hkind : ∀ i g, n parent (nameKey pf.caseFold (splitParentAndName request.fileName).2)
      = some (i, g) → dir i g = request.isDirOpen) :
    Triple (machine pf h notices) (World.Agrees ns used nowhere n) (openCollisionEntry pf request)
      fun r w => Found n parent (nameKey pf.caseFold (splitParentAndName request.fileName).2) r ∧
        w.Agrees ns used nowhere n := by
  unfold openCollisionEntry
  rw [if_pos hunknown]
  exact (triple_plain ht (.invalidatePathCache pf _ _)).bind fun _ =>
    openExistingEntry_spec ht hp request hpath hunknown hkind

/-! ## Creating -/

/-- The world agrees with the names, and its file system is ready. -/
def World.Ready (ns : β → Namespace) (used : β → INodeNo → Generation → Prop) (ready : β → Prop)
    (n : Namespace) (w : World β φ) : Prop := w.Agrees ns used nowhere n ∧ ready w.backend

theorem resolvePathIno_ready (ht : Truthful pf.caseFold h ns used)
    (hp : Permits pf.caseFold h ns dir ready) (req : Request) (path : OsStr) :
    Triple (machine pf h notices) (World.Ready ns used ready n) (resolvePathIno pf req path)
      fun a w => a = resolved n (keyOf pf.caseFold path) ∧ w.Ready ns used ready n := by
  have hready : Triple (machine pf h notices) (fun w : World β φ => ready w.backend)
      (resolvePathIno pf req path) fun _ w => ready w.backend := fun w hw =>
    World.run_backend pf notices
      (fun (c : FsCall) b (hc : c.keepsNames = true) hb => hp.still_ready hc hb)
      (fun req i k b hb => hp.ready_forget req i k hb)
      ((Walks.resolvePathIno req pf path).mono fun e he c hc => by
        subst hc
        cases c <;> first | rfl | cases he) hw
  exact ((resolvePathIno_spec ht req path).and hready).consequence (fun _ hw => hw)
    fun _ _ hw => ⟨hw.1.1, hw.1.2, hw.2⟩

/-- Lookups and other calls that keep the names. -/
theorem triple_names (ht : Truthful pf.caseFold h ns used) {α : Type} {p : Routine α}
    (hp : Calls FsCall.keepsNames p) :
    Triple (machine pf h notices) (fun w => ns w.backend = n) p fun _ w => ns w.backend = n := by
  intro w hw
  refine World.run_backend pf notices (fun (c : FsCall) b (hc : c.keepsNames = true) hb => ?_)
    (fun req i k b hb => (ht.forget_names req i k b).trans hb) (hp.mono fun e he c hc => ?_) hw
  · exact (ht.unchanged (FsCall.keepsNames.change hc _)).trans hb
  · subst hc
    rcases he with hwalk | hkeeps
    · cases c <;> first | rfl | cases hwalk
    · exact hkeeps c rfl

/-- A call that a ready file system answers with `Q`: it changes no name, or makes its change. -/
theorem triple_attempt (ht : Truthful pf.caseFold h ns used) {c : FsCall} {Q : c.Reply → Prop}
    (hreply : ∀ b, ns b = n → ready b → Q (h.reply c b).1) :
    Triple (machine pf h notices) (World.Ready ns used ready n) (Routine.fs c) fun a w =>
      Q a ∧ (c.change a = none → w.Agrees ns used nowhere n) ∧
        ∀ change, c.change a = some change → change.Leads pf.caseFold n (ns w.backend) := by
  rintro w ⟨hw, hready⟩
  let w' := (notices w.steps).foldl (World.notify pf h) w
  have hw' : w'.Agrees ns used nowhere n := hw.foldl_notify pf h _
  have hready' : ready w'.backend := by
    rwa [show w'.backend = w.backend from World.foldl_notify_backend pf _ w]
  refine ⟨hreply w'.backend hw'.names hready', fun hnone => ?_, fun change hsome => ?_⟩
  · have hnames : ns (h.reply c w'.backend).2 = ns w'.backend := ht.unchanged hnone
    exact ⟨hnames.trans hw'.names, hw'.coherent.mono (ht.stays_used c w'.backend)⟩
  · have hleads : change.Leads pf.caseFold (ns w'.backend) (ns (h.reply c w'.backend).2) :=
      ht.changed hsome
    rwa [hw'.names] at hleads

theorem createDirectoryEntry_made (ht : Truthful pf.caseFold h ns used)
    (hp : Permits pf.caseFold h ns dir ready) (create : CreateEntryRequest)
    (hunknown : create.pathIno = ⟨0⟩) (hparent : IsDirectory n dir create.parentIno)
    (hleaf : IsComponent create.leaf.toStringLossy) :
    Triple (machine pf h notices) (World.Ready ns used ready n) (createDirectoryEntry create)
      fun r w => Made n (ns w.backend) create.parentIno (nameKey pf.caseFold create.leaf) r := by
  unfold Made
  cases hchild : n create.parentIno (nameKey pf.caseFold create.leaf) with
  | none =>
      refine (triple_attempt ht (c := .mkdir create.req create.parentIno create.leaf create.mode 0)
        (Q := fun reply => ∃ payload : ReplyEntryPayload, reply = some (.ok payload))
        fun b hb hready => hp.mkdir_absent _ _ _ hready (hb ▸ hparent) hleaf (hb ▸ hchild)).bind
          fun state => .assume ?_
      rintro ⟨payload, rfl⟩
      refine Triple.weakenPre (P := fun w => ns w.backend = assign n create.parentIno
        (nameKey pf.caseFold create.leaf) (some (payload.attr.ino, payload.generation))) ?_
          fun w hw => (hw.2 _ rfl).2.2
      refine (triple_names ht (.drainResolverForgets _)).bind fun _ =>
        (triple_names ht (.finishCreatedEntry _)).bind fun _ => .pure fun w hw => ?_
      refine ⟨_, payload.generation, rfl, rfl, ?_⟩
      rw [hw, createdIno_eq hunknown]
  | some v =>
      refine (triple_attempt ht (c := .mkdir create.req create.parentIno create.leaf create.mode 0)
        (Q := fun reply => reply = some (.error EEXIST))
        fun b hb _ => hp.mkdir_present _ _ _ (hb ▸ hchild)).bind fun state => .assume ?_
      rintro rfl
      refine ((triple_drain ht _ _).weakenPre fun w hw => hw.1 rfl).bind fun _ => ?_
      exact .pure fun w hw => ⟨rfl, hw.names⟩

/-- A present name stops a creation, or it is opened when the plan says so. -/
theorem createFileEntryOrOpenExisting_made (ht : Truthful pf.caseFold h ns used)
    (hp : Permits pf.caseFold h ns dir ready) (create : CreateEntryRequest)
    (plan : CreateDispositionPlan) (openFlags : Int32)
    (hunknown : create.pathIno = ⟨0⟩) (hparent : IsDirectory n dir create.parentIno)
    (hpath : Located pf.caseFold n create.fileName create.parentIno)
    (hleaf : create.leaf = (splitParentAndName create.fileName).2)
    (hkind : ∀ i g, n create.parentIno (nameKey pf.caseFold create.leaf) = some (i, g) →
      dir i g = create.isDirOpen) :
    Triple (machine pf h notices) (World.Ready ns used ready n)
      (createFileEntryOrOpenExisting pf create plan openFlags) fun r w =>
        if plan.opensExistingAfterCollision EEXIST ∧
            n create.parentIno (nameKey pf.caseFold create.leaf) ≠ none then
          Found n create.parentIno (nameKey pf.caseFold create.leaf) r ∧ ns w.backend = n
        else Made n (ns w.backend) create.parentIno (nameKey pf.caseFold create.leaf) r := by
  cases hchild : n create.parentIno (nameKey pf.caseFold create.leaf) with
  | none =>
      simp only [ne_eq, not_true_eq_false, and_false, if_false]
      refine (triple_attempt ht
        (c := .create create.req create.parentIno create.leaf create.mode 0 openFlags)
        (Q := fun reply => ∃ payload : ReplyCreatePayload, reply = some (.ok payload))
        fun b hb hready => hp.create_absent _ _ _ _ hready (hb ▸ hparent)
          (hleaf ▸ hpath.leaf) (hb ▸ hchild)).bind fun state => .assume ?_
      rintro ⟨payload, rfl⟩
      refine Triple.weakenPre (P := fun w => ns w.backend = assign n create.parentIno
        (nameKey pf.caseFold create.leaf) (some (payload.attr.ino, payload.generation))) ?_
          fun w hw => (hw.2 _ rfl).2.2
      refine (triple_names ht (.drainResolverForgets _)).bind fun _ =>
        (triple_names ht (.finishCreatedEntry _)).bind fun _ => .pure fun w hw => ?_
      rw [Made, hchild]
      refine ⟨_, payload.generation, rfl, rfl, ?_⟩
      rw [hw, createdIno_eq hunknown]
  | some v =>
      refine (triple_attempt ht
        (c := .create create.req create.parentIno create.leaf create.mode 0 openFlags)
        (Q := fun reply => reply = some (.error EEXIST))
        fun b hb _ => hp.create_present _ _ _ _ (hb ▸ hchild)).bind fun state => .assume ?_
      rintro rfl
      simp only [ne_eq, reduceCtorEq, not_false_eq_true, and_true]
      refine ((triple_drain ht _ _).weakenPre fun w hw => hw.1 rfl).bind fun _ => ?_
      split_ifs
      · refine (openCollisionEntry_spec ht hp (.fromCreate create openFlags) hpath hunknown
          fun i g hc => hkind i g (hleaf ▸ hc)).consequence (fun _ hw => hw) fun r w hw => ?_
        rw [OpenEntryRequest.fromCreate, ← hleaf] at hw
        exact ⟨hw.1, hw.2.names⟩
      · exact .pure fun w hw => by
          rw [Made, hchild]
          exact ⟨rfl, hw.names⟩

theorem points_of_isComponent {name : OsStr} (h : IsComponent name.toStringLossy) :
    name.points ≠ [] := fun hnil =>
  absurd (by rw [OsStr.toStringLossy, hnil, List.map_nil]) ((isComponent_iff _).mp h).1

theorem createFile_disposed (ht : Truthful pf.caseFold h ns used)
    (hp : Permits pf.caseFold h ns dir ready) (fileName : U16CStr) (desiredAccess : AccessMask)
    (fileAttributes createOptions : UInt32) (requestIds : RequestIds) {parent : INodeNo}
    {g : Generation} (hreached : walk n rootEntry
      (keyOf pf.caseFold (splitParentAndName fileName).1) = some (parent, g))
    (hparent : dir parent g) (hleaf : IsComponent (splitParentAndName fileName).2.toStringLossy)
    (hkind : ∀ i g, n parent (nameKey pf.caseFold (splitParentAndName fileName).2) = some (i, g) →
      dir i g = isDirectoryOpen createOptions) {createDisposition : UInt32}
    (hdisposition : createDisposition ∈ [FILE_CREATE, FILE_OPEN, FILE_OPEN_IF]) :
    Triple (machine pf h notices) (World.Ready ns used ready n)
      (createFile pf fileName desiredAccess fileAttributes createDisposition createOptions requestIds)
      fun r w => Served (isDirectoryOpen createOptions) n (ns w.backend) parent
        (nameKey pf.caseFold (splitParentAndName fileName).2) createDisposition r := by
  have hpath : Located pf.caseFold n fileName parent := ⟨⟨g, hreached⟩, hleaf⟩
  have hpoints := points_of_isComponent hleaf
  refine (resolvePathIno_ready ht hp _ _).bind fun a => .assume ?_
  rintro rfl
  rw [resolved, hreached]
  dsimp only [createInParent]
  rw [if_neg hpoints]
  have hunknown := knownPathIno_of_leaf hpoints
  have hdirectory : IsDirectory n dir parent := ⟨_, g, hreached, hparent⟩
  have hmkdir : ∀ mode, Triple (machine pf h notices) (World.Ready ns used ready n)
      (createDirectoryEntry ⟨requestFromIds requestIds, fileName, parent,
        (splitParentAndName fileName).2, knownPathIno fileName, requestIds, mode,
        isDirectoryOpen createOptions⟩) fun r w => Made n (ns w.backend) parent
          (nameKey pf.caseFold (splitParentAndName fileName).2) r :=
    fun mode => createDirectoryEntry_made ht hp _ hunknown hdirectory hleaf
  have hcreate : ∀ mode plan openFlags, Triple (machine pf h notices) (World.Ready ns used ready n)
      (createFileEntryOrOpenExisting pf ⟨requestFromIds requestIds, fileName, parent,
        (splitParentAndName fileName).2, knownPathIno fileName, requestIds, mode,
        isDirectoryOpen createOptions⟩ plan openFlags) _ :=
    fun mode plan openFlags => createFileEntryOrOpenExisting_made ht hp _ plan openFlags hunknown
      hdirectory hpath rfl hkind
  have hopen : ∀ openFlags, Triple (machine pf h notices) (World.Agrees ns used nowhere n)
      (openExistingEntry pf ⟨requestFromIds requestIds, fileName, knownPathIno fileName, requestIds,
        openFlags, isDirectoryOpen createOptions⟩) _ :=
    fun openFlags => openExistingEntry_spec ht hp _ hpath hunknown hkind
  simp only [List.mem_cons, List.not_mem_nil, or_false] at hdisposition
  rcases hdisposition with rfl | rfl | rfl
  · rw [if_neg (by decide)]
    by_cases hdir : isDirectoryOpen createOptions = true
    · rw [if_pos hdir]
      exact (hmkdir _).consequence (fun _ hw => hw) fun _ _ => served_create
    · rw [if_neg hdir]
      refine (hcreate _ _ _).consequence (fun _ hw => hw) fun r w hr => served_create ?_
      rwa [if_neg fun hcond => absurd hcond.1 (by decide)] at hr
  · rw [if_pos (by decide)]
    exact (hopen _).consequence (fun _ hw => hw.1) fun _ _ hr => served_open ⟨hr.1, hr.2.names⟩
  · rw [if_neg (by decide)]
    by_cases hdir : isDirectoryOpen createOptions = true
    · rw [if_pos hdir]
      exact (hmkdir _).consequence (fun _ hw => hw) fun _ _ => served_openIf_directory hdir
    · rw [if_neg hdir]
      refine (hcreate _ _ _).consequence (fun _ hw => hw) fun r w hr => served_openIf_file hdir ?_
      have hcollision : (createDispositionPlan FILE_OPEN_IF).opensExistingAfterCollision EEXIST = true :=
        rfl
      rwa [if_congr (and_iff_right hcollision) rfl rfl] at hr

/-- A failed `create_file` opens nothing. -/
theorem createFile_failed {fileName : U16CStr} {desiredAccess : AccessMask}
    {fileAttributes createDisposition createOptions : UInt32} {requestIds : RequestIds}
    (hleaf : (splitParentAndName fileName).2.points ≠ []) (w : World β φ) {status : NtStatus}
    (hfailed : ((createFile pf fileName desiredAccess fileAttributes createDisposition createOptions
      requestIds).run (machine pf h notices) w).1 = .error status) (key : HandleKey) :
    along handedOut (w.newEvents pf h notices (createFile pf fileName desiredAccess fileAttributes
      createDisposition createOptions requestIds)) key = 0 :=
  (createFile_opening pf desiredAccess fileAttributes createDisposition createOptions requestIds
    hleaf _ _ (World.newEvents_traces pf h notices _ w)).failed status hfailed key

/-- Below an existing parent, with an entry that is absent or of the requested kind, the dispositions
do what they have to do, and open nothing when they fail, except that the call panics on an expiry that
is not an instant and that FILE_OPEN_IF fails on a directory that is there. -/
theorem create_dispositions_iff (ht : Truthful pf.caseFold h ns used)
    (hp : Permits pf.caseFold h ns dir ready) (w : World β φ) (hw : w.Current ns used)
    (hready : ready w.backend) (fileName : U16CStr) (desiredAccess : AccessMask)
    (fileAttributes createDisposition createOptions : UInt32) (requestIds : RequestIds)
    (parent : INodeNo) (g : Generation) (hreached : walk (ns w.backend) rootEntry
      (keyOf pf.caseFold (splitParentAndName fileName).1) = some (parent, g))
    (hparent : dir parent g) (hleaf : IsComponent (splitParentAndName fileName).2.toStringLossy)
    (hkind : ∀ i g, ns w.backend parent (nameKey pf.caseFold (splitParentAndName fileName).2)
      = some (i, g) → dir i g = isDirectoryOpen createOptions)
    (hdisposition : createDisposition ∈ [FILE_CREATE, FILE_OPEN, FILE_OPEN_IF]) :
    let name := nameKey pf.caseFold (splitParentAndName fileName).2
    let create := createFile pf fileName desiredAccess fileAttributes createDisposition
      createOptions requestIds
    (∃ result w', w.attempt pf h notices create = .ok (result, w') ∧
        Disposed (ns w.backend) (ns w'.backend) parent name createDisposition result ∧
        ∀ status, result = .error status →
          ∀ key, along handedOut (w'.log.drop w.log.length) key = 0) ↔
      w.Lasts pf h notices create ∧
        ¬ (createDisposition = FILE_OPEN_IF ∧ isDirectoryOpen createOptions ∧
          ns w.backend parent name ≠ none) := by
  intro name create
  refine World.exists_attempt_iff.trans (and_congr_right fun _ => ?_)
  set served := create.run (machine pf h notices) w
  have hserved : Served (isDirectoryOpen createOptions) (ns w.backend) (ns served.2.backend) parent
      name createDisposition served.1 :=
    createFile_disposed ht hp fileName desiredAccess fileAttributes createOptions requestIds hreached
      hparent hleaf hkind hdisposition w ⟨hw, hready⟩
  unfold Served at hserved
  constructor
  · rintro ⟨hdisposed, -⟩ hcond
    rw [if_pos hcond] at hserved
    obtain ⟨rfl, -, hpresent⟩ := hcond
    obtain ⟨v, hv⟩ := Option.ne_none_iff_exists'.mp hpresent
    rw [Disposed, if_neg (by decide), if_neg (by decide), if_neg hpresent, Found, hv] at hdisposed
    obtain ⟨⟨info, hok, -⟩, -⟩ := hdisposed
    rw [hserved] at hok
    cases hok
  · intro hcond
    rw [if_neg hcond] at hserved
    exact ⟨hserved, fun status hfailed => createFile_failed (points_of_isComponent hleaf) w hfailed⟩

end Routes

/-! ## The file system in memory -/

theorem inTree_of_walk {n : Namespace} {ks : List Str} {i : INodeNo} {g : Generation}
    (h : walk n rootEntry ks = some (i, g)) : Tree.InTree n .ROOT i := by
  rcases List.eq_nil_or_concat ks with rfl | ⟨qs, k, rfl⟩
  · exact .inl (Prod.mk.inj (Option.some.inj h)).1.symm
  · rw [List.concat_eq_append, walk_concat] at h
    obtain ⟨v, -, hv⟩ := Option.bind_eq_some_iff.mp h
    exact .inr ⟨v.1, k, g, hv⟩

namespace Memory
variable {cf : CaseFold} {z : Bool}

/-- There is a good pair to give out. -/
def Ready (m : Memory cf z) : Prop :=
  ∃ v ∈ m.supply.head?, m.table.contains v.1 = false ∧ m.IsNew v

theorem addResult_ready {m : Memory cf z} (hm : m.Ready) {dir : INodeNo → Generation → Bool}
    {parent : INodeNo} {name : OsStr} (isDir : Bool) (hparent : IsDirectory m.names dir parent)
    (hname : IsComponent name.toStringLossy) (habsent : m.names parent (nameKey cf name) = none) :
    ∃ v, (m.addResult parent name isDir).1 = .ok v := by
  obtain ⟨v, hv, hfree, hnew⟩ := hm
  obtain ⟨ks, g, hwalk, -⟩ := hparent
  have hadd : m.CanAdd parent name v :=
    ⟨hname, habsent, (NameTable.contains_iff _ _).mpr (inTree_of_walk hwalk), hfree, hnew⟩
  refine ⟨v, ?_⟩
  obtain ⟨rest, hsupply⟩ := List.head?_eq_some_iff.mp hv
  unfold addResult
  rw [if_neg (by rw [show m.table.names parent (nameKey cf name) = none from habsent]; simp), hsupply]
  dsimp only
  rw [dif_pos hadd]

theorem addResult_present {m : Memory cf z} {parent : INodeNo} {name : OsStr}
    {v : INodeNo × Generation} (isDir : Bool) (h : m.names parent (nameKey cf name) = some v) :
    (m.addResult parent name isDir).1 = .error EEXIST := by
  unfold addResult
  rw [if_pos (by rw [show m.table.names parent (nameKey cf name) = some v from h]; rfl)]

theorem reply_ok {α γ : Type} {answer : Except Errno α} {v : α} (h : answer = .ok v) (f : α → γ) :
    ∃ payload, (some (answer.map f) : Reply γ) = some (.ok payload) := ⟨f v, by rw [h]; rfl⟩

theorem reply_error {α γ : Type} {answer : Except Errno α} {err : Errno} (h : answer = .error err)
    (f : α → γ) : (some (answer.map f) : Reply γ) = some (.error err) := by rw [h]; rfl

theorem memory_permits (cf : CaseFold) (z : Bool) (ttl : Duration)
    (dir : INodeNo → Generation → Bool) :
    Permits cf (Host.memory cf z ttl) names dir (fun m => m.Ready) where
  still_ready := by
    intro c m hc hm
    cases c <;> first | exact hm | cases hc
  ready_forget _ _ _ _ hm := hm
  mkdir_absent := by
    intro req p name mode umask m hm hparent hname habsent
    obtain ⟨v, hv⟩ := addResult_ready hm true hparent hname habsent
    exact reply_ok hv _
  create_absent := by
    intro req p name mode umask flags m hm hparent hname habsent
    obtain ⟨v, hv⟩ := addResult_ready hm false hparent hname habsent
    exact reply_ok hv _
  mkdir_present := by
    intro req p name mode umask m v hv
    exact reply_error (addResult_present true hv) _
  create_present := by
    intro req p name mode umask flags m v hv
    exact reply_error (addResult_present false hv) _
  open_file _ _ _ _ _ _ _ _ _ := ⟨_, rfl⟩
  open_directory _ _ _ _ _ _ _ _ _ := ⟨_, rfl⟩

end Memory

/-! ## Concrete runs -/

/-- The empty file system, with the pairs that it gives out. -/
abbrev emptyWorld (supply : List (INodeNo × Generation)) :
    World (Memory Platform.ascii.caseFold false) Unit :=
  .initial (.fromSecs 1) (.empty _ false supply) ()

/-- Every inode is a directory. -/
def allDirectories (_ : INodeNo) (_ : Generation) : Bool := true

def twoPairs : List (INodeNo × Generation) := [(⟨5⟩, ⟨7⟩), (⟨6⟩, ⟨1⟩)]

theorem ready_twoPairs : (emptyWorld twoPairs).backend.Ready := ⟨(⟨5⟩, ⟨7⟩), rfl, rfl, by decide⟩

theorem create_dispositions_iff_absent :
    let name := nameKey Platform.ascii.caseFold (splitParentAndName pathZz).2
    let create := createFile .ascii pathZz 0 0 FILE_OPEN_IF FILE_DIRECTORY_FILE (.unavailable 1)
    ∃ result w', (emptyWorld twoPairs).attempt .ascii (tenSeconds false) undisturbed create
        = .ok (result, w') ∧
      Disposed (emptyWorld twoPairs).backend.names w'.backend.names .ROOT name FILE_OPEN_IF result ∧
      ∀ status, result = .error status →
        ∀ key, along handedOut (w'.log.drop (emptyWorld twoPairs).log.length) key = 0 :=
  (create_dispositions_iff (memory_truthful _ false _) (Memory.memory_permits _ false _ allDirectories)
    (emptyWorld twoPairs) (World.initial_current _ _ _ _ _) ready_twoPairs pathZz 0 0 FILE_OPEN_IF
    FILE_DIRECTORY_FILE (.unavailable 1) .ROOT ⟨0⟩ rfl rfl (by decide) (fun _ _ h => (by cases h))
    (by decide)).mpr ⟨by decide, by decide⟩

/-- The world in which a directory was made. -/
def madeZz : World (Memory Platform.ascii.caseFold false) Unit :=
  (emptyWorld twoPairs).serve .ascii (tenSeconds false) undisturbed
    [.createFile pathZz 0 0 FILE_CREATE FILE_DIRECTORY_FILE (.unavailable 1)]

/-- FILE_OPEN_IF fails on a directory that is there. -/
theorem open_if_collides_with_directory :
    let openIf := createFile .ascii pathZz 0 0 FILE_OPEN_IF FILE_DIRECTORY_FILE (.unavailable 1)
    (Truthful Platform.ascii.caseFold (tenSeconds false) Memory.names Memory.used ∧
        Permits Platform.ascii.caseFold (tenSeconds false) Memory.names allDirectories
          (fun m => m.Ready) ∧
        madeZz.Current Memory.names Memory.used ∧ madeZz.backend.Ready) ∧
      madeZz.backend.names .ROOT "zz".toList = some (⟨5⟩, ⟨7⟩) ∧
      ∃ w', madeZz.attempt .ascii (tenSeconds false) undisturbed openIf
        = .ok (.error STATUS_OBJECT_NAME_COLLISION, w') := by
  refine ⟨⟨memory_truthful _ false _, Memory.memory_permits _ false _ _, ?_, ?_⟩, rfl, _,
    World.attempt_returns (by decide) rfl⟩
  · exact World.serve_current (memory_truthful _ false _) (memory_zeroIsFirst _ _) _
      (World.initial_current _ _ _ _ _)
  · exact ⟨(⟨6⟩, ⟨1⟩), rfl, rfl, by decide⟩

end Confuse
