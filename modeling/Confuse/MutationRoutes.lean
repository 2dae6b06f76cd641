import Confuse.CallbackCalls
import Confuse.OwnMutations

/-!
# Routes that keep remembered attributes right

A route whose calls change no attributes keeps what is remembered right. A mutating route leaves
pending what its call changes, and invalidates it before it returns.
-/

namespace Confuse

open Interaction PathResolver

section Rules
variable {β φ : Type} {pf : Platform} {h : Host β φ} {notices : Notices}
  {attrs : β → INodeNo → Option FileAttr} {child : β → INodeNo → OsStr → Option INodeNo}
  {actual : INodeNo → Option FileAttr} {p : Pending} {α γ : Type}

/-! ## Asking for attributes -/

/-- An answer is about the inode, up to the access time. -/
def Reports (actual : INodeNo → Option FileAttr) (ino : INodeNo)
    (result : Except NtStatus FileInfo) : Prop :=
  ∀ info, result = .ok info → ∃ attr, actual ino = some attr.settled ∧ info = fileInfo attr

theorem reports_error (ino : INodeNo) (status : NtStatus) : Reports actual ino (.error status) := by
  intro info hinfo
  cases hinfo

theorem triple_keeps (hown : OwnMutations h attrs child) {q : Routine α}
    (hq : q.Performs fun e : Effect => e.keepsAttributes) :
    Triple (machine pf h notices) (World.Fresh attrs actual .none) q
      fun _ => World.Fresh attrs actual .none :=
  fun _ hw => hq.invariant (fun _ _ he hw => World.Fresh.keeps hown he hw) hw

theorem triple_getattr (hown : OwnMutations h attrs child) (req : Request) (ino : INodeNo)
    (fh : Option FileHandle) :
    Triple (machine pf h notices) (World.Fresh attrs actual .none)
      (Routine.fs (.getattr req ino fh)) fun reply w => w.Fresh attrs actual .none ∧
        ∀ payload, reply = (some (.ok payload) : Reply ReplyAttrPayload) →
          payload.attr.ino = ino ∧ actual ino = some payload.attr.settled := by
  intro w hw
  refine ⟨hw.keeps (e := .fs (.getattr req ino fh)) hown rfl, fun payload hpayload => ?_⟩
  have hnotified := hw.notified pf h (notices w.steps)
  have hanswer := hown.answered req ino fh ((notices w.steps).foldl (World.notify pf h) w).backend
  rw [show (h.reply (.getattr req ino fh)
    ((notices w.steps).foldl (World.notify pf h) w).backend).1 = _ from hpayload] at hanswer
  rw [← hnotified.backend]
  exact ⟨hown.named _ ino payload.attr.settled hanswer.symm, hanswer.symm⟩

theorem triple_rememberAttr {attr : FileAttr} (hattr : actual attr.ino = some attr.settled)
    (ttl : Duration) :
    Triple (machine pf h notices) (World.Fresh attrs actual .none)
      (Routine.table (.rememberAttr attr.ino attr ttl)) fun _ => World.Fresh attrs actual .none := by
  intro w hw
  refine hw.step (e := .table _) fun w' hw' => ⟨hw'.backend, hw'.shaped.table _ _ _, ?_⟩
  intro i attr' hattr'
  rcases timedAttr_rememberAttr hattr' with ⟨rfl, rfl⟩ | hbefore
  · exact .inl hattr
  · exact (hw'.right i attr' hbefore).imp_right fun hpending =>
      absurd hpending (Pending.not_excuses_none _ i)

theorem fetchAttr_reports (hown : OwnMutations h attrs child) (req : Request)
    (resolved : AdapterContext) :
    Triple (machine pf h notices) (World.Fresh attrs actual .none) (fetchAttr req resolved)
      fun result w => Reports actual resolved.ino result ∧ w.Fresh attrs actual .none := by
  have hdrain : (drainResolverForgets req).Performs fun e : Effect => e.keepsAttributes :=
    .perform rfl
  refine .bind (triple_getattr hown req _ _) fun reply => ?_
  refine .bind (Q := fun _ w => w.Fresh attrs actual .none ∧
    ∀ payload, reply = (some (.ok payload) : Reply ReplyAttrPayload) →
      payload.attr.ino = resolved.ino ∧ actual resolved.ino = some payload.attr.settled)
    (fun w hw => ⟨triple_keeps hown hdrain w hw.1, hw.2⟩) fun _ => ?_
  rcases reply with _ | ⟨err⟩ | ⟨payload⟩
  · exact .pure fun w hw => ⟨reports_error _ _, hw.1⟩
  · exact .pure fun w hw => ⟨reports_error _ _, hw.1⟩
  · intro w hw
    obtain ⟨hino, hattr⟩ := hw.2 payload rfl
    refine ⟨?_, triple_rememberAttr (hino ▸ hattr) payload.ttl w hw.1⟩
    rintro info ⟨⟩
    exact ⟨payload.attr, hattr, rfl⟩

/-! ## Routes that change no attributes -/

theorem triple_harmless (hown : OwnMutations h attrs child) {q : Routine α}
    (hq : MadeOf pf FsCall.keepsAttributes q) :
    Triple (machine pf h notices) (World.Fresh attrs actual .none) q
      fun _ => World.Fresh attrs actual .none := by
  refine Composed.invariant (fun δ b hb => ?_) hq
  cases hb with
  | fs c hc => exact triple_keeps hown (.perform hc)
  | table o ho => exact triple_keeps hown (.perform (by cases o <;> first | rfl | cases ho))
  | deliver req o => exact triple_keeps hown (.perform rfl)
  | openState o => exact triple_keeps hown (.perform rfl)
  | fillFindData data => exact triple_keeps hown (.perform rfl)
  | fillFindStreamData data => exact triple_keeps hown (.perform rfl)
  | resolve req path =>
      refine triple_keeps hown ((Walks.resolvePathIno req pf path).mono fun e he => ?_)
      cases e with
      | fs c => cases c <;> first | rfl | cases he
      | table o => cases o <;> first | rfl | cases he
      | _ => rfl
  | fetchAttr req resolved hc =>
      exact (fetchAttr_reports hown req resolved).consequence (fun _ hw => hw) fun _ _ hw => hw.2

/-- What `get_file_information` does once the path is resolved. -/
def servedInfo (req : Request) (resolved : AdapterContext) :
    Routine (Except NtStatus FileInfo) := do
  let cachedAttr : Option FileAttr ← Routine.table (.cachedAttr resolved.ino)
  match cachedAttr with
  | some attr => do
      drainResolverForgets req
      pure (.ok (fileInfo attr))
  | none => fetchAttr req resolved

theorem servedInfo_reports (hown : OwnMutations h attrs child) (req : Request)
    (resolved : AdapterContext) :
    Triple (machine pf h notices) (World.Fresh attrs actual .none) (servedInfo req resolved)
      fun result w => Reports actual resolved.ino result ∧ w.Fresh attrs actual .none := by
  refine .bind (Q := fun cached w => w.Fresh attrs actual .none ∧
    ∀ attr, cached = some attr → actual resolved.ino = some attr.settled) ?_ fun cached => ?_
  · intro w hw
    refine ⟨hw.keeps (e := .table (.cachedAttr resolved.ino)) hown rfl, fun attr hattr => ?_⟩
    have hnotified := hw.notified pf h (notices w.steps)
    exact (hnotified.right _ attr (timedAttr_of_cachedAttr hattr)).resolve_right
      (Pending.not_excuses_none _ _)
  · cases cached with
    | none =>
        exact (fetchAttr_reports hown req resolved).consequence (fun _ hw => hw.1) fun _ _ hw => hw
    | some attr =>
        have hdrain : (drainResolverForgets req).Performs fun e : Effect => e.keepsAttributes :=
          .perform rfl
        intro w hw
        refine ⟨?_, triple_keeps hown hdrain w hw.1⟩
        rintro info ⟨⟩
        exact ⟨attr, hw.2 attr rfl, rfl⟩

/-! ## Invalidating what is pending -/

theorem triple_drainPending (hown : OwnMutations h attrs child) (req : Request) :
    Triple (machine pf h notices) (World.Fresh attrs actual p) (drainResolverForgets req)
      fun _ => World.Fresh attrs actual p := by
  intro w hw
  refine hw.step (e := .deliver req .takePendingForgets) fun w' hw' => ?_
  exact World.Fresh.forgets hown (w := { w' with
      resolver := w'.resolver.takePendingForgets.2
      log := w'.log ++ [.drain (h.clock w'.steps) .takePendingForgets
        w'.resolver.takePendingForgets.1] })
    (hw'.purges rfl hw'.shaped.takePendingForgets (purges_of_paths (attrsWithin_of_inodes rfl) rfl))
    req _

theorem triple_openState (o : OpenStateOp) :
    Triple (machine pf h notices) (World.Fresh attrs actual p) (Routine.openState o)
      fun _ => World.Fresh attrs actual p := by
  intro w hw
  exact hw.step (e := .openState o) fun w' hw' => ⟨hw'.backend, hw'.shaped, hw'.right⟩

theorem triple_invalidateInodeAttr (ino : INodeNo) (inodes : List INodeNo) (keys : List Str) :
    Triple (machine pf h notices) (World.Fresh attrs actual ⟨ino :: inodes, keys⟩)
      (invalidateInodeAttr ino) fun _ => World.Fresh attrs actual ⟨inodes, keys⟩ := by
  intro w hw
  refine hw.step (e := .table (.invalidateInodeAttr ino)) fun w' hw' => ?_
  have hpurged : World.Fresh attrs actual ⟨ino :: inodes, keys⟩
      (w'.perform pf h (.table (.invalidateInodeAttr ino))).2 :=
    hw'.purges rfl (hw'.shaped.invalidateInodeAttr _ ino) (invalidateInodeAttr_purges _ _ ino)
  refine ⟨hpurged.backend, hpurged.shaped, fun i attr hattr => ?_⟩
  rcases hpurged.right i attr hattr with hright | hino | hkey
  · exact .inl hright
  · rcases List.mem_cons.mp hino with rfl | hino
    · have hnone := timedAttr_invalidateInodeAttr (h.clock w'.steps) w'.resolver i
      cases hnone.symm.trans hattr
    · exact .inr (.inl hino)
  · exact .inr (.inr hkey)

theorem triple_invalidatePathCache (hown : OwnMutations h attrs child) (req : Request)
    (path : U16CStr) (inodes : List INodeNo) (keys : List Str) :
    Triple (machine pf h notices)
      (World.Fresh attrs actual ⟨inodes, normalizePath pf.caseFold path.path :: keys⟩)
      (invalidatePathCache req path) fun _ => World.Fresh attrs actual ⟨inodes, keys⟩ := by
  intro w hw
  refine hw.step (e := .deliver req (.invalidateSubtree path.path)) fun w' hw' => ?_
  have hpurges := invalidateMatching_purges (h.clock w'.steps) hw'.shaped
    fun candidate _ => inSubtree (normalizePath pf.caseFold path.path) candidate
  refine World.Fresh.forgets hown (w := { w' with
      resolver := (w'.resolver.invalidateSubtree pf.caseFold (h.clock w'.steps) path.path).2
      log := w'.log ++ [.drain (h.clock w'.steps) (.invalidateSubtree path.path)
        (w'.resolver.invalidateSubtree pf.caseFold (h.clock w'.steps) path.path).1] })
    ⟨hw'.backend, hw'.shaped.invalidateMatching _ _, fun i attr hattr => ?_⟩ req _
  rcases hw'.right i attr (hpurges i attr hattr).1 with hright | hino | ⟨key, hkey, hentry⟩
  · exact .inl hright
  · exact .inr (.inl hino)
  · rcases List.mem_cons.mp hkey with rfl | hkey
    · rw [timedAttr_invalidateSubtree pf.caseFold _ hw'.shaped path.path hentry] at hattr
      cases hattr
    · exact .inr (Pending.Excuses.purges (p := ⟨inodes, keys⟩) (.inr ⟨key, hkey, hentry⟩) hpurges
        hattr)

/-! ## Mutating calls -/

/-- A call leaves pending what it accounts for. -/
theorem triple_mutation (c : FsCall) (pending : c.Reply → Pending) :
    Triple (machine pf h notices) (fun w => w.Fresh attrs actual .none ∧
        ∀ i, w.Accounts h attrs c (pending (h.reply c w.backend).1) i) (Routine.fs c)
      fun reply w => ∃ actual, w.Fresh attrs actual (pending reply) := by
  rintro w ⟨hw, haccounts⟩
  have hpurges := World.Fresh.notified_purges pf h (notices w.steps) hw.shaped
  have hnotified := hw.notified pf h (notices w.steps)
  have hbackend := World.foldl_notify_backend pf (h := h) (notices w.steps) w
  generalize hw' : (notices w.steps).foldl (World.notify pf h) w = w' at hpurges hnotified hbackend
  have hcalled : (w'.call h c).2.Fresh attrs (attrs (h.reply c w'.backend).2)
      (pending (h.reply c w'.backend).1) := by
    refine ⟨rfl, hnotified.shaped, fun i attr hattr => ?_⟩
    by_cases hsame : attrs (h.reply c w'.backend).2 i = attrs w'.backend i
    · rw [hsame, hnotified.backend]
      exact (hnotified.right i attr hattr).imp_right fun hpending =>
        absurd hpending (Pending.not_excuses_none _ i)
    · rw [hbackend] at hsame ⊢
      rcases haccounts i hsame with hnone | hpending
      · cases hnone.symm.trans (hpurges i attr hattr).1
      · exact .inr (hpending.purges hpurges hattr)
  refine ⟨attrs (h.reply c w'.backend).2, ?_⟩
  obtain ⟨hbackend', hshaped, hright⟩ := hcalled
  rw [← hw'] at hbackend' hshaped hright ⊢
  exact ⟨hbackend', hshaped, hright⟩

/-- A call whose own arguments and reply say what it changes. -/
theorem triple_affects (hown : OwnMutations h attrs child) (c : FsCall)
    (pending : c.Reply → Pending)
    (haffected : ∀ child reply i, i ∈ c.affected child reply → i ∈ (pending reply).inodes) :
    Triple (machine pf h notices) (World.Settled attrs) (Routine.fs c)
      fun reply w => ∃ actual, w.Fresh attrs actual (pending reply) := by
  rintro w ⟨actual, hw⟩
  refine triple_mutation c pending w ⟨hw, fun i hchanged => .inr (.inl ?_)⟩
  by_contra hnot
  exact hchanged (hown.kept c w.backend i fun hi => hnot (haffected _ _ i hi))

/-- A call that removes names, when their inodes are accounted for. -/
theorem triple_removes (hown : OwnMutations h attrs child) (c : FsCall)
    (pending : c.Reply → Pending) (haffected : ∀ child reply i, i ∈ c.affected child reply →
      pending reply = p ∧ (i ∈ p.inodes ∨ i ∈ c.children child)) :
    Triple (machine pf h notices) (fun w => w.Fresh attrs actual .none ∧
        ∀ i ∈ c.children (child w.backend), w.Accounts h attrs c p i) (Routine.fs c)
      fun reply w => ∃ actual, w.Fresh attrs actual (pending reply) := by
  rintro w ⟨hw, haccounts⟩
  refine triple_mutation c pending w ⟨hw, fun i hchanged => ?_⟩
  by_cases hi : i ∈ c.affected (child w.backend) (h.reply c w.backend).1
  · obtain ⟨hpending, hnamed | hchild⟩ := haffected _ _ i hi
    · rw [hpending]
      exact .inr (.inl hnamed)
    · rw [hpending]
      exact haccounts i hchild hchanged
  · exact absurd (hown.kept c w.backend i hi) hchanged

theorem settled_harmless (hown : OwnMutations h attrs child) {q : Routine α}
    (hq : MadeOf pf FsCall.keepsAttributes q) :
    Triple (machine pf h notices) (World.Settled attrs) q fun _ => World.Settled attrs :=
  fun w ⟨actual, hw⟩ => ⟨actual, triple_harmless hown hq w hw⟩

theorem settled_pure (a : α) :
    Triple (machine pf h notices) (World.Settled attrs) (pure a : Routine α)
      fun _ => World.Settled attrs := fun _ hw => hw

theorem settled_withResolved (hown : OwnMutations h attrs child) {req : Request} {path : U16CStr}
    {context : AdapterContext} {f : AdapterContext → Routine (Except NtStatus α)}
    (hf : ∀ resolved, Triple (machine pf h notices) (World.Settled attrs) (f resolved)
      fun _ => World.Settled attrs) :
    Triple (machine pf h notices) (World.Settled attrs) (withResolved pf req path context f)
      fun _ => World.Settled attrs := by
  refine .bind (settled_harmless hown (MadeOf.resolveContextOrPath pf req path context))
    fun resolved => ?_
  cases resolved with
  | error err => exact settled_pure _
  | ok resolved => exact hf resolved

theorem settled_onOk {result : Except NtStatus γ} {f : γ → Routine (Except NtStatus α)}
    (hf : ∀ v, Triple (machine pf h notices) (World.Settled attrs) (f v)
      fun _ => World.Settled attrs) :
    Triple (machine pf h notices) (World.Settled attrs) (onOk result f)
      fun _ => World.Settled attrs := by
  cases result with
  | error status => exact settled_pure _
  | ok v => exact hf v

/-- After a reply a route invalidates what a success leaves pending. -/
theorem settled_onReply (hown : OwnMutations h attrs child) {pending : γ → Pending}
    {f : γ → Routine (Except NtStatus α)} {reply : Reply γ} (req : Request)
    (toNtstatus : Errno → NtStatus)
    (hf : ∀ v actual, Triple (machine pf h notices) (World.Fresh attrs actual (pending v)) (f v)
      fun _ => World.Settled attrs) :
    Triple (machine pf h notices)
      (fun w => ∃ actual, w.Fresh attrs actual (Pending.onSuccess pending reply))
      (drainResolverForgets req >>= fun _ => onReply reply toNtstatus f)
      fun _ => World.Settled attrs := by
  refine .choose fun actual => .bind (triple_drainPending hown req) fun _ => ?_
  rcases reply with _ | ⟨err⟩ | ⟨v⟩
  · exact .pure fun w hw => ⟨actual, hw⟩
  · exact .pure fun w hw => ⟨actual, hw⟩
  · exact hf v actual

/-! ## Routes that change one inode -/

theorem finishMetadataMutation_settled (hown : OwnMutations h attrs child) (req : Request)
    (path : U16CStr) (ino : INodeNo) :
    Triple (machine pf h notices) (World.Fresh attrs actual ⟨[ino], []⟩)
      (finishMetadataMutation pf req path ino) fun _ => World.Settled attrs := by
  refine .bind (triple_invalidateInodeAttr ino [] []) fun _ => ?_
  have hrest : MadeOf pf FsCall.keepsAttributes
      (invalidateParentAttrForPath pf req path >>= fun _ => invalidatePathCache req path) :=
    .bind (MadeOf.invalidateParentAttrForPath pf req path) fun _ =>
      MadeOf.invalidatePathCache pf req path
  exact (triple_harmless hown hrest).consequence (fun _ hw => hw) fun _ _ hw => ⟨actual, hw⟩

theorem setattrRoute_settled (hown : OwnMutations h attrs child) (fileName : U16CStr)
    (context : AdapterContext) (args : Except NtStatus SetattrArgs) :
    Triple (machine pf h notices) (World.Settled attrs) (setattrRoute pf fileName context args)
      fun _ => World.Settled attrs := by
  refine settled_withResolved hown fun resolved => settled_onOk fun args => ?_
  refine .bind (triple_affects hown (.setattr _ resolved.ino args)
    (Pending.onSuccess fun _ : ReplyAttrPayload => ⟨[resolved.ino], []⟩) ?_) fun reply => ?_
  · rintro child (_ | ⟨err⟩ | ⟨v⟩) i hi <;> exact hi
  · exact settled_onReply hown _ _ fun _ actual =>
      .bind (finishMetadataMutation_settled hown _ fileName resolved.ino) fun _ => settled_pure _

theorem setAllocationSize_settled (hown : OwnMutations h attrs child) (fileName : U16CStr)
    (allocSize : Int64) (context : AdapterContext) :
    Triple (machine pf h notices) (World.Settled attrs)
      (setAllocationSize pf fileName allocSize context) fun _ => World.Settled attrs := by
  refine settled_withResolved hown fun resolved => ?_
  unfold allocationSizeWithContext
  cases nonnegativeI64ToU64 allocSize with
  | error status => exact settled_pure _
  | ok length =>
      refine .bind (.bind (triple_affects hown
        (.fallocate _ resolved.ino resolved.fh 0 length FALLOC_FL_KEEP_SIZE)
        (Pending.onSuccess fun _ : Unit => ⟨[resolved.ino], []⟩) ?_) fun reply =>
          .pure (Q := fun (status : Except NtStatus (Reply Unit)) (w : World β φ) =>
            ∃ reply actual, status = .ok reply ∧ w.Fresh attrs actual
              (Pending.onSuccess (fun _ : Unit => ⟨[resolved.ino], []⟩) reply)) ?_) fun status => ?_
      · rintro child (_ | ⟨err⟩ | ⟨v⟩) i hi <;> exact hi
      · rintro w ⟨actual, hw⟩
        exact ⟨reply, actual, rfl, hw⟩
      · rintro w ⟨reply, actual, rfl, hw⟩
        exact settled_onReply hown _ _ (fun _ actual => .bind (finishMetadataMutation_settled hown _
          fileName resolved.ino) fun _ => settled_pure _) w ⟨actual, hw⟩

theorem writeFile_settled (hown : OwnMutations h attrs child) (fileName : U16CStr) (offset : Int64)
    (buffer : List UInt8) (writeToEof pagingIo : Bool) (context : AdapterContext) :
    Triple (machine pf h notices) (World.Settled attrs)
      (writeFile pf fileName offset buffer writeToEof pagingIo context)
      fun _ => World.Settled attrs := by
  refine settled_withResolved hown fun resolved => ?_
  refine .bind (settled_harmless hown (MadeOf.dokanWritePlan pf _ resolved offset _ _ _))
    fun plan => settled_onOk fun (start, len) => ?_
  refine .bind (triple_affects hown (.write _ resolved.ino _ _ _ _ _ _)
    (Pending.onSuccess fun _ : UInt32 => ⟨[resolved.ino], []⟩) ?_) fun reply => ?_
  · rintro child (_ | ⟨err⟩ | ⟨v⟩) i hi <;> exact hi
  · exact settled_onReply hown _ _ fun _ actual =>
      .bind (finishMetadataMutation_settled hown _ fileName resolved.ino) fun _ => settled_pure _

theorem setFileSecurity_settled (hown : OwnMutations h attrs child) (fileName : U16CStr)
    (descriptor : List UInt8) (context : AdapterContext) :
    Triple (machine pf h notices) (World.Settled attrs)
      (setFileSecurity pf fileName descriptor context) fun _ => World.Settled attrs := by
  refine settled_withResolved hown fun resolved => ?_
  refine .bind (triple_affects hown (.setxattr _ resolved.ino _ _ _ _)
    (Pending.onSuccess fun _ : Unit => ⟨[resolved.ino], []⟩) ?_) fun reply => ?_
  · rintro child (_ | ⟨err⟩ | ⟨v⟩) i hi <;> exact hi
  · exact settled_onReply hown _ _ fun _ actual =>
      .bind (triple_invalidateInodeAttr resolved.ino [] []) fun _ => .pure fun w hw => ⟨actual, hw⟩

/-! ## Routes that make an entry -/

theorem finishCreatedEntry_settled (hown : OwnMutations h attrs child) {created : CreatedEntry}
    {parent ino : INodeNo} (hparent : created.parentIno = parent) (hino : created.ctx.ino = ino) :
    Triple (machine pf h notices) (World.Fresh attrs actual ⟨[parent, ino], []⟩)
      (finishCreatedEntry created) fun _ => World.Settled attrs := by
  subst hparent hino
  refine .bind (triple_openState _) fun _ =>
    .bind (triple_invalidateInodeAttr created.parentIno [created.ctx.ino] []) fun _ =>
      .bind (triple_invalidateInodeAttr created.ctx.ino [] []) fun _ => ?_
  have hremember : ∀ c, (rememberCreatedPath created.req c).Performs
      fun e : Effect => e.keepsAttributes := fun c => .bind (.perform rfl) fun _ => .perform rfl
  exact (triple_keeps hown (hremember _)).consequence (fun _ hw => hw) fun _ _ hw => ⟨actual, hw⟩

theorem createDirectoryEntry_settled (hown : OwnMutations h attrs child)
    {create : CreateEntryRequest} (hpath : create.pathIno = ⟨0⟩) :
    Triple (machine pf h notices) (World.Settled attrs) (createDirectoryEntry create)
      fun _ => World.Settled attrs := by
  refine .bind (triple_affects hown (.mkdir _ create.parentIno _ _ _) (Pending.onSuccess
    fun payload : ReplyEntryPayload => ⟨[create.parentIno, payload.attr.ino], []⟩) ?_)
    fun reply => ?_
  · rintro child (_ | ⟨err⟩ | ⟨v⟩) i hi <;> exact hi
  · refine settled_onReply hown _ _ fun payload actual =>
      .bind (finishCreatedEntry_settled hown rfl ?_) fun _ => settled_pure _
    exact createdIno_eq hpath payload.attr

theorem createFileEntryOrOpenExisting_settled (hown : OwnMutations h attrs child)
    {create : CreateEntryRequest} (hpath : create.pathIno = ⟨0⟩) (plan : CreateDispositionPlan)
    (openFlags : Int32) :
    Triple (machine pf h notices) (World.Settled attrs)
      (createFileEntryOrOpenExisting pf create plan openFlags) fun _ => World.Settled attrs := by
  have hopens : MadeOf.Opens FsCall.keepsAttributes openFlags := fun _ _ => ⟨rfl, rfl⟩
  refine .bind (triple_affects hown (.create _ create.parentIno _ _ _ _) (Pending.onSuccess
    fun payload : ReplyCreatePayload => ⟨[create.parentIno, payload.attr.ino], []⟩) ?_)
    fun reply => .choose fun actual => .bind (triple_drainPending hown _) fun _ => ?_
  · rintro child (_ | ⟨err⟩ | ⟨v⟩) i hi <;> exact hi
  · rcases reply with _ | ⟨err⟩ | ⟨payload⟩
    · exact .pure fun w hw => ⟨actual, hw⟩
    · refine Triple.weakenPre (P := World.Settled attrs) ?_ fun w hw => ⟨actual, hw⟩
      dsimp only
      split_ifs
      · exact settled_harmless hown (MadeOf.openCollisionEntry pf hopens)
      · exact settled_pure _
    · refine .bind (finishCreatedEntry_settled hown rfl ?_) fun _ => settled_pure _
      exact createdIno_eq hpath payload.attr

theorem createFile_settled (hown : OwnMutations h attrs child) (fileName : U16CStr)
    (desiredAccess : AccessMask) (fileAttributes createDisposition createOptions : UInt32)
    (requestIds : RequestIds) :
    Triple (machine pf h notices) (World.Settled attrs)
      (createFile pf fileName desiredAccess fileAttributes createDisposition createOptions requestIds)
      fun _ => World.Settled attrs := by
  have hopens : MadeOf.Opens FsCall.keepsAttributes (accessMaskToOpenFlags desiredAccess) :=
    fun _ _ => ⟨rfl, rfl⟩
  refine .bind (settled_harmless hown (.block (.resolve _ _))) fun parent => ?_
  cases parent with
  | error err =>
      exact settled_harmless hown (.bind (MadeOf.drainResolverForgets pf _) fun _ => .pure _)
  | ok parentIno =>
      dsimp only [createInParent]
      split_ifs with hleaf
      · exact settled_harmless hown (MadeOf.createRootContext pf fileName requestIds)
      · exact settled_harmless hown (MadeOf.openExistingEntry pf hopens)
      · exact createDirectoryEntry_settled hown (knownPathIno_of_leaf hleaf)
      · exact createFileEntryOrOpenExisting_settled hown (knownPathIno_of_leaf hleaf) _ _

/-! ## Listings -/

theorem findFilesWithPattern_settled (hown : OwnMutations h attrs child)
    (fileName pattern : U16CStr) (context : AdapterContext) :
    Triple (machine pf h notices) (World.Settled attrs)
      (findFilesWithPattern pf fileName pattern context) fun _ => World.Settled attrs := by
  refine .bind (settled_harmless hown (MadeOf.directoryIno pf _ context _)) fun _ =>
    settled_onOk fun ino => .bind (settled_harmless hown (MadeOf.openState pf (.directoryOffset _)))
      fun reqOffset => .bind (settled_harmless hown (MadeOf.fs pf (c := .readdirplus _ _ _ _) rfl))
        fun reply => .bind (settled_harmless hown (MadeOf.drainResolverForgets pf _)) fun _ => ?_
  split_ifs
  · exact settled_harmless hown (MadeOf.findFilesFallback pf _ _ _ _ _ _)
  · refine .bind ?_ fun emitted => settled_harmless hown
      (MadeOf.onOk pf fun _ => .bind (MadeOf.rememberDirectoryOffset pf _ _ _) fun _ => .pure _)
    rintro w ⟨actual, hw⟩
    refine ⟨actual, triple_keeps hown ((emitReaddirplusPatternEntries_performs pf _ fileName pattern
      ino none reply.entries).mono fun e he => ?_) w hw⟩
    cases e with
    | table o => cases o <;> first | rfl | cases he
    | fs c => cases he
    | _ => rfl

/-! ## Routes that remove names -/

/-- The call of `cleanup`. -/
def removal (req : Request) (context : AdapterContext) (parentIno : INodeNo) (leaf : OsStr) :
    FsCall :=
  if context.isDir then .rmdir req parentIno leaf else .unlink req parentIno leaf

/-- What `cleanup` invalidates. -/
def removalPending (cf : CaseFold) (fileName : U16CStr) (context : AdapterContext)
    (parentIno : INodeNo) : Pending where
  inodes := (if context.ino ≠ ⟨0⟩ then [context.ino] else []) ++ [parentIno]
  keys := [normalizePath cf fileName.path]

theorem invalidateRemoved_settled (hown : OwnMutations h attrs child) (req : Request)
    (fileName : U16CStr) (context : AdapterContext) (parentIno : INodeNo) :
    Triple (machine pf h notices)
      (World.Fresh attrs actual (removalPending pf.caseFold fileName context parentIno))
      (invalidateRemoved req fileName context parentIno) fun _ => World.Settled attrs := by
  refine .bind (triple_invalidatePathCache hown req fileName _ []) fun _ => ?_
  have hparent : Triple (machine pf h notices) (World.Fresh attrs actual ⟨[parentIno], []⟩)
      (invalidateInodeAttr parentIno) fun _ => World.Settled attrs :=
    (triple_invalidateInodeAttr parentIno [] []).consequence (fun _ hw => hw)
      fun _ _ hw => ⟨actual, hw⟩
  split_ifs with hino
  · exact .bind (triple_invalidateInodeAttr context.ino [parentIno] []) fun _ => hparent
  · exact hparent

theorem rmdirOrUnlink_fresh (hown : OwnMutations h attrs child) (req : Request)
    (context : AdapterContext) {parentIno : INodeNo} (leaf : OsStr) (hparent : parentIno ∈ p.inodes) :
    Triple (machine pf h notices) (fun w => w.Fresh attrs actual .none ∧
        ∀ i ∈ (child w.backend parentIno leaf).toList,
          w.Accounts h attrs (removal req context parentIno leaf) p i)
      (rmdirOrUnlink req context parentIno leaf)
      fun reply w => ∃ actual, w.Fresh attrs actual (Pending.onSuccess (fun _ => p) reply) := by
  have hsucceeds : ∀ (reply : Reply Unit) (inos : List INodeNo) (i : INodeNo),
      i ∈ Reply.reads (fun _ => parentIno) reply ++ (Reply.reads (fun _ => inos) reply).flatten →
      Pending.onSuccess (fun _ => p) reply = p ∧ (i ∈ p.inodes ∨ i ∈ inos) := by
    rintro (_ | ⟨err⟩ | ⟨⟩) inos i hi
    · cases hi
    · cases hi
    · refine ⟨rfl, ?_⟩
      have hi : i = parentIno ∨ i ∈ inos := by simpa [Reply.reads] using hi
      exact hi.imp_left fun (heq : i = parentIno) => heq ▸ hparent
  unfold rmdirOrUnlink removal
  cases context.isDir with
  | true =>
      exact triple_removes hown (.rmdir req parentIno leaf) (Pending.onSuccess fun _ : Unit => p)
        fun child reply i hi => hsucceeds reply _ i hi
  | false =>
      exact triple_removes hown (.unlink req parentIno leaf) (Pending.onSuccess fun _ : Unit => p)
        fun child reply i hi => hsucceeds reply _ i hi

/-- What `cleanup` does once the parent is resolved. -/
def removeAndInvalidate (req : Request) (fileName : U16CStr) (context : AdapterContext)
    (parentIno : INodeNo) (leaf : OsStr) : Routine Unit := do
  let status ← rmdirOrUnlink req context parentIno leaf
  drainResolverForgets req
  match status with
  | some (.ok ()) => invalidateRemoved req fileName context parentIno
  | _ => pure ()

theorem removeAndInvalidate_settled (hown : OwnMutations h attrs child) (req : Request)
    (fileName : U16CStr) (context : AdapterContext) (parentIno : INodeNo) (leaf : OsStr) :
    Triple (machine pf h notices) (fun w => w.Fresh attrs actual .none ∧
        ∀ i ∈ (child w.backend parentIno leaf).toList,
          w.Accounts h attrs (removal req context parentIno leaf)
            (removalPending pf.caseFold fileName context parentIno) i)
      (removeAndInvalidate req fileName context parentIno leaf) fun _ => World.Settled attrs := by
  refine .bind (rmdirOrUnlink_fresh hown req context leaf (by simp [removalPending]))
    fun status => .choose fun actual => .bind (triple_drainPending hown req) fun _ => ?_
  rcases status with _ | ⟨err⟩ | ⟨⟩
  · exact .pure fun w hw => ⟨actual, hw⟩
  · exact .pure fun w hw => ⟨actual, hw⟩
  · exact invalidateRemoved_settled hown req fileName context parentIno

/-- What `move_file` finds out before the rename. -/
structure MovePlan where
  oldParentIno : INodeNo
  newParentIno : INodeNo
  movedIno : Option INodeNo

variable (pf) in
def resolveMove (fileName newFileName : U16CStr) (replaceIfExisting : Bool)
    (context : AdapterContext) : Routine (Except NtStatus MovePlan) := do
  let req := requestFromIds context.requestIds
  match ← resolveParentIno pf req (splitParentAndName fileName).1 with
  | .error err => pure (.error (errnoToNtstatus err))
  | .ok oldParentIno =>
      match ← resolveParentIno pf req (splitParentAndName newFileName).1 with
      | .error err => pure (.error (errnoToNtstatus err))
      | .ok newParentIno => do
          let moved ← resolveContextOrPath pf req fileName context
          onOk (← precheckRename pf req newFileName replaceIfExisting) fun _ =>
            pure (.ok ⟨oldParentIno, newParentIno, moved.toOption.map AdapterContext.ino⟩)

theorem moveFile_eq (fileName newFileName : U16CStr) (replaceIfExisting : Bool)
    (context : AdapterContext) :
    moveFile pf fileName newFileName replaceIfExisting context
      = resolveMove pf fileName newFileName replaceIfExisting context >>= fun plan =>
          onOk plan fun plan => renameAndInvalidate (requestFromIds context.requestIds) fileName
            newFileName plan.oldParentIno plan.newParentIno plan.movedIno := by
  refine Prog.bind_eq_bind fun oldParent => ?_
  cases oldParent with
  | error err => rfl
  | ok oldParentIno =>
      refine Prog.bind_eq_bind fun newParent => ?_
      cases newParent with
      | error err => rfl
      | ok newParentIno =>
          refine Prog.bind_eq_bind fun moved => Prog.bind_eq_bind fun free => ?_
          cases free <;> rfl

theorem resolveMove_madeOf {ok : FsCall → Bool} (fileName newFileName : U16CStr)
    (replaceIfExisting : Bool) (context : AdapterContext) :
    MadeOf pf ok (resolveMove pf fileName newFileName replaceIfExisting context) := by
  refine .bind (.block (.resolve _ _)) fun oldParent => ?_
  cases oldParent with
  | error err => exact .pure _
  | ok oldParentIno =>
      refine .bind (.block (.resolve _ _)) fun newParent => ?_
      cases newParent with
      | error err => exact .pure _
      | ok newParentIno =>
          exact .bind (MadeOf.resolveContextOrPath pf _ _ _) fun moved =>
            .bind (MadeOf.precheckRename pf _ _ _) fun free => MadeOf.onOk pf fun _ => .pure _

/-- What `move_file` invalidates. -/
def MovePlan.pending (cf : CaseFold) (fileName newFileName : U16CStr) (plan : MovePlan) :
    Pending where
  inodes := plan.movedIno.toList ++ [plan.oldParentIno, plan.newParentIno]
  keys := [normalizePath cf fileName.path, normalizePath cf newFileName.path]

/-- The rename of `move_file`. -/
def MovePlan.rename (req : Request) (fileName newFileName : U16CStr) (plan : MovePlan) : FsCall :=
  .rename req plan.oldParentIno (splitParentAndName fileName).2 plan.newParentIno
    (splitParentAndName newFileName).2 ⟨0⟩

theorem invalidateRenamed_settled (hown : OwnMutations h attrs child) (req : Request)
    (fileName newFileName : U16CStr) (plan : MovePlan) :
    Triple (machine pf h notices)
      (World.Fresh attrs actual (plan.pending pf.caseFold fileName newFileName))
      (invalidateRenamed req fileName newFileName plan.oldParentIno plan.newParentIno plan.movedIno)
      fun _ => World.Settled attrs := by
  have hmoved : Triple (machine pf h notices)
      (World.Fresh attrs actual (plan.pending pf.caseFold fileName newFileName))
      (invalidateMoved plan.movedIno) fun _ => World.Fresh attrs actual
        ⟨[plan.oldParentIno, plan.newParentIno],
          [normalizePath pf.caseFold fileName.path, normalizePath pf.caseFold newFileName.path]⟩ := by
    unfold MovePlan.pending invalidateMoved
    cases plan.movedIno with
    | none => exact fun w hw => hw
    | some ino => exact triple_invalidateInodeAttr ino _ _
  refine .bind hmoved fun _ => .bind (.bind (triple_openState _) fun _ => triple_openState _)
    fun _ => ?_
  refine .bind (triple_invalidatePathCache hown req fileName _ _) fun _ =>
    .bind (triple_invalidatePathCache hown req newFileName _ _) fun _ =>
      .bind (triple_invalidateInodeAttr plan.oldParentIno _ _) fun _ => ?_
  exact (triple_invalidateInodeAttr plan.newParentIno [] []).consequence (fun _ hw => hw)
    fun _ _ hw => ⟨actual, hw⟩

theorem renameWithReplacePolicy_fresh (hown : OwnMutations h attrs child) (req : Request)
    (fileName newFileName : U16CStr) (plan : MovePlan) :
    Triple (machine pf h notices) (fun w => w.Fresh attrs actual .none ∧
        ∀ i ∈ (plan.rename req fileName newFileName).children (child w.backend),
          w.Accounts h attrs (plan.rename req fileName newFileName)
            (plan.pending pf.caseFold fileName newFileName) i)
      (renameWithReplacePolicy req plan.oldParentIno (splitParentAndName fileName).2
        plan.newParentIno (splitParentAndName newFileName).2)
      fun result w => ∃ status actual, result = statusResult status ∧ w.Fresh attrs actual
        (Pending.onSuccess (fun _ => plan.pending pf.caseFold fileName newFileName) status) := by
  refine .bind (triple_removes hown (plan.rename req fileName newFileName) (Pending.onSuccess
    fun _ : Unit => plan.pending pf.caseFold fileName newFileName) ?_) fun status => .pure ?_
  · rintro child (_ | ⟨err⟩ | ⟨⟩) i hi
    · cases hi
    · cases hi
    · refine ⟨rfl, ?_⟩
      have hi : (i = plan.oldParentIno ∨ i = plan.newParentIno) ∨
          i ∈ (plan.rename req fileName newFileName).children child := by
        simpa [MovePlan.rename, FsCall.affected, FsCall.children, Reply.reads, or_assoc] using hi
      refine hi.imp_left fun hparent => ?_
      simp only [MovePlan.pending, List.mem_append, List.mem_cons]
      exact .inr (hparent.imp_right .inl)
  · rintro w ⟨actual, hw⟩
    exact ⟨status, actual, rfl, hw⟩

theorem renameAndInvalidate_settled (hown : OwnMutations h attrs child) (req : Request)
    (fileName newFileName : U16CStr) (plan : MovePlan) :
    Triple (machine pf h notices) (fun w => w.Fresh attrs actual .none ∧
        ∀ i ∈ (plan.rename req fileName newFileName).children (child w.backend),
          w.Accounts h attrs (plan.rename req fileName newFileName)
            (plan.pending pf.caseFold fileName newFileName) i)
      (renameAndInvalidate req fileName newFileName plan.oldParentIno plan.newParentIno plan.movedIno)
      fun _ => World.Settled attrs := by
  refine .bind (renameWithReplacePolicy_fresh hown req fileName newFileName plan) fun result =>
    .choose fun status => .choose fun actual => .assume ?_
  rintro rfl
  refine .bind (triple_drainPending hown req) fun _ => ?_
  rcases status with _ | ⟨err⟩ | ⟨⟩
  · exact .pure fun w hw => ⟨actual, hw⟩
  · exact .pure fun w hw => ⟨actual, hw⟩
  · exact .bind (invalidateRenamed_settled hown req fileName newFileName plan)
      fun _ => settled_pure _

end Rules

end Confuse
