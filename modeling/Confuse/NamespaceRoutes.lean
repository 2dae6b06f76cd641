import Confuse.CachedWalk

/-!
# Handlers that change the namespace

Every callback takes a world whose cache is coherent with the file system's current names to such a
world again. A handler that creates a name records it, and one that moves or removes a name drops
what it has cached at and below that name, before its next path walk.
-/

namespace Confuse

open Interaction NameTree PathResolver

/-! ## Places -/

namespace PathResolver

theorem getLast?_joinPath {k : List Str} (hk : ∀ p ∈ k, IsComponent p) (hne : k ≠ []) :
    (joinPath k).getLast? ≠ some '\\' := by
  obtain ⟨init, c, rfl⟩ := (List.eq_nil_or_concat k).resolve_left hne
  rw [List.concat_eq_append] at hk ⊢
  have hc : IsComponent c := hk c (by simp)
  rw [joinPath_of_ne_nil (by simp), List.flatMap_append, List.flatMap_singleton,
    List.getLast?_append, List.getLast?_cons, List.getLast?_eq_getLast_of_ne_nil hc.nonempty]
  intro hlast
  have hsep := hc.noSeparator _ (List.getLast_mem hc.nonempty)
  rw [show c.getLast hc.nonempty = '\\' by simpa using hlast] at hsep
  exact absurd hsep (by simp [isSeparator])

/-- The keys at or below a path are those of the paths that extend it. -/
theorem inSubtree_joinPath {k l : List Str} (hk : ∀ p ∈ k, IsComponent p)
    (hl : ∀ p ∈ l, IsComponent p) (hne : k ≠ []) :
    inSubtree (joinPath k) (joinPath l) ↔ k <+: l := by
  rw [← joinPath_prefix_iff hk hl hne, inSubtree, if_neg (getLast?_joinPath hk hne)]
  rw [Bool.or_eq_true, decide_eq_true_eq, List.isPrefixOf_iff_prefix, eq_comm]

end PathResolver

/-- A path, and the parent at which the walk along it arrives before its last name. -/
structure Located (cf : CaseFold) (n : Namespace) (path : U16CStr) (parent : INodeNo) : Prop where
  reached : ∃ g, walk n rootEntry (keyOf cf (splitParentAndName path).1) = some (parent, g)
  leaf : IsComponent (splitParentAndName path).2.toStringLossy

namespace Located
variable {cf : CaseFold} {n : Namespace} {path : U16CStr} {parent : INodeNo}

/-- The components of the key of the path. -/
def place (cf : CaseFold) (path : U16CStr) : List Str :=
  keyOf cf (splitParentAndName path).1 ++ [nameKey cf (splitParentAndName path).2]

theorem keyOf_path (hp : Located cf n path parent) : keyOf cf path.path = place cf path := by
  rw [keyOf, U16CStr.path, normalizedComponents_split hp.leaf, List.map_append, List.map_singleton]
  rfl

theorem normalizePath_path (hp : Located cf n path parent) :
    normalizePath cf path.path = joinPath (place cf path) := by
  rw [normalizePath_eq, hp.keyOf_path]

theorem components (hp : Located cf n path parent) : ∀ p ∈ place cf path, IsComponent p := by
  rw [← hp.keyOf_path]
  exact isComponent_keyOf cf path.path

/-- What lies below the path is in its subtree. -/
theorem below (hp : Located cf n path parent) {ks : List Str} (hks : ∀ q ∈ ks, IsComponent q)
    (hbelow : place cf path <+: ks) : inSubtree (normalizePath cf path.path) (joinPath ks) := by
  rw [hp.normalizePath_path]
  exact (inSubtree_joinPath hp.components hks (by simp [place])).mpr hbelow

end Located

theorem resolved_ok {n : Namespace} {ks : List Str} {i : INodeNo} (h : resolved n ks = .ok i) :
    ∃ g, walk n rootEntry ks = some (i, g) := by
  unfold resolved at h
  cases hwalk : walk n rootEntry ks with
  | none => simp [hwalk] at h
  | some v =>
      rw [hwalk] at h
      exact ⟨v.2, by rw [← Except.ok.inj h]⟩

section Routes
variable {β φ : Type} {pf : Platform} {h : Host β φ} {notices : Notices} {ns : β → Namespace}
  {used : β → INodeNo → Generation → Prop} {exempt : Str → Prop} {n : Namespace}

/-- The cache is coherent with the current names. -/
def World.Current (ns : β → Namespace) (used : β → INodeNo → Generation → Prop) (w : World β φ) :
    Prop := w.Agrees ns used nowhere (ns w.backend)

theorem World.Agrees.current {w : World β φ} (hw : w.Agrees ns used nowhere n) :
    w.Current ns used := by
  obtain ⟨rfl, hcoherent⟩ := hw
  exact ⟨rfl, hcoherent⟩

theorem World.Agrees.weaken {exempt' : Str → Prop} {w : World β φ} (hw : w.Agrees ns used exempt n)
    (hexempt : ∀ key, exempt key → exempt' key) : w.Agrees ns used exempt' n :=
  ⟨hw.names, hw.coherent.weaken hexempt⟩

/-- Plain routines change no names. -/
theorem triple_plain (ht : Truthful pf.caseFold h ns used) {α : Type} {p : Routine α}
    (hp : PlainRoutine pf p) : Triple (machine pf h notices) (World.Agrees ns used nowhere n) p
      fun _ w => w.Agrees ns used nowhere n := by
  refine Composed.invariant (fun γ q hq => ?_) hp
  cases hq with
  | fs c hc => exact triple_steady ht (.perform (by cases c <;> first | rfl | cases hc))
  | table o ho => exact triple_steady ht (.perform (by cases o <;> first | rfl | cases ho))
  | deliver req o => exact triple_drain ht req o
  | openState o => exact triple_steady ht (.perform rfl)
  | fillFindData data => exact triple_steady ht (.perform rfl)
  | fillFindStreamData data => exact triple_steady ht (.perform rfl)
  | resolve req path =>
      exact (resolvePathIno_spec ht req path).consequence (fun _ hw => hw) fun _ _ hw => hw.2
  | fetchAttr req resolved hc =>
      refine triple_steady ht (Prog.Performs.bind ?_ fun reply => .bind (.perform rfl) fun _ => ?_)
      · exact .perform rfl
      · rcases reply with _ | ⟨err⟩ | ⟨payload⟩
        · exact .pure _
        · exact .pure _
        · exact .bind (.perform rfl) fun _ => .pure _

/-- A call that may change a name leaves what it concerns exempt. -/
theorem triple_change (ht : Truthful pf.caseFold h ns used) (exempt : Str → Prop) {c : FsCall}
    (hchange : ∀ b r change, ns b = n → c.change (h.reply c b).1 = some change →
      Coherent n (used b) nowhere r → Coherent (ns (h.reply c b).2) (used b) exempt r) :
    Triple (machine pf h notices) (World.Agrees ns used nowhere n) (Routine.fs c) fun a w =>
      (c.change a = none → w.Agrees ns used nowhere n) ∧
      ∀ change, c.change a = some change →
        change.Leads pf.caseFold n (ns w.backend) ∧ w.Agrees ns used exempt (ns w.backend) := by
  intro w hw
  let w' := (notices w.steps).foldl (World.notify pf h) w
  have hw' : w'.Agrees ns used nowhere n := hw.foldl_notify pf h _
  refine ⟨fun hnone => ?_, fun change hsome => ⟨?_, rfl, ?_⟩⟩
  · have hnames : ns (h.reply c w'.backend).2 = ns w'.backend := ht.unchanged hnone
    exact ⟨hnames.trans hw'.names, hw'.coherent.mono (ht.stays_used c w'.backend)⟩
  · have hleads : change.Leads pf.caseFold (ns w'.backend) (ns (h.reply c w'.backend).2) :=
      ht.changed hsome
    rw [hw'.names] at hleads
    exact hleads
  · have hcoherent := hchange w'.backend w'.resolver change hw'.names hsome hw'.coherent
    exact hcoherent.mono (ht.stays_used c w'.backend)

/-- Recording a name that is there keeps the agreement and lifts the exemption of its path. -/
theorem rememberCreatedPath_spec (ht : Truthful pf.caseFold h ns used) (req : Request)
    (created : CreatedPath) (ps : List Str) {k : Str}
    (hkey : normalizePath pf.caseFold created.path.path = joinPath (ps ++ [k]))
    (hps : ∀ p ∈ ps ++ [k], IsComponent p)
    (hchild : n created.parent k = some (created.attr.ino, created.generation)) :
    Triple (machine pf h notices) (World.Agrees ns used exempt n) (rememberCreatedPath req created)
      fun _ w => w.Agrees ns used
        (fun key => exempt key ∧ key ≠ normalizePath pf.caseFold created.path.path) n := by
  refine Triple.bind (Q := fun _ w => w.Agrees ns used
    (fun key => exempt key ∧ key ≠ normalizePath pf.caseFold created.path.path) n) ?_ fun _ =>
      triple_drain ht req _
  refine (triple_table (o := .rememberCreated created) (Q := fun _ => True)
    fun b now r hb hr => ⟨trivial, ?_⟩).consequence (fun _ hw => hw) fun _ _ hw => hw.2
  obtain ⟨g, hg⟩ := ht.parent_used (b := b) (p := created.parent) (by rw [hb, hchild])
  have hknown : Known (used b) created.parent (r.generationFor created.parent) :=
    (hr.marked.generationFor (fun _ => .inr rfl) created.parent).imp id fun hzero => ⟨hzero, g, hg⟩
  have hused : used b created.attr.ino created.generation :=
    ht.in_use (p := created.parent) (k := k) (by rw [hb, hchild])
  exact hr.rememberPositive pf.caseFold now (created.record (r.generationFor created.parent)) hkey hps
    hknown hused fun _ => hchild

/-- An invalidation lifts the exemption of a subtree. -/
theorem invalidatePathCache_spec (ht : Truthful pf.caseFold h ns used) (req : Request)
    (path : U16CStr) :
    Triple (machine pf h notices) (World.Agrees ns used exempt n) (invalidatePathCache req path)
      fun _ w => w.Agrees ns used
        (fun key => exempt key ∧ inSubtree (normalizePath pf.caseFold path.path) key = false) n := by
  intro w hw
  let w' := (notices w.steps).foldl (World.notify pf h) w
  have hw' : w'.Agrees ns used exempt n := hw.foldl_notify pf h _
  have hdelivered := hw'.deliver ht req (.invalidateSubtree path.path)
    fun now r hr => hr.invalidateSubtree pf.caseFold now path.path
  exact ⟨hdelivered.names, hdelivered.coherent⟩

/-! ## Creating -/

/-- A world in which the last name of a path was added and is not recorded yet. -/
def World.Added (pf : Platform) (ns : β → Namespace) (used : β → INodeNo → Generation → Prop)
    (path : U16CStr) (parent i : INodeNo) (g : Generation) (w : World β φ) : Prop :=
  ∃ n n', (Located pf.caseFold n path parent ∧
    n' parent (nameKey pf.caseFold (splitParentAndName path).2) = some (i, g)) ∧
    w.Agrees ns used (fun key => key = normalizePath pf.caseFold path.path) n'

/-- The call that creates the last name of a path. -/
theorem triple_add (ht : Truthful pf.caseFold h ns used) (hz : ZeroIsFirst h used) {path : U16CStr}
    {parent : INodeNo}
    (hreached : ∃ g, walk n rootEntry (keyOf pf.caseFold (splitParentAndName path).1)
      = some (parent, g)) {c : FsCall}
    (hc : ∀ reply change, c.change reply = some change →
      ∃ i g, change = .add parent (splitParentAndName path).2 i g) :
    Triple (machine pf h notices) (World.Agrees ns used nowhere n) (Routine.fs c) fun a w =>
      (c.change a = none → w.Agrees ns used nowhere n) ∧
      ∀ i g, c.change a = some (.add parent (splitParentAndName path).2 i g) →
        w.Added pf ns used path parent i g := by
  have hadd : ∀ b r change, ns b = n → c.change (h.reply c b).1 = some change →
      Coherent n (used b) nowhere r → Coherent (ns (h.reply c b).2) (used b)
        (fun key => key = normalizePath pf.caseFold path.path) r := by
    intro b r change hb hchange hr
    obtain ⟨i, g, rfl⟩ := hc _ _ hchange
    obtain ⟨hleaf, habsent, hnames⟩ := ht.changed hchange
    have hp : Located pf.caseFold n path parent := ⟨hreached, hleaf⟩
    have htree' := ht.tree (h.reply c b).2
    rw [hb] at habsent hnames
    rw [hnames] at htree' ⊢
    obtain ⟨gp, hwalk⟩ := hreached
    have hfresh : ¬ Known (used b) i g := by
      rintro (hused | ⟨rfl, g', hused⟩)
      · exact ht.never_reused hchange hused
      · exact hz c b _ _ i hchange g' hused
    exact (hr.created (hb ▸ ht.tree b) hwalk htree' habsent hfresh).weaken fun key hkey =>
      hkey.trans hp.normalizePath_path.symm
  refine (triple_change ht _ hadd).consequence (fun _ hw => hw) fun a w hw => ⟨hw.1, ?_⟩
  intro i g hchange
  obtain ⟨⟨hleaf, -, hnames⟩, hw⟩ := hw.2 _ hchange
  exact ⟨n, ns w.backend, ⟨⟨hreached, hleaf⟩, by rw [hnames, assign_self]⟩, hw⟩

theorem finishCreatedEntry_spec (ht : Truthful pf.caseFold h ns used) (created : CreatedEntry)
    {n₀ : Namespace} (hp : Located pf.caseFold n₀ created.fileName created.parentIno)
    (hchild : n created.parentIno (nameKey pf.caseFold (splitParentAndName created.fileName).2)
      = some (created.attr.ino, created.generation)) :
    Triple (machine pf h notices)
      (World.Agrees ns used (fun key => key = normalizePath pf.caseFold created.fileName.path) n)
      (finishCreatedEntry created) fun _ w => w.Agrees ns used nowhere n := by
  refine (triple_steady ht (.perform rfl)).bind fun _ => (triple_steady ht (.perform rfl)).bind
    fun _ => (triple_steady ht (.perform rfl)).bind fun _ => ?_
  exact (rememberCreatedPath_spec ht created.req
    ⟨created.fileName, created.parentIno, created.leaf, created.attr, created.generation, created.ttl⟩
    _ hp.normalizePath_path hp.components hchild).consequence (fun _ hw => hw)
      fun _ _ hw => hw.weaken fun _ hno => hno.2 hno.1

/-- The rest of a creation records the name. -/
theorem recordAdded_spec (ht : Truthful pf.caseFold h ns used) (created : CreatedEntry)
    (info : CreateFileInfo) :
    Triple (machine pf h notices)
      (World.Added pf ns used created.fileName created.parentIno created.attr.ino created.generation)
      (finishCreatedEntry created >>= fun _ => pure (.ok info : Except NtStatus CreateFileInfo))
      fun _ w => w.Current ns used := by
  refine .choose fun n₀ => .choose fun n' => .assume fun ⟨hp, hchild⟩ => ?_
  exact (finishCreatedEntry_spec ht created hp hchild).bind fun _ => .pure fun w hw => hw.current

/-- A drain keeps what is not recorded yet. -/
theorem drainAdded_spec (ht : Truthful pf.caseFold h ns used) (req : Request) {path : U16CStr}
    {parent i : INodeNo} {g : Generation} :
    Triple (machine pf h notices) (World.Added pf ns used path parent i g)
      (drainResolverForgets req) fun _ w => w.Added pf ns used path parent i g :=
  .choose fun n₀ => .choose fun n' => .assume fun hplace => (triple_drain ht req _).consequence
    (fun _ hw => hw) fun _ _ hw => ⟨n₀, n', hplace, hw⟩

theorem createDirectoryEntry_spec (ht : Truthful pf.caseFold h ns used) (hz : ZeroIsFirst h used)
    (create : CreateEntryRequest) (hleaf : create.leaf = (splitParentAndName create.fileName).2)
    (hreached : ∃ g, walk n rootEntry (keyOf pf.caseFold (splitParentAndName create.fileName).1)
      = some (create.parentIno, g)) :
    Triple (machine pf h notices) (World.Agrees ns used nowhere n) (createDirectoryEntry create)
      fun _ w => w.Current ns used := by
  refine (triple_add ht hz hreached fun reply change hchange => ?_).bind fun state => ?_
  · exact hleaf ▸ FsCall.change_mkdir hchange
  rcases state with _ | ⟨err⟩ | ⟨payload⟩
  · exact ((triple_drain ht _ _).bind fun _ => .pure fun w hw => hw.current).weakenPre
      fun _ hw => hw.1 rfl
  · exact ((triple_drain ht _ _).bind fun _ => .pure fun w hw => hw.current).weakenPre
      fun _ hw => hw.1 rfl
  · refine ((drainAdded_spec ht _).weakenPre fun w hw => ?_).bind fun _ =>
      recordAdded_spec ht ⟨create.req, create.fileName, create.parentIno, create.leaf, payload.attr,
        payload.generation, payload.ttl, _⟩ _
    exact hw.2 payload.attr.ino payload.generation (by rw [← hleaf]; rfl)

theorem createFileEntryOrOpenExisting_spec (ht : Truthful pf.caseFold h ns used)
    (hz : ZeroIsFirst h used) (create : CreateEntryRequest) (createPlan : CreateDispositionPlan)
    (openFlags : Int32) (hleaf : create.leaf = (splitParentAndName create.fileName).2)
    (hreached : ∃ g, walk n rootEntry (keyOf pf.caseFold (splitParentAndName create.fileName).1)
      = some (create.parentIno, g)) :
    Triple (machine pf h notices) (World.Agrees ns used nowhere n)
      (createFileEntryOrOpenExisting pf create createPlan openFlags)
      fun _ w => w.Current ns used := by
  refine (triple_add ht hz hreached fun reply change hchange => ?_).bind fun state => ?_
  · exact hleaf ▸ FsCall.change_create hchange
  rcases state with _ | ⟨err⟩ | ⟨payload⟩
  · exact ((triple_drain ht _ _).bind fun _ => .pure fun w hw => hw.current).weakenPre
      fun _ hw => hw.1 rfl
  · refine ((triple_drain ht _ _).bind fun _ => ?_).weakenPre fun _ hw => hw.1 rfl
    dsimp only
    split_ifs
    · exact (triple_plain ht (.openCollisionEntry pf fun _ _ => ⟨rfl, rfl⟩)).consequence (fun _ hw => hw)
        fun _ _ hw => hw.current
    · exact .pure fun w hw => hw.current
  · refine ((drainAdded_spec ht _).weakenPre fun w hw => ?_).bind fun _ =>
      recordAdded_spec ht ⟨create.req, create.fileName, create.parentIno, create.leaf, payload.attr,
        payload.generation, payload.ttl, _⟩ _
    exact hw.2 payload.attr.ino payload.generation (by rw [← hleaf]; rfl)

theorem createFile_current (ht : Truthful pf.caseFold h ns used) (hz : ZeroIsFirst h used)
    (fileName : U16CStr) (desiredAccess : AccessMask)
    (fileAttributes createDisposition createOptions : UInt32) (requestIds : RequestIds) :
    Triple (machine pf h notices) (World.Agrees ns used nowhere n)
      (createFile pf fileName desiredAccess fileAttributes createDisposition createOptions requestIds)
      fun _ w => w.Current ns used := by
  have hplain : ∀ {p : Routine (Except NtStatus CreateFileInfo)}, PlainRoutine pf p →
      Triple (machine pf h notices) (World.Agrees ns used nowhere n) p
        fun _ w => w.Current ns used := fun hp =>
    (triple_plain ht hp).consequence (fun _ hw => hw) fun _ _ hw => hw.current
  refine (resolvePathIno_spec ht _ _).bind fun parent => .assume fun hparent => ?_
  cases parent with
  | error err => exact (triple_drain ht _ _).bind fun _ => .pure fun w hw => hw.current
  | ok parentIno =>
      have hreached := resolved_ok hparent.symm
      dsimp only [createInParent]
      split_ifs
      · exact hplain (.createRootContext pf fileName requestIds)
      · exact hplain (.openExistingEntry pf fun _ _ => ⟨rfl, rfl⟩)
      · exact createDirectoryEntry_spec ht hz _ rfl hreached
      · exact createFileEntryOrOpenExisting_spec ht hz _ _ _ rfl hreached

/-! ## Moving and removing -/

/-- A change of the last name of a path concerns no entry outside the subtree of the path. -/
theorem Located.concerns {cf : CaseFold} {path : U16CStr} {parent : INodeNo}
    (hp : Located cf n path parent) : ∃ ps g, walk n rootEntry ps = some (parent, g) ∧
      ∀ ks, (∀ q ∈ ks, IsComponent q) →
        (ps ++ [nameKey cf (splitParentAndName path).2]) <+: ks →
          inSubtree (normalizePath cf path.path) (joinPath ks) := by
  obtain ⟨g, hwalk⟩ := hp.reached
  exact ⟨_, g, hwalk, fun ks hks hbelow => hp.below hks hbelow⟩

/-- A move concerns the subtrees of both paths only. -/
theorem Coherent.moved {inUse : INodeNo → Generation → Prop} {r : PathResolver}
    (hr : Coherent n inUse nowhere r) (htree : Tree n .ROOT) {cf : CaseFold} {path newpath : U16CStr}
    {parent newparent : INodeNo} (hp : Located cf n path parent)
    (hnew : Located cf n newpath newparent) {child : INodeNo × Generation} :
    Coherent (assign (assign n parent (nameKey cf (splitParentAndName path).2) none) newparent
      (nameKey cf (splitParentAndName newpath).2) (some child)) inUse
      (fun key => inSubtree (normalizePath cf path.path) key ∨
        inSubtree (normalizePath cf newpath.path) key) r := by
  have hagree : AgreesOff (fun p k => (p = parent ∧ k = nameKey cf (splitParentAndName path).2) ∨
      (p = newparent ∧ k = nameKey cf (splitParentAndName newpath).2)) n
      (assign (assign n parent (nameKey cf (splitParentAndName path).2) none) newparent
        (nameKey cf (splitParentAndName newpath).2) (some child)) := by
    intro p k hoff
    rw [assign_other _ _ fun heq => hoff (.inr heq), assign_other _ _ fun heq => hoff (.inl heq)]
  refine hr.change htree hagree ?_
  rintro _ _ (⟨rfl, rfl⟩ | ⟨rfl, rfl⟩)
  · obtain ⟨ps, g, hwalk, hbelow⟩ := hp.concerns
    exact ⟨ps, g, hwalk, fun ks hks hext => .inl (hbelow ks hks hext)⟩
  · obtain ⟨ps, g, hwalk, hbelow⟩ := hnew.concerns
    exact ⟨ps, g, hwalk, fun ks hks hext => .inr (hbelow ks hks hext)⟩

/-- A removal concerns the subtree of the path only. -/
theorem Coherent.removed {inUse : INodeNo → Generation → Prop} {r : PathResolver}
    (hr : Coherent n inUse nowhere r) (htree : Tree n .ROOT) {cf : CaseFold} {path : U16CStr}
    {parent : INodeNo} (hp : Located cf n path parent) :
    Coherent (assign n parent (nameKey cf (splitParentAndName path).2) none) inUse
      (fun key => inSubtree (normalizePath cf path.path) key) r := by
  refine hr.change htree (assign_agreesOff n parent _ none) ?_
  rintro _ _ ⟨rfl, rfl⟩
  exact hp.concerns

/-- The call that moves a name. -/
theorem triple_move (ht : Truthful pf.caseFold h ns used) (req : Request)
    {path newpath : U16CStr} {parent newparent : INodeNo}
    (hreached : ∃ g, walk n rootEntry (keyOf pf.caseFold (splitParentAndName path).1)
      = some (parent, g))
    (hnewreached : ∃ g, walk n rootEntry (keyOf pf.caseFold (splitParentAndName newpath).1)
      = some (newparent, g)) :
    Triple (machine pf h notices) (World.Agrees ns used nowhere n)
      (renameWithReplacePolicy req parent (splitParentAndName path).2 newparent
        (splitParentAndName newpath).2)
      fun a w => ∃ n', w.Agrees ns used (fun key => a = .ok () ∧
        (inSubtree (normalizePath pf.caseFold path.path) key ∨
          inSubtree (normalizePath pf.caseFold newpath.path) key)) n' := by
  refine (triple_change ht (fun key => inSubtree (normalizePath pf.caseFold path.path) key ∨
    inSubtree (normalizePath pf.caseFold newpath.path) key)
      fun b r change hb hchange hr => ?_).bind fun status => ?_
  · obtain ⟨-, rfl⟩ := FsCall.change_rename hchange
    obtain ⟨hleaf, hnewleaf, child, -, hnames⟩ := ht.changed hchange
    rw [hnames, hb]
    exact hr.moved (hb ▸ ht.tree b) ⟨hreached, hleaf⟩ ⟨hnewreached, hnewleaf⟩
  rcases status with _ | ⟨err⟩ | ⟨⟩
  · exact .pure fun w hw => ⟨n, (hw.1 rfl).weaken fun _ hno => hno.elim⟩
  · exact .pure fun w hw => ⟨n, (hw.1 rfl).weaken fun _ hno => hno.elim⟩
  · exact .pure fun w hw => ⟨_, (hw.2 _ rfl).2.weaken fun key hkey => ⟨rfl, hkey⟩⟩

/-- The invalidations after a move drop everything at and below both paths. -/
theorem invalidateRenamed_spec (ht : Truthful pf.caseFold h ns used) (req : Request)
    (path newpath : U16CStr) (parent newparent : INodeNo) (movedIno : Option INodeNo) :
    Triple (machine pf h notices)
      (World.Agrees ns used (fun key => inSubtree (normalizePath pf.caseFold path.path) key ∨
        inSubtree (normalizePath pf.caseFold newpath.path) key) n)
      (invalidateRenamed req path newpath parent newparent movedIno)
      fun _ w => w.Agrees ns used nowhere n := by
  have hmoved : (invalidateMoved movedIno).Performs fun e : Effect => e.isSteady := by
    cases movedIno with
    | none => exact .pure _
    | some ino => exact .perform rfl
  refine (triple_steady ht hmoved).bind fun _ => ?_
  refine (triple_steady ht (.bind (.perform rfl) fun _ => .perform rfl)).bind fun _ => ?_
  refine (invalidatePathCache_spec ht req path).bind fun _ => ?_
  refine (invalidatePathCache_spec ht req newpath).bind fun _ => ?_
  refine ((triple_steady ht (.bind (.perform rfl) fun _ => .perform rfl)).weakenPre
    fun w hw => hw.weaken ?_)
  rintro key ⟨⟨hold | hnew, hnotold⟩, hnotnew⟩
  · rw [hold] at hnotold
    cases hnotold
  · rw [hnew] at hnotnew
    cases hnotnew

theorem moveFile_current (ht : Truthful pf.caseFold h ns used) (fileName newFileName : U16CStr)
    (replaceIfExisting : Bool) (context : AdapterContext) :
    Triple (machine pf h notices) (World.Agrees ns used nowhere n)
      (moveFile pf fileName newFileName replaceIfExisting context)
      fun _ w => w.Current ns used := by
  refine (resolvePathIno_spec ht _ _).bind fun oldParent => .assume fun hold => ?_
  cases oldParent with
  | error err => exact .pure fun w hw => hw.current
  | ok oldParentIno =>
      refine (resolvePathIno_spec ht _ _).bind fun newParent => .assume fun hnew => ?_
      cases newParent with
      | error err => exact .pure fun w hw => hw.current
      | ok newParentIno =>
          refine (triple_plain ht (.resolveContextOrPath pf _ _ _)).bind fun moved => ?_
          refine (triple_plain ht (.precheckRename pf _ _ _)).bind fun checked => ?_
          cases checked with
          | error status => exact .pure fun w hw => hw.current
          | ok _ =>
              refine (triple_move ht _ (resolved_ok hold.symm) (resolved_ok hnew.symm)).bind
                fun renamed => .choose fun n' => (triple_drain ht _ _).bind fun _ => ?_
              cases renamed with
              | error status =>
                  exact .pure fun w hw => (hw.weaken fun _ hno => by simp at hno).current
              | ok _ =>
                  refine ((invalidateRenamed_spec ht _ _ _ _ _ _).weakenPre fun w hw =>
                    hw.weaken fun _ hkey => hkey.2).bind fun _ => ?_
                  exact .pure fun w hw => hw.current

/-- The call that removes a name. -/
theorem rmdirOrUnlink_spec (ht : Truthful pf.caseFold h ns used) (req : Request)
    (context : AdapterContext) {path : U16CStr} {parent : INodeNo}
    (hreached : ∃ g, walk n rootEntry (keyOf pf.caseFold (splitParentAndName path).1)
      = some (parent, g)) :
    Triple (machine pf h notices) (World.Agrees ns used nowhere n)
      (rmdirOrUnlink req context parent (splitParentAndName path).2)
      fun a w => ∃ n', w.Agrees ns used (fun key => a = some (.ok ()) ∧
        inSubtree (normalizePath pf.caseFold path.path) key) n' := by
  have hremove : ∀ {c : FsCall} b r change, ns b = n → c.change (h.reply c b).1 = some change →
      change = .remove parent (splitParentAndName path).2 → Coherent n (used b) nowhere r →
        Coherent (ns (h.reply c b).2) (used b)
          (fun key => inSubtree (normalizePath pf.caseFold path.path) key) r := by
    rintro c b r change hb hchange rfl hr
    obtain ⟨hleaf, hnames⟩ := ht.changed hchange
    rw [hnames, hb]
    exact hr.removed (hb ▸ ht.tree b) ⟨hreached, hleaf⟩
  unfold rmdirOrUnlink
  cases context.isDir with
  | true =>
      refine (triple_change (c := .rmdir req parent _) ht _ fun b r change hb hchange hr =>
        hremove b r change hb hchange (FsCall.change_rmdir hchange).2 hr).consequence
          (fun _ hw => hw) ?_
      rintro (_ | ⟨err⟩ | ⟨⟩) w hw
      · exact ⟨n, (hw.1 rfl).weaken fun _ hno => hno.elim⟩
      · exact ⟨n, (hw.1 rfl).weaken fun _ hno => hno.elim⟩
      · exact ⟨_, (hw.2 _ rfl).2.weaken fun key hkey => ⟨rfl, hkey⟩⟩
  | false =>
      refine (triple_change (c := .unlink req parent _) ht _ fun b r change hb hchange hr =>
        hremove b r change hb hchange (FsCall.change_unlink hchange).2 hr).consequence
          (fun _ hw => hw) ?_
      rintro (_ | ⟨err⟩ | ⟨⟩) w hw
      · exact ⟨n, (hw.1 rfl).weaken fun _ hno => hno.elim⟩
      · exact ⟨n, (hw.1 rfl).weaken fun _ hno => hno.elim⟩
      · exact ⟨_, (hw.2 _ rfl).2.weaken fun key hkey => ⟨rfl, hkey⟩⟩

theorem invalidateRemoved_spec (ht : Truthful pf.caseFold h ns used) (req : Request)
    (path : U16CStr) (context : AdapterContext) (parent : INodeNo) :
    Triple (machine pf h notices)
      (World.Agrees ns used (fun key => inSubtree (normalizePath pf.caseFold path.path) key) n)
      (invalidateRemoved req path context parent) fun _ w => w.Agrees ns used nowhere n := by
  refine (invalidatePathCache_spec ht req path).bind fun _ => ?_
  refine Triple.weakenPre (P := World.Agrees ns used nowhere n) ?_ fun w hw => hw.weaken ?_
  · dsimp only
    split_ifs
    · exact triple_steady ht (.bind (.perform rfl) fun _ => .perform rfl)
    · exact triple_steady ht (.perform rfl)
  · rintro key ⟨hbelow, hnot⟩
    rw [hbelow] at hnot
    cases hnot

theorem cleanup_current (ht : Truthful pf.caseFold h ns used) (fileName : U16CStr)
    (deleteOnClose : Bool) (context : AdapterContext) :
    Triple (machine pf h notices) (World.Agrees ns used nowhere n)
      (cleanup pf fileName deleteOnClose context) fun _ w => w.Current ns used := by
  cases deleteOnClose with
  | false => exact .pure fun w hw => hw.current
  | true =>
      refine (resolvePathIno_spec ht _ _).bind fun parent => .assume fun hparent => ?_
      cases parent with
      | error err =>
          exact (triple_drain ht _ _).consequence (fun _ hw => hw) fun _ _ hw => hw.current
      | ok parentIno =>
          refine (rmdirOrUnlink_spec ht _ context (resolved_ok hparent.symm)).bind
            fun status => .choose fun n' => (triple_drain ht _ _).bind fun _ => ?_
          rcases status with _ | ⟨err⟩ | ⟨⟩
          · exact .pure fun w hw => (hw.weaken fun _ hno => by simp at hno).current
          · exact .pure fun w hw => (hw.weaken fun _ hno => by simp at hno).current
          · exact (invalidateRemoved_spec ht _ _ _ _).consequence
              (fun _ hw => hw.weaken fun _ hkey => hkey.2) fun _ _ hw => hw.current

/-! ## Listing -/

/-- The entries of a listing are children of the listed directory. -/
def ListsChildren (cf : CaseFold) (n : Namespace) (ino : INodeNo)
    (entries : List DirectoryPlusEntryPayload) : Prop :=
  ∀ entry ∈ entries, IsComponent entry.name.toStringLossy ∧
    n ino (nameKey cf entry.name) = some (entry.attr.ino, entry.generation)

theorem emitReaddirplusPatternEntries_spec (ht : Truthful pf.caseFold h ns used) (req : Request)
    (fileName pattern : U16CStr) (ino : INodeNo) (emittedOffset : Option Int64)
    {entries : List DirectoryPlusEntryPayload} (hentries : ListsChildren pf.caseFold n ino entries) :
    Triple (machine pf h notices) (World.Agrees ns used nowhere n)
      (emitReaddirplusPatternEntries pf req fileName pattern ino emittedOffset entries)
      fun _ w => w.Agrees ns used nowhere n := by
  induction entries generalizing emittedOffset with
  | nil => exact .pure fun w hw => hw
  | cons entry rest ih =>
      have hrest : ListsChildren pf.caseFold n ino rest :=
        fun e he => hentries e (List.mem_cons_of_mem _ he)
      obtain ⟨hname, hchild⟩ := hentries entry List.mem_cons_self
      unfold emitReaddirplusPatternEntries
      cases hpath : U16CStr.fromStr (joinChildPath fileName entry.name) with
      | none => exact .pure fun w hw => hw
      | some path =>
          have hkeys : keyOf pf.caseFold path.path
              = keyOf pf.caseFold fileName.path ++ [nameKey pf.caseFold entry.name] := by
            rw [keyOf, U16CStr.path, U16CStr.toStringLossy_fromStr hpath,
              normalizedComponents_joinChildPath fileName hname, List.map_append, List.map_singleton]
            rfl
          have hrecord : Triple (machine pf h notices) (World.Agrees ns used nowhere n)
              (rememberCreatedPath req ⟨path, ino, entry.name, entry.attr, entry.generation,
                entry.ttl⟩) fun _ w => w.Agrees ns used nowhere n :=
            (rememberCreatedPath_spec ht req _ (keyOf pf.caseFold fileName.path)
              (by rw [normalizePath_eq, hkeys]) (hkeys ▸ isComponent_keyOf pf.caseFold path.path)
              hchild).consequence (fun _ hw => hw) fun _ _ hw => hw.weaken fun _ hno => hno.1
          refine hrecord.bind fun _ => ?_
          cases U16CStr.fromStr entry.name.toStringLossy with
          | none => exact .pure fun w hw => hw
          | some name =>
              dsimp only
              cases pf.isNameInExpression pattern name true with
              | false => exact ih _ hrest
              | true =>
                  refine (triple_steady ht (.perform rfl)).bind fun accepted => ?_
                  cases accepted with
                  | true => exact ih _ hrest
                  | false => exact .pure fun w hw => hw

theorem findFilesWithPattern_current (ht : Truthful pf.caseFold h ns used)
    (fileName pattern : U16CStr) (context : AdapterContext) :
    Triple (machine pf h notices) (World.Agrees ns used nowhere n)
      (findFilesWithPattern pf fileName pattern context) fun _ w => w.Current ns used := by
  refine (triple_plain ht (.directoryIno pf _ context _)).bind fun directory => ?_
  cases directory with
  | error status => exact .pure fun w hw => hw.current
  | ok ino =>
      refine (triple_steady ht (.perform rfl)).bind fun reqOffset => ?_
      refine (triple_call ht (c := .readdirplus (requestFromIds context.requestIds) ino context.fh
        (readdirOffset reqOffset)) rfl (Q := fun reply => ListsChildren pf.caseFold n ino
          (reply : ReplyDirectoryPlus).entries) fun b hb entry hentry =>
            ?_).bind fun reply => .assume fun hentries => ?_
      · obtain rfl := hb
        exact ht.listed hentry
      refine (triple_drain ht _ _).bind fun _ => ?_
      split_ifs
      · exact (triple_plain ht (.findFilesFallback pf _ _ pattern ino _ _)).consequence
          (fun _ hw => hw) fun _ _ hw => hw.current
      · refine (emitReaddirplusPatternEntries_spec ht _ fileName pattern ino none hentries).bind
          fun emitted => ?_
        cases emitted with
        | error status => exact .pure fun w hw => hw.current
        | ok emittedOffset =>
            exact (triple_steady ht (.perform rfl)).bind fun _ => .pure fun w hw => hw.current

end Routes

/-! ## Runs -/

section Runs
variable {β φ : Type} {pf : Platform} {h : Host β φ} {notices : Notices} {ns : β → Namespace}
  {used : β → INodeNo → Generation → Prop}

/-- Every callback keeps the cache coherent with the current names. -/
theorem Callback.current (ht : Truthful pf.caseFold h ns used) (hz : ZeroIsFirst h used)
    (c : Callback) : Triple (machine pf h notices) (World.Current ns used) (c.routine pf)
      fun _ w => w.Current ns used := by
  intro w hw
  cases hplain : c.isPlain with
  | true => exact (triple_plain ht (Callback.plainRoutine pf hplain) w hw).current
  | false =>
      cases c with
      | createFile fileName desiredAccess fileAttributes createDisposition createOptions
          requestIds =>
          exact createFile_current ht hz fileName desiredAccess fileAttributes createDisposition
            createOptions requestIds w hw
      | cleanup fileName deleteOnClose context =>
          exact cleanup_current ht fileName deleteOnClose context w hw
      | moveFile fileName newFileName replaceIfExisting context =>
          exact moveFile_current ht fileName newFileName replaceIfExisting context w hw
      | findFilesWithPattern fileName pattern context =>
          exact findFilesWithPattern_current ht fileName pattern context w hw
      | _ => cases hplain

/-- A world that was served any callbacks has a cache coherent with the current names. -/
theorem World.serve_current (ht : Truthful pf.caseFold h ns used) (hz : ZeroIsFirst h used)
    (callbacks : List Callback) {w : World β φ} (hw : w.Current ns used) :
    (w.serve pf h notices callbacks).Current ns used := by
  induction callbacks generalizing w with
  | nil => exact hw
  | cons c callbacks ih => exact ih (Callback.current ht hz c w hw)

theorem World.initial_current (ns : β → Namespace) (used : β → INodeNo → Generation → Prop)
    (ttl : Duration) (backend : β) (caller : φ) :
    (World.initial ttl backend caller).Current ns used :=
  ⟨rfl, Coherent.initial _ _ ttl⟩

end Runs
end Confuse
