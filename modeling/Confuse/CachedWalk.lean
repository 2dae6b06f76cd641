import Confuse.CallbackCalls
import Confuse.TruthfulHost

/-!
# The cached walk

In a world that agrees with a namespace, `resolve_path_ino` returns what the walk without a cache
returns, and leaves a world that agrees. One turn of its loop serves the child from the cache, where
coherence makes it right, or asks the file system and records the truthful answer.
-/

namespace Confuse

open Interaction NameTree PathResolver

section Rules
variable {β φ : Type} {pf : Platform} {h : Host β φ} {notices : Notices} {ns : β → Namespace}
  {used : β → INodeNo → Generation → Prop} {exempt exempt' : Str → Prop} {n : Namespace}

/-- A section on the tables. -/
theorem triple_table {o : TableOp} {Q : o.Result → Prop}
    (hop : ∀ b now r, ns b = n → Coherent n (used b) exempt r →
      Q (o.apply pf.caseFold now r).1 ∧ Coherent n (used b) exempt' (o.apply pf.caseFold now r).2) :
    Triple (machine pf h notices) (World.Agrees ns used exempt n) (Routine.table o)
      fun a w => Q a ∧ w.Agrees ns used exempt' n := by
  intro w hw
  let w' := (notices w.steps).foldl (World.notify pf h) w
  have hw' : w'.Agrees ns used exempt n := hw.foldl_notify pf h _
  have hsection := hop w'.backend (h.clock w'.steps) w'.resolver hw'.names hw'.coherent
  exact ⟨hsection.1, hw'.names, hsection.2⟩

/-- A call that changes no names. -/
theorem triple_call (ht : Truthful pf.caseFold h ns used) {c : FsCall} (hc : c.keepsNames)
    {Q : c.Reply → Prop} (hreply : ∀ b, ns b = n → Q (h.reply c b).1) :
    Triple (machine pf h notices) (World.Agrees ns used exempt n) (Routine.fs c)
      fun a w => Q a ∧ w.Agrees ns used exempt n := by
  intro w hw
  refine ⟨?_, hw.steady ht (e := .fs c) hc⟩
  let w' := (notices w.steps).foldl (World.notify pf h) w
  have hw' : w'.Agrees ns used exempt n := hw.foldl_notify pf h _
  exact hreply w'.backend hw'.names

/-- Steady effects. -/
theorem triple_steady (ht : Truthful pf.caseFold h ns used) {α : Type} {p : Routine α}
    (hp : p.Performs fun e : Effect => e.isSteady) :
    Triple (machine pf h notices) (World.Agrees ns used exempt n) p
      fun _ w => w.Agrees ns used exempt n :=
  fun _ hw => hp.invariant (fun _ _ he hw => World.Agrees.steady ht he hw) hw

theorem triple_drain (ht : Truthful pf.caseFold h ns used) (req : Request) (o : DrainOp) :
    Triple (machine pf h notices) (World.Agrees ns used exempt n) (Routine.deliver req o)
      fun _ w => w.Agrees ns used exempt n :=
  triple_steady ht (.perform rfl)

end Rules

/-! ## One component -/

/-- What a walk finds under one name. -/
def childEntry (n : Namespace) (parent : INodeNo) (key : Str) : Except Errno ResolvedEntry :=
  match n parent key with
  | some (ino, generation) => .ok ⟨ino, generation⟩
  | none => .error ENOENT

section Component
variable {β φ : Type} {pf : Platform} {h : Host β φ} {notices : Notices} {ns : β → Namespace}
  {used : β → INodeNo → Generation → Prop} {exempt : Str → Prop} {n : Namespace}

/-- The place of a component in the namespace: its path, and the parent that the walk has reached. -/
structure Placed (cf : CaseFold) (n : Namespace) (ps : List Str) (part : Str)
    (component : LookupComponent) : Prop where
  path : component.path = .new (joinPath (ps ++ [part]))
  name : component.name = .new part
  components : ∀ p ∈ ps ++ [part], IsComponent p
  reached : walk n rootEntry (ps.map cf.toLowercase)
    = some (component.parent, component.parentGeneration)

namespace Placed
variable {cf : CaseFold} {ps : List Str} {part : Str} {component : LookupComponent}

theorem normalizePath (hp : Placed cf n ps part component) :
    normalizePath cf component.path
      = joinPath (ps.map cf.toLowercase ++ [cf.toLowercase part]) := by
  rw [hp.path, normalizePath_new_joinPath cf hp.components]

theorem keys (hp : Placed cf n ps part component) :
    ∀ p ∈ ps.map cf.toLowercase ++ [cf.toLowercase part], IsComponent p := by
  have h := isComponent_map_toLowercase cf hp.components
  rwa [List.map_append, List.map_singleton] at h

theorem nameKey (hp : Placed cf n ps part component) :
    nameKey cf component.name = cf.toLowercase part := by
  rw [hp.name, Confuse.nameKey, OsStr.toStringLossy_new]

end Placed

/-- A cached entry that is served is right. -/
theorem Coherent.cached_right {inUse : INodeNo → Generation → Prop} {cf : CaseFold}
    {r : PathResolver} (hr : Coherent n inUse nowhere r) {ps : List Str} {part : Str}
    {component : LookupComponent} (hp : Placed cf n ps part component) (now : Instant)
    {served : Except Errno ResolvedEntry}
    (hserved : (r.cached cf now component.path component.parent component.parentGeneration).1
      = some served) : served = childEntry n component.parent (cf.toLowercase part) := by
  have hright : ∀ e, r.paths.lookup (normalizePath cf component.path) = some e →
      e.parent = component.parent → e.parentGeneration = component.parentGeneration →
        n component.parent (cf.toLowercase part) = e.value := by
    intro e he hparent hgeneration
    rw [hp.normalizePath] at he
    rw [← hparent]
    exact hr.right _ _ _ hp.keys he (fun hno => hno) (by rw [hp.reached, hparent, hgeneration])
  cases served with
  | ok entry =>
      obtain ⟨e, he, hparent, hgeneration, rfl, -⟩ := cached_ok hserved
      rw [childEntry, hright _ he hparent hgeneration]
      rfl
  | error err =>
      obtain ⟨rfl, e, he, hparent, hgeneration, -⟩ := cached_error hserved
      rw [childEntry, hright _ he hparent hgeneration]
      rfl

/-- The lookup of a component records the truthful answer. -/
theorem lookupPathComponent_spec (ht : Truthful pf.caseFold h ns used) (req : Request)
    {ps : List Str} {part : Str} {component : LookupComponent}
    (hp : Placed pf.caseFold n ps part component) :
    Triple (machine pf h notices) (World.Agrees ns used nowhere n)
      (lookupPathComponent req component)
      fun a w => a = childEntry n component.parent (pf.caseFold.toLowercase part) ∧
        w.Agrees ns used nowhere n := by
  have hreached : ∀ b, ns b = n → used b component.parent component.parentGeneration :=
    fun b hb => ht.walk_used (hb ▸ hp.reached)
  cases hchild : n component.parent (pf.caseFold.toLowercase part) with
  | none =>
      have hreply : ∀ b, ns b = n → (h.reply (.lookup req component.parent component.name) b).1
          = (some (.error ENOENT) : Reply ReplyEntryPayload) := fun b hb =>
        ht.lookup_absent (by rw [hp.nameKey, hb, hchild])
      refine (triple_call ht (c := .lookup req component.parent component.name) rfl
        (Q := fun a => a = (some (.error ENOENT) : Reply ReplyEntryPayload)) hreply).bind
          fun status => .assume ?_
      rintro rfl
      have hrecord : Triple (machine pf h notices) (World.Agrees ns used nowhere n)
          (rememberNegative component) fun _ w => True ∧ w.Agrees ns used nowhere n :=
        triple_table fun b now r hb hr => ⟨trivial, hr.rememberNegative pf.caseFold now
          hp.normalizePath hp.keys (.inl (hreached b hb)) hchild⟩
      refine Triple.bind (Q := fun _ w => w.Agrees ns used nowhere n) ?_ fun _ => .pure fun w hw =>
        ⟨by rw [childEntry, hchild], hw⟩
      exact hrecord.bind fun _ => .assume fun _ => triple_drain ht req _
  | some child =>
      obtain ⟨i, g⟩ := child
      have hreply : ∀ b, ns b = n → ∃ payload : ReplyEntryPayload,
          (h.reply (.lookup req component.parent component.name) b).1
            = (some (.ok payload) : Reply ReplyEntryPayload) ∧
          payload.attr.ino = i ∧ payload.generation = g := fun b hb =>
        ht.lookup_present (by rw [hp.nameKey, hb, hchild])
      refine (triple_call ht (c := .lookup req component.parent component.name) rfl
        (Q := fun a => ∃ payload : ReplyEntryPayload,
          a = (some (.ok payload) : Reply ReplyEntryPayload) ∧
          payload.attr.ino = i ∧ payload.generation = g) hreply).bind fun status => .assume ?_
      rintro ⟨payload, rfl, rfl, rfl⟩
      have hrecord : Triple (machine pf h notices) (World.Agrees ns used nowhere n)
          (Routine.table (.rememberPositive {
            path := component.path, parent := component.parent
            parentGeneration := component.parentGeneration, name := component.name
            attr := payload.attr, generation := payload.generation, ttl := payload.ttl }))
          fun entry w => entry = (⟨payload.attr.ino, payload.generation⟩ : ResolvedEntry) ∧
            w.Agrees ns used nowhere n := by
        refine triple_table fun b now r hb hr => ⟨rfl, ?_⟩
        have hused : used b payload.attr.ino payload.generation :=
          ht.in_use (p := component.parent) (k := pf.caseFold.toLowercase part) (by rw [hb, hchild])
        exact (hr.rememberPositive pf.caseFold now _ hp.normalizePath hp.keys
          (.inl (hreached b hb)) hused fun _ => hchild).weaken fun _ hno => hno.1
      refine hrecord.bind fun entry => .assume ?_
      rintro rfl
      exact .pure fun w hw => ⟨by rw [childEntry, hchild], hw⟩

/-- What the cache serves is right. -/
theorem cachedPathComponent_spec (ht : Truthful pf.caseFold h ns used) (req : Request)
    {ps : List Str} {part : Str} {component : LookupComponent}
    (hp : Placed pf.caseFold n ps part component) :
    Triple (machine pf h notices) (World.Agrees ns used nowhere n)
      (cachedPathComponent req component.path component.parent component.parentGeneration)
      fun a w => (a = .ok none ∨ childEntry n component.parent (pf.caseFold.toLowercase part)
        = a.bind fun served => served.elim (.error EIO) .ok) ∧ w.Agrees ns used nowhere n := by
  have hcached : Triple (machine pf h notices) (World.Agrees ns used nowhere n)
      (Routine.table (.cached component.path component.parent component.parentGeneration))
      fun a w => (∀ served, a = some served →
        served = childEntry n component.parent (pf.caseFold.toLowercase part)) ∧
          w.Agrees ns used nowhere n :=
    triple_table fun b now r hb hr => ⟨fun served => hr.cached_right hp now,
      hr.cached pf.caseFold now _ _ _⟩
  refine hcached.bind fun cached => .assume fun hserved => ?_
  rcases cached with _ | ⟨err⟩ | ⟨entry⟩
  · exact .pure fun w hw => ⟨.inl rfl, hw⟩
  · exact (triple_drain ht req _).bind fun _ => .pure fun w hw => ⟨.inr (hserved _ rfl).symm, hw⟩
  · exact .pure fun w hw => ⟨.inr (hserved _ rfl).symm, hw⟩

/-- One turn of the loop finds the child of the parent that the walk has reached. -/
theorem resolveComponent_spec (ht : Truthful pf.caseFold h ns used) (req : Request)
    {ps : List Str} {part : Str} {component : LookupComponent}
    (hp : Placed pf.caseFold n ps part component) :
    Triple (machine pf h notices) (World.Agrees ns used nowhere n) (resolveComponent req component)
      fun a w => a = childEntry n component.parent (pf.caseFold.toLowercase part) ∧
        w.Agrees ns used nowhere n := by
  refine (cachedPathComponent_spec ht req hp).bind fun cached => .assume fun hserved => ?_
  rcases cached with err | _ | entry
  · exact .pure fun w hw => ⟨(hserved.resolve_left (by simp)).symm, hw⟩
  · exact lookupPathComponent_spec ht req hp
  · exact .pure fun w hw => ⟨(hserved.resolve_left (by simp)).symm, hw⟩

end Component

/-! ## Whole paths -/

section Walk
variable {β φ : Type} {pf : Platform} {h : Host β φ} {notices : Notices} {ns : β → Namespace}
  {used : β → INodeNo → Generation → Prop} {n : Namespace}

theorem walkComponents_spec (ht : Truthful pf.caseFold h ns used) (req : Request)
    (ps : List Str) {cs : List Str} {current : ResolvedEntry} (hps : ∀ p ∈ ps, IsComponent p)
    (hcs : ∀ p ∈ cs, IsComponent p)
    (hreached : walk n rootEntry (ps.map pf.caseFold.toLowercase)
      = some (current.ino, current.generation)) :
    Triple (machine pf h notices) (World.Agrees ns used nowhere n)
      (walkComponents req (joinPath ps) current cs)
      fun a w => a.map ResolvedEntry.ino = resolved n ((ps ++ cs).map pf.caseFold.toLowercase) ∧
        w.Agrees ns used nowhere n := by
  induction cs generalizing ps current with
  | nil =>
      refine .pure fun w hw => ⟨?_, hw⟩
      rw [List.append_nil, resolved, hreached]
      rfl
  | cons c cs ih =>
      have hcomponents : ∀ p ∈ ps ++ [c], IsComponent p := by
        intro p hp
        rcases List.mem_append.mp hp with hp | hp
        · exact hps p hp
        · exact List.mem_singleton.mp hp ▸ hcs c List.mem_cons_self
      have hplaced : Placed pf.caseFold n ps c (walkComponent (joinPath ps) current c) :=
        ⟨by rw [walkComponent, childPathFromParent_joinPath hps], rfl, hcomponents, hreached⟩
      refine (resolveComponent_spec ht req hplaced).bind fun child => .assume ?_
      rintro rfl
      have hparent : (walkComponent (joinPath ps) current c).parent = current.ino := rfl
      rw [hparent, childEntry]
      have hsplit : walk n rootEntry ((ps ++ c :: cs).map pf.caseFold.toLowercase)
          = (n current.ino (pf.caseFold.toLowercase c)).bind fun v =>
              walk n v (cs.map pf.caseFold.toLowercase) := by
        rw [List.map_append, List.map_cons, walk_append, hreached, Option.bind_some, walk_cons]
      cases hchild : n current.ino (pf.caseFold.toLowercase c) with
      | none =>
          refine .pure fun w hw => ⟨?_, hw⟩
          rw [resolved, hsplit, hchild]
          rfl
      | some v =>
          obtain ⟨i, g⟩ := v
          dsimp only
          rw [childPathFromParent_joinPath hps, List.append_cons ps c cs]
          refine ih _ hcomponents
            (fun p hp => hcs p (List.mem_cons_of_mem c hp)) ?_
          rw [List.map_append, List.map_singleton, walk_concat, hreached, Option.bind_some, hchild]

/-- Path resolution returns what the walk without a cache returns. -/
theorem resolvePathIno_spec (ht : Truthful pf.caseFold h ns used) (req : Request) (path : OsStr) :
    Triple (machine pf h notices) (World.Agrees ns used nowhere n) (resolvePathIno pf req path)
      fun a w => a = resolved n (keyOf pf.caseFold path) ∧ w.Agrees ns used nowhere n := by
  unfold resolvePathIno
  split_ifs with hroot
  · refine .pure fun w hw => ⟨?_, hw⟩
    rw [keyOf, normalizePath_eq_root.mp hroot]
    rfl
  · refine (triple_drain ht req _).bind fun _ => ?_
    refine (walkComponents_spec ht req [] (fun _ hp => absurd hp (by simp))
      (isComponent_normalizedComponents path) rfl).bind fun walked => .assume fun hwalked => ?_
    rw [List.nil_append] at hwalked
    cases walked with
    | error err => exact .pure fun w hw => ⟨hwalked, hw⟩
    | ok entry => exact .pure fun w hw => ⟨hwalked, hw⟩

end Walk
end Confuse
