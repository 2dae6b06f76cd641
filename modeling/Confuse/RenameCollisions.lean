import Confuse.MutationRoutes
import Confuse.RenamedOpenState

/-!
# Rename collisions

`move_file` looks for the target by a path resolution of its own, after it has resolved the source.
The look goes through the cache, which keeps an entry under the lower-cased path, and it takes whatever
it finds there for another entry.
-/

namespace Confuse

open Interaction PathResolver

/-! ## The resolutions of a move -/

section Move
variable (pf : Platform) (fileName newFileName : U16CStr) (context : AdapterContext)

/-- What `move_file` resolves before it looks at the target. -/
def locateMove : Routine (Except Errno MovePlan) := do
  let req := requestFromIds context.requestIds
  match ← resolveParentIno pf req (splitParentAndName fileName).1 with
  | .error err => pure (.error err)
  | .ok oldParentIno =>
      match ← resolveParentIno pf req (splitParentAndName newFileName).1 with
      | .error err => pure (.error err)
      | .ok newParentIno => do
          let moved ← resolveContextOrPath pf req fileName context
          pure (.ok ⟨oldParentIno, newParentIno, moved.toOption.map AdapterContext.ino⟩)

/-- What `move_file` does from the look at the target on. -/
def moveLocated (replaceIfExisting : Bool) :
    Except Errno MovePlan → Routine (Except NtStatus Unit)
  | .error err => pure (.error (errnoToNtstatus err))
  | .ok move => do
      let req := requestFromIds context.requestIds
      onOk (← precheckRename pf req newFileName replaceIfExisting) fun _ =>
        renameAndInvalidate req fileName newFileName move.oldParentIno move.newParentIno
          move.movedIno

theorem moveFile_eq_locate (replaceIfExisting : Bool) :
    moveFile pf fileName newFileName replaceIfExisting context
      = locateMove pf fileName newFileName context
          >>= moveLocated pf fileName newFileName context replaceIfExisting := by
  refine Prog.bind_eq_bind fun oldParent => ?_
  cases oldParent with
  | error err => rfl
  | ok oldParentIno =>
      refine Prog.bind_eq_bind fun newParent => ?_
      cases newParent with
      | error err => rfl
      | ok newParentIno => exact Prog.bind_eq_bind fun moved => rfl

end Move

/-! ## Errors of resolutions -/

theorem errnoToNtstatus_collision {err : Errno} :
    errnoToNtstatus err = STATUS_OBJECT_NAME_COLLISION ↔ err = EEXIST := by
  constructor
  · intro h
    unfold errnoToNtstatus at h
    split_ifs at h with hnosys hnoent hexist
    · cases h
    · cases h
    · exact hexist
    all_goals cases h
  · rintro rfl
    rfl

/-- Directories, in which every file system call finds the entry of a name or none. -/
structure Directories {β φ E : Type} (h : Host β φ) (entry : β → INodeNo → OsStr → Option E) :
    Prop where
  lookup_keeps : ∀ req parent name b, entry (h.reply (.lookup req parent name) b).2 = entry b
  forget_keeps : ∀ req ino nlookup b, entry (h.forget req ino nlookup b) = entry b
  lookup_error : ∀ req parent name b, (h.reply (.lookup req parent name) b).1
    ≠ (some (.error EEXIST) : Reply ReplyEntryPayload)
  rename_error : ∀ req parent name newparent newname flags b,
    (h.reply (.rename req parent name newparent newname flags) b).1
        = (some (.error EEXIST) : Reply Unit) →
      ∃ e, entry b newparent newname = some e ∧ entry b parent name ≠ some e

section Errors
variable {β φ E : Type} {pf : Platform} {h : Host β φ} {notices : Notices}
  {entry : β → INodeNo → OsStr → Option E}

/-- No run of the routine fails with `EEXIST`. -/
abbrev NeverExists (pf : Platform) (h : Host β φ) (notices : Notices) {α : Type}
    (p : Routine (Except Errno α)) : Prop :=
  Triple (machine pf h notices) (fun _ => True) p fun a _ => a ≠ .error EEXIST

namespace NeverExists
variable {α : Type} (req : Request)

theorem pure {a : Except Errno α} (ha : a ≠ .error EEXIST) :
    NeverExists pf h notices (Pure.pure a : Routine (Except Errno α)) := fun _ _ => ha

theorem after {γ : Type} {p : Routine γ} {f : γ → Routine (Except Errno α)}
    (hf : ∀ a, NeverExists pf h notices (f a)) : NeverExists pf h notices (p >>= f) :=
  Triple.bind (Q := fun _ _ => True) (fun _ _ => trivial) hf

/-- What fails as the first part does, or as the second does. -/
theorem bind {γ : Type} {p : Routine (Except Errno γ)} {f : Except Errno γ → Routine (Except Errno α)}
    (hp : NeverExists pf h notices p)
    (hf : ∀ a, a ≠ .error EEXIST → NeverExists pf h notices (f a)) :
    NeverExists pf h notices (p >>= f) :=
  Triple.bind (Q := fun a _ => a ≠ .error EEXIST) hp fun a w ha => hf a ha w trivial

theorem lookupPathComponent (hd : Directories h entry) (component : LookupComponent) :
    NeverExists pf h notices (lookupPathComponent req component) := by
  have hlookup : Triple (machine pf h notices) (fun _ => True)
      (Routine.fs (.lookup req component.parent component.name))
      fun reply _ => reply ≠ (some (.error EEXIST) : Reply ReplyEntryPayload) := by
    intro w _ hreply
    refine hd.lookup_error req component.parent component.name w.backend ?_
    exact (World.machine_fs_reply pf h notices _ w).symm.trans hreply
  refine Triple.bind hlookup fun reply => ?_
  rcases reply with _ | ⟨err⟩ | ⟨payload⟩
  · exact Triple.weakenPre (after fun _ => pure (by decide)) fun _ _ => trivial
  · refine Triple.weakenPre (P := fun _ => err ≠ EEXIST) (fun w herr => ?_) fun w hreply herr =>
      hreply (by rw [herr])
    exact after (fun _ => pure fun heq => herr (Except.error.inj heq)) w trivial
  · exact Triple.weakenPre (after fun _ => pure (by simp)) fun _ _ => trivial

theorem resolveComponent (hd : Directories h entry) (component : LookupComponent) :
    NeverExists pf h notices (resolveComponent req component) := by
  have hcached : NeverExists pf h notices
      (cachedPathComponent req component.path component.parent component.parentGeneration) := by
    have hserved : Triple (machine pf h notices) (fun _ => True)
        (Routine.table (.cached component.path component.parent component.parentGeneration))
        fun cached _ => cached ≠ (some (.error EEXIST) : Option (Except Errno ResolvedEntry)) := by
      intro w _ heq
      cases (cached_error heq).1
    refine Triple.bind hserved fun cached => ?_
    rcases cached with _ | ⟨err⟩ | ⟨found⟩
    · intro _ _ heq
      cases heq
    · intro w herr
      exact after (fun _ => pure fun heq => herr (by cases heq; rfl)) w trivial
    · intro _ _ heq
      cases heq
  refine bind hcached fun cached hne => ?_
  rcases cached with err | _ | found
  · exact pure fun heq => hne (by cases heq; rfl)
  · exact lookupPathComponent req hd component
  · exact pure (by simp)

theorem walkComponents (hd : Directories h entry) (currentPath : Str) (current : ResolvedEntry)
    (components : List Str) :
    NeverExists pf h notices (walkComponents req currentPath current components) := by
  induction components generalizing currentPath current with
  | nil => exact pure (by simp)
  | cons component rest ih =>
      refine bind (resolveComponent req hd _) fun child hne => ?_
      cases child with
      | error err => exact pure fun heq => hne (by cases heq; rfl)
      | ok found => exact ih _ found

variable (pf notices) in
theorem resolvePathIno (hd : Directories h entry) (path : OsStr) :
    NeverExists pf h notices (resolvePathIno pf req path) := by
  unfold Confuse.resolvePathIno
  split_ifs
  · exact pure (by simp)
  · refine after fun _ => bind (walkComponents req hd _ _ _) fun walked hne => ?_
    cases walked with
    | error err => exact pure fun heq => hne (by cases heq; rfl)
    | ok found => exact pure (by simp)

variable (pf notices) in
theorem locateMove (hd : Directories h entry) (fileName newFileName : U16CStr)
    (context : AdapterContext) :
    NeverExists pf h notices (locateMove pf fileName newFileName context) := by
  refine bind (resolvePathIno pf notices _ hd _) fun oldParent hne => ?_
  cases oldParent with
  | error err => exact pure fun heq => hne (by cases heq; rfl)
  | ok oldParentIno =>
      refine bind (resolvePathIno pf notices _ hd _) fun newParent hne => ?_
      cases newParent with
      | error err => exact pure fun heq => hne (by cases heq; rfl)
      | ok newParentIno => exact after fun _ => pure (by simp)

end NeverExists
end Errors

/-! ## What the look at the target finds -/

/-- The walk of `resolve_path_ino` up to the last component. -/
def walkToLast (req : Request) (path : OsStr) : Routine (Except Errno ResolvedEntry) := do
  drainExpiredResolverForgets req
  walkComponents req ['\\'] ⟨.ROOT, ⟨0⟩⟩ (normalizedComponents path).dropLast

section Finds
variable {β φ : Type} (pf : Platform) (h : Host β φ) (notices : Notices) (req : Request)

/-- What the cache serves for a component, after the notices that come before. -/
def World.served (component : LookupComponent) (w : World β φ) :
    Option (Except Errno ResolvedEntry) :=
  let w' := (notices w.steps).foldl (World.notify pf h) w
  (w'.resolver.cached pf.caseFold (h.clock w'.steps) component.path component.parent
    component.parentGeneration).1

variable {pf h notices req}

variable (req) in
theorem walkComponents_concat (parents : List Str) {components : List Str} (last : Str)
    (hcomponents : ∀ p ∈ parents ++ components, IsComponent p) (current : ResolvedEntry) :
    walkComponents req (joinPath parents) current (components ++ [last])
      = (do
        match ← walkComponents req (joinPath parents) current components with
        | .error err => pure (.error err)
        | .ok dir =>
            resolveComponent req (walkComponent (joinPath (parents ++ components)) dir last)) := by
  induction components generalizing parents current with
  | nil =>
      rw [List.append_nil]
      refine Eq.trans ?_ (Prog.bind_pure _)
      refine congrArg (resolveComponent req _ >>= ·) (funext fun found => ?_)
      cases found <;> rfl
  | cons component rest ih =>
      have hparents : ∀ p ∈ parents, IsComponent p := fun p hp =>
        hcomponents p (List.mem_append_left _ hp)
      refine Prog.bind_eq_bind fun found => ?_
      cases found with
      | error err => rfl
      | ok dir =>
          rw [List.append_cons] at hcomponents ⊢
          dsimp only
          rw [childPathFromParent_joinPath hparents]
          exact ih (parents ++ [component]) hcomponents dir

theorem resolvePathIno_concat {path : OsStr} {last : Str}
    (hlast : last ∈ (normalizedComponents path).getLast?) :
    resolvePathIno pf req path = (do
      match ← walkToLast req path with
      | .error err => pure (.error err)
      | .ok dir =>
          match ← resolveComponent req
            (walkComponent (joinPath (normalizedComponents path).dropLast) dir last) with
          | .error err => pure (.error err)
          | .ok entry => pure (.ok entry.ino)) := by
  have hroot : normalizePath pf.caseFold path ≠ ['\\'] := by
    intro hroot
    rw [normalizePath_eq_root.mp hroot] at hlast
    cases hlast
  have hwalk : walkComponents req ['\\'] ⟨.ROOT, ⟨0⟩⟩ (normalizedComponents path)
      = (do
        match ← walkComponents req ['\\'] ⟨.ROOT, ⟨0⟩⟩ (normalizedComponents path).dropLast with
        | .error err => pure (.error err)
        | .ok dir =>
            resolveComponent req
              (walkComponent (joinPath (normalizedComponents path).dropLast) dir last)) := by
    have hconcat := walkComponents_concat req [] last (fun p hp =>
      isComponent_normalizedComponents path p (List.dropLast_subset _ hp)) ⟨.ROOT, ⟨0⟩⟩
    rwa [List.dropLast_append_getLast? last hlast] at hconcat
  rw [resolvePathIno, if_neg hroot, hwalk]
  refine Prog.bind_eq_bind fun _ => (Prog.bind_assoc _ _ _).trans ?_
  refine congrArg _ (funext fun walked => ?_)
  cases walked <;> rfl

end Finds

/-! ## Collisions -/

section Collisions
variable {β φ E : Type} (pf : Platform) (h : Host β φ) (notices : Notices)
  (entry : β → INodeNo → OsStr → Option E) (fileName newFileName : U16CStr)
  (context : AdapterContext)

/-- The directories hold an entry under the target's name, and it is not the one that is moved. -/
def MovePlan.HoldsOther (b : β) (move : MovePlan) : Prop :=
  ∃ e, entry b move.newParentIno (splitParentAndName newFileName).2 = some e ∧
    entry b move.oldParentIno (splitParentAndName fileName).2 ≠ some e

variable {pf h notices entry fileName newFileName context}

/-- A rename collides with another entry only. -/
theorem Directories.rename (hd : Directories h entry) (req : Request) (move : MovePlan)
    (w : World β φ) (hresult : ((renameAndInvalidate req fileName newFileName move.oldParentIno
        move.newParentIno move.movedIno).run (machine pf h notices) w).1
      = .error STATUS_OBJECT_NAME_COLLISION) :
    move.HoldsOther entry fileName newFileName w.backend := by
  have hreply : Triple (machine pf h notices) (fun w' => w' = w)
      (Routine.fs (move.rename req fileName newFileName))
      fun reply _ => (reply = (some (.error EEXIST) : Reply Unit) →
        move.HoldsOther entry fileName newFileName w.backend) ∧ True := by
    rintro w' rfl
    refine ⟨fun heq => hd.rename_error req _ _ _ _ ⟨0⟩ _ ?_, trivial⟩
    exact (World.machine_fs_reply pf h notices _ w').symm.trans heq
  have hrenamed : Triple (machine pf h notices) (fun w' => w' = w)
      (renameAndInvalidate req fileName newFileName move.oldParentIno move.newParentIno
        move.movedIno)
      fun a _ => a = .error STATUS_OBJECT_NAME_COLLISION →
        move.HoldsOther entry fileName newFileName w.backend := by
    refine Triple.bind (Q := fun result _ => (result = .error STATUS_OBJECT_NAME_COLLISION →
      move.HoldsOther entry fileName newFileName w.backend) ∧ True) ?_ fun result => ?_
    · refine Triple.bind hreply fun reply => .assume fun hexist => .of_returns (.pure ⟨?_, trivial⟩)
      rcases reply with _ | ⟨err⟩ | ⟨_⟩
      · intro heq
        cases heq
      · intro heq
        refine hexist ?_
        rw [errnoToNtstatus_collision.mp (Except.error.inj heq)]
      · intro heq
        cases heq
    · refine .assume fun hexist => .of_returns (.last fun _ => ?_)
      cases result with
      | error status => exact .pure hexist
      | ok _ => exact .last fun _ => .pure fun heq => nomatch heq
  exact hrenamed w rfl hresult

theorem MovePlan.HoldsOther.congr {b b' : β} {move : MovePlan} (hb : entry b = entry b')
    (hother : move.HoldsOther entry fileName newFileName b) :
    move.HoldsOther entry fileName newFileName b' := by
  unfold MovePlan.HoldsOther at hother ⊢
  rwa [← hb]

end Collisions

end Confuse
