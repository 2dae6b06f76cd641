import Confuse.DirectoryHandles

/-!
# The open state along a run

Most effects leave the maps of open handles and directory offsets alone. What a routine does to them is
a relation between the maps before it, its result and the maps after it.
-/

namespace Confuse

open Interaction

/-- Effects that leave the open state as it is. -/
def Effect.keepsOpenState : Effect → Bool
  | .openState (.directoryOffset _) => true
  | .openState _ => false
  | _ => true

abbrev KeepsOpenState {α : Type} (p : Routine α) : Prop :=
  p.Performs fun e : Effect => e.keepsOpenState

/-- Every run of the routine relates the open state before it, the result and the open state after
it. -/
def TurnsOpenState {α : Type} (R : OpenState → α → OpenState → Prop) (p : Routine α) : Prop :=
  ∀ (β φ : Type) (pf : Platform) (h : Host β φ) (notices : Notices) (w : World β φ),
    R w.openState (p.run (machine pf h notices) w).1 (p.run (machine pf h notices) w).2.openState

theorem World.run_keepsOpenState {β φ α : Type} (pf : Platform) (h : Host β φ) (notices : Notices)
    {p : Routine α} (hp : KeepsOpenState p) (w : World β φ) :
    (p.run (machine pf h notices) w).2.openState = w.openState := by
  refine hp.invariant (I := fun w' : World β φ => w'.openState = w.openState)
    (fun e w' he hw' => ?_) rfl
  have hbefore := (World.foldl_notify_caller pf h (notices w'.steps) w').2
  refine Eq.trans ?_ (hbefore.trans hw')
  cases e with
  | deliver req o => exact (World.deliver_caller pf h req o _).2
  | openState o => cases o <;> first | rfl | cases he
  | _ => rfl

namespace KeepsOpenState
variable {α γ : Type} (pf : Platform) (req : Request)

theorem bind {p : Routine α} {f : α → Routine γ} (hp : KeepsOpenState p)
    (hf : ∀ a, KeepsOpenState (f a)) : KeepsOpenState (p >>= f) := Prog.Performs.bind hp hf

theorem effect {e : Effect} (h : e.keepsOpenState = true) :
    KeepsOpenState (Prog.perform (S := effects) e) := Prog.Performs.perform h

theorem of_walks {p : Routine α} (hp : Walks p) : KeepsOpenState p := by
  refine hp.mono fun e he => ?_
  cases e with
  | openState o => cases he
  | _ => rfl

theorem of_listsAt {offset : UInt64} {p : Routine α} (hp : ListsAt offset p) : KeepsOpenState p := by
  refine hp.mono fun e he => ?_
  cases e with
  | openState o => cases he
  | _ => rfl

theorem onOk {result : Except NtStatus γ} {f : γ → Routine (Except NtStatus α)}
    (hf : ∀ v, KeepsOpenState (f v)) : KeepsOpenState (onOk result f) :=
  onOk_cases (fun _ => .pure _) hf

theorem onReply {reply : Reply γ} {toNtstatus : Errno → NtStatus}
    {f : γ → Routine (Except NtStatus α)} (hf : ∀ v, KeepsOpenState (f v)) :
    KeepsOpenState (onReply reply toNtstatus f) :=
  onReply_cases (fun _ => .pure _) fun v _ => hf v

theorem resolveContextOrPath (path : U16CStr) (context : AdapterContext) :
    KeepsOpenState (resolveContextOrPath pf req path context) := by
  unfold Confuse.resolveContextOrPath
  cases resolveCtx path context with
  | some ctx => exact .pure _
  | none =>
      refine bind (of_walks (.resolvePathIno req pf _)) fun resolved => ?_
      cases resolved <;> exact .pure _

theorem withResolved {path : U16CStr} {context : AdapterContext}
    {f : AdapterContext → Routine (Except NtStatus α)} (hf : ∀ ctx, KeepsOpenState (f ctx)) :
    KeepsOpenState (withResolved pf req path context f) := by
  refine bind (resolveContextOrPath pf req path context) fun resolved => ?_
  cases resolved with
  | error err => exact .pure _
  | ok ctx => exact hf ctx

theorem directoryIno (pathKey : Str) (context : AdapterContext) :
    KeepsOpenState (directoryIno pf req pathKey context) := by
  unfold Confuse.directoryIno
  split
  · exact .pure _
  · refine bind (of_walks (.resolvePathIno req pf _)) fun resolved => ?_
    cases resolved <;> exact .pure _

theorem resolveOpenIno (request : OpenEntryRequest) : KeepsOpenState (resolveOpenIno pf request) := by
  unfold Confuse.resolveOpenIno
  split_ifs
  · exact .pure _
  · refine bind (of_walks (.resolvePathIno _ pf _)) fun resolved => ?_
    cases resolved with
    | error err => exact bind (effect rfl) fun _ => .pure _
    | ok ino => exact .pure _

theorem openOrOpendir (request : OpenEntryRequest) (actualIno : INodeNo) :
    KeepsOpenState (openOrOpendir request actualIno) := by
  cases hdir : request.isDirOpen with
  | true =>
      rw [openOrOpendir_dir hdir]
      exact effect rfl
  | false =>
      rw [openOrOpendir_file hdir]
      exact effect rfl

theorem invalidateMoved (movedIno : Option INodeNo) :
    KeepsOpenState (invalidateMoved movedIno) := by
  cases movedIno with
  | none => exact .pure _
  | some ino => exact effect rfl

theorem precheckTarget (newFileName : U16CStr) :
    KeepsOpenState (precheckTarget pf req newFileName) := by
  refine bind (of_walks (.resolvePathIno req pf _)) fun target => ?_
  cases target with
  | ok ino => exact bind (effect rfl) fun _ => .pure _
  | error err =>
      refine bind (effect rfl) fun _ => ?_
      split_ifs <;> exact .pure _

theorem precheckRename (newFileName : U16CStr) (replaceIfExisting : Bool) :
    KeepsOpenState (precheckRename pf req newFileName replaceIfExisting) := by
  unfold Confuse.precheckRename
  split_ifs
  · exact .pure _
  · exact precheckTarget pf req newFileName

theorem invalidateParentAttrForPath (path : U16CStr) :
    KeepsOpenState (invalidateParentAttrForPath pf req path) := by
  refine bind (of_walks (.resolvePathIno req pf _)) fun parent => ?_
  cases parent with
  | error err => exact .pure _
  | ok parentIno => exact effect rfl

theorem finishMetadataMutation (path : U16CStr) (ino : INodeNo) :
    KeepsOpenState (finishMetadataMutation pf req path ino) :=
  bind (effect rfl) fun _ => bind (invalidateParentAttrForPath pf req path) fun _ => effect rfl

end KeepsOpenState

namespace TurnsOpenState
variable {α γ : Type} {R : OpenState → α → OpenState → Prop}

theorem pure {a : α} (h : ∀ s, R s a s) : TurnsOpenState R (Pure.pure a : Routine α) :=
  fun _ _ _ _ _ w => h w.openState

theorem keeps {p : Routine α} (hp : KeepsOpenState p) (h : ∀ s a, R s a s) : TurnsOpenState R p := by
  intro β φ pf host notices w
  rw [World.run_keepsOpenState pf host notices hp w]
  exact h _ _

theorem bind {Q : OpenState → γ → OpenState → Prop} {T : OpenState → α → OpenState → Prop}
    {p : Routine γ} {f : γ → Routine α} (hp : TurnsOpenState Q p) (hf : ∀ a, TurnsOpenState R (f a))
    (h : ∀ s a t b u, Q s a t → R t b u → T s b u) : TurnsOpenState T (p >>= f) := by
  intro β φ pf host notices w
  rw [Prog.run_bind]
  exact h _ _ _ _ _ (hp β φ pf host notices w) (hf _ β φ pf host notices _)

/-- What comes first leaves the open state to the rest. -/
theorem after {p : Routine γ} {f : γ → Routine α} (hp : KeepsOpenState p)
    (hf : ∀ a, TurnsOpenState R (f a)) : TurnsOpenState R (p >>= f) := by
  refine bind (Q := fun s _ t => t = s) (keeps hp fun _ _ => rfl) hf ?_
  rintro s a t b u rfl hrest
  exact hrest

theorem openState (o : OpenStateOp) :
    TurnsOpenState (fun s a t => a = (o.apply s).1 ∧ t = (o.apply s).2) (Routine.openState o) := by
  intro β φ pf host notices w
  obtain ⟨hanswer, hopen, -⟩ := World.machine_openState pf host notices o w
  exact ⟨hanswer, hopen⟩

end TurnsOpenState
end Confuse
