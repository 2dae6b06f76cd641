import Confuse.FailedCallbacks
import Confuse.RenamedKeys

/-!
# Open state after a rename

A successful `move_file` gives new keys to the maps of open handles and of directory offsets, and does
nothing else to them.
-/

namespace Confuse

open Interaction

/-- What `remap_open_state_after_rename` makes of the two maps. -/
def OpenState.renamed (s : OpenState) (oldRoot newRoot : Str) : OpenState where
  handles := remapDescendantKeys s.handles oldRoot newRoot
  dirOffsets := remapDescendantKeys s.dirOffsets oldRoot newRoot

/-- Both maps follow a rename. -/
structure OpenState.FollowsRename (cf : CaseFold) (oldRoot newRoot : Str) (before after : OpenState) :
    Prop where
  handles : Confuse.FollowsRename cf oldRoot newRoot before.handles after.handles
  dirOffsets : Confuse.FollowsRename cf oldRoot newRoot before.dirOffsets after.dirOffsets

structure OpenState.Followable (cf : CaseFold) (oldRoot newRoot : Str) (s : OpenState) : Prop where
  handles : Confuse.Followable cf oldRoot newRoot s.handles
  dirOffsets : Confuse.Followable cf oldRoot newRoot s.dirOffsets

theorem OpenState.Followable.follows {cf : CaseFold} {oldRoot newRoot : Str} {s : OpenState}
    (h : s.Followable cf oldRoot newRoot) :
    s.FollowsRename cf oldRoot newRoot (s.renamed oldRoot newRoot) :=
  ⟨follows_of_followable h.handles, follows_of_followable h.dirOffsets⟩

/-! ## What a move does to the open state -/

section Move
variable (pf : Platform) (req : Request) (fileName newFileName : U16CStr)

theorem remapOpenStateAfterRename_turns :
    TurnsOpenState (fun s (_ : Unit) t => t = s.renamed fileName.toStringLossy newFileName.toStringLossy)
      (remapOpenStateAfterRename fileName newFileName) := by
  refine .bind (.openState (.remapHandles fileName.toStringLossy newFileName.toStringLossy))
    (fun _ => .openState (.remapOffsets fileName.toStringLossy newFileName.toStringLossy)) ?_
  rintro s _ t _ u ⟨-, rfl⟩ ⟨-, rfl⟩
  rfl

theorem invalidateRenamed_turns (oldParentIno newParentIno : INodeNo) (movedIno : Option INodeNo) :
    TurnsOpenState (fun s (_ : Unit) t => t = s.renamed fileName.toStringLossy newFileName.toStringLossy)
      (invalidateRenamed req fileName newFileName oldParentIno newParentIno movedIno) := by
  refine .after (.invalidateMoved movedIno) fun _ => ?_
  have hrest : KeepsOpenState (do
      invalidatePathCache req fileName
      invalidatePathCache req newFileName
      invalidateInodeAttr oldParentIno
      invalidateInodeAttr newParentIno) :=
    .bind (.effect rfl) fun _ => .bind (.effect rfl) fun _ => .bind (.effect rfl) fun _ => .effect rfl
  refine .bind (remapOpenStateAfterRename_turns fileName newFileName)
    (fun _ => .keeps (R := fun s _ t => t = s) hrest fun _ _ => rfl) ?_
  rintro s _ t _ u rfl rfl
  rfl

/-- A successful move gives the new keys. -/
theorem moveFile_turns (replaceIfExisting : Bool) (context : AdapterContext) :
    TurnsOpenState (fun s (r : Except NtStatus Unit) t => r = .ok () →
        t = s.renamed fileName.toStringLossy newFileName.toStringLossy)
      (moveFile pf fileName newFileName replaceIfExisting context) := by
  have hfails : ∀ (status : NtStatus), TurnsOpenState (fun s (r : Except NtStatus Unit) t =>
      r = .ok () → t = s.renamed fileName.toStringLossy newFileName.toStringLossy)
      (pure (.error status)) := fun status => .pure fun s => nofun
  refine .after (.of_walks (.resolvePathIno _ pf _)) fun oldParent => ?_
  cases oldParent with
  | error err => exact hfails _
  | ok oldParentIno =>
      refine .after (.of_walks (.resolvePathIno _ pf _)) fun newParent => ?_
      cases newParent with
      | error err => exact hfails _
      | ok newParentIno =>
          refine .after (.resolveContextOrPath pf _ fileName context) fun moved =>
            .after (.precheckRename pf _ newFileName replaceIfExisting) fun checked => ?_
          cases checked with
          | error status => exact hfails _
          | ok _ =>
              refine .after (.bind (.effect rfl) fun _ => .pure _) fun result =>
                .after (.effect rfl) fun _ => ?_
              cases result with
              | error status => exact hfails _
              | ok _ =>
                  refine .bind (invalidateRenamed_turns _ fileName newFileName oldParentIno newParentIno
                    _) (fun _ => .pure (R := fun s _ t => t = s) fun _ => rfl) ?_
                  rintro s _ t _ u rfl rfl -
                  rfl

end Move

/-! ## Runs -/

namespace World
variable {β φ : Type} (pf : Platform) (h : Host β φ) (notices : Notices)

/-- Before every move of the run, both maps can follow it. -/
def RenamesFollowable : List Callback → World β φ → Prop
  | [], _ => True
  | c :: rest, w =>
      (∀ fileName newFileName replaceIfExisting context,
        c = .moveFile fileName newFileName replaceIfExisting context →
          w.openState.Followable pf.caseFold fileName.toStringLossy newFileName.toStringLossy) ∧
      RenamesFollowable rest ((c.routine pf).run (machine pf h notices) w).2

/-- After every successful move of the run, both maps have followed it. -/
def RenamesFollowed : List Callback → World β φ → Prop
  | [], _ => True
  | c :: rest, w =>
      (∀ fileName newFileName replaceIfExisting context,
        c = .moveFile fileName newFileName replaceIfExisting context →
          ((moveFile pf fileName newFileName replaceIfExisting context).run (machine pf h notices) w).1
            = .ok () →
          w.openState.FollowsRename pf.caseFold fileName.toStringLossy newFileName.toStringLossy
            ((c.routine pf).run (machine pf h notices) w).2.openState) ∧
      RenamesFollowed rest ((c.routine pf).run (machine pf h notices) w).2

theorem renamesFollowed_of_followable (callbacks : List Callback) {w : World β φ}
    (hw : w.RenamesFollowable pf h notices callbacks) :
    w.RenamesFollowed pf h notices callbacks := by
  induction callbacks generalizing w with
  | nil => trivial
  | cons c rest ih =>
      obtain ⟨hstep, hrest⟩ := hw
      refine ⟨?_, ih hrest⟩
      rintro fileName newFileName replaceIfExisting context rfl hok
      have hmoved := moveFile_turns pf fileName newFileName replaceIfExisting context β φ pf h notices w
        hok
      change w.openState.FollowsRename pf.caseFold _ _ ((moveFile pf fileName newFileName
        replaceIfExisting context).run (machine pf h notices) w).2.openState
      rw [hmoved]
      exact (hstep _ _ _ _ rfl).follows

/-- In every run whose moves find followable keys, open state follows every successful move. -/
theorem open_state_follows_renames (ttl : Duration) (backend : β) (caller : φ)
    (callbacks : List Callback)
    (hfollowable : (World.initial ttl backend caller).RenamesFollowable pf h notices callbacks) :
    (World.initial ttl backend caller).RenamesFollowed pf h notices callbacks :=
  renamesFollowed_of_followable pf h notices callbacks hfollowable

end World

/-- A directory with one entry, and renames that succeed. -/
def renamesOneEntry : (c : FsCall) → c.Reply
  | .readdir .. => (⟨[⟨⟨6⟩, 3, .regularFile, .new ['g']⟩], some (.ok ())⟩ : ReplyDirectory)
  | .rename .. => (some (.ok ()) : Reply Unit)
  | c => c.unanswered

/-- The upper-case spelling of `fileF`. -/
def fileUpperF : U16CStr := ⟨[92, 70], by simp⟩

def fileG : U16CStr := ⟨[92, 103], by simp⟩

/-- A directory is listed under one spelling and moved under another. -/
def listThenMove (listed moved : U16CStr) : List Callback :=
  [.findFiles listed directoryF, .moveFile moved fileG true directoryF]

theorem open_state_follows_renames_spelled :
    World.mounted.RenamesFollowed .ascii (.stateless renamesOneEntry) undisturbed
      (listThenMove fileF fileF) := by
  refine World.open_state_follows_renames .ascii (.stateless renamesOneEntry) undisturbed (.fromSecs 1)
    () () (listThenMove fileF fileF) ⟨nofun, ?_, trivial⟩
  rintro _ _ _ _ ⟨⟩
  refine ⟨followable_of_root fun key hkey => absurd rfl hkey, followable_of_root fun key hkey => ?_⟩
  by_contra hne
  refine hkey (AList.lookup_insert_ne (s := ∅) hne)

/-- The offset of the listing stays under the old spelling. -/
theorem other_spelling_stays :
    ¬ ∀ (β φ : Type) (pf : Platform) (h : Host β φ) (notices : Notices) (ttl : Duration) (backend : β)
      (caller : φ) (callbacks : List Callback),
      (World.initial ttl backend caller).RenamesFollowed pf h notices callbacks := by
  intro hall
  obtain ⟨-, hmoved, -⟩ := hall Unit Unit .ascii (.stateless renamesOneEntry) undisturbed (.fromSecs 1)
    () () (listThenMove fileUpperF fileF)
  have hgone := (hmoved fileF fileG true directoryF rfl (by decide)).dirOffsets.gone
    fileUpperF.toStringLossy (by decide)
  revert hgone
  decide

end Confuse
