import Confuse.MemFsNames
import Confuse.MountedMemFs
import Confuse.WideStrings

/-!
# Names without NUL

The callbacks name new entries by leaves of paths that are C strings. So no name in the file system
in memory has a NUL, and each can be given back to the caller.
-/

namespace Confuse

open Interaction

/-! ## Leaves of paths -/

/-- A part has no characters of its own. -/
theorem mem_of_mem_splitOnP {raw part : Str} (hpart : part ∈ raw.splitOnP isSeparator) {c : Char}
    (hc : c ∈ part) : c ∈ raw := by
  induction raw generalizing part with
  | nil =>
      obtain rfl : part = [] := by simpa using hpart
      cases hc
  | cons x raw ih =>
      rw [List.splitOnP_cons_eq_if_modifyHead] at hpart
      obtain ⟨q, qs, hq⟩ := List.exists_cons_of_ne_nil (List.splitOnP_ne_nil isSeparator raw)
      split_ifs at hpart
      · rcases List.mem_cons.mp hpart with rfl | hpart
        · cases hc
        · exact List.mem_cons_of_mem x (ih hpart hc)
      · rw [hq, List.modifyHead_cons] at hpart
        rcases List.mem_cons.mp hpart with rfl | hpart
        · rcases List.mem_cons.mp hc with rfl | hc
          · exact List.mem_cons_self
          · exact List.mem_cons_of_mem x (ih (by simp [hq]) hc)
        · exact List.mem_cons_of_mem x (ih (by simp [hq, hpart]) hc)

theorem nul_not_mem_leaf (path : U16CStr) : '\x00' ∉ (splitParentAndName path).2.toStringLossy := by
  unfold splitParentAndName
  cases hlast : ((pathParts path.toStringLossy).filter fun part => part.getLast? ≠ some ':').getLast? with
  | none =>
      dsimp only
      rw [hlast]
      exact List.not_mem_nil
  | some leaf =>
      dsimp only
      rw [hlast, OsStr.toStringLossy_new]
      have hmem : leaf ∈ pathParts path.toStringLossy :=
        (List.mem_filter.mp (List.mem_of_getLast? hlast)).1
      intro hnul
      exact path.nul_not_mem_toStringLossy (mem_of_mem_splitOnP (List.mem_filter.mp hmem).1 hnul)

/-- The call gives out no name with a NUL. -/
def FsCall.namesCleanly (c : FsCall) : Bool :=
  c.newName?.all fun name => !name.toStringLossy.contains '\x00'

theorem namesCleanly_of_leaf {c : FsCall} {path : U16CStr}
    (hc : c.newName? = some (splitParentAndName path).2) : c.namesCleanly = true := by
  rw [FsCall.namesCleanly, hc, Option.all_some, Bool.not_eq_true', List.contains_eq_mem]
  exact decide_eq_false (nul_not_mem_leaf path)

namespace Calls
variable {pf : Platform}

theorem createDirectoryEntry_clean {create : CreateEntryRequest}
    (hleaf : create.leaf = (splitParentAndName create.fileName).2) :
    Calls FsCall.namesCleanly (Confuse.createDirectoryEntry create) :=
  bind (fs (namesCleanly_of_leaf (congrArg some hleaf))) fun _ => bind (drainResolverForgets _)
    fun _ => onReply fun _ => bind (finishCreatedEntry _) fun _ => pure _

theorem createFileEntryOrOpenExisting_clean {create : CreateEntryRequest}
    (hleaf : create.leaf = (splitParentAndName create.fileName).2) (plan : CreateDispositionPlan)
    (openFlags : Int32) :
    Calls FsCall.namesCleanly (Confuse.createFileEntryOrOpenExisting pf create plan openFlags) := by
  refine bind (fs (namesCleanly_of_leaf (congrArg some hleaf))) fun state =>
    bind (drainResolverForgets _) fun _ => ?_
  rcases state with _ | ⟨err⟩ | ⟨payload⟩
  · exact pure _
  · dsimp only
    split_ifs
    · exact of_madeOf (MadeOf.openCollisionEntry pf fun _ _ => ⟨rfl, rfl⟩)
    · exact pure _
  · exact bind (finishCreatedEntry _) fun _ => pure _

end Calls

namespace Callback
variable (pf : Platform)

theorem createFile_clean (fileName : U16CStr) (desiredAccess : AccessMask)
    (fileAttributes createDisposition createOptions : UInt32) (requestIds : RequestIds) :
    Calls FsCall.namesCleanly (Confuse.createFile pf fileName desiredAccess fileAttributes
      createDisposition createOptions requestIds) := by
  refine .bind (.of_walks (.resolvePathIno _ pf _)) fun parent => ?_
  cases parent with
  | error err => exact .bind (.drainResolverForgets _) fun _ => .pure _
  | ok parentIno =>
      dsimp only [createInParent]
      split_ifs
      · exact .of_madeOf (MadeOf.createRootContext pf fileName requestIds)
      · exact .of_madeOf (MadeOf.openExistingEntry pf fun _ _ => ⟨rfl, rfl⟩)
      · exact .createDirectoryEntry_clean rfl
      · exact .createFileEntryOrOpenExisting_clean rfl _ _

theorem moveFile_clean (fileName newFileName : U16CStr) (replaceIfExisting : Bool)
    (context : AdapterContext) : Calls FsCall.namesCleanly
      (Confuse.moveFile pf fileName newFileName replaceIfExisting context) := by
  refine .bind (.of_walks (.resolvePathIno _ pf _)) fun oldParent => ?_
  cases oldParent with
  | error err => exact .pure _
  | ok oldParentIno =>
      refine .bind (.of_walks (.resolvePathIno _ pf _)) fun newParent => ?_
      cases newParent with
      | error err => exact .pure _
      | ok newParentIno =>
          refine .bind (.of_madeOf (MadeOf.resolveContextOrPath pf _ _ _)) fun _ =>
            .bind (.of_madeOf (MadeOf.precheckRename pf _ _ _)) fun _ => .onOk fun _ => ?_
          exact .bind (.bind (.fs (namesCleanly_of_leaf rfl)) fun _ => .pure _) fun _ =>
            .bind (.drainResolverForgets _) fun _ =>
              .onOk fun _ => .bind (.of_madeOf (MadeOf.invalidateRenamed pf _ _ _ _ _ _)) fun _ => .pure _

/-- No callback names anything with a NUL. -/
theorem performs_clean (c : Callback) :
    (c.routine pf).Performs fun e : Effect => ∀ call, e = .fs call → call.namesCleanly = true := by
  have hcalls : Calls FsCall.namesCleanly (c.routine pf) →
      (c.routine pf).Performs fun e : Effect => ∀ call, e = .fs call → call.namesCleanly = true := by
    intro hp
    refine hp.mono ?_
    rintro e (he | he) call rfl
    · cases call <;> first | rfl | cases he
    · exact he call rfl
  cases c with
  | createFile => exact hcalls (createFile_clean pf _ _ _ _ _ _)
  | moveFile => exact hcalls (moveFile_clean pf _ _ _ _)
  | _ =>
      apply performs_of_mayCall
      · intro call hcall
        cases call <;> first | rfl | cases hcall
      · intro call hcall
        cases call <;> first | rfl | cases hcall

end Callback

/-! ## The names that are stored -/

theorem clean_of_namesCleanly {c : FsCall} {name : OsStr} (hc : c.namesCleanly = true)
    (hname : c.newName? = some name) : '\x00' ∉ name.toStringLossy := by
  rw [FsCall.namesCleanly, hname, Option.all_some, Bool.not_eq_true', List.contains_eq_mem] at hc
  exact of_decide_eq_false hc

/-- No name that is stored has a NUL. -/
theorem Mount.Fits.clean {φ : Type} {m : Mount φ} (h : m.Fits) :
    MemFs.Named (fun name => '\x00' ∉ name.toStringLossy) m.world.backend.1.children := by
  have hcalls : ∀ c ∈ m.world.asked, c.namesCleanly = true :=
    Mount.every_asked fun c _ => c.performs_clean m.pf
  rw [m.backend_eq]
  exact .served h.asked_sizes (fun c hc name => clean_of_namesCleanly (hcalls c hc)) fun key i hi => by
    cases hi

end Confuse
