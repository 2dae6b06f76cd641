import Confuse.RenameCollisions

/-!
# Parents and leaves

The handlers that change names address an object by its parent and its leaf, the others by its whole
path. `split_parent_and_name` passes over empty and drive parts like `normalized_components`, but it
takes `.` and `..` for names.
-/

namespace Confuse

open Interaction PathResolver

/-- The last part that is not a drive is `.` or `..`. -/
def EndsInDots (raw : Str) : Prop :=
  ∃ parts part drives, pathParts raw = parts ++ part :: drives ∧
    (∀ drive ∈ drives, drive.getLast? = some ':') ∧ (part = ['.'] ∨ part = ['.', '.'])

/-- The parent and the leaf address what the whole path addresses: its components are those of the
parent and the leaf, and its resolution looks for the leaf in the directory that the parent comes to. -/
structure SplitAgrees (pf : Platform) (path : U16CStr) : Prop where
  components : normalizedComponents path.path
    = normalizedComponents (splitParentAndName path).1 ++ [(splitParentAndName path).2.toStringLossy]
  sameObject : ∀ req : Request, resolvePathIno pf req path.path = (do
    drainExpiredResolverForgets req
    match ← walkComponents req ['\\'] ⟨.ROOT, ⟨0⟩⟩
        (normalizedComponents (splitParentAndName path).1) with
    | .error err => pure (.error err)
    | .ok dir =>
        let parentPath := joinPath (normalizedComponents (splitParentAndName path).1)
        let leaf := (splitParentAndName path).2.toStringLossy
        match ← resolveComponent req (walkComponent parentPath dir leaf) with
        | .error err => pure (.error err)
        | .ok entry => pure (.ok entry.ino))

section Split
variable {path : U16CStr}

/-- The leaf is the last part that is not a drive. -/
theorem splitParentAndName_leaf (hleaf : (splitParentAndName path).2.toStringLossy ≠ []) :
    ∃ parts drives, pathParts path.toStringLossy
        = parts ++ (splitParentAndName path).2.toStringLossy :: drives ∧
      ∀ drive ∈ drives, drive.getLast? = some ':' := by
  unfold splitParentAndName at hleaf ⊢
  dsimp only at hleaf ⊢
  cases hlast : ((pathParts path.toStringLossy).filter fun part => part.getLast? ≠ some ':').getLast?
    with
  | none =>
      rw [hlast] at hleaf
      exact absurd rfl hleaf
  | some leaf =>
      have hfilter := List.dropLast_append_getLast? leaf hlast
      obtain ⟨before, after, hparts, -, hafter⟩ := List.filter_eq_append_iff.mp hfilter.symm
      obtain ⟨drives, rest, rfl, -, -, hrest⟩ := List.filter_eq_cons_iff.mp hafter
      refine ⟨before ++ drives, rest, ?_, fun drive hdrive => ?_⟩
      · rw [hparts, List.append_assoc, OsStr.toStringLossy_new]
      · simpa using List.filter_eq_nil_iff.mp hrest drive hdrive

theorem splitParentAndName_leaf_of_parts {parts drives : List Str} {part : Str}
    (hparts : pathParts path.toStringLossy = parts ++ part :: drives)
    (hpart : part.getLast? ≠ some ':') (hdrives : ∀ drive ∈ drives, drive.getLast? = some ':') :
    (splitParentAndName path).2.toStringLossy = part := by
  have hnone : drives.filter (fun part => part.getLast? ≠ some ':') = [] :=
    List.filter_eq_nil_iff.mpr fun drive hdrive => by simp [hdrives drive hdrive]
  unfold splitParentAndName
  dsimp only
  rw [hparts, List.filter_append, List.filter_cons_of_pos (by simpa using hpart), hnone,
    List.getLast?_concat]
  exact OsStr.toStringLossy_new part

theorem endsInDots_iff (hleaf : (splitParentAndName path).2.toStringLossy ≠ []) :
    EndsInDots path.toStringLossy ↔ (splitParentAndName path).2.toStringLossy = ['.'] ∨
      (splitParentAndName path).2.toStringLossy = ['.', '.'] := by
  constructor
  · rintro ⟨parts, part, drives, hparts, hdrives, hdots⟩
    have hpart : part.getLast? ≠ some ':' := by
      rcases hdots with rfl | rfl <;> simp
    rwa [splitParentAndName_leaf_of_parts hparts hpart hdrives]
  · intro hdots
    obtain ⟨parts, drives, hparts, hdrives⟩ := splitParentAndName_leaf hleaf
    exact ⟨parts, _, drives, hparts, hdrives, hdots⟩

/-- A leaf other than `.` and `..` is a component. -/
theorem isComponent_leaf (hleaf : (splitParentAndName path).2.toStringLossy ≠ [])
    (hdots : ¬ EndsInDots path.toStringLossy) :
    IsComponent (splitParentAndName path).2.toStringLossy := by
  rw [endsInDots_iff hleaf, not_or] at hdots
  obtain ⟨parts, drives, hparts, -⟩ := splitParentAndName_leaf hleaf
  have hpart : IsPart (splitParentAndName path).2.toStringLossy :=
    mem_pathParts (hparts ▸ List.mem_append_right parts List.mem_cons_self)
  refine ⟨hpart.1, hpart.2, ?_, hdots.1, hdots.2⟩
  unfold splitParentAndName
  dsimp only
  cases hlast : ((pathParts path.toStringLossy).filter fun part => part.getLast? ≠ some ':').getLast?
    with
  | none => exact nofun
  | some leaf =>
      have hmem := List.mem_filter.mp (List.mem_of_getLast? hlast)
      rw [OsStr.toStringLossy_new]
      simpa using hmem.2

theorem resolvePathIno_split (pf : Platform) (req : Request)
    (hcomponents : normalizedComponents path.path = normalizedComponents (splitParentAndName path).1
      ++ [(splitParentAndName path).2.toStringLossy]) :
    resolvePathIno pf req path.path = (do
      drainExpiredResolverForgets req
      match ← walkComponents req ['\\'] ⟨.ROOT, ⟨0⟩⟩
          (normalizedComponents (splitParentAndName path).1) with
      | .error err => pure (.error err)
      | .ok dir =>
          let parentPath := joinPath (normalizedComponents (splitParentAndName path).1)
          let leaf := (splitParentAndName path).2.toStringLossy
          match ← resolveComponent req (walkComponent parentPath dir leaf) with
          | .error err => pure (.error err)
          | .ok entry => pure (.ok entry.ino)) := by
  have hlast : (splitParentAndName path).2.toStringLossy
      ∈ (normalizedComponents path.path).getLast? := by
    rw [hcomponents, List.getLast?_concat]
    rfl
  rw [resolvePathIno_concat hlast, walkToLast, hcomponents, List.dropLast_concat]
  exact Prog.bind_assoc _ _ _

end Split

/-- The parent and the leaf address what the whole path addresses exactly when the path does not end
in `.` or `..`. -/
theorem splitAgrees_iff (pf : Platform) (path : U16CStr)
    (hleaf : (splitParentAndName path).2.points ≠ []) :
    SplitAgrees pf path ↔ ¬ EndsInDots path.toStringLossy := by
  have hne : (splitParentAndName path).2.toStringLossy ≠ [] := by
    simpa [OsStr.toStringLossy] using hleaf
  constructor
  · intro hagrees
    have hleafComponent : IsComponent (splitParentAndName path).2.toStringLossy :=
      isComponent_normalizedComponents path.path _
        (hagrees.components ▸ List.mem_append_right _ (List.mem_singleton_self _))
    rw [endsInDots_iff hne, not_or]
    exact ⟨hleafComponent.notDot, hleafComponent.notDotDot⟩
  · intro hdots
    have hcomponents := normalizedComponents_split (isComponent_leaf hne hdots)
    exact ⟨hcomponents, fun req => resolvePathIno_split pf req hcomponents⟩

/-- `C:/d/f`, with slashes and a drive. -/
def driveF : U16CStr := ⟨[67, 58, 47, 100, 47, 102], by simp⟩

theorem splitAgrees_iff_drive :
    SplitAgrees .ascii driveF ↔ ¬ EndsInDots driveF.toStringLossy :=
  splitAgrees_iff .ascii driveF (by decide)

/-- `\a\..`, which resolves to the root and is split into `\a` and `..`. -/
def dotDotInA : U16CStr := ⟨[92, 97, 92, 46, 46], by simp⟩

theorem split_disagrees_on_dotDot :
    ¬ ∀ (pf : Platform) (path : U16CStr), (splitParentAndName path).2.points ≠ [] →
      SplitAgrees pf path := by
  intro hall
  have hcomponents := (hall .ascii dotDotInA (by decide)).components
  have hroot : normalizedComponents dotDotInA.path = [] := by decide
  rw [hroot] at hcomponents
  exact List.append_ne_nil_of_right_ne_nil _ (List.cons_ne_nil _ _) hcomponents.symm

end Confuse
