import Confuse.Strings

/-!
# Path keys

A path is cut at its separators, drive and dot components are dropped, `..` pops, and the remaining
components, lower-cased and joined again, are the key of the path in the resolver's table. On
component lists the joined form is injective, so a key stands for one list of components, and the
string prefix test of `invalidate_subtree` is the prefix relation of component lists.
-/

namespace Confuse

/-- `raw.split(['\\', '/'])` without the empty parts. -/
def pathParts (raw : Str) : List Str := (raw.splitOnP isSeparator).filter fun part => part ≠ []

/-- `"\\"` for no components, otherwise a backslash before each of them. -/
def joinPath (parts : List Str) : Str :=
  if parts.isEmpty then ['\\'] else '\\' :: ['\\'].intercalate parts

def childPathFromParent (parent component : Str) : Str :=
  if parent = ['\\'] then '\\' :: component else parent ++ '\\' :: component

/-- `splitParentAndName path` is the parent's path and the last component. -/
def splitParentAndName (path : U16CStr) : OsStr × OsStr :=
  let parts := (pathParts path.toStringLossy).filter fun part => part.getLast? ≠ some ':'
  match parts.getLast? with
  | none => (⟨[]⟩, ⟨[]⟩)
  | some leaf => (.new (joinPath parts.dropLast), .new leaf)

def joinChildPath (parent : U16CStr) (name : OsStr) : Str :=
  let base := parent.toStringLossy
  (if base.getLast? = some '\\' then base else base ++ ['\\']) ++ name.toStringLossy

namespace PathResolver

/-- One turn of the loop of `normalized_components`. -/
def pushComponent (components : List Str) (component : Str) : List Str :=
  if component.getLast? = some ':' ∨ component = ['.'] then components
  else if component = ['.', '.'] then components.dropLast
  else components ++ [component]

def normalizedComponents (path : OsStr) : List Str :=
  (pathParts path.toStringLossy).foldl pushComponent []

def normalizePath (cf : CaseFold) (path : OsStr) : Str :=
  joinPath ((normalizedComponents path).map cf.toLowercase)

end PathResolver

/-! ## Cutting and joining -/

theorem pathParts_append {c : Char} (hc : isSeparator c) (s t : Str) :
    pathParts (s ++ c :: t) = pathParts s ++ pathParts t := by
  unfold pathParts
  rw [List.splitOnP_append_cons s t hc, List.filter_append]

@[simp] theorem pathParts_nil : pathParts [] = [] := by decide

theorem pathParts_cons {c : Char} (hc : isSeparator c) (s : Str) :
    pathParts (c :: s) = pathParts s := by
  simpa using pathParts_append hc [] s

/-- What lies between two separators. -/
def IsPart (s : Str) : Prop := s ≠ [] ∧ ∀ c ∈ s, isSeparator c = false

theorem IsComponent.isPart {s : Str} (hs : IsComponent s) : IsPart s := ⟨hs.nonempty, hs.noSeparator⟩

theorem pathParts_part {s : Str} (hs : IsPart s) : pathParts s = [s] := by
  unfold pathParts
  rw [List.splitOnP_eq_singleton hs.2]
  simp [hs.1]

theorem joinPath_cons (p : Str) (parts : List Str) :
    joinPath (p :: parts) = '\\' :: (p ++ parts.flatMap fun q => '\\' :: q) := by
  induction parts generalizing p with
  | nil => simp [joinPath, List.intercalate]
  | cons q parts ih =>
      have h := ih q
      simp only [joinPath, List.isEmpty_cons, Bool.false_eq_true, if_false,
        List.cons.injEq, true_and] at h ⊢
      rw [List.intercalate_cons_cons, h]
      simp

theorem joinPath_of_ne_nil {parts : List Str} (h : parts ≠ []) :
    joinPath parts = parts.flatMap fun p => '\\' :: p := by
  obtain ⟨p, rest, rfl⟩ := List.exists_cons_of_ne_nil h
  rw [joinPath_cons]
  rfl

@[simp] theorem joinPath_nil : joinPath [] = ['\\'] := rfl

theorem pathParts_joinPath {parts : List Str} (h : ∀ p ∈ parts, IsPart p) :
    pathParts (joinPath parts) = parts := by
  cases parts with
  | nil => decide
  | cons p rest =>
      rw [joinPath_of_ne_nil (by simp)]
      induction rest generalizing p with
      | nil =>
          simp only [List.flatMap_cons, List.flatMap_nil, List.append_nil]
          rw [pathParts_cons (by decide), pathParts_part (h p (by simp))]
      | cons q rest ih =>
          have hp := h p (by simp)
          have hrest := ih q fun x hx => h x (by simp [List.mem_cons.mp hx])
          simp only [List.flatMap_cons, List.cons_append] at hrest ⊢
          rw [pathParts_cons (by decide), pathParts_append (by decide),
            pathParts_part hp]
          rw [pathParts_cons (by decide)] at hrest
          rw [hrest]
          rfl

theorem joinPath_injOn {k l : List Str} (hk : ∀ p ∈ k, IsComponent p)
    (hl : ∀ p ∈ l, IsComponent p) (h : joinPath k = joinPath l) : k = l := by
  rw [← pathParts_joinPath fun p hp => (hk p hp).isPart, h,
    pathParts_joinPath fun p hp => (hl p hp).isPart]

theorem joinPath_eq_root {k : List Str} (hk : ∀ p ∈ k, IsComponent p) :
    joinPath k = ['\\'] ↔ k = [] :=
  ⟨fun h => joinPath_injOn hk (by simp) h, fun h => by simp [h]⟩

theorem childPathFromParent_joinPath {k : List Str} (hk : ∀ p ∈ k, IsComponent p) (c : Str) :
    childPathFromParent (joinPath k) c = joinPath (k ++ [c]) := by
  unfold childPathFromParent
  by_cases hnil : k = []
  · simp [hnil, joinPath, List.intercalate]
  · rw [if_neg fun h => hnil ((joinPath_eq_root hk).mp h), joinPath_of_ne_nil hnil,
      joinPath_of_ne_nil (by simp)]
    simp

/-- The prefix test on joined paths, with the trailing backslash of `invalidate_subtree`. -/
theorem joinPath_prefix_iff {k l : List Str} (hk : ∀ p ∈ k, IsComponent p)
    (hl : ∀ p ∈ l, IsComponent p) (hne : k ≠ []) :
    joinPath k = joinPath l ∨ (joinPath k ++ ['\\']) <+: joinPath l ↔ k <+: l := by
  constructor
  · rintro (h | ⟨t, ht⟩)
    · exact joinPath_injOn hk hl h ▸ List.prefix_rfl
    · have hparts := congrArg pathParts ht
      rw [List.append_assoc, List.singleton_append, pathParts_append (by decide),
        pathParts_joinPath fun p hp => (hk p hp).isPart,
        pathParts_joinPath fun p hp => (hl p hp).isPart] at hparts
      exact ⟨_, hparts⟩
  · rintro ⟨t, rfl⟩
    cases t with
    | nil => exact .inl (by simp)
    | cons q t =>
        refine .inr ⟨q ++ t.flatMap fun p => '\\' :: p, ?_⟩
        rw [joinPath_of_ne_nil hne, joinPath_of_ne_nil (by simp)]
        simp

/-! ## Normalisation -/

namespace PathResolver

theorem mem_pathParts {raw p : Str} (hp : p ∈ pathParts raw) : IsPart p := by
  obtain ⟨hmem, hne⟩ := List.mem_filter.mp hp
  refine ⟨by simpa using hne, ?_⟩
  clear hp hne
  induction raw generalizing p with
  | nil =>
      have : p = [] := by simpa using hmem
      simp [this]
  | cons x raw ih =>
      rw [List.splitOnP_cons_eq_if_modifyHead] at hmem
      obtain ⟨q, qs, hq⟩ := List.exists_cons_of_ne_nil (List.splitOnP_ne_nil isSeparator raw)
      split_ifs at hmem with hx
      · rcases List.mem_cons.mp hmem with rfl | hmem
        · simp
        · exact ih hmem
      · rw [hq, List.modifyHead_cons] at hmem
        rcases List.mem_cons.mp hmem with rfl | hmem
        · intro c hc
          rcases List.mem_cons.mp hc with rfl | hc
          · simpa using hx
          · exact ih (by simp [hq]) c hc
        · exact ih (by simp [hq, hmem])

theorem pushComponent_component {s : Str} (hs : IsComponent s) (components : List Str) :
    pushComponent components s = components ++ [s] := by
  unfold pushComponent
  rw [if_neg (by simp [hs.noDrive, hs.notDot]), if_neg hs.notDotDot]

theorem foldl_pushComponent {k : List Str} (hk : ∀ p ∈ k, IsComponent p) (components : List Str) :
    k.foldl pushComponent components = components ++ k := by
  induction k generalizing components with
  | nil => simp
  | cons p k ih =>
      rw [List.foldl_cons, pushComponent_component (hk p (by simp)),
        ih fun q hq => hk q (by simp [hq])]
      simp

theorem isComponent_pushComponent {components : List Str} {p : Str}
    (hc : ∀ q ∈ components, IsComponent q) (hp : IsPart p) :
    ∀ q ∈ pushComponent components p, IsComponent q := by
  unfold pushComponent
  split_ifs with hskip hdots
  · exact hc
  · exact fun q hq => hc q ((List.dropLast_sublist components).subset hq)
  · intro q hq
    rcases List.mem_append.mp hq with hq | hq
    · exact hc q hq
    · rw [List.mem_singleton.mp hq]
      push Not at hskip
      exact ⟨hp.1, hp.2, hskip.1, hskip.2, hdots⟩

/-- What `normalized_components` returns are path components. -/
theorem isComponent_normalizedComponents (path : OsStr) :
    ∀ p ∈ normalizedComponents path, IsComponent p := by
  unfold normalizedComponents
  have hparts : ∀ p ∈ pathParts path.toStringLossy, IsPart p := fun p hp => mem_pathParts hp
  have hnil : ∀ p ∈ ([] : List Str), IsComponent p := by simp
  generalize pathParts path.toStringLossy = parts at hparts
  generalize ([] : List Str) = components at hnil
  induction parts generalizing components with
  | nil => exact hnil
  | cons p parts ih =>
      exact ih (fun q hq => hparts q (by simp [hq])) _
        (isComponent_pushComponent hnil (hparts p (by simp)))

/-- The lower-cased components of a path. -/
def keyOf (cf : CaseFold) (path : OsStr) : List Str :=
  (normalizedComponents path).map cf.toLowercase

theorem normalizePath_eq (cf : CaseFold) (path : OsStr) :
    normalizePath cf path = joinPath (keyOf cf path) := rfl

theorem isComponent_map_toLowercase (cf : CaseFold) {k : List Str} (hk : ∀ p ∈ k, IsComponent p) :
    ∀ p ∈ k.map cf.toLowercase, IsComponent p := by
  intro p hp
  obtain ⟨q, hq, rfl⟩ := List.mem_map.mp hp
  exact cf.isComponent q (hk q hq)

theorem isComponent_keyOf (cf : CaseFold) (path : OsStr) : ∀ p ∈ keyOf cf path, IsComponent p :=
  isComponent_map_toLowercase cf (isComponent_normalizedComponents path)

theorem normalizedComponents_new_joinPath {k : List Str} (hk : ∀ p ∈ k, IsComponent p) :
    normalizedComponents (.new (joinPath k)) = k := by
  unfold normalizedComponents
  rw [OsStr.toStringLossy_new, pathParts_joinPath fun p hp => (hk p hp).isPart,
    foldl_pushComponent hk]
  rfl

theorem keyOf_new_joinPath (cf : CaseFold) {k : List Str} (hk : ∀ p ∈ k, IsComponent p) :
    keyOf cf (.new (joinPath k)) = k.map cf.toLowercase := by
  rw [keyOf, normalizedComponents_new_joinPath hk]

/-- The key of a component's path: the keys of its parents and its own. -/
theorem normalizePath_new_joinPath (cf : CaseFold) {parents : List Str} {part : Str}
    (h : ∀ p ∈ parents ++ [part], IsComponent p) :
    normalizePath cf (.new (joinPath (parents ++ [part])))
      = joinPath (parents.map cf.toLowercase ++ [cf.toLowercase part]) := by
  rw [normalizePath_eq, keyOf_new_joinPath cf h, List.map_append, List.map_singleton]

/-- Drive parts are passed over, so leaving them out first changes nothing. -/
theorem foldl_pushComponent_filter (parts components : List Str) :
    (parts.filter fun part => part.getLast? ≠ some ':').foldl pushComponent components
      = parts.foldl pushComponent components := by
  induction parts generalizing components with
  | nil => rfl
  | cons p parts ih =>
      by_cases hdrive : p.getLast? = some ':'
      · have hskip : pushComponent components p = components := if_pos (.inl hdrive)
        rw [List.filter_cons_of_neg (by simp [hdrive]), List.foldl_cons, hskip, ih]
      · rw [List.filter_cons_of_pos (by simp [hdrive]), List.foldl_cons, List.foldl_cons, ih]

/-- The whole path is normalised like its parent, with one more turn for the leaf. -/
theorem normalizedComponents_split_push {path : U16CStr}
    (hleaf : (splitParentAndName path).2.toStringLossy ≠ []) :
    normalizedComponents (.new path.toStringLossy)
      = pushComponent (normalizedComponents (splitParentAndName path).1)
        (splitParentAndName path).2.toStringLossy := by
  unfold splitParentAndName at hleaf ⊢
  dsimp only at hleaf ⊢
  generalize hparts : (pathParts path.toStringLossy).filter
    (fun part => part.getLast? ≠ some ':') = parts at hleaf ⊢
  cases hlast : parts.getLast? with
  | none =>
      rw [hlast] at hleaf
      exact absurd rfl hleaf
  | some leaf =>
      dsimp only
      have hinit : parts = parts.dropLast ++ [leaf] :=
        (List.dropLast_append_getLast? leaf hlast).symm
      have hsub : ∀ p ∈ parts.dropLast, IsPart p := fun p hp => mem_pathParts
        (List.mem_of_mem_filter (hparts ▸ (List.dropLast_sublist parts).subset hp))
      unfold normalizedComponents
      rw [OsStr.toStringLossy_new, OsStr.toStringLossy_new, OsStr.toStringLossy_new,
        pathParts_joinPath hsub, ← foldl_pushComponent_filter, hparts]
      nth_rewrite 1 [hinit]
      rw [List.foldl_append, List.foldl_cons, List.foldl_nil]

/-- A path whose last part is a component lies below the parent that it is split into. -/
theorem normalizedComponents_split {path : U16CStr}
    (hleaf : IsComponent (splitParentAndName path).2.toStringLossy) :
    normalizedComponents (.new path.toStringLossy)
      = normalizedComponents (splitParentAndName path).1
        ++ [(splitParentAndName path).2.toStringLossy] := by
  rw [normalizedComponents_split_push hleaf.nonempty, pushComponent_component hleaf]

theorem normalizedComponents_joinChildPath (parent : U16CStr) {name : OsStr}
    (hname : IsComponent name.toStringLossy) :
    normalizedComponents (.new (joinChildPath parent name))
      = normalizedComponents (.new parent.toStringLossy) ++ [name.toStringLossy] := by
  have hparts : pathParts (joinChildPath parent name)
      = pathParts parent.toStringLossy ++ [name.toStringLossy] := by
    unfold joinChildPath
    dsimp only
    split_ifs with hlast
    · obtain ⟨base, hbase⟩ : ∃ base, parent.toStringLossy = base ++ ['\\'] :=
        ⟨_, (List.dropLast_append_getLast? _ hlast).symm⟩
      rw [hbase, List.append_assoc, List.singleton_append, pathParts_append (by decide),
        pathParts_append (by decide), pathParts_part hname.isPart, pathParts_nil, List.append_nil]
    · rw [List.append_assoc, List.singleton_append, pathParts_append (by decide),
        pathParts_part hname.isPart]
  unfold normalizedComponents
  rw [OsStr.toStringLossy_new, OsStr.toStringLossy_new, hparts, List.foldl_append, List.foldl_cons,
    List.foldl_nil, pushComponent_component hname]

theorem normalizePath_eq_root {cf : CaseFold} {path : OsStr} :
    normalizePath cf path = ['\\'] ↔ normalizedComponents path = [] := by
  rw [normalizePath_eq, joinPath_eq_root (isComponent_keyOf cf path), keyOf, List.map_eq_nil_iff]

end PathResolver
end Confuse
