import Confuse.ChildRecords
import Confuse.RenameCollisions

/-!
# Canonical path keys

A path has many spellings and one key. The walk along a path addresses the keys of its first
components one after the other, and what is remembered or invalidated under any spelling of the path
is the entry that the walk comes to last.
-/

namespace Confuse

open Interaction PathResolver

/-! ## One key for every spelling -/

theorem normalizePath_idempotent (cf : CaseFold) (path : OsStr) :
    normalizePath cf (.new (normalizePath cf path)) = normalizePath cf path := by
  have hkeys := isComponent_keyOf cf path
  have hfolded : (keyOf cf path).map cf.toLowercase = keyOf cf path := by
    rw [keyOf, List.map_map]
    exact List.map_congr_left fun p _ => cf.idempotent p
  rw [normalizePath_eq cf path, normalizePath_eq, keyOf_new_joinPath cf hkeys, hfolded]

theorem normalizePath_eq_iff {cf : CaseFold} {path path' : OsStr} :
    normalizePath cf path = normalizePath cf path' ↔ keyOf cf path = keyOf cf path' := by
  rw [normalizePath_eq, normalizePath_eq]
  constructor
  · exact joinPath_injOn (isComponent_keyOf cf path) (isComponent_keyOf cf path')
  · exact congrArg joinPath

/-- The canonical keys of the first component, of the first two, and so on. -/
def keysAlong (cf : CaseFold) (components : List Str) : List Str :=
  (List.range components.length).map fun k =>
    joinPath ((components.take (k + 1)).map cf.toLowercase)

/-- The paths that the walk builds with `child_path_from_parent`. -/
def childPaths : Str → List Str → List Str
  | _, [] => []
  | currentPath, component :: rest =>
      childPathFromParent currentPath component
        :: childPaths (childPathFromParent currentPath component) rest

theorem childPaths_joinPath (parents : List Str) {components : List Str}
    (h : ∀ p ∈ parents ++ components, IsComponent p) :
    childPaths (joinPath parents) components
      = (List.range components.length).map fun k =>
          joinPath (parents ++ components.take (k + 1)) := by
  induction components generalizing parents with
  | nil => rfl
  | cons component rest ih =>
      have hparents : ∀ p ∈ parents, IsComponent p := fun p hp => h p (List.mem_append_left _ hp)
      have hrest := ih (parents ++ [component]) (by simpa using h)
      rw [childPaths, childPathFromParent_joinPath hparents, hrest, List.length_cons,
        List.range_succ_eq_map, List.map_cons, List.map_map]
      simp [Function.comp_def]

/-- The key of the child path that the walk builds at each turn. -/
theorem keys_childPaths (cf : CaseFold) (path : OsStr) :
    (childPaths ['\\'] (normalizedComponents path)).map
        (fun childPath => normalizePath cf (.new childPath))
      = keysAlong cf (normalizedComponents path) := by
  have hcomponents := isComponent_normalizedComponents path
  have hpaths : childPaths ['\\'] (normalizedComponents path)
      = (List.range (normalizedComponents path).length).map fun k =>
          joinPath ((normalizedComponents path).take (k + 1)) := childPaths_joinPath [] hcomponents
  rw [hpaths, List.map_map]
  refine List.map_congr_left fun k _ => ?_
  have hfirst : ∀ p ∈ (normalizedComponents path).take (k + 1), IsComponent p :=
    fun p hp => hcomponents p (List.mem_of_mem_take hp)
  exact congrArg joinPath (keyOf_new_joinPath cf hfirst)

theorem getLast_keysAlong (cf : CaseFold) (path : OsStr) :
    (keysAlong cf (normalizedComponents path)).getLastD ['\\'] = normalizePath cf path := by
  rw [normalizePath]
  cases hcomponents : normalizedComponents path with
  | nil => rfl
  | cons component rest =>
      rw [keysAlong, List.length_cons, List.range_succ, List.map_append, List.map_singleton,
        List.getLastD_concat]
      simp

/-! ## What the walk addresses -/

/-- The path that a section looks for. -/
def Event.askedPath? : Event → Option OsStr
  | .table _ (.cached path _ _) _ => some path
  | _ => none

/-- The path that a section of a walk remembers something about. -/
def Event.rememberedPath? : Event → Option OsStr
  | .table _ (.rememberPositive record) _ => some record.path
  | .table _ (.rememberNegative path _ _ _) _ => some path
  | _ => none

/-- Calls, drains and what is remembered about the path. -/
def Effect.RemembersAt (path : OsStr) : Effect → Prop
  | .table (.rememberPositive record) => record.path = path
  | .table (.rememberNegative remembered _ _ _) => remembered = path
  | .fs _ | .deliver _ _ => True
  | _ => False

/-- Nothing is asked for, and what is remembered is about the path. -/
structure RemembersAt (path : OsStr) (evs : List Event) : Prop where
  asked : evs.filterMap Event.askedPath? = []
  remembered : ∀ p ∈ evs.filterMap Event.rememberedPath?, p = path

theorem remembersAt_joins (path : OsStr) : Prog.Joins (RemembersAt path) where
  nil := ⟨rfl, by simp⟩
  append := by
    rintro l l' ⟨hasked, hremembered⟩ ⟨hasked', hremembered'⟩
    refine ⟨by rw [List.filterMap_append, hasked, hasked', List.append_nil], fun p hp => ?_⟩
    rw [List.filterMap_append] at hp
    exact (List.mem_append.mp hp).elim (hremembered p) (hremembered' p)

theorem remembersAt_quiet {path : OsStr} {evs : List Event}
    (h : ∀ ev ∈ evs, ev.askedPath? = none ∧ ev.rememberedPath? = none) : RemembersAt path evs where
  asked := List.filterMap_eq_nil_iff.mpr fun ev hev => (h ev hev).1
  remembered := by
    intro p hp
    obtain ⟨ev, hev, hremembered⟩ := List.mem_filterMap.mp hp
    rw [(h ev hev).2] at hremembered
    cases hremembered

theorem isNotify_quiet {ev : Event} (h : ev.isNotify) :
    ev.askedPath? = none ∧ ev.rememberedPath? = none := by
  cases ev <;> first | exact ⟨rfl, rfl⟩ | cases h

theorem deliver_quiet {req : Request} {o : DrainOp} {own : List Event}
    (hown : (Effect.deliver req o).Leaves () own) :
    ∀ ev ∈ own, ev.askedPath? = none ∧ ev.rememberedPath? = none := by
  obtain ⟨now, forgets, rfl⟩ := hown
  intro ev hev
  rcases List.mem_cons.mp hev with rfl | hev
  · exact ⟨rfl, rfl⟩
  · obtain ⟨f, -, rfl⟩ := List.mem_map.mp hev
    exact ⟨rfl, rfl⟩

theorem remembersAt_of_emits {path : OsStr} (e : Effect) (r : e.Res) (evs : List Event)
    (he : e.RemembersAt path) (hevs : Emits e r evs) : RemembersAt path evs := by
  obtain ⟨notes, own, hnotes, hown, rfl⟩ := hevs
  refine (remembersAt_joins path).append
    (remembersAt_quiet fun ev hev => isNotify_quiet (hnotes ev hev)) ?_
  cases e with
  | fs c =>
      rw [show own = [.call c r] from hown]
      exact remembersAt_quiet fun ev hev => by
        rw [List.mem_singleton.mp hev]
        exact ⟨rfl, rfl⟩
  | deliver req o => exact remembersAt_quiet (deliver_quiet hown)
  | table o =>
      obtain ⟨now, rfl⟩ := hown
      cases o with
      | rememberPositive record =>
          cases he
          exact ⟨rfl, by simp [Event.rememberedPath?]⟩
      | rememberNegative remembered parent parentGeneration name =>
          cases he
          exact ⟨rfl, by simp [Event.rememberedPath?]⟩
      | _ => cases he
  | _ => cases he

/-- The paths are asked for one after the other, all of them on arrival, and only what is asked for is
remembered. -/
structure AsksAlong (paths : List OsStr) (evs : List Event) (arrived : Bool) : Prop where
  asked : evs.filterMap Event.askedPath? <+: paths
  all : arrived = true → evs.filterMap Event.askedPath? = paths
  remembered : ∀ p ∈ evs.filterMap Event.rememberedPath?, p ∈ evs.filterMap Event.askedPath?

/-- Events that neither ask nor remember may come first. -/
theorem AsksAlong.after {paths : List OsStr} {evs evs' : List Event} {arrived : Bool}
    (hevs : ∀ ev ∈ evs, ev.askedPath? = none ∧ ev.rememberedPath? = none)
    (h : AsksAlong paths evs' arrived) : AsksAlong paths (evs ++ evs') arrived := by
  have hasked : (evs ++ evs').filterMap Event.askedPath? = evs'.filterMap Event.askedPath? := by
    rw [List.filterMap_append, List.filterMap_eq_nil_iff.mpr fun ev hev => (hevs ev hev).1,
      List.nil_append]
  have hremembered : (evs ++ evs').filterMap Event.rememberedPath?
      = evs'.filterMap Event.rememberedPath? := by
    rw [List.filterMap_append, List.filterMap_eq_nil_iff.mpr fun ev hev => (hevs ev hev).2,
      List.nil_append]
  exact ⟨hasked ▸ h.asked, hasked ▸ h.all, by rw [hasked, hremembered]; exact h.remembered⟩

section AsksAlong
variable {paths : List OsStr} {path : OsStr} {evs evs' : List Event} {arrived : Bool}
  (hasked : evs.filterMap Event.askedPath? = [path])
  (hremembered : ∀ p ∈ evs.filterMap Event.rememberedPath?, p = path)

include hasked hremembered

theorem AsksAlong.first (paths : List OsStr) : AsksAlong (path :: paths) evs false where
  asked := by
    rw [hasked]
    exact ⟨paths, rfl⟩
  all := nofun
  remembered := fun p hp => by simp [hasked, hremembered p hp]

theorem AsksAlong.step (h : AsksAlong paths evs' arrived) :
    AsksAlong (path :: paths) (evs ++ evs') arrived where
  asked := by
    rw [List.filterMap_append, hasked]
    exact (List.prefix_cons_inj path).mpr h.asked
  all harrived := by
    rw [List.filterMap_append, hasked, h.all harrived]
    rfl
  remembered := by
    intro p hp
    rw [List.filterMap_append] at hp ⊢
    rcases List.mem_append.mp hp with hp | hp
    · rw [hasked, hremembered p hp]
      exact List.mem_append_left _ (List.mem_singleton_self path)
    · exact List.mem_append_right _ (h.remembered p hp)

end AsksAlong

section Walk
variable (req : Request)

theorem lookupPathComponent_remembersAt (component : LookupComponent) :
    (lookupPathComponent req component).Performs (Effect.RemembersAt component.path) := by
  refine .bind (.perform trivial) fun status => ?_
  rcases status with _ | ⟨err⟩ | ⟨payload⟩
  · exact .bind (.perform trivial) fun _ => .pure _
  · refine .bind ?_ fun _ => .pure _
    unfold rememberNegativeLookup
    split_ifs
    · exact .bind (.perform rfl) fun _ => .perform trivial
    · exact .perform trivial
  · exact .bind (.perform rfl) fun _ => .pure _

/-- One turn of the walk asks for the path of the component, and remembers nothing about another. -/
theorem resolveComponent_asks (component : LookupComponent) :
    Prog.EveryTrace Emits (fun evs => evs.filterMap Event.askedPath? = [component.path] ∧
      ∀ p ∈ evs.filterMap Event.rememberedPath?, p = component.path)
      (resolveComponent req component) := by
  -- What follows the answer of the cache, the drain after an error included.
  rw [show resolveComponent req component = _ from Prog.bind_assoc _ _ _]
  have hask : Prog.EveryTrace Emits (fun evs => evs.filterMap Event.askedPath? = [component.path] ∧
      evs.filterMap Event.rememberedPath? = [])
      (Routine.table (.cached component.path component.parent component.parentGeneration)) := by
    refine .perform fun r evs hevs => ?_
    obtain ⟨notes, own, hnotes, ⟨now, rfl⟩, rfl⟩ := hevs
    have hquiet := fun ev hev => isNotify_quiet (hnotes ev hev)
    rw [List.filterMap_append, List.filterMap_append,
      List.filterMap_eq_nil_iff.mpr fun ev hev => (hquiet ev hev).1,
      List.filterMap_eq_nil_iff.mpr fun ev hev => (hquiet ev hev).2]
    exact ⟨rfl, rfl⟩
  refine .seq ?_ hask fun cached => .of_performs (remembersAt_joins component.path)
    remembersAt_of_emits (?_ : Prog.Performs _ _)
  · rintro l l' ⟨hasked, hremembered⟩ hrest
    rw [List.filterMap_append, List.filterMap_append, hasked, hremembered, hrest.asked]
    exact ⟨rfl, hrest.remembered⟩
  · rcases cached with _ | ⟨err⟩ | ⟨entry⟩
    · exact lookupPathComponent_remembersAt req component
    · refine .bind (.bind (.perform trivial) fun _ => .pure _) fun found => ?_
      rcases found with err | _ | entry
      · exact .pure _
      · exact lookupPathComponent_remembersAt req component
      · exact .pure _
    · exact .pure _

/-- The walk asks for the paths that it builds one after the other, for all of them if it arrives, and
remembers something about those only. -/
theorem walkComponents_asks (currentPath : Str) (current : ResolvedEntry) (components : List Str) :
    Prog.Yields Emits (fun evs result => AsksAlong ((childPaths currentPath components).map .new) evs
      result.isOk) (walkComponents req currentPath current components) := by
  induction components generalizing currentPath current with
  | nil => exact .pure ⟨List.prefix_rfl, fun _ => rfl, by simp⟩
  | cons component rest ih =>
      intro evs result ht
      obtain ⟨found, es, rest', hfound, hrest, rfl⟩ := Prog.traces_bind.mp ht
      obtain ⟨hasked, hremembered⟩ := resolveComponent_asks req _ es _ hfound
      cases found with
      | error err =>
          obtain ⟨rfl, rfl⟩ := hrest
          rw [List.append_nil]
          exact .first hasked hremembered _
      | ok child => exact (ih _ child _ _ hrest).step hasked hremembered

/-- A path resolution asks for the keys along its path. -/
theorem resolvePathIno_asks (pf : Platform) (path : OsStr) :
    Prog.Yields Emits (fun evs result => AsksAlong
        ((childPaths ['\\'] (normalizedComponents path)).map .new) evs result.isOk)
      (resolvePathIno pf req path) := by
  unfold resolvePathIno
  split_ifs with hroot
  · rw [normalizePath_eq_root.mp hroot]
    exact .pure ⟨List.prefix_rfl, fun _ => rfl, by simp⟩
  · intro evs result ht
    obtain ⟨_, es, rest, hdrain, hrest, rfl⟩ := Prog.traces_bind.mp ht
    obtain ⟨found, es', rest', hwalk, hdone, rfl⟩ := Prog.traces_bind.mp hrest
    obtain ⟨notes, own, hnotes, hown, rfl⟩ := Prog.traces_perform.mp hdrain
    have hwalked := walkComponents_asks req _ _ _ es' found hwalk
    rw [List.append_assoc]
    refine .after (fun ev hev => isNotify_quiet (hnotes ev hev)) (.after (deliver_quiet hown) ?_)
    cases found with
    | error err =>
        obtain ⟨rfl, rfl⟩ := hdone
        rwa [List.append_nil]
    | ok entry =>
        obtain ⟨rfl, rfl⟩ := hdone
        rwa [List.append_nil]

end Walk

theorem AsksAlong.keys {cf : CaseFold} {path : OsStr} {evs : List Event} {arrived : Bool}
    (h : AsksAlong ((childPaths ['\\'] (normalizedComponents path)).map .new) evs arrived) :
    (evs.filterMap Event.askedPath?).map (normalizePath cf)
        <+: keysAlong cf (normalizedComponents path) ∧
      (arrived = true → (evs.filterMap Event.askedPath?).map (normalizePath cf)
        = keysAlong cf (normalizedComponents path)) ∧
      ∀ p ∈ evs.filterMap Event.rememberedPath?,
        normalizePath cf p ∈ (evs.filterMap Event.askedPath?).map (normalizePath cf) := by
  have hkeys : ((childPaths ['\\'] (normalizedComponents path)).map OsStr.new).map
      (normalizePath cf) = keysAlong cf (normalizedComponents path) := by
    rw [List.map_map]
    exact keys_childPaths cf path
  rw [← hkeys]
  exact ⟨h.asked.map _, fun harrived => congrArg _ (h.all harrived),
    fun p hp => List.mem_map_of_mem (h.remembered p hp)⟩

/-! ## What is done at a key -/

/-- The sections do for either path what they do for the other. -/
structure AddressAlike (cf : CaseFold) (path path' : OsStr) : Prop where
  cached : ∀ (now : Instant) (r : PathResolver) (parent : INodeNo) (parentGeneration : Generation),
    r.cached cf now path parent parentGeneration = r.cached cf now path' parent parentGeneration
  rememberPositive : ∀ (now : Instant) (r : PathResolver) (record : PositivePathRecord),
    r.rememberPositive cf now { record with path := path }
      = r.rememberPositive cf now { record with path := path' }
  rememberNegative : ∀ (now : Instant) (r : PathResolver) (parent : INodeNo)
    (parentGeneration : Generation) (name : OsStr),
    r.rememberNegative cf now path parent parentGeneration name
      = r.rememberNegative cf now path' parent parentGeneration name
  rememberCreated : ∀ (now : Instant) (r : PathResolver) (created : CreatedPath) (p p' : U16CStr),
    p.path = path → p'.path = path' →
      (TableOp.rememberCreated { created with path := p }).apply cf now r
        = (TableOp.rememberCreated { created with path := p' }).apply cf now r
  invalidateSubtree : ∀ (now : Instant) (r : PathResolver),
    r.invalidateSubtree cf now path = r.invalidateSubtree cf now path'

theorem addressAlike_of_key {cf : CaseFold} {path path' : OsStr}
    (h : normalizePath cf path = normalizePath cf path') : AddressAlike cf path path' := by
  have hpositive : ∀ (now : Instant) (r : PathResolver) (record : PositivePathRecord),
      r.rememberPositive cf now { record with path := path }
        = r.rememberPositive cf now { record with path := path' } := by
    intro now r record
    unfold PathResolver.rememberPositive
    dsimp only
    rw [h]
    rfl
  refine ⟨fun now r parent g => ?_, hpositive, fun now r parent g name => ?_, ?_, fun now r => ?_⟩
  · unfold PathResolver.cached
    rw [h]
  · unfold PathResolver.rememberNegative
    rw [h]
  · rintro now r created p p' rfl rfl
    let record := created.record (r.generationFor created.parent)
    exact congrArg (fun result => ((), result.2)) (hpositive now r record)
  · unfold PathResolver.invalidateSubtree
    rw [h]

theorem lookup_invalidateSubtree_self (cf : CaseFold) (now : Instant) (r : PathResolver)
    (path : OsStr) :
    (r.invalidateSubtree cf now path).2.paths.lookup (normalizePath cf path) = none := by
  by_contra hsome
  obtain ⟨e, he⟩ := Option.ne_none_iff_exists'.mp hsome
  have hbelow := not_inSubtree_of_invalidated he
  simp [inSubtree] at hbelow

/-- Normalisation is idempotent and gives one key to all spellings of a path; the walk along a path
asks for the keys of its first components in order, the last one being the key of the path, and
remembers something about those alone; and what is remembered about a created path or invalidated is
the entry under the key of the path, whatever the spelling. -/
theorem path_keys_canonical (f : CharFold) :
    let cf := f.toCaseFold
    (∀ path, normalizePath cf (.new (normalizePath cf path)) = normalizePath cf path) ∧
    (∀ path path', normalizePath cf path = normalizePath cf path' ↔
      (normalizedComponents path).map cf.toLowercase
        = (normalizedComponents path').map cf.toLowercase) ∧
    (∀ path, (childPaths ['\\'] (normalizedComponents path)).map
        (fun childPath => normalizePath cf (.new childPath))
          = keysAlong cf (normalizedComponents path) ∧
      (keysAlong cf (normalizedComponents path)).getLastD ['\\'] = normalizePath cf path) ∧
    (∀ (β φ : Type) (isNameInExpression : U16CStr → U16CStr → Bool → Bool) (h : Host β φ)
      (notices : Notices) (req : Request) (path : OsStr) (w : World β φ),
      let pf : Platform := ⟨cf, isNameInExpression⟩
      let evs := w.newEvents pf h notices (resolvePathIno pf req path)
      let asked := (evs.filterMap Event.askedPath?).map (normalizePath cf)
      asked <+: keysAlong cf (normalizedComponents path) ∧
        (((resolvePathIno pf req path).run (machine pf h notices) w).1.isOk →
          asked = keysAlong cf (normalizedComponents path)) ∧
        ∀ p ∈ evs.filterMap Event.rememberedPath?, normalizePath cf p ∈ asked) ∧
    (∀ path path', normalizePath cf path = normalizePath cf path' → AddressAlike cf path path') ∧
    (∀ (now : Instant) (r : PathResolver) (created : CreatedPath) (key : Str),
      key ≠ normalizePath cf created.path.path →
        ((TableOp.rememberCreated created).apply cf now r).2.paths.lookup key = r.paths.lookup key) ∧
    ∀ (now : Instant) (r : PathResolver) (path : OsStr),
      (r.invalidateSubtree cf now path).2.paths.lookup (normalizePath cf path) = none := by
  intro cf
  refine ⟨normalizePath_idempotent cf, fun _ _ => normalizePath_eq_iff, fun path => ?_, ?_,
    fun _ _ => addressAlike_of_key, ?_, lookup_invalidateSubtree_self cf⟩
  · exact ⟨keys_childPaths cf path, getLast_keysAlong cf path⟩
  · intro β φ isNameInExpression h notices req path w pf evs asked
    exact (resolvePathIno_asks req pf path _ _
      (World.newEvents_traces pf h notices (resolvePathIno pf req path) w)).keys
  · intro now r created key hkey
    exact rememberPositive_lookup_of_ne hkey

/-- Two spellings of one path. -/
theorem path_keys_canonical_spellings : AddressAlike CharFold.ascii.toCaseFold
    (.new "C:/a//.\\B".toList) (.new "\\A\\x\\..\\b\\".toList) := by
  obtain ⟨-, hkeys, -, -, halike, -⟩ := path_keys_canonical .ascii
  exact halike _ _ ((hkeys _ _).mpr (by decide))

end Confuse
