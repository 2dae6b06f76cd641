import Confuse.ResolverLedger

/-!
# Bounds on the references held

Whatever the counts are, also after saturation, no step holds more than was held before it and what
it records, and a drain hands out no more than it stops holding.
-/

namespace Confuse.PathResolver

/-- A step that adds no reference. -/
def Sheds (r r' : PathResolver) : Prop := ∀ i, r'.held i ≤ r.held i

theorem Sheds.refl (r : PathResolver) : r.Sheds r := fun _ => le_rfl

theorem Sheds.trans {r s t : PathResolver} (h : r.Sheds s) (h' : s.Sheds t) : r.Sheds t :=
  fun i => (h' i).trans (h i)

theorem Sheds.foldl {ι : Type} {f : PathResolver → ι → PathResolver}
    (hf : ∀ (r : PathResolver) k, r.Sheds (f r k)) (l : List ι) (r : PathResolver) :
    r.Sheds (l.foldl f r) := by
  induction l generalizing r with
  | nil => exact .refl r
  | cons k l ih => exact (hf r k).trans (ih (f r k))

theorem held_eq {r r' : PathResolver} (hpaths : r'.paths = r.paths)
    (hpending : r'.pendingForgets = r.pendingForgets) (i : INodeNo) : r'.held i = r.held i := by
  rw [held, held, pendingRefs, pendingRefs, outstandingRefs, outstandingRefs, hpaths, hpending]

theorem sheds_of_eq {r r' : PathResolver} (hpaths : r'.paths = r.paths)
    (hpending : r'.pendingForgets = r.pendingForgets) : r.Sheds r' :=
  fun i => (held_eq hpaths hpending i).le

theorem held_releaseLookup_le (r : PathResolver) (e : INodeNo × ℕ) (i : INodeNo) :
    (r.releaseLookup e).held i ≤ r.held i + if e.1 = i then e.2 else 0 := by
  have houts : (r.releaseLookup e).outstandingRefs i = r.outstandingRefs i := by
    rw [outstandingRefs, outstandingRefs, releaseLookup_paths]
  have hpend : (r.releaseLookup e).pendingRefs i
      ≤ r.pendingRefs i + if e.1 = i then e.2 else 0 := by
    unfold releaseLookup pendingRefs
    cases r.inodes.lookup e.1 with
    | none => exact Nat.le_add_right _ _
    | some state =>
        have hmin : min state.lookupRefcount e.2 ≤ e.2 := min_le_right _ _
        dsimp only
        split_ifs <;> simp_all
  rw [held, held, houts]
  omega

theorem held_foldl_releaseLookup_le (outstanding : Forgets) (r : PathResolver) (i : INodeNo) :
    (outstanding.foldl releaseLookup r).held i ≤ r.held i + tally outstanding i := by
  induction outstanding generalizing r with
  | nil => simp
  | cons e outstanding ih =>
      have hstep := held_releaseLookup_le r e i
      have hrest := ih (r.releaseLookup e)
      rw [List.foldl_cons, tally_cons]
      omega

theorem held_releaseOutstanding_le (now : Instant) (r : PathResolver) (outstanding : Forgets)
    (i : INodeNo) :
    (r.releaseOutstanding now outstanding).held i ≤ r.held i + tally outstanding i :=
  held_foldl_releaseLookup_le outstanding r i

theorem held_invalidatePositiveOutstanding_le (now : Instant) (r : PathResolver)
    (outstanding : Forgets) (i : INodeNo) :
    (r.invalidatePositiveOutstanding now outstanding).held i ≤ r.held i + tally outstanding i := by
  obtain ⟨hpending, -⟩ := foldl_clearAttrExpires (outstanding.map Prod.fst) r
  have hpaths := foldl_paths clearAttrExpires_paths (outstanding.map Prod.fst) r
  rw [← held_eq hpaths hpending i]
  exact held_releaseOutstanding_le now _ outstanding i

theorem removePath_sheds (r : PathResolver) (key : Str) : r.Sheds (r.removePath key) := by
  intro i
  have h := held_removePath r key i
  omega

/-- Removing an entry and releasing its references in one of the two ways. -/
theorem detach_sheds {release : PathResolver → Forgets → PathResolver}
    (hrelease : ∀ r outstanding i, (release r outstanding).held i ≤ r.held i + tally outstanding i)
    (r : PathResolver) (key : Str) :
    r.Sheds (match r.paths.lookup key with
      | some (.positive e) => release (r.removePath key) e.outstanding
      | _ => r.removePath key) := by
  rcases h : r.paths.lookup key with _ | ⟨e⟩ | ⟨e⟩
  · exact removePath_sheds r key
  · intro i
    have hrefs : r.entryRefs key = e.outstanding := by
      simp [entryRefs, h, PathCacheEntry.outstanding]
    have hremoved := held_removePath r key i
    have hreleased := hrelease (r.removePath key) e.outstanding i
    rw [hrefs] at hremoved
    exact hreleased.trans hremoved.le
  · exact removePath_sheds r key

theorem dropPath_sheds (now : Instant) (r : PathResolver) (key : Str) :
    r.Sheds (r.dropPath now key) := detach_sheds (held_releaseOutstanding_le now) r key

theorem purgePath_sheds (now : Instant) (r : PathResolver) (key : Str) :
    r.Sheds (r.purgePath now key) := detach_sheds (held_invalidatePositiveOutstanding_le now) r key

/-! ## Drains -/

theorem held_takePendingForgets (r : PathResolver) (i : INodeNo) :
    tally r.takePendingForgets.1 i + r.takePendingForgets.2.held i = r.held i := by
  simp [takePendingForgets, held, pendingRefs, outstandingRefs]

theorem drain_sheds (cf : CaseFold) (now : Instant) (o : DrainOp) (r : PathResolver)
    (i : INodeNo) : tally (o.apply cf now r).1 i + (o.apply cf now r).2.held i ≤ r.held i := by
  cases o with
  | takePendingForgets => exact (held_takePendingForgets r i).le
  | reapExpired =>
      exact (held_takePendingForgets _ i).le.trans (Sheds.foldl (dropPath_sheds now) _ r i)
  | invalidateSubtree path =>
      exact (held_takePendingForgets _ i).le.trans (Sheds.foldl (purgePath_sheds now) _ r i)

/-! ## Sections on the tables -/

theorem tally_incrementOutstandingLookup_le (outstanding : Forgets) (ino i : INodeNo) :
    tally (incrementOutstandingLookup outstanding ino) i
      ≤ tally outstanding i + if ino = i then 1 else 0 := by
  induction outstanding with
  | nil => simp [incrementOutstandingLookup]
  | cons e outstanding ih =>
      obtain ⟨cachedIno, nlookup⟩ := e
      unfold incrementOutstandingLookup
      have hsat : saturatingAdd nlookup 1 ≤ nlookup + 1 := min_le_left _ _
      by_cases hc : cachedIno = ino
      · subst cachedIno
        simp only [if_true, tally_cons]
        split_ifs <;> omega
      · simp only [hc, if_false, tally_cons]
        omega

theorem held_takeReusableOutstanding_le (now : Instant) (r : PathResolver) (key : Str)
    (ino : INodeNo) (ttl : Duration) (i : INodeNo) :
    (r.takeReusableOutstanding now key ino ttl).2.held i
      + tally (r.takeReusableOutstanding now key ino ttl).1 i ≤ r.held i := by
  have hremoved := held_removePath r key i
  have hdrop := dropPath_sheds now r key i
  unfold takeReusableOutstanding
  unfold dropPath at hdrop
  rcases h : r.paths.lookup key with _ | ⟨e⟩ | ⟨e⟩
  · simpa using removePath_sheds r key i
  · simp only [h] at hdrop
    have hrefs : r.entryRefs key = e.outstanding := by
      simp [entryRefs, h, PathCacheEntry.outstanding]
    rw [hrefs] at hremoved
    dsimp only
    split_ifs
    · exact hremoved.le
    · simpa using hdrop
  · simpa using removePath_sheds r key i

theorem held_rememberPositive_le (cf : CaseFold) (now : Instant) (r : PathResolver)
    (record : PositivePathRecord) (i : INodeNo) :
    (r.rememberPositive cf now record).2.held i
      ≤ r.held i + if record.attr.ino = i then 1 else 0 := by
  unfold rememberPositive
  dsimp only
  set key := normalizePath cf record.path
  have htaken := held_takeReusableOutstanding_le now r key record.attr.ino record.ttl i
  have hfresh : (r.takeReusableOutstanding now key record.attr.ino record.ttl).2.paths.lookup key
      = none := by rw [takeReusableOutstanding_paths, AList.lookup_erase]
  generalize r.takeReusableOutstanding now key record.attr.ino record.ttl = result at htaken hfresh ⊢
  obtain ⟨outstanding, taken⟩ := result
  by_cases httl : record.ttl.isZero = false
  · rw [if_pos httl]
    have hout := tally_incrementOutstandingLookup_le outstanding record.attr.ino i
    have houts := storePositivePathEntry_outstandingRefs now hfresh record
      (incrementOutstandingLookup outstanding record.attr.ino) i
    have hheld : ((taken.storePositivePathEntry now key record
        (incrementOutstandingLookup outstanding record.attr.ino)).rememberPositiveInode record).held i
        = taken.pendingRefs i + (taken.storePositivePathEntry now key record
          (incrementOutstandingLookup outstanding record.attr.ino)).outstandingRefs i := rfl
    have hbefore : taken.held i = taken.pendingRefs i + taken.outstandingRefs i := rfl
    dsimp only at htaken houts hheld ⊢
    omega
  · rw [if_neg httl]
    have hrelease := held_releaseOutstanding_le now taken outstanding i
    have hheld : (((taken.releaseOutstanding now outstanding).pushForget record.attr.ino
        1).retainLiveInodes now).held i
        = (taken.releaseOutstanding now outstanding).held i
          + if record.attr.ino = i then 1 else 0 := by
      simp only [held, pendingRefs, outstandingRefs, retainLiveInodes_pendingForgets,
        retainLiveInodes_paths, pushForget, tally_append, tally_cons, tally_nil]
      omega
    dsimp only at htaken ⊢
    omega

theorem insert_negative_sheds {r : PathResolver} {key : Str} (hkey : r.paths.lookup key = none)
    (e : NegativeEntry) : r.Sheds { r with paths := r.paths.insert key (.negative e) } := by
  intro i
  have herase := KeyedMap.total_erase (fun _ entry => tally (PathCacheEntry.outstanding entry) i)
    key r.paths
  rw [hkey, Option.elim_none] at herase
  refine le_of_eq ?_
  rw [held, held, outstandingRefs, outstandingRefs, herase, KeyedMap.total_insert]
  rfl

theorem rememberNegative_sheds (cf : CaseFold) (now : Instant) (r : PathResolver) (path : OsStr)
    (parent : INodeNo) (parentGeneration : Generation) (name : OsStr) :
    r.Sheds (r.rememberNegative cf now path parent parentGeneration name) := by
  let key := normalizePath cf path
  have hfresh : (r.purgePath now key).paths.lookup key = none := by
    rw [purgePath_paths, AList.lookup_erase]
  unfold rememberNegative
  dsimp only
  cases (r.purgePath now key).negativeTtl with
  | none => exact purgePath_sheds now r key
  | some ttl => exact (purgePath_sheds now r key).trans (insert_negative_sheds hfresh _)

theorem cached_sheds (cf : CaseFold) (now : Instant) (r : PathResolver) (path : OsStr)
    (parent : INodeNo) (parentGeneration : Generation) :
    r.Sheds (r.cached cf now path parent parentGeneration).2 := by
  unfold cached
  dsimp only
  split_ifs with hroot
  · exact .refl r
  rcases r.paths.lookup (normalizePath cf path) with _ | ⟨e⟩ | ⟨e⟩
  · exact .refl r
  · dsimp only
    split_ifs
    · exact dropPath_sheds now r _
    · exact .refl r
    · exact .refl r
    · exact dropPath_sheds now r _
  · dsimp only
    split_ifs
    · exact .refl r
    · exact removePath_sheds r _

theorem invalidateInodeAttr_sheds (now : Instant) (r : PathResolver) (ino : INodeNo) :
    r.Sheds (r.invalidateInodeAttr now ino) := sheds_of_eq rfl rfl

theorem cachedAttr_sheds (now : Instant) (r : PathResolver) (ino : INodeNo) :
    r.Sheds (r.cachedAttr now ino).2 := by
  unfold cachedAttr
  cases r.inodes.lookup ino with
  | none => exact .refl r
  | some state =>
      dsimp only
      split_ifs
      · exact .refl r
      · exact sheds_of_eq rfl rfl

theorem rememberAttr_sheds (now : Instant) (r : PathResolver) (ino : INodeNo) (attr : FileAttr)
    (ttl : Duration) : r.Sheds (r.rememberAttr now ino attr ttl) := by
  unfold rememberAttr
  split_ifs
  · exact sheds_of_eq rfl rfl
  · exact sheds_of_eq rfl rfl

theorem table_sheds (cf : CaseFold) (now : Instant) (o : TableOp) (r : PathResolver)
    (i : INodeNo) :
    (o.apply cf now r).2.held i ≤ r.held i + if o.recordedIno = some i then 1 else 0 := by
  have hsheds : ∀ {r' : PathResolver}, r.Sheds r' →
      r'.held i ≤ r.held i + if (none : Option INodeNo) = some i then 1 else 0 :=
    fun h => (h i).trans (Nat.le_add_right _ _)
  have hrecords : ∀ record : PositivePathRecord, (r.rememberPositive cf now record).2.held i
      ≤ r.held i + if some record.attr.ino = some i then 1 else 0 :=
    fun record => by simpa using held_rememberPositive_le cf now r record i
  cases o with
  | rememberPositive record => exact hrecords record
  | rememberCreated c => exact hrecords (c.record (r.generationFor c.parent))
  | rememberNegative path parent parentGeneration name =>
      exact hsheds (rememberNegative_sheds cf now r path parent parentGeneration name)
  | cached path parent parentGeneration =>
      exact hsheds (cached_sheds cf now r path parent parentGeneration)
  | cachedAttr ino => exact hsheds (cachedAttr_sheds now r ino)
  | rememberAttr ino attr ttl => exact hsheds (rememberAttr_sheds now r ino attr ttl)
  | invalidateInodeAttr ino => exact hsheds (invalidateInodeAttr_sheds now r ino)

/-- A notification drops the list it drains. -/
theorem notify_sheds (cf : CaseFold) (now : Instant) (n : NotifierCall) (r : PathResolver) :
    r.Sheds (n.apply cf now r) := by
  have hdrained : ∀ hits, r.Sheds (r.invalidateMatching now hits).2 := by
    intro hits i
    have h : tally (r.invalidateMatching now hits).1 i + (r.invalidateMatching now hits).2.held i
        ≤ r.held i :=
      (held_takePendingForgets _ i).le.trans (Sheds.foldl (purgePath_sheds now) _ r i)
    omega
  cases n with
  | invalInode ino => exact invalidateInodeAttr_sheds now r ino
  | invalEntry parent name => exact hdrained _
  | delete parent child name => exact (hdrained _).trans (invalidateInodeAttr_sheds now _ child)

end Confuse.PathResolver
