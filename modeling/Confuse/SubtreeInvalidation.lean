import Confuse.NamespaceRoutes
import Confuse.ResolverHistory
import Confuse.TimedAttributes

/-!
# Invalidating a subtree

`invalidate_subtree` takes the entries whose components start with those of the path, and nothing
else: their references are queued as far as the counts of the inodes cover them, everything queued is
handed out, and the attributes of their inodes are gone.
-/

namespace Confuse

open PathResolver History

namespace PathResolver

/-! ## Keys -/

/-- Every key is the key of some path. -/
def KeysNormalized (cf : CaseFold) (r : PathResolver) : Prop :=
  ∀ key e, r.paths.lookup key = some e → ∃ path, key = normalizePath cf path

theorem KeysNormalized.within {cf : CaseFold} {r r' : PathResolver} (h : r.KeysNormalized cf)
    (hr' : r'.Within r) : r'.KeysNormalized cf := fun key e he => h key e (hr' key e he)

theorem KeysNormalized.rememberPositive {cf : CaseFold} {r : PathResolver}
    (h : r.KeysNormalized cf) (now : Instant) (record : PositivePathRecord) :
    (r.rememberPositive cf now record).2.KeysNormalized cf := by
  intro key e he
  rcases rememberPositive_lookup he with ⟨-, hbefore⟩ | ⟨hkey, -⟩
  · exact h key e hbefore
  · exact ⟨record.path, hkey⟩

theorem KeysNormalized.table {cf : CaseFold} {r : PathResolver} (h : r.KeysNormalized cf)
    (now : Instant) (o : TableOp) : (o.apply cf now r).2.KeysNormalized cf := by
  cases o with
  | rememberPositive record => exact h.rememberPositive now record
  | rememberCreated created => exact h.rememberPositive now _
  | rememberNegative path parent parentGeneration name =>
      intro key e he
      rcases rememberNegative_lookup he with ⟨-, hbefore⟩ | ⟨hkey, -⟩
      · exact h key e hbefore
      · exact ⟨path, hkey⟩
  | cached path parent parentGeneration => exact h.within (cached_within cf now r path _ _)
  | cachedAttr ino => exact h.within (within_of_paths (cachedAttr_paths now r ino))
  | rememberAttr ino attr ttl =>
      exact h.within (within_of_paths (rememberAttr_paths now r ino attr ttl))
  | invalidateInodeAttr ino => exact h.within (within_of_paths rfl)


theorem Reachable.keysNormalized {cf : CaseFold} {r : PathResolver} (h : Reachable cf r) :
    r.KeysNormalized cf := by
  induction h with
  | default => exact fun key e he => by simp at he
  | setNegativeTtl ttl _ ih => exact ih
  | op now o _ ih =>
      cases o with
      | table o => exact ih.table now o
      | drain o => exact ih.within (drain_within cf now o _)
  | notify now n _ ih => exact ih.within (notify_within cf now n _)

/-- The components of the key start with those of the path, lower-cased. -/
def LiesBelow (cf : CaseFold) (path : OsStr) (key : Str) : Prop :=
  (normalizedComponents path).map cf.toLowercase <+: pathParts key

instance (cf : CaseFold) (path : OsStr) (key : Str) : Decidable (LiesBelow cf path key) :=
  inferInstanceAs (Decidable (_ <+: _))

/-- The string test of `invalidate_subtree` is the prefix test of the components. -/
theorem inSubtree_iff_liesBelow (cf : CaseFold) (path path' : OsStr) :
    inSubtree (normalizePath cf path) (normalizePath cf path') = true
      ↔ LiesBelow cf path (normalizePath cf path') := by
  have hcomponents := isComponent_keyOf cf path'
  unfold LiesBelow
  rw [normalizePath_eq cf path', pathParts_joinPath fun p hp => (hcomponents p hp).isPart]
  by_cases hroot : keyOf cf path = []
  · have hall : inSubtree ['\\'] (joinPath (keyOf cf path')) = true := by
      cases hkey : keyOf cf path' with
      | nil => decide
      | cons p rest =>
          rw [joinPath_cons]
          simp [inSubtree]
    rw [normalizePath_eq cf path, hroot, joinPath_nil]
    exact iff_of_true hall (hroot.symm ▸ List.nil_prefix : keyOf cf path <+: keyOf cf path')
  · exact inSubtree_joinPath (isComponent_keyOf cf path) hcomponents hroot

variable (cf : CaseFold) (now : Instant) (path : OsStr) {r : PathResolver}

/-- An entry stays exactly when it does not lie below, and stays as it is. -/
theorem lookup_invalidateSubtree (hr : r.KeysNormalized cf) (key : Str) :
    (r.invalidateSubtree cf now path).2.paths.lookup key
      = if LiesBelow cf path key then none else r.paths.lookup key := by
  have hpaths : (r.invalidateSubtree cf now path).2.paths
      = r.paths.eraseAll (r.paths.keysWhere fun k _ => inSubtree (normalizePath cf path) k) :=
    invalidateMatching_paths now r _
  rw [hpaths, KeyedMap.lookup_eraseAll_keysWhere]
  cases he : r.paths.lookup key with
  | none => simp
  | some e =>
      obtain ⟨path', rfl⟩ := hr key e he
      have hbelow := inSubtree_iff_liesBelow cf path path'
      rw [Option.filter_some]
      by_cases hin : LiesBelow cf path (normalizePath cf path')
      · rw [if_pos hin, hbelow.mpr hin]
        rfl
      · rw [if_neg hin, Bool.eq_false_iff.mpr (hbelow.not.mpr hin)]
        rfl

/-- The references on an inode that the entries below the path hold. -/
def refsBelow (r : PathResolver) (i : INodeNo) : ℕ :=
  r.paths.total fun key entry => if LiesBelow cf path key then tally entry.outstanding i else 0

theorem outstandingRefs_split (hr : r.KeysNormalized cf) (i : INodeNo) :
    r.outstandingRefs i = r.refsBelow cf path i
      + (r.invalidateSubtree cf now path).2.outstandingRefs i := by
  have hpaths : (r.invalidateSubtree cf now path).2.paths
      = r.paths.eraseAll (r.paths.keysWhere fun k _ => inSubtree (normalizePath cf path) k) :=
    invalidateMatching_paths now r _
  have htotal := KeyedMap.total_eraseAll_keysWhere (fun _ entry => tally entry.outstanding i)
    (fun k _ => inSubtree (normalizePath cf path) k) r.paths
  rw [outstandingRefs, outstandingRefs, hpaths, htotal, refsBelow]
  congr 1
  refine KeyedMap.total_congr fun key e he => ?_
  obtain ⟨path', rfl⟩ := hr key e he
  have hbelow := inSubtree_iff_liesBelow cf path path'
  by_cases hin : LiesBelow cf path (normalizePath cf path')
  · rw [if_pos hin, if_pos (hbelow.mpr hin)]
  · rw [if_neg hin, if_neg (hbelow.not.mpr hin)]

/-! ## What is queued -/

theorem invalidatePositiveOutstanding_counts (now : Instant) (r : PathResolver)
    (outstanding : Forgets) (i : INodeNo) :
    (r.invalidatePositiveOutstanding now outstanding).refcount i
        = r.refcount i - tally outstanding i ∧
      (r.invalidatePositiveOutstanding now outstanding).pendingRefs i
        = r.pendingRefs i + min (r.refcount i) (tally outstanding i) := by
  obtain ⟨hpending, hcount⟩ := foldl_clearAttrExpires (outstanding.map Prod.fst) r
  obtain ⟨hcount', hpending'⟩ := foldl_releaseLookup_counts outstanding
    ((outstanding.map Prod.fst).foldl clearAttrExpires r) i
  rw [hcount] at hcount' hpending'
  constructor
  · rw [← hcount']
    exact retainLiveInodes_refcount now _ i
  · refine hpending'.trans ?_
    rw [pendingRefs, pendingRefs, hpending]

/-- Purging a key takes the references of its entry off the table and queues them as far as the
refcounts go. -/
theorem purgePath_counts (now : Instant) (r : PathResolver) (key : Str) (i : INodeNo) :
    ∃ removed, r.outstandingRefs i = removed + (r.purgePath now key).outstandingRefs i ∧
      (r.purgePath now key).refcount i = r.refcount i - removed ∧
      (r.purgePath now key).pendingRefs i = r.pendingRefs i + min (r.refcount i) removed := by
  refine ⟨tally (r.entryRefs key) i, ?_, ?_⟩
  · have hpaths : (r.purgePath now key).outstandingRefs i = (r.removePath key).outstandingRefs i := by
      rw [outstandingRefs, outstandingRefs, purgePath_paths]
      rfl
    rw [hpaths]
    exact outstandingRefs_removePath r key i
  · unfold purgePath entryRefs
    rcases r.paths.lookup key with _ | ⟨e⟩ | ⟨e⟩
    · simp [removePath, refcount, pendingRefs]
    · exact invalidatePositiveOutstanding_counts now (r.removePath key) e.outstanding i
    · simp [removePath, refcount, pendingRefs, PathCacheEntry.outstanding]

theorem foldl_purgePath_counts (now : Instant) (keys : List Str) (r : PathResolver) (i : INodeNo) :
    ∃ removed, r.outstandingRefs i = removed + (keys.foldl (purgePath now) r).outstandingRefs i ∧
      (keys.foldl (purgePath now) r).pendingRefs i
        = r.pendingRefs i + min (r.refcount i) removed := by
  suffices h : ∃ removed, r.outstandingRefs i
        = removed + (keys.foldl (purgePath now) r).outstandingRefs i ∧
      (keys.foldl (purgePath now) r).refcount i = r.refcount i - removed ∧
      (keys.foldl (purgePath now) r).pendingRefs i
        = r.pendingRefs i + min (r.refcount i) removed by
    obtain ⟨removed, houtstanding, -, hpending⟩ := h
    exact ⟨removed, houtstanding, hpending⟩
  induction keys generalizing r with
  | nil => exact ⟨0, by simp⟩
  | cons key keys ih =>
      obtain ⟨removed, houtstanding, hcount, hpending⟩ := purgePath_counts now r key i
      obtain ⟨removed', houtstanding', hcount', hpending'⟩ := ih (r.purgePath now key)
      refine ⟨removed + removed', ?_⟩
      rw [List.foldl_cons]
      omega

/-- What is handed out: what was queued before, and the references of the removed entries as far as
the refcount of the inode goes. -/
theorem tally_invalidateSubtree (cf : CaseFold) (now : Instant) (path : OsStr) {r : PathResolver}
    (hr : r.KeysNormalized cf) (i : INodeNo) :
    tally (r.invalidateSubtree cf now path).1 i
      = r.pendingRefs i + min (r.refcount i) (r.refsBelow cf path i) := by
  have hsplit := outstandingRefs_split cf now path hr i
  obtain ⟨removed, houtstanding, hpending⟩ := foldl_purgePath_counts now
    (r.paths.keysWhere fun k _ => inSubtree (normalizePath cf path) k) r i
  have hstays : (r.invalidateSubtree cf now path).2.outstandingRefs i
      = ((r.paths.keysWhere fun k _ => inSubtree (normalizePath cf path) k).foldl (purgePath now)
        r).outstandingRefs i := rfl
  have hremoved : removed = r.refsBelow cf path i := by omega
  rw [← hremoved]
  exact hpending

theorem cachedAttr_of_timedAttr {r : PathResolver} {i : INodeNo} (h : r.timedAttr i = none)
    (now : Instant) : (r.cachedAttr now i).1 = none := by
  unfold timedAttr at h
  unfold cachedAttr
  cases hstate : r.inodes.lookup i with
  | none => rfl
  | some state =>
      rw [hstate, Option.bind_some, Option.map_eq_none_iff] at h
      simp [h]

end PathResolver

/-! ## Every history -/

/-- After any history an invalidation removes exactly the entries at or below the path and leaves the
others as they were; nothing stays queued; the inodes of the removed entries have no attributes left;
and what is handed out are the references queued before and those of the removed entries, the latter as
far as the count of the inode goes, which below 2^64 recorded lookups is all of them. -/
theorem invalidate_subtree_exact (cf : CaseFold) (h : History) (now : Instant) (path : OsStr) :
    let before := h.state cf
    let removed := before.invalidateSubtree cf now path
    (∀ key, removed.2.paths.lookup key
      = if LiesBelow cf path key then none else before.paths.lookup key) ∧
    removed.2.pendingForgets = [] ∧
    (∀ key e, before.paths.lookup key = some (.positive e) → LiesBelow cf path key →
      ∀ later, (removed.2.cachedAttr later e.ino).1 = none) ∧
    (∀ i, tally removed.1 i
      = tally before.pendingForgets i + min (before.refcount i) (before.refsBelow cf path i)) ∧
    (h.recordings < 2 ^ 64 → ∀ i, tally removed.1 i
      = tally before.pendingForgets i + before.refsBelow cf path i) := by
  intro before removed
  have hreachable := History.reachable_state cf h
  have hkeys := hreachable.keysNormalized
  have htally := tally_invalidateSubtree cf now path hkeys
  refine ⟨lookup_invalidateSubtree cf now path hkeys, rfl, ?_, htally, ?_⟩
  · intro key e he hbelow later
    refine cachedAttr_of_timedAttr (timedAttr_invalidateSubtree cf now hreachable.shaped path
      ⟨key, e, he, rfl, ?_⟩) later
    obtain ⟨path', rfl⟩ := hkeys key _ he
    exact (inSubtree_iff_liesBelow cf path path').mpr hbelow
  · intro hcount i
    have hbalanced := (History.state_balanced cf hcount).1 i
    have hsplit := outstandingRefs_split cf now path hkeys i
    rw [tally_nil] at hbalanced
    rw [htally i, min_eq_right (by omega)]
    rfl

theorem invalidate_subtree_exact_longLink :
    tally ((state CharFold.ascii.toCaseFold [(0, longLink)]).invalidateSubtree
      CharFold.ascii.toCaseFold 5 (.new ['/', 'B'])).1 ⟨5⟩ = 1 :=
  (invalidate_subtree_exact CharFold.ascii.toCaseFold [(0, longLink)] 5
    (.new ['/', 'B'])).2.2.2.2 (by decide) ⟨5⟩

/-- 2^64 lookups of one link and one of another saturate the count of the inode; invalidating the root
hands out one reference less than the two entries hold. -/
theorem invalidation_short_after_saturation :
    ¬ ∀ (cf : CaseFold) (h : History) (now : Instant) (path : OsStr) (i : INodeNo),
      tally ((h.state cf).invalidateSubtree cf now path).1 i
        = tally (h.state cf).pendingForgets i + (h.state cf).refsBelow cf path i := by
  intro hall
  let cf := CharFold.ascii.toCaseFold
  let links : History := (0, longLink) :: List.replicate (2 ^ 64) (0, shortLink)
  have hstate : links.state cf = longLink.apply cf 0 (shortLinked (2 ^ 64 - 1)) := by
    have hlinks := state_shortLinks (2 ^ 64 - 1)
    rw [Nat.sub_add_cancel (Nat.one_le_two_pow), min_eq_right (Nat.sub_le _ _)] at hlinks
    exact congrArg (longLink.apply cf 0) hlinks
  have hroot := hall cf links 0 (.new ['\\']) ⟨5⟩
  rw [tally_invalidateSubtree cf 0 _ (reachable_state cf links).keysNormalized, hstate] at hroot
  have hcount : ∀ n, (longLink.apply cf 0 (shortLinked n)).refcount ⟨5⟩ = saturatingAdd n 1 :=
    fun _ => rfl
  have hrefs : ∀ n, (longLink.apply cf 0 (shortLinked n)).refsBelow cf (.new ['\\']) ⟨5⟩
      = 1 + n := fun _ => rfl
  rw [hcount, hrefs, pendingRefs, saturatingAdd] at hroot
  omega

end Confuse
