import Confuse.ResolverOp

/-!
# Entries and generations

Where the entries of the path table and the generations of the inode table come from. Sections that
record nothing only drop entries and keep generations, or set the generation of an unknown inode to
0; sections that record put one entry in the place of what its key had.
-/

namespace Confuse.PathResolver

/-- Every entry of `r` is one of `r₀`. -/
def Within (r r₀ : PathResolver) : Prop :=
  ∀ key e, r.paths.lookup key = some e → r₀.paths.lookup key = some e

/-- Every inode that the resolver knows has a generation that `P` allows. -/
def Marked (P : INodeNo → Generation → Prop) (r : PathResolver) : Prop :=
  ∀ i state, r.inodes.lookup i = some state → P i state.generation

/-! ## Dropping entries -/

theorem within_of_paths {r r₀ : PathResolver} (h : r.paths = r₀.paths) : r.Within r₀ :=
  fun _ _ he => h ▸ he

theorem Within.trans {r r₁ r₂ : PathResolver} (h : r.Within r₁) (h' : r₁.Within r₂) :
    r.Within r₂ := fun key e he => h' key e (h key e he)

theorem within_of_erase {r r₀ : PathResolver} {key : Str} (h : r.paths = r₀.paths.erase key) :
    r.Within r₀ := by
  intro key' e he
  rw [h] at he
  by_cases hkey : key' = key
  · rw [hkey, AList.lookup_erase] at he
    exact absurd he (by simp)
  · rwa [AList.lookup_erase_ne hkey] at he

theorem within_of_eraseAll {r r₀ : PathResolver} {keys : List Str}
    (h : r.paths = r₀.paths.eraseAll keys) : r.Within r₀ := by
  intro key e he
  rw [h, KeyedMap.lookup_eraseAll] at he
  split_ifs at he
  exact he

theorem drain_within (cf : CaseFold) (now : Instant) (o : DrainOp) (r : PathResolver) :
    (o.apply cf now r).2.Within r := by
  cases o with
  | takePendingForgets => exact within_of_paths rfl
  | reapExpired => exact within_of_eraseAll (reapExpired_paths now r)
  | invalidateSubtree path => exact within_of_eraseAll (invalidateMatching_paths now r _)

theorem notify_within (cf : CaseFold) (now : Instant) (n : NotifierCall) (r : PathResolver) :
    (n.apply cf now r).Within r := by
  cases n with
  | invalInode ino => exact within_of_paths rfl
  | invalEntry parent name => exact within_of_eraseAll (invalidateMatching_paths now r _)
  | delete parent child name =>
      have hentry : (r.invalidateEntryFromNotify cf now parent name).Within r :=
        within_of_eraseAll (invalidateMatching_paths now r _)
      exact (within_of_paths rfl).trans hentry

theorem cached_within (cf : CaseFold) (now : Instant) (r : PathResolver) (path : OsStr)
    (parent : INodeNo) (parentGeneration : Generation) :
    (r.cached cf now path parent parentGeneration).2.Within r := by
  have hdrop : ∀ key, (r.dropPath now key).Within r := fun key =>
    within_of_erase (dropPath_paths now r key)
  have hsame : r.Within r := within_of_paths rfl
  unfold cached
  dsimp only
  by_cases hroot : normalizePath cf path = ['\\']
  · rw [if_pos hroot]
    exact hsame
  rw [if_neg hroot]
  rcases r.paths.lookup (normalizePath cf path) with _ | ⟨e⟩ | ⟨e⟩
  · exact hsame
  · dsimp only
    split_ifs
    · exact hdrop _
    · exact hsame
    · exact hsame
    · exact hdrop _
  · dsimp only
    split_ifs
    · exact hsame
    · exact within_of_erase (removePath_paths r _)

/-- An invalidation leaves nothing at or below the path. -/
theorem not_inSubtree_of_invalidated {cf : CaseFold} {now : Instant} {r : PathResolver}
    {path : OsStr} {key : Str} {e : PathCacheEntry}
    (h : (r.invalidateSubtree cf now path).2.paths.lookup key = some e) :
    inSubtree (normalizePath cf path) key = false := by
  have hpaths : (r.invalidateSubtree cf now path).2.paths = _ := invalidateMatching_paths now r _
  rw [hpaths, KeyedMap.lookup_eraseAll_keysWhere] at h
  obtain ⟨-, hkept⟩ := Option.mem_filter_iff.mp h
  simpa using hkept

/-! ## Recording entries -/

/-- What `remember_positive` leaves at its key and elsewhere. -/
theorem rememberPositive_lookup {cf : CaseFold} {now : Instant} {r : PathResolver}
    {record : PositivePathRecord} {key : Str} {e : PathCacheEntry}
    (h : (r.rememberPositive cf now record).2.paths.lookup key = some e) :
    (key ≠ normalizePath cf record.path ∧ r.paths.lookup key = some e) ∨
      (key = normalizePath cf record.path ∧ ∃ expires outstanding, e = .positive
        ⟨record.parent, record.parentGeneration, record.name, record.attr.ino, record.generation,
          expires, outstanding⟩) := by
  unfold rememberPositive at h
  dsimp only at h
  have herase : ∀ {e : PathCacheEntry},
      (r.paths.erase (normalizePath cf record.path)).lookup key = some e →
        key ≠ normalizePath cf record.path ∧ r.paths.lookup key = some e := by
    intro e he
    have hkey : key ≠ normalizePath cf record.path := by
      rintro rfl
      rw [AList.lookup_erase] at he
      exact absurd he (by simp)
    exact ⟨hkey, by rwa [AList.lookup_erase_ne hkey] at he⟩
  split_ifs at h
  · rw [rememberPositiveInode_paths] at h
    unfold storePositivePathEntry at h
    dsimp only at h
    rw [takeReusableOutstanding_paths] at h
    by_cases hkey : key = normalizePath cf record.path
    · rw [hkey, AList.lookup_insert] at h
      exact .inr ⟨hkey, _, _, (Option.some.inj h).symm⟩
    · rw [AList.lookup_insert_ne hkey] at h
      exact .inl (herase h)
  · rw [retainLiveInodes_paths, pushForget_paths, releaseOutstanding_paths,
      takeReusableOutstanding_paths] at h
    exact .inl (herase h)

/-- What `remember_negative` leaves at its key and elsewhere. -/
theorem rememberNegative_lookup {cf : CaseFold} {now : Instant} {r : PathResolver} {path : OsStr}
    {parent : INodeNo} {parentGeneration : Generation} {name : OsStr} {key : Str}
    {e : PathCacheEntry}
    (h : (r.rememberNegative cf now path parent parentGeneration name).paths.lookup key = some e) :
    (key ≠ normalizePath cf path ∧ r.paths.lookup key = some e) ∨
      (key = normalizePath cf path ∧ ∃ expires, e = .negative
        ⟨parent, parentGeneration, name, expires⟩) := by
  unfold rememberNegative at h
  dsimp only at h
  by_cases hkey : key = normalizePath cf path
  · refine .inr ⟨hkey, ?_⟩
    subst hkey
    cases hnegative : (r.purgePath now (normalizePath cf path)).negativeTtl with
    | none =>
        rw [hnegative] at h
        dsimp only at h
        rw [purgePath_paths, AList.lookup_erase] at h
        exact absurd h (by simp)
    | some ttl =>
        rw [hnegative] at h
        dsimp only at h
        rw [AList.lookup_insert] at h
        exact ⟨_, (Option.some.inj h).symm⟩
  · refine .inl ⟨hkey, ?_⟩
    cases hnegative : (r.purgePath now (normalizePath cf path)).negativeTtl with
    | none =>
        rw [hnegative] at h
        dsimp only at h
        rwa [purgePath_paths, AList.lookup_erase_ne hkey] at h
    | some ttl =>
        rw [hnegative] at h
        dsimp only at h
        rwa [AList.lookup_insert_ne hkey, purgePath_paths, AList.lookup_erase_ne hkey] at h

/-! ## Generations -/

section Marked
variable {P : INodeNo → Generation → Prop} {r : PathResolver}

theorem Marked.of_inodes {r' : PathResolver} (h : r.Marked P) (hinodes : r'.inodes = r.inodes) :
    r'.Marked P := fun i state hi => h i state (hinodes ▸ hi)

theorem Marked.insert (h : r.Marked P) {i : INodeNo} {state : InodeState}
    (hstate : P i state.generation) {r' : PathResolver}
    (hinodes : r'.inodes = r.inodes.insert i state) : r'.Marked P := by
  intro j state' hj
  rw [hinodes] at hj
  by_cases hji : j = i
  · subst hji
    rw [AList.lookup_insert] at hj
    exact Option.some.inj hj ▸ hstate
  · rw [AList.lookup_insert_ne hji] at hj
    exact h j state' hj

theorem Marked.retainLiveInodes (h : r.Marked P) (now : Instant) :
    (r.retainLiveInodes now).Marked P := by
  intro i state hi
  have hlookup : (r.inodes.retain fun _ state => state.live now).lookup i = some state := hi
  rw [KeyedMap.lookup_retain] at hlookup
  exact h i state (Option.mem_filter_iff.mp hlookup).1

theorem Marked.clearAttrExpires (h : r.Marked P) (ino : INodeNo) :
    (r.clearAttrExpires ino).Marked P := by
  intro i state hi
  have hlookup : (r.inodes.modify ino fun state => { state with attrExpires := none }).lookup i
    = some state := hi
  rw [KeyedMap.lookup_modify] at hlookup
  split_ifs at hlookup with hino
  · obtain ⟨old, hold, rfl⟩ := Option.map_eq_some_iff.mp hlookup
    exact hino ▸ h ino old hold
  · exact h i state hlookup

theorem Marked.releaseLookup (h : r.Marked P) (e : INodeNo × ℕ) : (r.releaseLookup e).Marked P := by
  unfold PathResolver.releaseLookup
  cases hlookup : r.inodes.lookup e.1 with
  | none => exact h
  | some state =>
      refine h.insert (i := e.1) ?_ rfl
      exact h e.1 state hlookup

theorem Marked.foldl {ι : Type} {f : PathResolver → ι → PathResolver}
    (hf : ∀ r e, r.Marked P → (f r e).Marked P) (h : r.Marked P) (l : List ι) :
    (l.foldl f r).Marked P := by
  induction l generalizing r with
  | nil => exact h
  | cons e l ih => exact ih (hf r e h)

theorem Marked.releaseOutstanding (h : r.Marked P) (now : Instant) (outstanding : Forgets) :
    (r.releaseOutstanding now outstanding).Marked P :=
  (h.foldl (fun _ e hr => hr.releaseLookup e) outstanding).retainLiveInodes now

theorem Marked.removePath (h : r.Marked P) (key : Str) : (r.removePath key).Marked P :=
  h.of_inodes rfl

theorem Marked.dropPath (h : r.Marked P) (now : Instant) (key : Str) :
    (r.dropPath now key).Marked P := by
  unfold PathResolver.dropPath
  rcases r.paths.lookup key with _ | ⟨e⟩ | ⟨e⟩
  · exact h.removePath key
  · exact (h.removePath key).releaseOutstanding now e.outstanding
  · exact h.removePath key

theorem Marked.purgePath (h : r.Marked P) (now : Instant) (key : Str) :
    (r.purgePath now key).Marked P := by
  unfold PathResolver.purgePath
  rcases r.paths.lookup key with _ | ⟨e⟩ | ⟨e⟩
  · exact h.removePath key
  · exact ((h.removePath key).foldl (fun _ ino hr => hr.clearAttrExpires ino)
      (e.outstanding.map Prod.fst)).releaseOutstanding now e.outstanding
  · exact h.removePath key

theorem Marked.invalidateMatching (h : r.Marked P) (now : Instant)
    (hits : Str → PathCacheEntry → Bool) : (r.invalidateMatching now hits).2.Marked P := by
  have hpurged : ((r.paths.keysWhere hits).foldl (PathResolver.purgePath now) r).Marked P :=
    h.foldl (fun _ key hr => hr.purgePath now key) _
  exact Marked.retainLiveInodes (hpurged.of_inodes rfl) now

theorem Marked.drain (h : r.Marked P) (cf : CaseFold) (now : Instant) (o : DrainOp) :
    (o.apply cf now r).2.Marked P := by
  cases o with
  | takePendingForgets => exact h.of_inodes rfl
  | reapExpired =>
      have hdropped := h.foldl (fun _ key hr => hr.dropPath now key)
        (r.paths.keysWhere fun _ entry => entry.expires ≤ now)
      exact hdropped.of_inodes rfl
  | invalidateSubtree path => exact h.invalidateMatching now _

theorem Marked.notify (h : r.Marked P) (cf : CaseFold) (now : Instant) (n : NotifierCall) :
    (n.apply cf now r).Marked P := by
  cases n with
  | invalInode ino => exact (h.clearAttrExpires ino).retainLiveInodes now
  | invalEntry parent name => exact h.invalidateMatching now _
  | delete parent child name =>
      have hentry := h.invalidateMatching now fun _ entry => namesChild cf parent name entry
      exact (hentry.clearAttrExpires child).retainLiveInodes now

theorem Marked.rememberPositive (h : r.Marked P) (cf : CaseFold) (now : Instant)
    {record : PositivePathRecord}
    (hrecord : record.ttl.isZero = false → P record.attr.ino record.generation) :
    (r.rememberPositive cf now record).2.Marked P := by
  have htaken : (r.takeReusableOutstanding now (normalizePath cf record.path) record.attr.ino
      record.ttl).2.Marked P := by
    unfold takeReusableOutstanding
    rcases r.paths.lookup (normalizePath cf record.path) with _ | ⟨e⟩ | ⟨e⟩
    · exact h.removePath _
    · dsimp only
      split_ifs
      · exact h.removePath _
      · exact (h.removePath _).releaseOutstanding now e.outstanding
    · exact h.removePath _
  unfold PathResolver.rememberPositive
  dsimp only
  split_ifs with hkept
  · refine htaken.insert (i := record.attr.ino) ?_ rfl
    split <;> exact hrecord hkept
  · exact Marked.retainLiveInodes ((htaken.releaseOutstanding now _).of_inodes rfl) now

theorem Marked.rememberAttr (h : r.Marked P) (hzero : ∀ i, P i ⟨0⟩) (now : Instant)
    (ino : INodeNo) (attr : FileAttr) (ttl : Duration) :
    (r.rememberAttr now ino attr ttl).Marked P := by
  unfold PathResolver.rememberAttr
  split_ifs
  · exact h.clearAttrExpires ino
  · refine h.insert (i := ino) ?_ rfl
    cases hlookup : r.inodes.lookup ino with
    | none => exact hzero ino
    | some state => exact h ino state hlookup

theorem Marked.invalidateInodeAttr (h : r.Marked P) (now : Instant) (ino : INodeNo) :
    (r.invalidateInodeAttr now ino).Marked P := (h.clearAttrExpires ino).retainLiveInodes now

theorem Marked.cachedAttr (h : r.Marked P) (now : Instant) (ino : INodeNo) :
    (r.cachedAttr now ino).2.Marked P := by
  unfold PathResolver.cachedAttr
  cases r.inodes.lookup ino with
  | none => exact h
  | some state =>
      dsimp only
      split_ifs
      · exact h
      · exact h.invalidateInodeAttr now ino

theorem Marked.cached (h : r.Marked P) (cf : CaseFold) (now : Instant) (path : OsStr)
    (parent : INodeNo) (parentGeneration : Generation) :
    (r.cached cf now path parent parentGeneration).2.Marked P := by
  unfold PathResolver.cached
  dsimp only
  by_cases hroot : normalizePath cf path = ['\\']
  · rw [if_pos hroot]
    exact h
  rw [if_neg hroot]
  rcases r.paths.lookup (normalizePath cf path) with _ | ⟨e⟩ | ⟨e⟩
  · exact h
  · dsimp only
    split_ifs
    · exact h.dropPath now _
    · exact h
    · exact h
    · exact h.dropPath now _
  · dsimp only
    split_ifs
    · exact h
    · exact h.of_inodes rfl

theorem Marked.rememberNegative (h : r.Marked P) (cf : CaseFold) (now : Instant) (path : OsStr)
    (parent : INodeNo) (parentGeneration : Generation) (name : OsStr) :
    (r.rememberNegative cf now path parent parentGeneration name).Marked P := by
  have hpurged := h.purgePath now (normalizePath cf path)
  unfold PathResolver.rememberNegative
  dsimp only
  cases (r.purgePath now (normalizePath cf path)).negativeTtl with
  | none => exact hpurged
  | some ttl => exact hpurged.of_inodes rfl

theorem Marked.generationFor (h : r.Marked P) (hzero : ∀ i, P i ⟨0⟩) (i : INodeNo) :
    P i (r.generationFor i) := by
  unfold PathResolver.generationFor
  cases hlookup : r.inodes.lookup i with
  | none => exact hzero i
  | some state => exact h i state hlookup

end Marked
end Confuse.PathResolver
