import Confuse.AttributeHistory
import Confuse.EventLog
import Confuse.ResolverEntries

/-!
# Where attributes come from

Attributes with a validity, elapsed or not, are put into the inode table by `remember_attr` alone;
every other section keeps or removes them. This does not depend on the clock.
-/

namespace Confuse
namespace PathResolver

/-- The attributes of an inode that were remembered and not invalidated since. -/
def timedAttr (r : PathResolver) (i : INodeNo) : Option FileAttr :=
  (r.inodes.lookup i).bind fun state => state.attrExpires.map fun _ => state.attr

/-- All attributes of `r` are attributes of `r₀`. -/
def AttrsWithin (r r₀ : PathResolver) : Prop :=
  ∀ i attr, r.timedAttr i = some attr → r₀.timedAttr i = some attr

/-- What the attribute cache serves was remembered. -/
theorem timedAttr_of_cachedAttr {now : Instant} {r : PathResolver} {i : INodeNo} {attr : FileAttr}
    (h : (r.cachedAttr now i).1 = some attr) : r.timedAttr i = some attr := by
  unfold cachedAttr at h
  unfold timedAttr
  cases hlookup : r.inodes.lookup i with
  | none => simp [hlookup] at h
  | some state =>
      simp only [hlookup] at h
      split_ifs at h with hlive
      cases hexpires : state.attrExpires with
      | none => simp [hexpires] at hlive
      | some expires => simpa [hexpires] using h

theorem attrsWithin_of_inodes {r r₀ : PathResolver} (h : r.inodes = r₀.inodes) :
    r.AttrsWithin r₀ := by
  intro i attr hattr
  rwa [timedAttr, h] at hattr

theorem AttrsWithin.trans {r r₁ r₂ : PathResolver} (h : r.AttrsWithin r₁) (h' : r₁.AttrsWithin r₂) :
    r.AttrsWithin r₂ := fun i attr hattr => h' i attr (h i attr hattr)

theorem AttrsWithin.foldl {ι : Type} {f : PathResolver → ι → PathResolver}
    (hf : ∀ r e, (f r e).AttrsWithin r) (l : List ι) (r : PathResolver) :
    (l.foldl f r).AttrsWithin r := by
  induction l generalizing r with
  | nil => exact attrsWithin_of_inodes rfl
  | cons e l ih => exact (ih (f r e)).trans (hf r e)

/-! ## Releasing and invalidating -/

theorem retainLiveInodes_attrsWithin (now : Instant) (r : PathResolver) :
    (r.retainLiveInodes now).AttrsWithin r := by
  intro i attr hattr
  unfold timedAttr retainLiveInodes at hattr
  rw [KeyedMap.lookup_retain] at hattr
  obtain ⟨state, hstate, hattr⟩ := Option.bind_eq_some_iff.mp hattr
  rw [timedAttr, (Option.filter_eq_some_iff.mp hstate).1]
  exact hattr

theorem timedAttr_clearAttrExpires (r : PathResolver) (ino i : INodeNo) :
    (r.clearAttrExpires ino).timedAttr i = if ino = i then none else r.timedAttr i := by
  unfold timedAttr clearAttrExpires
  rw [KeyedMap.lookup_modify]
  by_cases hi : i = ino
  · rw [if_pos hi, if_pos hi.symm]
    cases r.inodes.lookup ino <;> rfl
  · rw [if_neg hi, if_neg (Ne.symm hi)]

theorem clearAttrExpires_attrsWithin (r : PathResolver) (ino : INodeNo) :
    (r.clearAttrExpires ino).AttrsWithin r := by
  intro i attr hattr
  rw [timedAttr_clearAttrExpires] at hattr
  split_ifs at hattr
  exact hattr

theorem invalidateInodeAttr_attrsWithin (now : Instant) (r : PathResolver) (ino : INodeNo) :
    (r.invalidateInodeAttr now ino).AttrsWithin r :=
  (retainLiveInodes_attrsWithin now _).trans (clearAttrExpires_attrsWithin r ino)

theorem timedAttr_invalidateInodeAttr (now : Instant) (r : PathResolver) (ino : INodeNo) :
    (r.invalidateInodeAttr now ino).timedAttr ino = none := by
  rw [Option.eq_none_iff_forall_ne_some]
  intro attr hattr
  have hcleared := retainLiveInodes_attrsWithin now _ ino attr hattr
  rw [timedAttr_clearAttrExpires, if_pos rfl] at hcleared
  cases hcleared

theorem releaseLookup_attrsWithin (r : PathResolver) (e : INodeNo × ℕ) :
    (r.releaseLookup e).AttrsWithin r := by
  unfold releaseLookup
  cases hlookup : r.inodes.lookup e.1 with
  | none => exact attrsWithin_of_inodes rfl
  | some state =>
      intro i attr hattr
      unfold timedAttr at hattr ⊢
      dsimp only at hattr
      by_cases hi : i = e.1
      · rw [hi, AList.lookup_insert] at hattr
        rwa [hi, hlookup]
      · rwa [AList.lookup_insert_ne hi] at hattr

theorem releaseOutstanding_attrsWithin (now : Instant) (r : PathResolver) (outstanding : Forgets) :
    (r.releaseOutstanding now outstanding).AttrsWithin r :=
  (retainLiveInodes_attrsWithin now _).trans (.foldl releaseLookup_attrsWithin outstanding r)

theorem dropPath_attrsWithin (now : Instant) (r : PathResolver) (key : Str) :
    (r.dropPath now key).AttrsWithin r := by
  unfold dropPath
  rcases r.paths.lookup key with _ | ⟨e⟩ | ⟨e⟩
  · exact attrsWithin_of_inodes rfl
  · exact (releaseOutstanding_attrsWithin now _ e.outstanding).trans (attrsWithin_of_inodes rfl)
  · exact attrsWithin_of_inodes rfl

theorem purgePath_attrsWithin (now : Instant) (r : PathResolver) (key : Str) :
    (r.purgePath now key).AttrsWithin r := by
  unfold purgePath
  rcases r.paths.lookup key with _ | ⟨e⟩ | ⟨e⟩
  · exact attrsWithin_of_inodes rfl
  · have hcleared : ((e.outstanding.map Prod.fst).foldl clearAttrExpires
        (r.removePath key)).AttrsWithin r :=
      (AttrsWithin.foldl clearAttrExpires_attrsWithin _ _).trans (attrsWithin_of_inodes rfl)
    exact (releaseOutstanding_attrsWithin now _ e.outstanding).trans hcleared
  · exact attrsWithin_of_inodes rfl

theorem invalidateMatching_attrsWithin (now : Instant) (r : PathResolver)
    (hits : Str → PathCacheEntry → Bool) : (r.invalidateMatching now hits).2.AttrsWithin r := by
  have hpurged := AttrsWithin.foldl (purgePath_attrsWithin now) (r.paths.keysWhere hits) r
  exact (retainLiveInodes_attrsWithin now _).trans ((attrsWithin_of_inodes rfl).trans hpurged)

theorem drain_attrsWithin (cf : CaseFold) (now : Instant) (o : DrainOp) (r : PathResolver) :
    (o.apply cf now r).2.AttrsWithin r := by
  cases o with
  | takePendingForgets => exact attrsWithin_of_inodes rfl
  | reapExpired =>
      have hdropped := AttrsWithin.foldl (dropPath_attrsWithin now)
        (r.paths.keysWhere fun _ entry => entry.expires ≤ now) r
      exact (attrsWithin_of_inodes rfl).trans hdropped
  | invalidateSubtree path => exact invalidateMatching_attrsWithin now r _

theorem notify_attrsWithin (cf : CaseFold) (now : Instant) (n : NotifierCall) (r : PathResolver) :
    (n.apply cf now r).AttrsWithin r := by
  cases n with
  | invalInode ino => exact invalidateInodeAttr_attrsWithin now r ino
  | invalEntry parent name => exact invalidateMatching_attrsWithin now r _
  | delete parent child name =>
      exact (invalidateInodeAttr_attrsWithin now _ child).trans
        (invalidateMatching_attrsWithin now r fun _ entry => namesChild cf parent name entry)

/-! ## Serving and recording -/

theorem cached_attrsWithin (cf : CaseFold) (now : Instant) (r : PathResolver) (path : OsStr)
    (parent : INodeNo) (parentGeneration : Generation) :
    (r.cached cf now path parent parentGeneration).2.AttrsWithin r := by
  have hsame : r.AttrsWithin r := attrsWithin_of_inodes rfl
  unfold cached
  dsimp only
  by_cases hroot : normalizePath cf path = ['\\']
  · rw [if_pos hroot]
    exact hsame
  rw [if_neg hroot]
  rcases r.paths.lookup (normalizePath cf path) with _ | ⟨e⟩ | ⟨e⟩
  · exact hsame
  · dsimp only
    split_ifs
    · exact dropPath_attrsWithin now r _
    · exact hsame
    · exact hsame
    · exact dropPath_attrsWithin now r _
  · dsimp only
    split_ifs
    · exact hsame
    · exact attrsWithin_of_inodes rfl

theorem cachedAttr_attrsWithin (now : Instant) (r : PathResolver) (ino : INodeNo) :
    (r.cachedAttr now ino).2.AttrsWithin r := by
  unfold cachedAttr
  cases r.inodes.lookup ino with
  | none => exact attrsWithin_of_inodes rfl
  | some state =>
      dsimp only
      split_ifs
      · exact attrsWithin_of_inodes rfl
      · exact invalidateInodeAttr_attrsWithin now r ino

theorem takeReusableOutstanding_attrsWithin (now : Instant) (r : PathResolver) (key : Str)
    (ino : INodeNo) (ttl : Duration) :
    (r.takeReusableOutstanding now key ino ttl).2.AttrsWithin r := by
  unfold takeReusableOutstanding
  rcases r.paths.lookup key with _ | ⟨e⟩ | ⟨e⟩
  · exact attrsWithin_of_inodes rfl
  · dsimp only
    split_ifs
    · exact attrsWithin_of_inodes rfl
    · exact (releaseOutstanding_attrsWithin now _ e.outstanding).trans (attrsWithin_of_inodes rfl)
  · exact attrsWithin_of_inodes rfl

/-- A lookup fills in attributes only where they have no validity. -/
theorem rememberPositiveInode_attrsWithin (r : PathResolver) (record : PositivePathRecord) :
    (r.rememberPositiveInode record).AttrsWithin r := by
  intro i attr hattr
  unfold timedAttr rememberPositiveInode at hattr
  dsimp only at hattr
  by_cases hi : i = record.attr.ino
  · rw [hi, AList.lookup_insert] at hattr
    unfold timedAttr
    rw [hi]
    cases hlookup : r.inodes.lookup record.attr.ino with
    | none => simp [hlookup] at hattr
    | some state =>
        cases hexpires : state.attrExpires with
        | none => simp [hlookup, hexpires] at hattr
        | some expires => simpa [hlookup, hexpires] using hattr
  · rwa [AList.lookup_insert_ne hi] at hattr

theorem rememberPositive_attrsWithin (cf : CaseFold) (now : Instant) (r : PathResolver)
    (record : PositivePathRecord) : (r.rememberPositive cf now record).2.AttrsWithin r := by
  have htaken := takeReusableOutstanding_attrsWithin now r (normalizePath cf record.path)
    record.attr.ino record.ttl
  unfold rememberPositive
  dsimp only
  split_ifs
  · exact (rememberPositiveInode_attrsWithin _ record).trans
      ((attrsWithin_of_inodes rfl).trans htaken)
  · have hreleased := (releaseOutstanding_attrsWithin now _
      (r.takeReusableOutstanding now (normalizePath cf record.path) record.attr.ino
        record.ttl).1).trans htaken
    exact (retainLiveInodes_attrsWithin now _).trans
      ((attrsWithin_of_inodes rfl).trans hreleased)

theorem rememberNegative_attrsWithin (cf : CaseFold) (now : Instant) (r : PathResolver)
    (path : OsStr) (parent : INodeNo) (parentGeneration : Generation) (name : OsStr) :
    (r.rememberNegative cf now path parent parentGeneration name).AttrsWithin r := by
  have hpurged := purgePath_attrsWithin now r (normalizePath cf path)
  unfold rememberNegative
  dsimp only
  cases (r.purgePath now (normalizePath cf path)).negativeTtl with
  | none => exact hpurged
  | some ttl => exact (attrsWithin_of_inodes rfl).trans hpurged

/-- `remember_attr` puts in its own attributes, or takes away those of its inode. -/
theorem timedAttr_rememberAttr {now : Instant} {r : PathResolver} {ino i : INodeNo}
    {attr attr' : FileAttr} {ttl : Duration}
    (h : (r.rememberAttr now ino attr ttl).timedAttr i = some attr') :
    (i = ino ∧ attr' = attr) ∨ r.timedAttr i = some attr' := by
  unfold rememberAttr at h
  split_ifs at h
  · exact .inr (clearAttrExpires_attrsWithin r ino i attr' h)
  · by_cases hi : i = ino
    · unfold timedAttr at h
      dsimp only at h
      rw [hi, AList.lookup_insert] at h
      refine .inl ⟨hi, ?_⟩
      cases hlookup : r.inodes.lookup ino <;> simpa [hlookup] using h.symm
    · refine .inr ?_
      unfold timedAttr at h
      dsimp only at h
      rwa [AList.lookup_insert_ne hi] at h

theorem timedAttr_table {cf : CaseFold} {now : Instant} {o : TableOp} {r : PathResolver}
    {i : INodeNo} {attr : FileAttr} (h : (o.apply cf now r).2.timedAttr i = some attr) :
    (∃ ttl, o = .rememberAttr i attr ttl) ∨ r.timedAttr i = some attr := by
  cases o with
  | rememberPositive record => exact .inr (rememberPositive_attrsWithin cf now r record i attr h)
  | rememberCreated c => exact .inr (rememberPositive_attrsWithin cf now r _ i attr h)
  | rememberNegative path parent parentGeneration name =>
      exact .inr (rememberNegative_attrsWithin cf now r path parent parentGeneration name i attr h)
  | cached path parent parentGeneration =>
      exact .inr (cached_attrsWithin cf now r path parent parentGeneration i attr h)
  | cachedAttr ino => exact .inr (cachedAttr_attrsWithin now r ino i attr h)
  | rememberAttr ino attr' ttl =>
      refine (timedAttr_rememberAttr h).imp ?_ id
      rintro ⟨rfl, rfl⟩
      exact ⟨ttl, rfl⟩
  | invalidateInodeAttr ino => exact .inr (invalidateInodeAttr_attrsWithin now r ino i attr h)

/-! ## Purging -/

/-- From `r` to `r'` an entry goes only together with the attributes of its inode. -/
def Purges (r r' : PathResolver) : Prop :=
  ∀ i attr, r'.timedAttr i = some attr → r.timedAttr i = some attr ∧
    ∀ key e, r.paths.lookup key = some (.positive e) → e.ino = i →
      r'.paths.lookup key = some (.positive e)

theorem Purges.trans {r r' r'' : PathResolver} (h : r.Purges r') (h' : r'.Purges r'') :
    r.Purges r'' := by
  intro i attr hattr
  obtain ⟨hattr', hkept'⟩ := h' i attr hattr
  obtain ⟨hattr'', hkept⟩ := h i attr hattr'
  exact ⟨hattr'', fun key e he hi => hkept' key e (hkept key e he hi) hi⟩

theorem purges_of_paths {r r' : PathResolver} (hattrs : r'.AttrsWithin r)
    (hpaths : r'.paths = r.paths) : r.Purges r' := by
  intro i attr hattr
  refine ⟨hattrs i attr hattr, fun key e he _ => ?_⟩
  rwa [hpaths]

theorem Purges.refl (r : PathResolver) : r.Purges r := purges_of_paths (attrsWithin_of_inodes rfl) rfl

theorem invalidateInodeAttr_purges (now : Instant) (r : PathResolver) (ino : INodeNo) :
    r.Purges (r.invalidateInodeAttr now ino) :=
  purges_of_paths (invalidateInodeAttr_attrsWithin now r ino) rfl

theorem purgePath_purges (now : Instant) {r : PathResolver} (hr : r.Shaped) (key : Str) :
    r.Purges (r.purgePath now key) := by
  intro i attr hattr
  refine ⟨purgePath_attrsWithin now r key i attr hattr, fun key' e he hi => ?_⟩
  rw [purgePath_paths]
  by_cases hkey : key' = key
  · -- the entry at the purged key takes the attributes of its inode with it
    subst hkey
    obtain ⟨n, -, hout⟩ := hr.entry key' e he
    unfold purgePath at hattr
    rw [he] at hattr
    dsimp only at hattr
    unfold invalidatePositiveOutstanding at hattr
    rw [hout] at hattr
    have hcleared := releaseOutstanding_attrsWithin now _ _ i attr hattr
    rw [List.map_cons, List.map_nil, List.foldl_cons, List.foldl_nil, timedAttr_clearAttrExpires,
      if_pos hi] at hcleared
    cases hcleared
  · rwa [AList.lookup_erase_ne hkey]

theorem invalidateMatching_purges (now : Instant) {r : PathResolver} (hr : r.Shaped)
    (hits : Str → PathCacheEntry → Bool) : r.Purges (r.invalidateMatching now hits).2 := by
  have hpurged : ∀ (keys : List Str) (r : PathResolver), r.Shaped →
      r.Purges (keys.foldl (purgePath now) r) := by
    intro keys
    induction keys with
    | nil => exact fun r _ => .refl r
    | cons key keys ih =>
        exact fun r hr => (purgePath_purges now hr key).trans (ih _ (hr.purgePath now key))
  exact (hpurged _ r hr).trans (purges_of_paths ((retainLiveInodes_attrsWithin now _).trans
    (attrsWithin_of_inodes rfl)) rfl)

theorem notify_purges (cf : CaseFold) (now : Instant) (n : NotifierCall) {r : PathResolver}
    (hr : r.Shaped) : r.Purges (n.apply cf now r) := by
  cases n with
  | invalInode ino => exact invalidateInodeAttr_purges now r ino
  | invalEntry parent name => exact invalidateMatching_purges now hr _
  | delete parent child name =>
      exact (invalidateMatching_purges now hr _).trans (invalidateInodeAttr_purges now _ child)

/-- After an invalidation an inode with an entry at or below the path has no attributes. -/
theorem timedAttr_invalidateSubtree (cf : CaseFold) (now : Instant) {r : PathResolver}
    (hr : r.Shaped) (path : OsStr) {i : INodeNo}
    (hi : r.HasEntryOf i fun key _ => inSubtree (normalizePath cf path) key) :
    (r.invalidateSubtree cf now path).2.timedAttr i = none := by
  rw [Option.eq_none_iff_forall_ne_some]
  intro attr hattr
  obtain ⟨key, e, he, hino, hbelow⟩ := hi
  have hkept := (invalidateMatching_purges now hr _ i attr hattr).2 key e he hino
  exact Bool.false_ne_true ((not_inSubtree_of_invalidated hkept).symm.trans hbelow)

end PathResolver

/-- After a log an inode has the attributes that it had before, or some that the log remembered. -/
theorem timedAttr_replay {cf : CaseFold} {r : PathResolver} {log : List Event} {i : INodeNo}
    {attr : FileAttr} (h : (replay cf r log).timedAttr i = some attr) :
    (∃ now ttl, .table now (.rememberAttr i attr ttl) () ∈ log) ∨ r.timedAttr i = some attr := by
  induction log generalizing r with
  | nil => exact .inr h
  | cons e log ih =>
      rcases ih h with ⟨now, ttl, hmem⟩ | hbefore
      · exact .inl ⟨now, ttl, List.mem_cons_of_mem e hmem⟩
      cases e with
      | call c reply => exact .inr hbefore
      | forget req ino nlookup => exact .inr hbefore
      | table now o result =>
          refine (PathResolver.timedAttr_table hbefore).imp ?_ id
          rintro ⟨ttl, rfl⟩
          exact ⟨now, ttl, List.mem_cons_self ..⟩
      | drain now o forgets => exact .inr (PathResolver.drain_attrsWithin cf now o r i attr hbefore)
      | notify now n => exact .inr (PathResolver.notify_attrsWithin cf now n r i attr hbefore)
      | fillFindData data accepted => exact .inr hbefore
      | fillFindStreamData data accepted => exact .inr hbefore

end Confuse
