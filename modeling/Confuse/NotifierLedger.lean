import Confuse.ResolverLedger

/-!
# What a notification does to the references

`invalidate_entry_from_notify` drops the list that `invalidate_matching` returns. That list holds the
references of the removed entries and everything that was queued before, so a notification keeps
all references exactly when there was nothing to put into it.
-/

namespace Confuse.PathResolver

/-- The shape of the resolver's forget lists. -/
structure Shaped (r : PathResolver) : Prop where
  pending : ∀ f ∈ r.pendingForgets, 0 < f.2
  entry : ∀ key e, r.paths.lookup key = some (.positive e) →
    ∃ n, 0 < n ∧ e.outstanding = [(e.ino, n)]

namespace Shaped
variable {r : PathResolver}

theorem mono {r' : PathResolver} (h : r.Shaped)
    (hpending : ∀ f ∈ r'.pendingForgets, f ∈ r.pendingForgets ∨ 0 < f.2)
    (hpaths : ∀ key e, r'.paths.lookup key = some e → r.paths.lookup key = some e) :
    r'.Shaped where
  pending f hf := (hpending f hf).elim (h.pending f) id
  entry key e he := h.entry key e (hpaths key _ he)

theorem of_paths_eq {r' : PathResolver} (h : r.Shaped)
    (hpending : ∀ f ∈ r'.pendingForgets, f ∈ r.pendingForgets ∨ 0 < f.2)
    (hpaths : r'.paths = r.paths) : r'.Shaped :=
  h.mono hpending fun _ _ he => hpaths ▸ he

theorem foldl {ι : Type} {f : PathResolver → ι → PathResolver}
    (hf : ∀ r : PathResolver, ∀ k, r.Shaped → (f r k).Shaped) (l : List ι) (h : r.Shaped) :
    (l.foldl f r).Shaped := by
  induction l generalizing r with
  | nil => exact h
  | cons k l ih => exact ih (hf r k h)

theorem removePath (h : r.Shaped) (key : Str) : (r.removePath key).Shaped := by
  refine h.mono (fun f hf => .inl hf) fun k e he => ?_
  by_cases hk : k = key
  · subst k
    simp [AList.lookup_erase] at he
  · simpa [AList.lookup_erase_ne hk] using he

theorem clearAttrExpires (h : r.Shaped) (ino : INodeNo) : (r.clearAttrExpires ino).Shaped :=
  h.of_paths_eq (fun _ hf => .inl hf) rfl

theorem retainLiveInodes (h : r.Shaped) (now : Instant) : (r.retainLiveInodes now).Shaped :=
  h.of_paths_eq (fun _ hf => .inl hf) rfl

theorem releaseLookup (h : r.Shaped) (e : INodeNo × ℕ) : (r.releaseLookup e).Shaped := by
  refine h.of_paths_eq (fun f hf => ?_) (releaseLookup_paths r e)
  unfold PathResolver.releaseLookup at hf
  cases hl : r.inodes.lookup e.1 with
  | none => exact .inl (by simpa [hl] using hf)
  | some state =>
      simp only [hl] at hf
      split_ifs at hf with hpos
      · rcases List.mem_append.mp hf with hf | hf
        · exact .inl hf
        · rw [List.mem_singleton.mp hf]
          exact .inr hpos
      · exact .inl hf

theorem releaseOutstanding (h : r.Shaped) (now : Instant) (outstanding : Forgets) :
    (r.releaseOutstanding now outstanding).Shaped :=
  (h.foldl (fun _ e hr => hr.releaseLookup e) outstanding).retainLiveInodes now

theorem invalidatePositiveOutstanding (h : r.Shaped) (now : Instant) (outstanding : Forgets) :
    (r.invalidatePositiveOutstanding now outstanding).Shaped :=
  (h.foldl (fun _ i hr => hr.clearAttrExpires i) _).releaseOutstanding now outstanding

theorem dropPath (h : r.Shaped) (now : Instant) (key : Str) : (r.dropPath now key).Shaped := by
  unfold PathResolver.dropPath
  split
  · exact (h.removePath key).releaseOutstanding now _
  · exact h.removePath key

theorem purgePath (h : r.Shaped) (now : Instant) (key : Str) : (r.purgePath now key).Shaped := by
  unfold PathResolver.purgePath
  split
  · exact (h.removePath key).invalidatePositiveOutstanding now _
  · exact h.removePath key

theorem takePendingForgets (h : r.Shaped) : r.takePendingForgets.2.Shaped :=
  h.of_paths_eq (fun _ hf => absurd hf (by simp [PathResolver.takePendingForgets])) rfl

theorem reapExpired (h : r.Shaped) (now : Instant) : (r.reapExpired now).2.Shaped :=
  (h.foldl (fun _ key hr => hr.dropPath now key) _).takePendingForgets

theorem invalidateMatching (h : r.Shaped) (now : Instant) (hits : Str → PathCacheEntry → Bool) :
    (r.invalidateMatching now hits).2.Shaped :=
  ((h.foldl (fun _ key hr => hr.purgePath now key) _).takePendingForgets).retainLiveInodes now

theorem insert_negative (h : r.Shaped) (key : Str) (e : NegativeEntry) :
    Shaped { r with paths := r.paths.insert key (.negative e) } where
  pending := h.pending
  entry k p hp := by
    by_cases hk : k = key
    · subst k
      simp at hp
    · exact h.entry k p (by simpa [AList.lookup_insert_ne hk] using hp)

theorem rememberNegative (h : r.Shaped) (cf : CaseFold) (now : Instant) (path : OsStr)
    (parent : INodeNo) (parentGeneration : Generation) (name : OsStr) :
    (r.rememberNegative cf now path parent parentGeneration name).Shaped := by
  unfold PathResolver.rememberNegative
  dsimp only
  have hpurge := h.purgePath now (normalizePath cf path)
  split
  · exact hpurge
  · exact hpurge.insert_negative _ _

/-- What is taken over from the old entry is nothing, or a counted list of the same inode. -/
theorem takeReusableOutstanding (h : r.Shaped) (now : Instant) (key : Str) (ino : INodeNo)
    (ttl : Duration) :
    (r.takeReusableOutstanding now key ino ttl).2.Shaped ∧
      ((r.takeReusableOutstanding now key ino ttl).1 = [] ∨
        ∃ n, 0 < n ∧ (r.takeReusableOutstanding now key ino ttl).1 = [(ino, n)]) := by
  unfold PathResolver.takeReusableOutstanding
  rcases hk : r.paths.lookup key with _ | ⟨e⟩ | ⟨e⟩
  · exact ⟨h.removePath key, .inl rfl⟩
  · dsimp only
    split_ifs with hreuse
    · refine ⟨h.removePath key, .inr ?_⟩
      obtain ⟨n, hn, hout⟩ := h.entry key e hk
      exact ⟨n, hn, by rw [hout, hreuse.1]⟩
    · exact ⟨(h.removePath key).releaseOutstanding now _, .inl rfl⟩
  · exact ⟨h.removePath key, .inl rfl⟩

theorem rememberPositive (h : r.Shaped) (cf : CaseFold) (now : Instant)
    (record : PositivePathRecord) : (r.rememberPositive cf now record).2.Shaped := by
  unfold PathResolver.rememberPositive
  dsimp only
  obtain ⟨hs, hout⟩ := h.takeReusableOutstanding now (normalizePath cf record.path)
    record.attr.ino record.ttl
  split_ifs with httl
  · refine ⟨hs.pending, fun k e he => ?_⟩
    rw [rememberPositiveInode_paths, storePositivePathEntry] at he
    by_cases hk : k = normalizePath cf record.path
    · subst k
      simp only [AList.lookup_insert, Option.some.injEq, PathCacheEntry.positive.injEq] at he
      subst e
      rcases hout with hnil | ⟨n, hn, hone⟩
      · exact ⟨1, by decide, by simp [hnil, incrementOutstandingLookup]⟩
      · refine ⟨saturatingAdd n 1, ?_, by simp [hone, incrementOutstandingLookup]⟩
        unfold saturatingAdd
        omega
    · exact hs.entry k e (by simpa [AList.lookup_insert_ne hk] using he)
  · refine Shaped.retainLiveInodes ?_ now
    refine (hs.releaseOutstanding now _).of_paths_eq (fun f hf => ?_) rfl
    rcases List.mem_append.mp hf with hf | hf
    · exact .inl hf
    · rw [List.mem_singleton.mp hf]
      exact .inr Nat.one_pos

theorem cached (h : r.Shaped) (cf : CaseFold) (now : Instant) (path : OsStr) (parent : INodeNo)
    (parentGeneration : Generation) :
    (r.cached cf now path parent parentGeneration).2.Shaped := by
  unfold PathResolver.cached
  dsimp only
  split_ifs with hroot
  · exact h
  rcases r.paths.lookup (normalizePath cf path) with _ | ⟨e⟩ | ⟨e⟩
  · exact h
  · dsimp only
    split_ifs
    · exact h.dropPath now _
    · exact h
    · exact h
    · exact h.dropPath now _
  · dsimp only
    split_ifs
    · exact h
    · exact h.removePath _

theorem invalidateInodeAttr (h : r.Shaped) (now : Instant) (ino : INodeNo) :
    (r.invalidateInodeAttr now ino).Shaped := (h.clearAttrExpires ino).retainLiveInodes now

theorem table (h : r.Shaped) (cf : CaseFold) (now : Instant) (o : TableOp) :
    (o.apply cf now r).2.Shaped := by
  cases o with
  | rememberPositive record => exact h.rememberPositive cf now record
  | rememberCreated c => exact h.rememberPositive cf now _
  | rememberNegative path parent generation name =>
      exact h.rememberNegative cf now path parent generation name
  | cached path parent generation => exact h.cached cf now path parent generation
  | cachedAttr ino =>
      change (r.cachedAttr now ino).2.Shaped
      unfold cachedAttr
      cases r.inodes.lookup ino with
      | none => exact h
      | some state =>
          dsimp only
          split_ifs
          · exact h
          · exact h.invalidateInodeAttr now ino
  | rememberAttr ino attr ttl =>
      change (r.rememberAttr now ino attr ttl).Shaped
      unfold rememberAttr
      split_ifs
      · exact h.clearAttrExpires ino
      · exact h.of_paths_eq (fun _ hf => .inl hf) rfl
  | invalidateInodeAttr ino => exact h.invalidateInodeAttr now ino

theorem drain (h : r.Shaped) (cf : CaseFold) (now : Instant) (o : DrainOp) :
    (o.apply cf now r).2.Shaped := by
  cases o with
  | takePendingForgets => exact h.takePendingForgets
  | reapExpired => exact h.reapExpired now
  | invalidateSubtree path => exact h.invalidateMatching now _

theorem apply (h : r.Shaped) (cf : CaseFold) (now : Instant) (o : ResolverOp) :
    (o.apply cf now r).2.Shaped := by
  cases o with
  | table o => exact h.table cf now o
  | drain o => exact h.drain cf now o

theorem notify (h : r.Shaped) (cf : CaseFold) (now : Instant) (n : NotifierCall) :
    (n.apply cf now r).Shaped := by
  cases n with
  | invalInode ino => exact h.invalidateInodeAttr now ino
  | invalEntry parent name => exact h.invalidateMatching now _
  | delete parent child name => exact (h.invalidateMatching now _).invalidateInodeAttr now child

/-- Where the references balance, the inode of every positive entry is known: the entry has one. -/
theorem entry_known (h : r.Shaped) (hbalanced : r.Balanced) {key : Str} {e : PositiveEntry}
    (he : r.paths.lookup key = some (.positive e)) : r.inodes.lookup e.ino ≠ none := by
  obtain ⟨n, hn, hout⟩ := h.entry key e he
  have hone : tally e.outstanding e.ino ≤ r.outstandingRefs e.ino :=
    KeyedMap.le_total (fun _ entry => tally entry.outstanding e.ino) he
  have hbalance := hbalanced e.ino
  intro hnone
  rw [refcount, hnone, Option.elim_none] at hbalance
  rw [hout] at hone
  simp only [tally_cons, if_true, tally_nil] at hone hbalance
  omega

end Shaped

theorem Reachable.shaped {cf : CaseFold} {r : PathResolver} (h : Reachable cf r) : r.Shaped := by
  induction h with
  | default => exact ⟨by simp, fun key e he => by simp at he⟩
  | setNegativeTtl ttl _ ih => exact ih.of_paths_eq (fun _ hf => .inl hf) rfl
  | op now o _ ih => exact ih.apply cf now o
  | notify now n _ ih => exact ih.notify cf now n

/-! ## Notifications -/

/-- Nothing is queued and no positive entry is designated by the notification. -/
def QuietFor (cf : CaseFold) (r : PathResolver) (parent : INodeNo) (name : OsStr) : Prop :=
  r.pendingForgets = [] ∧
    ∀ key e, r.paths.lookup key = some (.positive e) → namesChild cf parent name (.positive e) = false

@[simp] theorem invalidateEntryFromNotify_pendingForgets (cf : CaseFold) (now : Instant)
    (r : PathResolver) (parent : INodeNo) (name : OsStr) :
    (r.invalidateEntryFromNotify cf now parent name).pendingForgets = [] := rfl

theorem invalidateEntryFromNotify_paths (cf : CaseFold) (now : Instant) (r : PathResolver)
    (parent : INodeNo) (name : OsStr) :
    (r.invalidateEntryFromNotify cf now parent name).paths
      = r.paths.eraseAll (r.paths.keysWhere fun _ entry => namesChild cf parent name entry) :=
  invalidateMatching_paths now r _

/-- After the notification only the remaining path entries hold references. -/
theorem held_invalidateEntryFromNotify (cf : CaseFold) (now : Instant) (r : PathResolver)
    (parent : INodeNo) (name : OsStr) (i : INodeNo) :
    (r.invalidateEntryFromNotify cf now parent name).held i
      = (r.paths.eraseAll (r.paths.keysWhere fun _ entry => namesChild cf parent name entry)).total
        fun _ entry => tally entry.outstanding i := by
  rw [held, pendingRefs, invalidateEntryFromNotify_pendingForgets, tally_nil, Nat.zero_add,
    outstandingRefs, invalidateEntryFromNotify_paths]

/-- The notification keeps every reference exactly when it has none to drop. -/
theorem held_invalidateEntryFromNotify_iff (cf : CaseFold) {r : PathResolver} (h : r.Shaped)
    (now : Instant) (parent : INodeNo) (name : OsStr) :
    (∀ i, (r.invalidateEntryFromNotify cf now parent name).held i = r.held i)
      ↔ r.QuietFor cf parent name := by
  simp only [held_invalidateEntryFromNotify]
  set hits := fun (_ : Str) entry => namesChild cf parent name entry
  constructor
  · intro hsame
    have hle := fun i => KeyedMap.total_eraseAll_le
      (fun _ entry => tally (PathCacheEntry.outstanding entry) i) (r.paths.keysWhere hits) r.paths
    constructor
    · by_contra hne
      obtain ⟨⟨i, n⟩, rest, hrest⟩ := List.exists_cons_of_ne_nil hne
      have hpos := h.pending (i, n) (by simp [hrest])
      have hi := hsame i
      have hlei := hle i
      have hpend : n ≤ r.pendingRefs i := by simp [pendingRefs, hrest]
      unfold held outstandingRefs at hi
      dsimp only at hpos
      omega
    · intro key e he
      by_contra hmatch
      have hmem : key ∈ r.paths.keysWhere hits :=
        KeyedMap.mem_keysWhere.mpr ⟨_, he, by simpa [hits] using hmatch⟩
      obtain ⟨n, hn, hout⟩ := h.entry key e he
      have hi := hsame e.ino
      have hgap := KeyedMap.total_eraseAll_of_mem
        (fun _ entry => tally (PathCacheEntry.outstanding entry) e.ino) hmem he
      simp only [PathCacheEntry.outstanding, hout, tally_cons, if_true, tally_nil] at hgap
      unfold held outstandingRefs PathCacheEntry.outstanding at hi
      omega
  · rintro ⟨hpending, hquiet⟩ i
    rw [held, pendingRefs, hpending, tally_nil, Nat.zero_add]
    refine KeyedMap.total_eraseAll_of_zero fun k hk v hv => ?_
    obtain ⟨w, hw, hhit⟩ := KeyedMap.mem_keysWhere.mp hk
    obtain rfl : v = w := by simpa [hv] using hw
    cases v with
    | positive e => simp [hits, hquiet k e hv] at hhit
    | negative e => rfl

theorem notify_balanced (cf : CaseFold) (now : Instant) (n : NotifierCall) {r : PathResolver}
    (hb : r.Balanced) : (n.apply cf now r).Balanced := by
  have hentry : ∀ parent name, (r.invalidateEntryFromNotify cf now parent name).Balanced :=
    fun parent name => (invalidateMatching_spec now hb _).1
  cases n with
  | invalInode ino => exact (invalidateInodeAttr_keeps now r ino hb).1
  | invalEntry parent name => exact hentry parent name
  | delete parent child name => exact (invalidateInodeAttr_keeps now _ child (hentry parent name)).1

/-- In every reachable state both notifications about an entry keep the references of every inode
exactly when nothing is queued and no positive entry is removed. -/
theorem notify_keeps_references_iff {cf : CaseFold} {r : PathResolver} (h : Reachable cf r)
    (now : Instant) (parent child : INodeNo) (name : OsStr) :
    ((∀ i, ((NotifierCall.invalEntry parent name).apply cf now r).held i = r.held i)
        ↔ r.QuietFor cf parent name) ∧
      ((∀ i, ((NotifierCall.delete parent child name).apply cf now r).held i = r.held i)
        ↔ r.QuietFor cf parent name) := by
  have hiff := held_invalidateEntryFromNotify_iff cf h.shaped now parent name
  exact ⟨hiff, hiff⟩

/-- A lookup of the file `f` in the root, cached for ten nanoseconds. -/
def lookupOfF : PositivePathRecord where
  path := .new ['\\', 'f']
  parent := .ROOT
  parentGeneration := ⟨0⟩
  name := .new ['f']
  attr := .plain ⟨5⟩ .regularFile
  generation := ⟨1⟩
  ttl := .fromNanos 10

def afterLookupOfF : PathResolver :=
  ((ResolverOp.table (.rememberPositive lookupOfF)).apply CharFold.ascii.toCaseFold 0 default).2

theorem reachable_afterLookupOfF : Reachable CharFold.ascii.toCaseFold afterLookupOfF :=
  .op 0 _ .default

theorem notify_keeps_references_iff_after_lookup :
    ((∀ i, ((NotifierCall.invalEntry .ROOT (.new ['g'])).apply CharFold.ascii.toCaseFold 1
          afterLookupOfF).held i = afterLookupOfF.held i)
        ↔ afterLookupOfF.QuietFor CharFold.ascii.toCaseFold .ROOT (.new ['g'])) ∧
      ((∀ i, ((NotifierCall.delete .ROOT ⟨5⟩ (.new ['g'])).apply CharFold.ascii.toCaseFold 1
          afterLookupOfF).held i = afterLookupOfF.held i)
        ↔ afterLookupOfF.QuietFor CharFold.ascii.toCaseFold .ROOT (.new ['g'])) :=
  notify_keeps_references_iff reachable_afterLookupOfF 1 .ROOT ⟨5⟩ (.new ['g'])

/-- The one reference on the looked-up inode is gone after the notification about its entry. -/
theorem notify_loses_reference :
    Reachable CharFold.ascii.toCaseFold afterLookupOfF ∧
      afterLookupOfF.held ⟨5⟩ = 1 ∧
      ((NotifierCall.invalEntry .ROOT (.new ['F'])).apply CharFold.ascii.toCaseFold 1
        afterLookupOfF).held ⟨5⟩ = 0 :=
  ⟨reachable_afterLookupOfF, by decide, by decide⟩

end Confuse.PathResolver
