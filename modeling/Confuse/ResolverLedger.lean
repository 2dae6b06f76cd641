import Confuse.ResolverOp

/-!
# Conservation of lookup references in the resolver

The references recorded on an inode are those returned for forgetting, those queued and those held
by path entries. Releasing drops what the inode record does not account for, so the law rests on the
invariant that the refcount of every inode is the number of references its path entries hold.
-/

namespace Confuse.PathResolver

/-- The references that the path entries hold on an inode. -/
def outstandingRefs (r : PathResolver) (i : INodeNo) : ℕ :=
  r.paths.total fun _ entry => tally entry.outstanding i

def pendingRefs (r : PathResolver) (i : INodeNo) : ℕ := tally r.pendingForgets i

def refcount (r : PathResolver) (i : INodeNo) : ℕ :=
  (r.inodes.lookup i).elim 0 InodeState.lookupRefcount

/-- The references on an inode that the resolver still accounts for. -/
def held (r : PathResolver) (i : INodeNo) : ℕ := r.pendingRefs i + r.outstandingRefs i

/-- The refcounts cover the path entries and the references in `detached`, which were taken off
the table. -/
def Covers (r : PathResolver) (detached : Forgets) : Prop :=
  ∀ i, r.refcount i = r.outstandingRefs i + tally detached i

def Balanced (r : PathResolver) : Prop := r.Covers []

theorem balanced_iff {r : PathResolver} :
    r.Balanced ↔ ∀ i, r.refcount i = r.outstandingRefs i := Iff.rfl

/-- A step that keeps the balance and the references held. -/
def Keeps (r r' : PathResolver) : Prop := r.Balanced → r'.Balanced ∧ ∀ i, r'.held i = r.held i

theorem Keeps.refl (r : PathResolver) : r.Keeps r := fun h => ⟨h, fun _ => rfl⟩

theorem Keeps.trans {r s t : PathResolver} (h : r.Keeps s) (h' : s.Keeps t) : r.Keeps t := by
  intro hb
  obtain ⟨hs, hheld⟩ := h hb
  obtain ⟨ht, hheld'⟩ := h' hs
  exact ⟨ht, fun i => (hheld' i).trans (hheld i)⟩

theorem Keeps.foldl {ι : Type} {f : PathResolver → ι → PathResolver}
    (hf : ∀ (r : PathResolver) k, r.Keeps (f r k)) (l : List ι) (r : PathResolver) :
    r.Keeps (l.foldl f r) := by
  induction l generalizing r with
  | nil => exact .refl r
  | cons k l ih => exact (hf r k).trans (ih (f r k))

/-- Changes of inode records that leave every refcount alone. -/
theorem keeps_of_refcount {r r' : PathResolver} (hpaths : r'.paths = r.paths)
    (hpending : r'.pendingForgets = r.pendingForgets) (hcount : ∀ i, r'.refcount i = r.refcount i) :
    r.Keeps r' := by
  intro hb
  constructor
  · intro i
    rw [hcount i, hb i, outstandingRefs, outstandingRefs, hpaths]
  · intro i
    rw [held, held, pendingRefs, pendingRefs, outstandingRefs, outstandingRefs, hpaths, hpending]

/-! ## Inode records -/

@[simp] theorem retainLiveInodes_pendingForgets (now : Instant) (r : PathResolver) :
    (r.retainLiveInodes now).pendingForgets = r.pendingForgets := rfl

@[simp] theorem retainLiveInodes_refcount (now : Instant) (r : PathResolver) (i : INodeNo) :
    (r.retainLiveInodes now).refcount i = r.refcount i := by
  unfold refcount retainLiveInodes
  rw [KeyedMap.lookup_retain]
  cases h : r.inodes.lookup i with
  | none => rfl
  | some state =>
      rw [Option.filter_some]
      split_ifs with hlive
      · rfl
      · have hzero : state.lookupRefcount = 0 := by
          simp only [InodeState.live, Bool.or_eq_true, decide_eq_true_eq, not_or, not_lt] at hlive
          omega
        simp [hzero]

@[simp] theorem clearAttrExpires_pendingForgets (r : PathResolver) (ino : INodeNo) :
    (r.clearAttrExpires ino).pendingForgets = r.pendingForgets := rfl

@[simp] theorem clearAttrExpires_refcount (r : PathResolver) (ino i : INodeNo) :
    (r.clearAttrExpires ino).refcount i = r.refcount i := by
  unfold refcount clearAttrExpires
  rw [KeyedMap.lookup_modify]
  by_cases hi : i = ino
  · subst i
    cases r.inodes.lookup ino <;> simp
  · simp [hi]

theorem foldl_clearAttrExpires (l : List INodeNo) (r : PathResolver) :
    (l.foldl clearAttrExpires r).pendingForgets = r.pendingForgets ∧
      ∀ i, (l.foldl clearAttrExpires r).refcount i = r.refcount i := by
  induction l generalizing r with
  | nil => simp
  | cons ino l ih => simpa using ih (r.clearAttrExpires ino)

/-! ## Releasing -/

/-- One release takes what the refcount has, at most the count, and queues it. -/
theorem releaseLookup_counts (r : PathResolver) (ino : INodeNo) (count : ℕ) (i : INodeNo) :
    (r.releaseLookup (ino, count)).refcount i = r.refcount i - (if ino = i then count else 0) ∧
      (r.releaseLookup (ino, count)).pendingRefs i
        = r.pendingRefs i + if ino = i then min (r.refcount i) count else 0 := by
  cases hl : r.inodes.lookup ino with
  | none =>
      have hzero : r.refcount ino = 0 := by simp [refcount, hl]
      have hstep : r.releaseLookup (ino, count) = r := by simp [releaseLookup, hl]
      rw [hstep]
      by_cases hi : ino = i
      · subst hi
        simp [hzero]
      · simp [hi]
  | some state =>
      have hcount : r.refcount ino = state.lookupRefcount := by simp [refcount, hl]
      constructor
      · simp only [releaseLookup, hl, refcount]
        by_cases hi : ino = i
        · subst hi
          simp only [AList.lookup_insert, hl, Option.elim_some, if_true]
          omega
        · simp [AList.lookup_insert_ne (Ne.symm hi), hi]
      · simp only [releaseLookup, hl, pendingRefs]
        by_cases hi : ino = i
        · subst hi
          rw [hcount, if_pos rfl]
          split_ifs with hqueued
          · simp
          · omega
        · split_ifs <;> simp [hi]

/-- Releasing a list takes what the refcount has, at most what the list holds, and queues it. -/
theorem foldl_releaseLookup_counts (outstanding : Forgets) (r : PathResolver) (i : INodeNo) :
    (outstanding.foldl releaseLookup r).refcount i = r.refcount i - tally outstanding i ∧
      (outstanding.foldl releaseLookup r).pendingRefs i
        = r.pendingRefs i + min (r.refcount i) (tally outstanding i) := by
  induction outstanding generalizing r with
  | nil => simp
  | cons e outstanding ih =>
      obtain ⟨hcount, hpending⟩ := releaseLookup_counts r e.1 e.2 i
      obtain ⟨hcount', hpending'⟩ := ih (r.releaseLookup e)
      rw [List.foldl_cons, tally_cons, hcount', hpending', hcount, hpending]
      split_ifs <;> omega

/-- A covered reference list loses nothing when it is released one inode after the other. -/
theorem foldl_releaseLookup {outstanding : Forgets} {r : PathResolver}
    (h : ∀ i, tally outstanding i ≤ r.refcount i) (i : INodeNo) :
    (outstanding.foldl releaseLookup r).refcount i + tally outstanding i = r.refcount i ∧
      (outstanding.foldl releaseLookup r).pendingRefs i
        = r.pendingRefs i + tally outstanding i := by
  obtain ⟨hcount, hpending⟩ := foldl_releaseLookup_counts outstanding r i
  have hi := h i
  omega

theorem releaseOutstanding_spec (now : Instant) {r : PathResolver} {detached : Forgets}
    (h : r.Covers detached) :
    (r.releaseOutstanding now detached).Balanced ∧
      ∀ i, (r.releaseOutstanding now detached).held i = r.held i + tally detached i := by
  have hle : ∀ i, tally detached i ≤ r.refcount i := fun i => by rw [h i]; omega
  have hsum := foldl_releaseLookup hle
  have houts : ∀ i, (r.releaseOutstanding now detached).outstandingRefs i = r.outstandingRefs i :=
    fun i => by rw [outstandingRefs, outstandingRefs, releaseOutstanding_paths]
  constructor
  · rw [balanced_iff]
    intro i
    rw [houts, releaseOutstanding, retainLiveInodes_refcount]
    have hi := h i
    have hc := (hsum i).1
    omega
  · intro i
    have hp : (r.releaseOutstanding now detached).pendingRefs i
        = r.pendingRefs i + tally detached i := (hsum i).2
    rw [held, held, houts, hp]
    omega

theorem invalidatePositiveOutstanding_spec (now : Instant) {r : PathResolver} {detached : Forgets}
    (h : r.Covers detached) :
    (r.invalidatePositiveOutstanding now detached).Balanced ∧
      ∀ i, (r.invalidatePositiveOutstanding now detached).held i
        = r.held i + tally detached i := by
  obtain ⟨hpending, hcount⟩ := foldl_clearAttrExpires (detached.map Prod.fst) r
  have hpaths := foldl_paths clearAttrExpires_paths (detached.map Prod.fst) r
  have hcover : ((detached.map Prod.fst).foldl clearAttrExpires r).Covers detached := by
    intro i
    rw [hcount, h i, outstandingRefs, outstandingRefs, hpaths]
  obtain ⟨hb, hheld⟩ := releaseOutstanding_spec now hcover
  refine ⟨hb, fun i => (hheld i).trans ?_⟩
  simp only [held, pendingRefs, outstandingRefs, hpaths, hpending]

/-! ## Removing path entries -/

/-- The references that the entry at a key holds. -/
def entryRefs (r : PathResolver) (key : Str) : Forgets :=
  (r.paths.lookup key).elim [] PathCacheEntry.outstanding

theorem outstandingRefs_removePath (r : PathResolver) (key : Str) (i : INodeNo) :
    r.outstandingRefs i = tally (r.entryRefs key) i + (r.removePath key).outstandingRefs i := by
  have h := KeyedMap.total_erase (fun _ entry => tally (PathCacheEntry.outstanding entry) i) key
    r.paths
  cases hl : r.paths.lookup key <;> simpa [outstandingRefs, removePath, entryRefs, hl] using h

theorem covers_removePath {r : PathResolver} (hb : r.Balanced) (key : Str) :
    (r.removePath key).Covers (r.entryRefs key) := by
  intro i
  have h := outstandingRefs_removePath r key i
  have hi := balanced_iff.mp hb i
  have hc : (r.removePath key).refcount i = r.refcount i := rfl
  omega

theorem held_removePath (r : PathResolver) (key : Str) (i : INodeNo) :
    (r.removePath key).held i + tally (r.entryRefs key) i = r.held i := by
  have h := outstandingRefs_removePath r key i
  have hp : (r.removePath key).pendingRefs i = r.pendingRefs i := rfl
  rw [held, held, hp]
  omega

/-- Removing an entry without references. -/
theorem removePath_keeps {r : PathResolver} {key : Str} (h : r.entryRefs key = []) :
    r.Keeps (r.removePath key) := by
  intro hb
  have hcover := covers_removePath hb key
  rw [h] at hcover
  refine ⟨hcover, fun i => ?_⟩
  have hi := held_removePath r key i
  simpa [h] using hi

/-- Removing an entry and releasing its references in one of the two ways. -/
theorem detach_keeps {release : PathResolver → Forgets → PathResolver}
    (hrelease : ∀ {r detached}, Covers r detached → (release r detached).Balanced ∧
      ∀ i, (release r detached).held i = r.held i + tally detached i)
    (r : PathResolver) (key : Str) :
    r.Keeps (match r.paths.lookup key with
      | some (.positive e) => release (r.removePath key) e.outstanding
      | _ => r.removePath key) := by
  rcases h : r.paths.lookup key with _ | ⟨e⟩ | ⟨e⟩
  · exact removePath_keeps (by simp [entryRefs, h])
  · intro hb
    have hrefs : r.entryRefs key = e.outstanding := by
      simp [entryRefs, h, PathCacheEntry.outstanding]
    obtain ⟨hb', hheld⟩ := hrelease (hrefs ▸ covers_removePath hb key)
    refine ⟨hb', fun i => ?_⟩
    rw [hheld i, ← held_removePath r key i, hrefs]
  · exact removePath_keeps (by simp [entryRefs, h, PathCacheEntry.outstanding])

theorem dropPath_keeps (now : Instant) (r : PathResolver) (key : Str) :
    r.Keeps (r.dropPath now key) := detach_keeps (releaseOutstanding_spec now) r key

theorem purgePath_keeps (now : Instant) (r : PathResolver) (key : Str) :
    r.Keeps (r.purgePath now key) := detach_keeps (invalidatePositiveOutstanding_spec now) r key

/-! ## Drains -/

theorem takePendingForgets_spec {r : PathResolver} (hb : r.Balanced) :
    r.takePendingForgets.2.Balanced ∧
      ∀ i, r.held i = tally r.takePendingForgets.1 i + r.takePendingForgets.2.held i := by
  refine ⟨hb, fun i => ?_⟩
  simp [takePendingForgets, held, pendingRefs, outstandingRefs]

theorem reapExpired_spec (now : Instant) {r : PathResolver} (hb : r.Balanced) :
    (r.reapExpired now).2.Balanced ∧
      ∀ i, r.held i = tally (r.reapExpired now).1 i + (r.reapExpired now).2.held i := by
  obtain ⟨hb', hheld⟩ := Keeps.foldl (dropPath_keeps now)
    (r.paths.keysWhere fun _ entry => entry.expires ≤ now) r hb
  obtain ⟨hb'', hsum⟩ := takePendingForgets_spec hb'
  exact ⟨hb'', fun i => (hheld i).symm.trans (hsum i)⟩

theorem retainLiveInodes_keeps (now : Instant) (r : PathResolver) :
    r.Keeps (r.retainLiveInodes now) := keeps_of_refcount rfl rfl (retainLiveInodes_refcount now r)

theorem clearAttrExpires_keeps (r : PathResolver) (ino : INodeNo) :
    r.Keeps (r.clearAttrExpires ino) := keeps_of_refcount rfl rfl (clearAttrExpires_refcount r ino)

theorem invalidateMatching_spec (now : Instant) {r : PathResolver} (hb : r.Balanced)
    (hits : Str → PathCacheEntry → Bool) :
    (r.invalidateMatching now hits).2.Balanced ∧
      ∀ i, r.held i
        = tally (r.invalidateMatching now hits).1 i + (r.invalidateMatching now hits).2.held i := by
  obtain ⟨hpurged, hheld⟩ := Keeps.foldl (purgePath_keeps now) (r.paths.keysWhere hits) r hb
  obtain ⟨htaken, hsum⟩ := takePendingForgets_spec hpurged
  obtain ⟨hb', hkeep⟩ := retainLiveInodes_keeps now _ htaken
  refine ⟨hb', fun i => ?_⟩
  have h : (r.invalidateMatching now hits).2.held i = _ := hkeep i
  rw [h, ← hheld i, hsum i]
  rfl

/-! ## Recording -/

theorem tally_incrementOutstandingLookup {outstanding : Forgets} {ino : INodeNo}
    (h : tally outstanding ino + 1 < 2 ^ 64) (i : INodeNo) :
    tally (incrementOutstandingLookup outstanding ino) i
      = tally outstanding i + if ino = i then 1 else 0 := by
  induction outstanding with
  | nil => simp [incrementOutstandingLookup]
  | cons e outstanding ih =>
      obtain ⟨cachedIno, nlookup⟩ := e
      unfold incrementOutstandingLookup
      by_cases hc : cachedIno = ino
      · subst cachedIno
        have hsat : saturatingAdd nlookup 1 = nlookup + 1 := by
          simp only [tally_cons, if_true] at h
          unfold saturatingAdd
          omega
        simp only [if_true, tally_cons, hsat]
        split_ifs <;> omega
      · have hrest := ih (by simpa [hc] using h)
        simp only [hc, if_false, tally_cons, hrest]
        omega

theorem takeReusableOutstanding_spec (now : Instant) {r : PathResolver} (hb : r.Balanced)
    (key : Str) (ino : INodeNo) (ttl : Duration) :
    (r.takeReusableOutstanding now key ino ttl).2.Covers
        (r.takeReusableOutstanding now key ino ttl).1 ∧
      ∀ i, (r.takeReusableOutstanding now key ino ttl).2.held i
        + tally (r.takeReusableOutstanding now key ino ttl).1 i = r.held i := by
  obtain ⟨hdrop, hkeep⟩ := dropPath_keeps now r key hb
  by_cases hreuse : ∃ e, r.paths.lookup key = some (.positive e) ∧ e.ino = ino ∧ ttl.isZero = false
  · obtain ⟨e, he, htake⟩ := hreuse
    have hrefs : r.entryRefs key = e.outstanding := by
      simp [entryRefs, he, PathCacheEntry.outstanding]
    have hres : r.takeReusableOutstanding now key ino ttl = (e.outstanding, r.removePath key) := by
      simp [takeReusableOutstanding, he, htake]
    rw [hres, ← hrefs]
    exact ⟨covers_removePath hb key, held_removePath r key⟩
  · have hres : r.takeReusableOutstanding now key ino ttl = ([], r.dropPath now key) := by
      unfold takeReusableOutstanding dropPath
      rcases h : r.paths.lookup key with _ | ⟨e⟩ | ⟨e⟩
      · rfl
      · simp only
        rw [if_neg fun htake => hreuse ⟨e, h, htake⟩]
      · rfl
    rw [hres]
    exact ⟨hdrop, fun i => by simpa using hkeep i⟩

theorem storePositivePathEntry_outstandingRefs (now : Instant) {r : PathResolver} {key : Str}
    (hkey : r.paths.lookup key = none) (record : PositivePathRecord) (outstanding : Forgets)
    (i : INodeNo) :
    (r.storePositivePathEntry now key record outstanding).outstandingRefs i
      = r.outstandingRefs i + tally outstanding i := by
  have herase := KeyedMap.total_erase (fun _ entry => tally (PathCacheEntry.outstanding entry) i)
    key r.paths
  rw [hkey, Option.elim_none, Nat.zero_add] at herase
  rw [outstandingRefs, outstandingRefs, herase, storePositivePathEntry, KeyedMap.total_insert,
    Nat.add_comm]
  rfl

theorem rememberPositiveInode_refcount {r : PathResolver} {record : PositivePathRecord}
    (hroom : r.refcount record.attr.ino + 1 < 2 ^ 64) (i : INodeNo) :
    (r.rememberPositiveInode record).refcount i
      = r.refcount i + if record.attr.ino = i then 1 else 0 := by
  unfold rememberPositiveInode refcount at *
  by_cases hi : i = record.attr.ino
  · subst i
    cases hl : r.inodes.lookup record.attr.ino with
    | none => simp
    | some state =>
        simp only [hl, Option.elim_some] at hroom
        have hsat : saturatingAdd state.lookupRefcount 1 = state.lookupRefcount + 1 := by
          unfold saturatingAdd
          omega
        simp [hsat]
  · simp [AList.lookup_insert_ne hi, Ne.symm hi]

/-- Storing an entry with a nonzero time to live, after the key's old references are detached. -/
theorem store_spec (now : Instant) {r : PathResolver} {key : Str} {outstanding : Forgets}
    (hcover : r.Covers outstanding) (hfresh : r.paths.lookup key = none)
    (record : PositivePathRecord)
    (hroom : r.held record.attr.ino + tally outstanding record.attr.ino + 1 < 2 ^ 64) :
    let stored := (r.storePositivePathEntry now key record
      (incrementOutstandingLookup outstanding record.attr.ino)).rememberPositiveInode record
    stored.Balanced ∧ ∀ i, stored.held i
      = r.held i + tally outstanding i + if record.attr.ino = i then 1 else 0 := by
  intro stored
  have hout : ∀ i, tally (incrementOutstandingLookup outstanding record.attr.ino) i
      = tally outstanding i + if record.attr.ino = i then 1 else 0 :=
    tally_incrementOutstandingLookup (by omega)
  have houts : ∀ i, stored.outstandingRefs i = r.outstandingRefs i
      + (tally outstanding i + if record.attr.ino = i then 1 else 0) := by
    intro i
    rw [← hout i]
    exact storePositivePathEntry_outstandingRefs now hfresh record _ i
  have hcount : ∀ i, stored.refcount i
      = r.refcount i + if record.attr.ino = i then 1 else 0 := by
    have hino := hcover record.attr.ino
    unfold held at hroom
    exact rememberPositiveInode_refcount (show r.refcount record.attr.ino + 1 < 2 ^ 64 by omega)
  constructor
  · rw [balanced_iff]
    intro i
    rw [hcount, houts, hcover]
    omega
  · intro i
    have hpend : stored.pendingRefs i = r.pendingRefs i := rfl
    rw [held, held, houts, hpend]
    omega

/-- Queueing the reference of an entry that must not be kept. -/
theorem pushForget_spec (now : Instant) {r : PathResolver} {outstanding : Forgets}
    (hcover : r.Covers outstanding) (ino : INodeNo) :
    let pushed := ((r.releaseOutstanding now outstanding).pushForget ino 1).retainLiveInodes now
    pushed.Balanced ∧ ∀ i, pushed.held i
      = r.held i + tally outstanding i + if ino = i then 1 else 0 := by
  obtain ⟨hb, hheld⟩ := releaseOutstanding_spec now hcover
  have hpush : ((r.releaseOutstanding now outstanding).pushForget ino 1).Balanced := hb
  obtain ⟨hb', hkeep⟩ := retainLiveInodes_keeps now _ hpush
  refine ⟨hb', fun i => ?_⟩
  rw [hkeep i, ← hheld i]
  simp only [held, pendingRefs, outstandingRefs, pushForget, tally_append, tally_cons, tally_nil]
  omega

/-- Recording a lookup adds one reference on its inode, to the entry or to the queue. -/
theorem rememberPositive_spec (cf : CaseFold) (now : Instant) {r : PathResolver}
    (hb : r.Balanced) (record : PositivePathRecord)
    (hroom : r.held record.attr.ino + 1 < 2 ^ 64) :
    (r.rememberPositive cf now record).2.Balanced ∧
      ∀ i, (r.rememberPositive cf now record).2.held i
        = r.held i + if record.attr.ino = i then 1 else 0 := by
  let key := normalizePath cf record.path
  obtain ⟨hcover, hheld⟩ := takeReusableOutstanding_spec now hb key record.attr.ino record.ttl
  have hfresh : (r.takeReusableOutstanding now key record.attr.ino record.ttl).2.paths.lookup key
      = none := by rw [takeReusableOutstanding_paths, AList.lookup_erase]
  unfold rememberPositive
  dsimp only
  split_ifs with httl
  · obtain ⟨hb', hsum⟩ := store_spec now hcover hfresh record (by rw [hheld]; exact hroom)
    exact ⟨hb', fun i => by rw [hsum i, hheld i]⟩
  · obtain ⟨hb', hsum⟩ := pushForget_spec now hcover record.attr.ino
    exact ⟨hb', fun i => by rw [hsum i, hheld i]⟩

theorem insert_negative_keeps {r : PathResolver} {key : Str} (hkey : r.paths.lookup key = none)
    (e : NegativeEntry) : r.Keeps { r with paths := r.paths.insert key (.negative e) } := by
  intro hb
  have houts : ∀ i, outstandingRefs { r with paths := r.paths.insert key (.negative e) } i
      = r.outstandingRefs i := by
    intro i
    have herase := KeyedMap.total_erase (fun _ entry => tally (PathCacheEntry.outstanding entry) i)
      key r.paths
    rw [hkey, Option.elim_none] at herase
    rw [outstandingRefs, outstandingRefs, herase, KeyedMap.total_insert]
    rfl
  refine ⟨fun i => (hb i).trans (by rw [houts i]), fun i => ?_⟩
  rw [held, held, houts i]
  rfl

theorem rememberNegative_keeps (cf : CaseFold) (now : Instant) (r : PathResolver) (path : OsStr)
    (parent : INodeNo) (parentGeneration : Generation) (name : OsStr) :
    r.Keeps (r.rememberNegative cf now path parent parentGeneration name) := by
  let key := normalizePath cf path
  have hfresh : (r.purgePath now key).paths.lookup key = none := by
    rw [purgePath_paths, AList.lookup_erase]
  unfold rememberNegative
  dsimp only
  cases (r.purgePath now key).negativeTtl with
  | none => exact purgePath_keeps now r key
  | some ttl => exact (purgePath_keeps now r key).trans (insert_negative_keeps hfresh _)

theorem cached_keeps (cf : CaseFold) (now : Instant) (r : PathResolver) (path : OsStr)
    (parent : INodeNo) (parentGeneration : Generation) :
    r.Keeps (r.cached cf now path parent parentGeneration).2 := by
  set key := normalizePath cf path with hkey
  unfold cached
  rw [← hkey]
  dsimp only
  split_ifs with hroot
  · exact .refl r
  rcases h : r.paths.lookup key with _ | ⟨e⟩ | ⟨e⟩
  · exact .refl r
  · dsimp only
    split_ifs
    · exact dropPath_keeps now r key
    · exact .refl r
    · exact .refl r
    · exact dropPath_keeps now r key
  · dsimp only
    split_ifs
    · exact .refl r
    · exact removePath_keeps (by simp [entryRefs, h, PathCacheEntry.outstanding])

theorem invalidateInodeAttr_keeps (now : Instant) (r : PathResolver) (ino : INodeNo) :
    r.Keeps (r.invalidateInodeAttr now ino) :=
  (clearAttrExpires_keeps r ino).trans (retainLiveInodes_keeps now _)

theorem cachedAttr_keeps (now : Instant) (r : PathResolver) (ino : INodeNo) :
    r.Keeps (r.cachedAttr now ino).2 := by
  unfold cachedAttr
  cases r.inodes.lookup ino with
  | none => exact .refl r
  | some state =>
      dsimp only
      split_ifs
      · exact .refl r
      · exact invalidateInodeAttr_keeps now r ino

theorem rememberAttr_keeps (now : Instant) (r : PathResolver) (ino : INodeNo) (attr : FileAttr)
    (ttl : Duration) : r.Keeps (r.rememberAttr now ino attr ttl) := by
  unfold rememberAttr
  split_ifs
  · exact clearAttrExpires_keeps r ino
  · refine keeps_of_refcount rfl rfl fun i => ?_
    unfold refcount
    by_cases hi : i = ino
    · subst i
      cases r.inodes.lookup ino <;> simp
    · simp [AList.lookup_insert_ne hi]

/-! ## Conservation -/

/-- A section on the tables keeps what is held and adds what it records. -/
theorem table_spec (cf : CaseFold) (now : Instant) (o : TableOp) {r : PathResolver}
    (hb : r.Balanced) (hroom : ∀ ino, o.recordedIno = some ino → r.held ino + 1 < 2 ^ 64) :
    (o.apply cf now r).2.Balanced ∧
      ∀ i, (o.apply cf now r).2.held i = r.held i + if o.recordedIno = some i then 1 else 0 := by
  have hkeeps : ∀ {r' : PathResolver}, r.Keeps r' → r'.Balanced ∧
      ∀ i, r'.held i = r.held i + if (none : Option INodeNo) = some i then 1 else 0 := by
    intro r' h
    obtain ⟨hb', hheld⟩ := h hb
    exact ⟨hb', fun i => by simp [hheld i]⟩
  have hrecords : ∀ record : PositivePathRecord, r.held record.attr.ino + 1 < 2 ^ 64 →
      (r.rememberPositive cf now record).2.Balanced ∧
        ∀ i, (r.rememberPositive cf now record).2.held i
          = r.held i + if some record.attr.ino = some i then 1 else 0 := by
    intro record hrec
    obtain ⟨hb', hheld⟩ := rememberPositive_spec cf now hb record hrec
    exact ⟨hb', fun i => by simp [hheld i]⟩
  cases o with
  | rememberPositive record => exact hrecords record (hroom _ rfl)
  | rememberCreated c => exact hrecords (c.record (r.generationFor c.parent)) (hroom _ rfl)
  | rememberNegative path parent parentGeneration name =>
      exact hkeeps (rememberNegative_keeps cf now r path parent parentGeneration name)
  | cached path parent parentGeneration =>
      exact hkeeps (cached_keeps cf now r path parent parentGeneration)
  | cachedAttr ino => exact hkeeps (cachedAttr_keeps now r ino)
  | rememberAttr ino attr ttl => exact hkeeps (rememberAttr_keeps now r ino attr ttl)
  | invalidateInodeAttr ino => exact hkeeps (invalidateInodeAttr_keeps now r ino)

/-- A drain hands out what is no longer held after it. -/
theorem drain_spec (cf : CaseFold) (now : Instant) (o : DrainOp) {r : PathResolver}
    (hb : r.Balanced) :
    (o.apply cf now r).2.Balanced ∧
      ∀ i, r.held i = tally (o.apply cf now r).1 i + (o.apply cf now r).2.held i := by
  cases o with
  | takePendingForgets => exact takePendingForgets_spec hb
  | reapExpired => exact reapExpired_spec now hb
  | invalidateSubtree path => exact invalidateMatching_spec now hb _

/-- What one operation records is returned by it or still held after it. -/
theorem apply_conserves (cf : CaseFold) (now : Instant) (o : ResolverOp) {r : PathResolver}
    (hb : r.Balanced) (hroom : ∀ ino, o.recordedIno = some ino → r.held ino + 1 < 2 ^ 64) :
    (o.apply cf now r).2.Balanced ∧
      ∀ i, (r.held i + if o.recordedIno = some i then 1 else 0)
        = tally (o.apply cf now r).1 i + (o.apply cf now r).2.held i := by
  cases o with
  | table o =>
      obtain ⟨hb', hheld⟩ := table_spec cf now o hb hroom
      exact ⟨hb', fun i => (hheld i).symm.trans (Nat.zero_add _).symm⟩
  | drain o => exact drain_spec cf now o hb

/-- The number of lookups that a sequence of operations records on an inode. -/
def recordedOn (ops : List (Instant × ResolverOp)) (i : INodeNo) : ℕ :=
  ops.countP fun step => step.2.recordedIno = some i

/-- The number of lookups that a sequence of operations records. -/
def recordedTotal (ops : List (Instant × ResolverOp)) : ℕ :=
  ops.countP fun step => step.2.recordedIno.isSome

theorem runOps_conserves (cf : CaseFold) (ops : List (Instant × ResolverOp)) {r : PathResolver}
    (hb : r.Balanced) (hroom : ∀ i, r.held i + recordedTotal ops < 2 ^ 64) :
    (runOps cf ops r).2.Balanced ∧
      ∀ i, r.held i + recordedOn ops i
        = tally (runOps cf ops r).1 i + (runOps cf ops r).2.held i := by
  induction ops generalizing r with
  | nil => exact ⟨hb, fun i => by simp [runOps, recordedOn]⟩
  | cons step ops ih =>
      obtain ⟨now, o⟩ := step
      have htotal : recordedTotal ((now, o) :: ops)
          = recordedTotal ops + if o.recordedIno.isSome then 1 else 0 := by
        simp [recordedTotal, List.countP_cons]
      obtain ⟨hb', hstep⟩ := apply_conserves cf now o hb fun ino hino => by
        have h := hroom ino
        rw [htotal, hino, Option.isSome_some, if_pos rfl] at h
        omega
      have hone : ∀ i, (if o.recordedIno = some i then 1 else 0)
          ≤ if o.recordedIno.isSome then 1 else 0 := by
        intro i
        split_ifs with h1 h2 <;> simp_all
      obtain ⟨hb'', hrest⟩ := ih (r := (o.apply cf now r).2) hb' fun i => by
        have h := hroom i
        have hi := hstep i
        have ho := hone i
        rw [htotal] at h
        omega
      refine ⟨hb'', fun i => ?_⟩
      have hon : recordedOn ((now, o) :: ops) i
          = recordedOn ops i + if o.recordedIno = some i then 1 else 0 := by
        simp [recordedOn, List.countP_cons]
      have hret : (runOps cf ((now, o) :: ops) r).1
          = (o.apply cf now r).1 ++ (runOps cf ops (o.apply cf now r).2).1 := rfl
      have hend : (runOps cf ((now, o) :: ops) r).2
          = (runOps cf ops (o.apply cf now r).2).2 := rfl
      have hi := hstep i
      have hr := hrest i
      rw [hret, hend, hon, tally_append]
      omega

theorem balanced_default : (default : PathResolver).Balanced := fun _ => rfl

/-- No lookup reference is lost, duplicated or forgotten twice: what was recorded on an inode has
been returned, is queued, or is held by a path entry. -/
theorem lookup_references_conserved (cf : CaseFold) (ops : List (Instant × ResolverOp))
    (hcount : recordedTotal ops < 2 ^ 64) (i : INodeNo) :
    recordedOn ops i = tally (runOps cf ops default).1 i
      + (runOps cf ops default).2.pendingRefs i + (runOps cf ops default).2.outstandingRefs i := by
  have hzero : (default : PathResolver).held i = 0 := rfl
  obtain ⟨-, hsum⟩ := runOps_conserves cf ops balanced_default
    fun j => by simpa [show (default : PathResolver).held j = 0 from rfl] using hcount
  have hi := hsum i
  rw [hzero, Nat.zero_add, held, ← Nat.add_assoc] at hi
  exact hi

/-- Two lookups of one inode, the second with a zero time to live, and a drain. -/
def lookupsAndDrain : List (Instant × ResolverOp) :=
  let record (ttl : Duration) : PositivePathRecord := {
    path := .new ['\\', 'f'], parent := .ROOT, parentGeneration := ⟨0⟩, name := .new ['f']
    attr := .plain ⟨5⟩ .regularFile, generation := ⟨1⟩, ttl }
  [(0, .table (.rememberPositive (record (.fromNanos 10)))),
    (1, .table (.rememberPositive (record (.fromNanos 0)))), (2, .drain .takePendingForgets),
    (3, .table (.rememberPositive (record (.fromNanos 10))))]

theorem lookup_references_conserved_lookups_and_drain :
    recordedOn lookupsAndDrain ⟨5⟩
      = tally (runOps CharFold.ascii.toCaseFold lookupsAndDrain default).1 ⟨5⟩
        + (runOps CharFold.ascii.toCaseFold lookupsAndDrain default).2.pendingRefs ⟨5⟩
        + (runOps CharFold.ascii.toCaseFold lookupsAndDrain default).2.outstandingRefs ⟨5⟩ :=
  lookup_references_conserved CharFold.ascii.toCaseFold lookupsAndDrain (by decide) ⟨5⟩

end Confuse.PathResolver
