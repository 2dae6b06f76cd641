import Confuse.ResolverHistory

/-!
# The representation invariant of the resolver

Every positive entry holds references on its own inode alone, and the refcount of an inode is the
number of references that the entries hold on it. Each section is written a second time so that it
gives up where `release_outstanding` would clamp or drop a count, and `cached` also where the inode of
an entry is missing; no history with fewer than 2^64 recorded lookups makes a section give up.
-/

namespace Confuse

open PathResolver

namespace PathResolver

/-! ## Sections that give up -/

/-- One turn of the loop of `release_outstanding`, if the refcount of the inode covers the count. -/
def releaseLookup? (r : PathResolver) (e : INodeNo × ℕ) : Option PathResolver :=
  match r.inodes.lookup e.1 with
  | none => none
  | some state => if e.2 ≤ state.lookupRefcount then some (r.releaseLookup e) else none

def releaseOutstanding? (now : Instant) (r : PathResolver) (outstanding : Forgets) :
    Option PathResolver := do
  let r ← outstanding.foldlM releaseLookup? r
  pure (r.retainLiveInodes now)

def invalidatePositiveOutstanding? (now : Instant) (r : PathResolver) (outstanding : Forgets) :
    Option PathResolver :=
  ((outstanding.map Prod.fst).foldl clearAttrExpires r).releaseOutstanding? now outstanding

def dropPath? (now : Instant) (r : PathResolver) (key : Str) : Option PathResolver :=
  match r.paths.lookup key with
  | some (.positive e) => (r.removePath key).releaseOutstanding? now e.outstanding
  | _ => some (r.removePath key)

def purgePath? (now : Instant) (r : PathResolver) (key : Str) : Option PathResolver :=
  match r.paths.lookup key with
  | some (.positive e) => (r.removePath key).invalidatePositiveOutstanding? now e.outstanding
  | _ => some (r.removePath key)

def cached? (cf : CaseFold) (now : Instant) (r : PathResolver) (path : OsStr)
    (expectedParent : INodeNo) (expectedParentGeneration : Generation) : Option PathResolver :=
  let key := normalizePath cf path
  if key = ['\\'] then some r
  else match r.paths.lookup key with
    | some (.positive e) =>
        if now < e.entryExpires then
          if e.parent ≠ expectedParent ∨ e.parentGeneration ≠ expectedParentGeneration then
            r.dropPath? now key
          else if r.inodes.lookup e.ino = none then none
          else some r
        else r.dropPath? now key
    | some (.negative e) =>
        if now < e.expires ∧ e.parent = expectedParent ∧
            e.parentGeneration = expectedParentGeneration then some r
        else some (r.removePath key)
    | none => some r

def takeReusableOutstanding? (now : Instant) (r : PathResolver) (key : Str) (ino : INodeNo)
    (ttl : Duration) : Option (Forgets × PathResolver) :=
  match r.paths.lookup key with
  | some (.positive e) =>
      if e.ino = ino ∧ ttl.isZero = false then some (e.outstanding, r.removePath key)
      else do
        let r ← (r.removePath key).releaseOutstanding? now e.outstanding
        pure ([], r)
  | _ => some ([], r.removePath key)

def rememberPositive? (cf : CaseFold) (now : Instant) (r : PathResolver)
    (record : PositivePathRecord) : Option PathResolver := do
  let key := normalizePath cf record.path
  let (outstanding, r) ← r.takeReusableOutstanding? now key record.attr.ino record.ttl
  if record.ttl.isZero = false then
    pure ((r.storePositivePathEntry now key record
      (incrementOutstandingLookup outstanding record.attr.ino)).rememberPositiveInode record)
  else do
    let r ← r.releaseOutstanding? now outstanding
    pure ((r.pushForget record.attr.ino 1).retainLiveInodes now)

def rememberNegative? (cf : CaseFold) (now : Instant) (r : PathResolver) (path : OsStr)
    (parent : INodeNo) (parentGeneration : Generation) (name : OsStr) : Option PathResolver := do
  let key := normalizePath cf path
  let r ← r.purgePath? now key
  match r.negativeTtl with
  | none => pure r
  | some negativeTtl =>
      pure { r with
        paths := r.paths.insert key <| .negative {
          parent, parentGeneration, name
          expires := now + negativeTtl.nanos } }

def reapExpired? (now : Instant) (r : PathResolver) : Option PathResolver := do
  let r ← (r.paths.keysWhere fun _ entry => entry.expires ≤ now).foldlM (dropPath? now) r
  pure r.takePendingForgets.2

def invalidateMatching? (now : Instant) (r : PathResolver) (hits : Str → PathCacheEntry → Bool) :
    Option PathResolver := do
  let r ← (r.paths.keysWhere hits).foldlM (purgePath? now) r
  pure (r.takePendingForgets.2.retainLiveInodes now)

end PathResolver

/-- An operation, unless a count is clamped or dropped or the inode of an entry is missing. -/
def HistoryOp.step? (cf : CaseFold) (now : Instant) : HistoryOp → PathResolver → Option PathResolver
  | .op (.table (.rememberPositive record)), r => r.rememberPositive? cf now record
  | .op (.table (.rememberCreated c)), r =>
      r.rememberPositive? cf now (c.record (r.generationFor c.parent))
  | .op (.table (.rememberNegative path parent parentGeneration name)), r =>
      r.rememberNegative? cf now path parent parentGeneration name
  | .op (.table (.cached path parent parentGeneration)), r =>
      r.cached? cf now path parent parentGeneration
  | .op (.table (.cachedAttr ino)), r => some (r.cachedAttr now ino).2
  | .op (.table (.rememberAttr ino attr ttl)), r => some (r.rememberAttr now ino attr ttl)
  | .op (.table (.invalidateInodeAttr ino)), r => some (r.invalidateInodeAttr now ino)
  | .op (.drain .takePendingForgets), r => some r.takePendingForgets.2
  | .op (.drain .reapExpired), r => r.reapExpired? now
  | .op (.drain (.invalidateSubtree path)), r =>
      r.invalidateMatching? now fun candidate _ => inSubtree (normalizePath cf path) candidate
  | .notify (.invalInode ino), r => some (r.invalidateInodeAttr now ino)
  | .notify (.invalEntry parent name), r =>
      r.invalidateMatching? now fun _ entry => namesChild cf parent name entry
  | .notify (.delete parent child name), r => do
      let r ← r.invalidateMatching? now fun _ entry => namesChild cf parent name entry
      pure (r.invalidateInodeAttr now child)
  | .setNegativeTtl ttl, r => some (r.setNegativeTtl ttl)

/-- The resolver that a history leads to, unless a section gives up. -/
def History.state? (cf : CaseFold) : History → Option PathResolver
  | [] => some default
  | (now, o) :: before => (History.state? cf before).bind (o.step? cf now)

namespace PathResolver

/-! ## No section gives up -/

/-- The refcounts are those of the entries, and every entry holds references on its inode. -/
structure Sound (r : PathResolver) : Prop where
  balanced : r.Balanced
  shaped : r.Shaped

/-- A covered list of positive counts is released as it is. -/
theorem foldlM_releaseLookup? {outstanding : Forgets} {r : PathResolver}
    (hpos : ∀ e ∈ outstanding, 0 < e.2) (hcover : ∀ i, tally outstanding i ≤ r.refcount i) :
    outstanding.foldlM releaseLookup? r = some (outstanding.foldl releaseLookup r) := by
  induction outstanding generalizing r with
  | nil => rfl
  | cons e outstanding ih =>
      have he := hcover e.1
      have hcount := hpos e List.mem_cons_self
      rw [tally_cons, if_pos rfl] at he
      cases hlookup : r.inodes.lookup e.1 with
      | none =>
          rw [refcount, hlookup, Option.elim_none] at he
          omega
      | some state =>
          rw [refcount, hlookup, Option.elim_some] at he
          have hstep : r.releaseLookup? e = some (r.releaseLookup e) := by
            simp only [releaseLookup?, hlookup]
            rw [if_pos (by omega)]
          rw [List.foldlM_cons, hstep]
          apply ih (fun e' he' => hpos e' (List.mem_cons_of_mem e he'))
          intro i
          have hi := hcover i
          have hleft := (releaseLookup_counts r e.1 e.2 i).1
          rw [tally_cons] at hi
          rw [hleft]
          omega

theorem releaseOutstanding?_eq (now : Instant) {r : PathResolver} {outstanding : Forgets}
    (hpos : ∀ e ∈ outstanding, 0 < e.2) (hcover : r.Covers outstanding) :
    r.releaseOutstanding? now outstanding = some (r.releaseOutstanding now outstanding) := by
  have hfold : outstanding.foldlM releaseLookup? r = some (outstanding.foldl releaseLookup r) := by
    apply foldlM_releaseLookup? hpos
    intro i
    rw [hcover i]
    omega
  rw [releaseOutstanding?, hfold]
  rfl

namespace Sound
variable {r : PathResolver}

/-- What the entry at a key holds is covered once the entry is removed. -/
theorem entry (h : r.Sound) {key : Str} {e : PositiveEntry}
    (he : r.paths.lookup key = some (.positive e)) :
    (∀ f ∈ e.outstanding, 0 < f.2) ∧ (r.removePath key).Covers e.outstanding := by
  constructor
  · obtain ⟨n, hn, hout⟩ := h.shaped.entry key e he
    intro f hf
    rw [hout, List.mem_singleton] at hf
    rwa [hf]
  · have hcover := covers_removePath h.balanced key
    rwa [entryRefs, he] at hcover

theorem release (h : r.Sound) (now : Instant) {key : Str} {e : PositiveEntry}
    (he : r.paths.lookup key = some (.positive e)) :
    (r.removePath key).releaseOutstanding? now e.outstanding
      = some ((r.removePath key).releaseOutstanding now e.outstanding) := by
  obtain ⟨hpos, hcover⟩ := h.entry he
  exact releaseOutstanding?_eq now hpos hcover

theorem dropPath? (h : r.Sound) (now : Instant) (key : Str) :
    r.dropPath? now key = some (r.dropPath now key) := by
  unfold PathResolver.dropPath? PathResolver.dropPath
  rcases he : r.paths.lookup key with _ | ⟨e⟩ | ⟨e⟩
  · rfl
  · exact h.release now he
  · rfl

theorem purgePath? (h : r.Sound) (now : Instant) (key : Str) :
    r.purgePath? now key = some (r.purgePath now key) := by
  unfold PathResolver.purgePath? PathResolver.purgePath
  rcases he : r.paths.lookup key with _ | ⟨e⟩ | ⟨e⟩
  · rfl
  · obtain ⟨hpos, hcover⟩ := h.entry he
    apply releaseOutstanding?_eq now hpos
    intro i
    rw [(foldl_clearAttrExpires _ _).2 i, hcover i, outstandingRefs, outstandingRefs,
      foldl_paths clearAttrExpires_paths]
  · rfl

theorem dropPath (h : r.Sound) (now : Instant) (key : Str) : (r.dropPath now key).Sound :=
  ⟨(dropPath_keeps now r key h.balanced).1, h.shaped.dropPath now key⟩

theorem purgePath (h : r.Sound) (now : Instant) (key : Str) : (r.purgePath now key).Sound :=
  ⟨(purgePath_keeps now r key h.balanced).1, h.shaped.purgePath now key⟩

/-- A loop whose turns do not give up. -/
theorem foldlM {f? : PathResolver → Str → Option PathResolver} {f : PathResolver → Str → PathResolver}
    (hturn : ∀ {r : PathResolver} key, r.Sound → f? r key = some (f r key))
    (hkeeps : ∀ {r : PathResolver} key, r.Sound → (f r key).Sound) (keys : List Str) (h : r.Sound) :
    keys.foldlM f? r = some (keys.foldl f r) := by
  induction keys generalizing r with
  | nil => rfl
  | cons key keys ih =>
      rw [List.foldlM_cons, hturn key h]
      exact ih (hkeeps key h)

theorem reapExpired? (h : r.Sound) (now : Instant) :
    r.reapExpired? now = some (r.reapExpired now).2 := by
  have hloop := h.foldlM (fun key hr => hr.dropPath? now key) (fun key hr => hr.dropPath now key)
    (r.paths.keysWhere fun _ entry => entry.expires ≤ now)
  rw [PathResolver.reapExpired?, hloop]
  rfl

theorem invalidateMatching? (h : r.Sound) (now : Instant) (hits : Str → PathCacheEntry → Bool) :
    r.invalidateMatching? now hits = some (r.invalidateMatching now hits).2 := by
  have hloop := h.foldlM (fun key hr => hr.purgePath? now key) (fun key hr => hr.purgePath now key)
    (r.paths.keysWhere hits)
  rw [PathResolver.invalidateMatching?, hloop]
  rfl

theorem takeReusableOutstanding? (h : r.Sound) (now : Instant) (key : Str) (ino : INodeNo)
    (ttl : Duration) : r.takeReusableOutstanding? now key ino ttl
      = some (r.takeReusableOutstanding now key ino ttl) := by
  unfold PathResolver.takeReusableOutstanding? PathResolver.takeReusableOutstanding
  rcases he : r.paths.lookup key with _ | ⟨e⟩ | ⟨e⟩
  · rfl
  · dsimp only
    split_ifs
    · rfl
    · rw [h.release now he]
      rfl
  · rfl

theorem rememberPositive? (h : r.Sound) (cf : CaseFold) (now : Instant)
    (record : PositivePathRecord) :
    r.rememberPositive? cf now record = some (r.rememberPositive cf now record).2 := by
  obtain ⟨hcover, -⟩ := takeReusableOutstanding_spec now h.balanced (normalizePath cf record.path)
    record.attr.ino record.ttl
  obtain ⟨-, hshape⟩ := h.shaped.takeReusableOutstanding now (normalizePath cf record.path)
    record.attr.ino record.ttl
  unfold PathResolver.rememberPositive? PathResolver.rememberPositive
  dsimp only
  rw [h.takeReusableOutstanding? now]
  simp only [Option.bind_eq_bind, Option.bind_some]
  split_ifs with httl
  · rfl
  · rw [releaseOutstanding?_eq now ?_ hcover]
    · rfl
    · intro f hf
      rcases hshape with hnil | ⟨n, hn, hone⟩
      · rw [hnil] at hf
        cases hf
      · rw [hone, List.mem_singleton] at hf
        rwa [hf]

theorem rememberNegative? (h : r.Sound) (cf : CaseFold) (now : Instant) (path : OsStr)
    (parent : INodeNo) (parentGeneration : Generation) (name : OsStr) :
    r.rememberNegative? cf now path parent parentGeneration name
      = some (r.rememberNegative cf now path parent parentGeneration name) := by
  unfold PathResolver.rememberNegative? PathResolver.rememberNegative
  dsimp only
  rw [h.purgePath? now]
  simp only [Option.bind_eq_bind, Option.bind_some]
  cases (r.purgePath now (normalizePath cf path)).negativeTtl <;> rfl

theorem cached? (h : r.Sound) (cf : CaseFold) (now : Instant) (path : OsStr) (parent : INodeNo)
    (parentGeneration : Generation) : r.cached? cf now path parent parentGeneration
      = some (r.cached cf now path parent parentGeneration).2 := by
  unfold PathResolver.cached? PathResolver.cached
  dsimp only
  split_ifs with hroot
  · rfl
  rcases he : r.paths.lookup (normalizePath cf path) with _ | ⟨e⟩ | ⟨e⟩
  · rfl
  · dsimp only
    have hknown := h.shaped.entry_known h.balanced he
    rw [if_neg hknown, if_neg hknown, h.dropPath? now]
    split_ifs <;> rfl
  · dsimp only
    split_ifs <;> rfl

theorem step? (h : r.Sound) (cf : CaseFold) (now : Instant) (o : HistoryOp) :
    o.step? cf now r = some (o.apply cf now r) := by
  cases o with
  | op o =>
      cases o with
      | table o =>
          cases o with
          | rememberPositive record => exact h.rememberPositive? cf now record
          | rememberCreated c => exact h.rememberPositive? cf now _
          | rememberNegative path parent parentGeneration name =>
              exact h.rememberNegative? cf now path parent parentGeneration name
          | cached path parent parentGeneration => exact h.cached? cf now path parent parentGeneration
          | cachedAttr ino => rfl
          | rememberAttr ino attr ttl => rfl
          | invalidateInodeAttr ino => rfl
      | drain o =>
          cases o with
          | takePendingForgets => rfl
          | reapExpired => exact h.reapExpired? now
          | invalidateSubtree path => exact h.invalidateMatching? now _
  | notify n =>
      cases n with
      | invalInode ino => rfl
      | invalEntry parent name => exact h.invalidateMatching? now _
      | delete parent child name =>
          exact congrArg (fun r' => r'.bind fun r' => some (r'.invalidateInodeAttr now child))
            (h.invalidateMatching? now _)
  | setNegativeTtl ttl => rfl

end Sound
end PathResolver

namespace History

theorem state_sound (cf : CaseFold) {h : History} (hcount : h.recordings < 2 ^ 64) :
    (state cf h).Sound := ⟨(state_balanced cf hcount).1, (reachable_state cf h).shaped⟩

theorem state?_eq (cf : CaseFold) {h : History} (hcount : h.recordings < 2 ^ 64) :
    state? cf h = some (state cf h) := by
  induction h with
  | nil => rfl
  | cons step before ih =>
      obtain ⟨now, o⟩ := step
      have hbefore : recordings before < 2 ^ 64 := by
        have htotal : recordings ((now, o) :: before)
            = recordings before + if o.recordedIno.isSome then 1 else 0 := by
          simp [recordings, List.countP_cons]
        omega
      rw [state?, ih hbefore]
      exact (state_sound cf hbefore).step? cf now o

end History

/-- After any history with fewer than 2^64 recorded lookups: every positive entry holds some references
on its own inode and no others; the refcount of an inode is the sum of what the entries hold on it; the
inode of every positive entry is there; every queued count is positive; and on the way no release
clamped or dropped a count and no lookup found an entry without its inode. -/
theorem resolver_representation (cf : CaseFold) (h : History) (hcount : h.recordings < 2 ^ 64) :
    let r := h.state cf
    (∀ key e, r.paths.lookup key = some (.positive e) →
      ∃ n, 1 ≤ n ∧ e.outstanding = [(e.ino, n)]) ∧
    (∀ i, (r.inodes.lookup i).elim 0 InodeState.lookupRefcount
      = r.paths.total fun _ entry => tally entry.outstanding i) ∧
    (∀ key e, r.paths.lookup key = some (.positive e) → r.inodes.lookup e.ino ≠ none) ∧
    (∀ f ∈ r.pendingForgets, 0 < f.2) ∧
    h.state? cf = some r := by
  have hsound := History.state_sound cf hcount
  exact ⟨hsound.shaped.entry, balanced_iff.mp hsound.balanced,
    fun _ _ he => hsound.shaped.entry_known hsound.balanced he, hsound.shaped.pending,
    History.state?_eq cf hcount⟩

/-- A file looked up twice, a notification about its entry and a lookup with no time to live. -/
def lookedUpTwice : History :=
  [(3, .op (.table (.rememberPositive { lookupOfF with ttl := .fromNanos 0 }))),
    (2, .notify (.invalEntry .ROOT (.new ['F']))),
    (1, .op (.table (.rememberPositive lookupOfF))), (0, .op (.table (.rememberPositive lookupOfF)))]

theorem resolver_representation_lookedUpTwice :
    lookedUpTwice.state? CharFold.ascii.toCaseFold
      = some (lookedUpTwice.state CharFold.ascii.toCaseFold) :=
  (resolver_representation CharFold.ascii.toCaseFold lookedUpTwice (by decide)).2.2.2.2

end Confuse
