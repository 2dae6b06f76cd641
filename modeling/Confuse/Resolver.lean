import Confuse.KeyedMap
import Confuse.PathKey
import Confuse.Types

/-!
# The path resolver

The resolver caches path entries and inode attributes and owns the lookup references that the
backend granted: each positive entry holds some, and `pendingForgets` queues those to be given back.
Counts are `u64` values written as naturals with the source's saturation made explicit. The resolver
is only used under its lock, and one section of code under the lock reads one instant `now`.

`Instant::now() + ttl` is the plain sum here. Where the sum is not an instant the source panics:
`rememberPositiveOrPanic`, `rememberAttrOrPanic` and `rememberNegativeOrPanic` are the sections with
that panic, `panickingMachine` runs them, and up to a panic they are the sections below.
-/

namespace Confuse

/-- `u64::saturating_add`. -/
def saturatingAdd (a b : ℕ) : ℕ := min (a + b) (2 ^ 64 - 1)

structure ReplyEntryPayload where
  attr : FileAttr
  ttl : Duration
  generation : Generation
  deriving DecidableEq

structure PositivePathRecord where
  path : OsStr
  parent : INodeNo
  parentGeneration : Generation
  name : OsStr
  attr : FileAttr
  generation : Generation
  ttl : Duration
  deriving DecidableEq

structure ResolvedEntry where
  ino : INodeNo
  generation : Generation
  deriving DecidableEq, Repr

/-- Inodes with the number of lookup references to give back for each. -/
abbrev Forgets := List (INodeNo × ℕ)

structure PositiveEntry where
  parent : INodeNo
  parentGeneration : Generation
  name : OsStr
  ino : INodeNo
  generation : Generation
  entryExpires : Instant
  outstanding : Forgets
  deriving DecidableEq

structure NegativeEntry where
  parent : INodeNo
  parentGeneration : Generation
  name : OsStr
  expires : Instant
  deriving DecidableEq

inductive PathCacheEntry
  | positive (entry : PositiveEntry)
  | negative (entry : NegativeEntry)
  deriving DecidableEq

namespace PathCacheEntry

def parent : PathCacheEntry → INodeNo
  | .positive e => e.parent
  | .negative e => e.parent

def parentGeneration : PathCacheEntry → Generation
  | .positive e => e.parentGeneration
  | .negative e => e.parentGeneration

def name : PathCacheEntry → OsStr
  | .positive e => e.name
  | .negative e => e.name

def expires : PathCacheEntry → Instant
  | .positive e => e.entryExpires
  | .negative e => e.expires

/-- The references that an entry holds. -/
def outstanding : PathCacheEntry → Forgets
  | .positive e => e.outstanding
  | .negative _ => []

end PathCacheEntry

structure InodeState where
  attr : FileAttr
  generation : Generation
  lookupRefcount : ℕ
  attrExpires : Option Instant
  deriving DecidableEq

def InodeState.live (now : Instant) (state : InodeState) : Bool :=
  0 < state.lookupRefcount || state.attrExpires.any fun expires => now < expires

structure PathResolver where
  paths : KeyedMap Str PathCacheEntry
  inodes : KeyedMap INodeNo InodeState
  pendingForgets : Forgets
  negativeTtl : Option Duration

def incrementOutstandingLookup (outstanding : Forgets) (ino : INodeNo) : Forgets :=
  match outstanding with
  | [] => [(ino, 1)]
  | (cachedIno, nlookup) :: rest =>
      if cachedIno = ino then (cachedIno, saturatingAdd nlookup 1) :: rest
      else (cachedIno, nlookup) :: incrementOutstandingLookup rest ino

namespace PathResolver

def DEFAULT_NEGATIVE_TTL : Duration := .fromSecs 1

instance : Inhabited PathResolver where
  default := ⟨∅, ∅, [], some DEFAULT_NEGATIVE_TTL⟩

def setNegativeTtl (r : PathResolver) (ttl : Duration) : PathResolver :=
  { r with negativeTtl := if ttl.isZero then none else some ttl }

/-! ## Releasing references -/

def retainLiveInodes (now : Instant) (r : PathResolver) : PathResolver :=
  { r with inodes := r.inodes.retain fun _ state => state.live now }

/-- One turn of the loop of `release_outstanding`. -/
def releaseLookup (r : PathResolver) (e : INodeNo × ℕ) : PathResolver :=
  match r.inodes.lookup e.1 with
  | none => r
  | some state =>
      let nlookup := min state.lookupRefcount e.2
      { r with
        inodes := r.inodes.insert e.1 { state with lookupRefcount := state.lookupRefcount - nlookup }
        pendingForgets := if 0 < nlookup then r.pendingForgets ++ [(e.1, nlookup)]
          else r.pendingForgets }

def releaseOutstanding (now : Instant) (r : PathResolver) (outstanding : Forgets) : PathResolver :=
  (outstanding.foldl releaseLookup r).retainLiveInodes now

def clearAttrExpires (r : PathResolver) (ino : INodeNo) : PathResolver :=
  { r with inodes := r.inodes.modify ino fun state => { state with attrExpires := none } }

def invalidatePositiveOutstanding (now : Instant) (r : PathResolver) (outstanding : Forgets) :
    PathResolver :=
  ((outstanding.map Prod.fst).foldl clearAttrExpires r).releaseOutstanding now outstanding

def removePath (r : PathResolver) (key : Str) : PathResolver :=
  { r with paths := r.paths.erase key }

/-- Remove the entry at a key and release what it holds. -/
def dropPath (now : Instant) (r : PathResolver) (key : Str) : PathResolver :=
  match r.paths.lookup key with
  | some (.positive e) => (r.removePath key).releaseOutstanding now e.outstanding
  | _ => r.removePath key

/-- Remove the entry at a key, release what it holds and end the validity of the attributes. -/
def purgePath (now : Instant) (r : PathResolver) (key : Str) : PathResolver :=
  match r.paths.lookup key with
  | some (.positive e) => (r.removePath key).invalidatePositiveOutstanding now e.outstanding
  | _ => r.removePath key

/-! ## Sections under the lock -/

def generationFor (r : PathResolver) (ino : INodeNo) : Generation :=
  match r.inodes.lookup ino with
  | some state => state.generation
  | none => ⟨0⟩

def cached (cf : CaseFold) (now : Instant) (r : PathResolver) (path : OsStr)
    (expectedParent : INodeNo) (expectedParentGeneration : Generation) :
    Option (Except Errno ResolvedEntry) × PathResolver :=
  let key := normalizePath cf path
  if key = ['\\'] then (none, r)
  else match r.paths.lookup key with
    | some (.positive e) =>
        if now < e.entryExpires then
          if e.parent ≠ expectedParent ∨ e.parentGeneration ≠ expectedParentGeneration then
            (none, r.dropPath now key)
          else if r.inodes.lookup e.ino = none then (none, r)
          else (some (.ok ⟨e.ino, e.generation⟩), r)
        else (none, r.dropPath now key)
    | some (.negative e) =>
        if now < e.expires ∧ e.parent = expectedParent ∧
            e.parentGeneration = expectedParentGeneration then
          (some (.error ENOENT), r)
        else (none, r.removePath key)
    | none => (none, r)

def takeReusableOutstanding (now : Instant) (r : PathResolver) (key : Str) (ino : INodeNo)
    (ttl : Duration) : Forgets × PathResolver :=
  match r.paths.lookup key with
  | some (.positive e) =>
      if e.ino = ino ∧ ttl.isZero = false then (e.outstanding, r.removePath key)
      else ([], (r.removePath key).releaseOutstanding now e.outstanding)
  | _ => ([], r.removePath key)

def storePositivePathEntry (now : Instant) (r : PathResolver) (key : Str)
    (record : PositivePathRecord) (outstanding : Forgets) : PathResolver :=
  { r with
    paths := r.paths.insert key <| .positive {
      parent := record.parent
      parentGeneration := record.parentGeneration
      name := record.name
      ino := record.attr.ino
      generation := record.generation
      entryExpires := now + record.ttl.nanos
      outstanding } }

def rememberPositiveInode (r : PathResolver) (record : PositivePathRecord) : PathResolver :=
  { r with
    inodes := r.inodes.insert record.attr.ino <|
      match r.inodes.lookup record.attr.ino with
      | some state =>
          { state with
            attr := if state.attrExpires = none then record.attr else state.attr
            generation := record.generation
            lookupRefcount := saturatingAdd state.lookupRefcount 1 }
      | none =>
          { attr := record.attr
            generation := record.generation
            lookupRefcount := 1
            attrExpires := none } }

def pushForget (r : PathResolver) (ino : INodeNo) (nlookup : ℕ) : PathResolver :=
  { r with pendingForgets := r.pendingForgets ++ [(ino, nlookup)] }

def rememberPositive (cf : CaseFold) (now : Instant) (r : PathResolver)
    (record : PositivePathRecord) : ResolvedEntry × PathResolver :=
  let key := normalizePath cf record.path
  let (outstanding, r) := r.takeReusableOutstanding now key record.attr.ino record.ttl
  (⟨record.attr.ino, record.generation⟩,
    if record.ttl.isZero = false then
      (r.storePositivePathEntry now key record
        (incrementOutstandingLookup outstanding record.attr.ino)).rememberPositiveInode record
    else
      ((r.releaseOutstanding now outstanding).pushForget record.attr.ino 1).retainLiveInodes now)

def rememberLookup (cf : CaseFold) (now : Instant) (r : PathResolver) (path : OsStr)
    (parent : INodeNo) (parentGeneration : Generation) (name : OsStr)
    (payload : ReplyEntryPayload) : ResolvedEntry × PathResolver :=
  r.rememberPositive cf now {
    path, parent, parentGeneration, name
    attr := payload.attr
    generation := payload.generation
    ttl := payload.ttl }

def cachedAttr (now : Instant) (r : PathResolver) (ino : INodeNo) :
    Option FileAttr × PathResolver :=
  match r.inodes.lookup ino with
  | none => (none, r)
  | some state =>
      if state.attrExpires.any fun expires => now < expires then (some state.attr, r)
      else (none, (r.clearAttrExpires ino).retainLiveInodes now)

def invalidateInodeAttr (now : Instant) (r : PathResolver) (ino : INodeNo) : PathResolver :=
  (r.clearAttrExpires ino).retainLiveInodes now

def rememberAttr (now : Instant) (r : PathResolver) (ino : INodeNo) (attr : FileAttr)
    (ttl : Duration) : PathResolver :=
  if ttl.isZero then r.clearAttrExpires ino
  else
    { r with
      inodes := r.inodes.insert ino <|
        match r.inodes.lookup ino with
        | some state => { state with attr, attrExpires := some (now + ttl.nanos) }
        | none =>
            { attr
              generation := ⟨0⟩
              lookupRefcount := 0
              attrExpires := some (now + ttl.nanos) } }

def rememberNegative (cf : CaseFold) (now : Instant) (r : PathResolver) (path : OsStr)
    (parent : INodeNo) (parentGeneration : Generation) (name : OsStr) : PathResolver :=
  let key := normalizePath cf path
  let r := r.purgePath now key
  match r.negativeTtl with
  | none => r
  | some negativeTtl =>
      { r with
        paths := r.paths.insert key <| .negative {
          parent, parentGeneration, name
          expires := now + negativeTtl.nanos } }

def takePendingForgets (r : PathResolver) : Forgets × PathResolver :=
  (r.pendingForgets, { r with pendingForgets := [] })

def reapExpired (now : Instant) (r : PathResolver) : Forgets × PathResolver :=
  ((r.paths.keysWhere fun _ entry => entry.expires ≤ now).foldl (dropPath now) r).takePendingForgets

def invalidateMatching (now : Instant) (r : PathResolver) (hits : Str → PathCacheEntry → Bool) :
    Forgets × PathResolver :=
  let (forgets, r) := ((r.paths.keysWhere hits).foldl (purgePath now) r).takePendingForgets
  (forgets, r.retainLiveInodes now)

/-- The keys at or below `key`. -/
def inSubtree (key candidate : Str) : Bool :=
  let below := if key.getLast? = some '\\' then key else key ++ ['\\']
  candidate = key || below.isPrefixOf candidate

def invalidateSubtree (cf : CaseFold) (now : Instant) (r : PathResolver) (path : OsStr) :
    Forgets × PathResolver :=
  let key := normalizePath cf path
  r.invalidateMatching now fun candidate _ => inSubtree key candidate

/-- The entries that a notification about a child name designates. -/
def namesChild (cf : CaseFold) (parent : INodeNo) (name : OsStr) (entry : PathCacheEntry) : Bool :=
  entry.parent = parent &&
    cf.toLowercase entry.name.toStringLossy = cf.toLowercase name.toStringLossy

/-- The list that `invalidate_matching` returns is dropped here. -/
def invalidateEntryFromNotify (cf : CaseFold) (now : Instant) (r : PathResolver)
    (parent : INodeNo) (name : OsStr) : PathResolver :=
  (r.invalidateMatching now fun _ entry => namesChild cf parent name entry).2

/-! ## What each step does to the path table -/

@[simp] theorem default_paths : (default : PathResolver).paths = ∅ := rfl

@[simp] theorem default_pendingForgets : (default : PathResolver).pendingForgets = [] := rfl

@[simp] theorem retainLiveInodes_paths (now : Instant) (r : PathResolver) :
    (r.retainLiveInodes now).paths = r.paths := rfl

@[simp] theorem clearAttrExpires_paths (r : PathResolver) (ino : INodeNo) :
    (r.clearAttrExpires ino).paths = r.paths := rfl

@[simp] theorem removePath_paths (r : PathResolver) (key : Str) :
    (r.removePath key).paths = r.paths.erase key := rfl

@[simp] theorem pushForget_paths (r : PathResolver) (ino : INodeNo) (nlookup : ℕ) :
    (r.pushForget ino nlookup).paths = r.paths := rfl

@[simp] theorem rememberPositiveInode_paths (r : PathResolver) (record : PositivePathRecord) :
    (r.rememberPositiveInode record).paths = r.paths := rfl

@[simp] theorem takePendingForgets_paths (r : PathResolver) :
    r.takePendingForgets.2.paths = r.paths := rfl

@[simp] theorem releaseLookup_paths (r : PathResolver) (e : INodeNo × ℕ) :
    (r.releaseLookup e).paths = r.paths := by
  unfold releaseLookup
  cases r.inodes.lookup e.1 <;> rfl

theorem foldl_paths {ι : Type} {f : PathResolver → ι → PathResolver}
    (hf : ∀ r e, (f r e).paths = r.paths) (l : List ι) (r : PathResolver) :
    (l.foldl f r).paths = r.paths := by
  induction l generalizing r with
  | nil => rfl
  | cons e l ih => rw [List.foldl_cons, ih, hf]

@[simp] theorem releaseOutstanding_paths (now : Instant) (r : PathResolver)
    (outstanding : Forgets) : (r.releaseOutstanding now outstanding).paths = r.paths :=
  foldl_paths releaseLookup_paths outstanding r

@[simp] theorem invalidatePositiveOutstanding_paths (now : Instant) (r : PathResolver)
    (outstanding : Forgets) : (r.invalidatePositiveOutstanding now outstanding).paths = r.paths := by
  rw [invalidatePositiveOutstanding, releaseOutstanding_paths, foldl_paths clearAttrExpires_paths]

@[simp] theorem dropPath_paths (now : Instant) (r : PathResolver) (key : Str) :
    (r.dropPath now key).paths = r.paths.erase key := by
  unfold dropPath
  rcases r.paths.lookup key with _ | ⟨e⟩ | ⟨e⟩ <;> simp

@[simp] theorem purgePath_paths (now : Instant) (r : PathResolver) (key : Str) :
    (r.purgePath now key).paths = r.paths.erase key := by
  unfold purgePath
  rcases r.paths.lookup key with _ | ⟨e⟩ | ⟨e⟩ <;> simp

theorem foldl_dropPath_paths (now : Instant) (keys : List Str) (r : PathResolver) :
    (keys.foldl (dropPath now) r).paths = r.paths.eraseAll keys := by
  induction keys generalizing r with
  | nil => rfl
  | cons key keys ih =>
      rw [List.foldl_cons, ih, dropPath_paths]
      rfl

theorem foldl_purgePath_paths (now : Instant) (keys : List Str) (r : PathResolver) :
    (keys.foldl (purgePath now) r).paths = r.paths.eraseAll keys := by
  induction keys generalizing r with
  | nil => rfl
  | cons key keys ih =>
      rw [List.foldl_cons, ih, purgePath_paths]
      rfl

theorem reapExpired_paths (now : Instant) (r : PathResolver) :
    (r.reapExpired now).2.paths
      = r.paths.eraseAll (r.paths.keysWhere fun _ entry => entry.expires ≤ now) :=
  foldl_dropPath_paths now _ r

theorem invalidateMatching_paths (now : Instant) (r : PathResolver)
    (hits : Str → PathCacheEntry → Bool) :
    (r.invalidateMatching now hits).2.paths = r.paths.eraseAll (r.paths.keysWhere hits) :=
  foldl_purgePath_paths now _ r

@[simp] theorem takeReusableOutstanding_paths (now : Instant) (r : PathResolver) (key : Str)
    (ino : INodeNo) (ttl : Duration) :
    (r.takeReusableOutstanding now key ino ttl).2.paths = r.paths.erase key := by
  unfold takeReusableOutstanding
  rcases r.paths.lookup key with _ | ⟨e⟩ | ⟨e⟩
  · rfl
  · dsimp only
    split_ifs <;> simp
  · rfl

theorem rememberAttr_paths (now : Instant) (r : PathResolver) (ino : INodeNo) (attr : FileAttr)
    (ttl : Duration) : (r.rememberAttr now ino attr ttl).paths = r.paths := by
  unfold rememberAttr
  split_ifs <;> rfl

theorem cachedAttr_paths (now : Instant) (r : PathResolver) (ino : INodeNo) :
    (r.cachedAttr now ino).2.paths = r.paths := by
  unfold cachedAttr
  cases r.inodes.lookup ino with
  | none => rfl
  | some state =>
      dsimp only
      split_ifs <;> rfl

/-! ## What the cache serves -/

/-- A positive answer comes from the entry at the path's key, checked against the parent. -/
theorem cached_ok {cf : CaseFold} {now : Instant} {r : PathResolver} {path : OsStr}
    {parent : INodeNo} {parentGeneration : Generation} {entry : ResolvedEntry}
    (h : (r.cached cf now path parent parentGeneration).1 = some (.ok entry)) :
    ∃ e, r.paths.lookup (normalizePath cf path) = some (.positive e) ∧ e.parent = parent ∧
      e.parentGeneration = parentGeneration ∧ entry = ⟨e.ino, e.generation⟩ ∧
      (r.cached cf now path parent parentGeneration).2 = r := by
  unfold cached at h ⊢
  dsimp only at h ⊢
  by_cases hroot : normalizePath cf path = ['\\']
  · simp [hroot] at h
  rw [if_neg hroot] at h ⊢
  rcases hl : r.paths.lookup (normalizePath cf path) with _ | ⟨e⟩ | ⟨e⟩
  · simp [hl] at h
  · simp only [hl] at h ⊢
    split_ifs at h ⊢ with hlive hparent hino
    obtain ⟨hp, hg⟩ : e.parent = parent ∧ e.parentGeneration = parentGeneration := by
      simpa [not_or] using hparent
    exact ⟨e, rfl, hp, hg, by simpa using h.symm, rfl⟩
  · simp only [hl] at h
    split_ifs at h
    simp at h

/-- A negative answer comes from the entry at the path's key, checked against the parent. -/
theorem cached_error {cf : CaseFold} {now : Instant} {r : PathResolver} {path : OsStr}
    {parent : INodeNo} {parentGeneration : Generation} {err : Errno}
    (h : (r.cached cf now path parent parentGeneration).1 = some (.error err)) :
    err = ENOENT ∧ ∃ e, r.paths.lookup (normalizePath cf path) = some (.negative e) ∧
      e.parent = parent ∧ e.parentGeneration = parentGeneration ∧
      (r.cached cf now path parent parentGeneration).2 = r := by
  unfold cached at h ⊢
  dsimp only at h ⊢
  by_cases hroot : normalizePath cf path = ['\\']
  · simp [hroot] at h
  rw [if_neg hroot] at h ⊢
  rcases hl : r.paths.lookup (normalizePath cf path) with _ | ⟨e⟩ | ⟨e⟩
  · simp [hl] at h
  · simp only [hl] at h
    split_ifs at h
    simp at h
  · simp only [hl] at h ⊢
    split_ifs at h ⊢ with hserved
    exact ⟨by simpa using h.symm, e, rfl, hserved.2.1, hserved.2.2, rfl⟩

end PathResolver
end Confuse
