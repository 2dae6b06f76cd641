import Confuse.ResolverBound
import Confuse.TtlOverflow

/-!
# The path table and its history

What the resolver serves for a path is compared with the history of its operations. `written` reads
off a history what the last operation that wrote or removed a key left there; it knows nothing of
the tables, of inode records or of references. An entry is only served while its inode is known,
which holds as long as no count of references has saturated. An operation whose expiry is not an
instant panics, and no other operation gets at the resolver after it.
-/

namespace Confuse

open PathResolver

/-- An operation on a resolver, from any thread. -/
inductive HistoryOp
  | op (o : ResolverOp)
  | notify (n : NotifierCall)
  | setNegativeTtl (ttl : Duration)

def HistoryOp.apply (cf : CaseFold) (now : Instant) : HistoryOp → PathResolver → PathResolver
  | .op o, r => (o.apply cf now r).2
  | .notify n, r => n.apply cf now r
  | .setNegativeTtl ttl, r => r.setNegativeTtl ttl

def HistoryOp.recordedIno : HistoryOp → Option INodeNo
  | .op o => o.recordedIno
  | _ => none

/-- What happened to a resolver, the latest operation first. -/
abbrev History := List (Instant × HistoryOp)

namespace History

/-- The resolver that a history leads to. -/
def state (cf : CaseFold) : History → PathResolver
  | [] => default
  | (now, o) :: before => o.apply cf now (state cf before)

/-- The number of lookups that a history records. -/
def recordings (h : History) : ℕ := h.countP fun step => step.2.recordedIno.isSome

/-- What an operation gives to `remember_positive`. -/
def recordOf (cf : CaseFold) (before : History) : HistoryOp → Option PositivePathRecord
  | .op (.table (.rememberPositive record)) => some record
  | .op (.table (.rememberCreated c)) => some (c.record ((state cf before).generationFor c.parent))
  | _ => none

/-- The time to live of negative entries that was set last. -/
def negativeTtl : History → Option Duration
  | [] => some DEFAULT_NEGATIVE_TTL
  | (_, .setNegativeTtl ttl) :: _ => if ttl.isZero then none else some ttl
  | _ :: before => negativeTtl before

end History

/-- What an entry of the path table says, without the references that it holds. -/
structure Written where
  parent : INodeNo
  parentGeneration : Generation
  name : OsStr
  answer : Except Errno ResolvedEntry
  expires : Instant

namespace Written

/-- The entry is valid and was written for this parent. -/
def serves (now : Instant) (parent : INodeNo) (parentGeneration : Generation) (w : Written) : Bool :=
  now < w.expires && w.parent = parent && w.parentGeneration = parentGeneration

theorem serves_iff (now : Instant) (parent : INodeNo) (parentGeneration : Generation) (w : Written) :
    w.serves now parent parentGeneration = true
      ↔ now < w.expires ∧ w.parent = parent ∧ w.parentGeneration = parentGeneration := by
  simp [serves, and_assoc]

def namesChild (cf : CaseFold) (parent : INodeNo) (name : OsStr) (w : Written) : Bool :=
  w.parent = parent && cf.toLowercase w.name.toStringLossy = cf.toLowercase name.toStringLossy

/-- What is served of what was written, if it is served. -/
theorem served_iff (now : Instant) (parent : INodeNo) (parentGeneration : Generation)
    (o : Option Written) (answer : Except Errno ResolvedEntry) :
    (o.filter (serves now parent parentGeneration)).map Written.answer = some answer ↔
      ∃ w, o = some w ∧ w.answer = answer ∧ now < w.expires ∧ w.parent = parent ∧
        w.parentGeneration = parentGeneration := by
  simp only [Option.map_eq_some_iff, Option.filter_eq_some_iff, serves_iff]
  constructor
  · rintro ⟨w, ⟨hw, hs⟩, ha⟩
    exact ⟨w, hw, ha, hs⟩
  · rintro ⟨w, hw, ha, hs⟩
    exact ⟨w, ⟨hw, hs⟩, ha⟩

end Written

def PathCacheEntry.written : PathCacheEntry → Written
  | .positive e => ⟨e.parent, e.parentGeneration, e.name, .ok ⟨e.ino, e.generation⟩, e.entryExpires⟩
  | .negative e => ⟨e.parent, e.parentGeneration, e.name, .error ENOENT, e.expires⟩

def PositivePathRecord.written (now : Instant) (record : PositivePathRecord) : Written where
  parent := record.parent
  parentGeneration := record.parentGeneration
  name := record.name
  answer := .ok ⟨record.attr.ino, record.generation⟩
  expires := now + record.ttl.nanos

/-- What an operation does to one place of a table. -/
inductive Touch (ω : Type)
  | leaves
  | removes
  | writes (w : ω)

namespace Touch
variable {ω : Type}

/-- What stands at the place after it was touched. -/
def result (w : Option ω) : Touch ω → Option ω
  | .leaves => w
  | .removes => none
  | .writes w' => some w'

theorem result_none {t : Touch ω} {w : ω} (h : t.result none = some w) : t = .writes w := by
  cases t with
  | leaves => cases h
  | removes => cases h
  | writes w' => rw [Option.some.inj h]

end Touch

namespace History

section Touch
variable {ω : Type} (touch : Instant → History → Option ω → HistoryOp → Touch ω)

/-- What the last operation that wrote or removed left. -/
def left : History → Option ω
  | [] => none
  | (now, o) :: before => (touch now before (left before) o).result (left before)

theorem left_cons (now : Instant) (o : HistoryOp) (before : History) :
    left touch ((now, o) :: before)
      = (touch now before (left touch before) o).result (left touch before) := rfl

/-- The history up to the last operation that wrote or removed, that operation first. -/
def lastTouch : History → History
  | [] => []
  | (now, o) :: before =>
      match touch now before (left touch before) o with
      | .leaves => lastTouch before
      | _ => (now, o) :: before

theorem lastTouch_cons (now : Instant) (o : HistoryOp) (before : History) :
    lastTouch touch ((now, o) :: before)
      = match touch now before (left touch before) o with
        | .leaves => lastTouch touch before
        | _ => (now, o) :: before := rfl

/-- Only the last operation that wrote or removed matters for what is left. -/
theorem left_lastTouch (h : History) :
    (lastTouch touch h = [] ∧ left touch h = none) ∨
      ∃ now o before, lastTouch touch h = (now, o) :: before ∧
        touch now before (left touch before) o ≠ .leaves ∧
        left touch h = (touch now before (left touch before) o).result none := by
  induction h with
  | nil => exact .inl ⟨rfl, rfl⟩
  | cons step before ih =>
      obtain ⟨now, o⟩ := step
      rw [lastTouch_cons, left_cons]
      cases htouch : touch now before (left touch before) o with
      | leaves => exact ih
      | removes => exact .inr ⟨now, o, before, rfl, by simp [htouch], by rw [htouch]; rfl⟩
      | writes w => exact .inr ⟨now, o, before, rfl, by simp [htouch], by rw [htouch]; rfl⟩

end Touch
end History

/-- What `remember_positive` does to a key. -/
def PositivePathRecord.touch (cf : CaseFold) (now : Instant) (key : Str)
    (record : PositivePathRecord) : Touch Written :=
  if normalizePath cf record.path = key then
    if record.ttl.isZero then .removes else .writes (record.written now)
  else .leaves

namespace History

/-- What an operation does to a key at which `w` was written. -/
def pathTouch (cf : CaseFold) (key : Str) (now : Instant) (before : History) (w : Option Written) :
    HistoryOp → Touch Written
  | .op (.table (.rememberNegative path parent parentGeneration name)) =>
      if normalizePath cf path = key then
        match negativeTtl before with
        | none => .removes
        | some ttl => .writes ⟨parent, parentGeneration, name, .error ENOENT, now + ttl.nanos⟩
      else .leaves
  | .op (.table (.cached path parent parentGeneration)) =>
      if normalizePath cf path = key ∧ key ≠ ['\\'] ∧
          (w.any fun w => !w.serves now parent parentGeneration) = true then .removes
      else .leaves
  | .op (.drain .reapExpired) =>
      if w.any fun w => w.expires ≤ now then .removes else .leaves
  | .op (.drain (.invalidateSubtree path)) =>
      if inSubtree (normalizePath cf path) key then .removes else .leaves
  | .notify (.invalEntry parent name) =>
      if w.any (Written.namesChild cf parent name) then .removes else .leaves
  | .notify (.delete parent _ name) =>
      if w.any (Written.namesChild cf parent name) then .removes else .leaves
  | o =>
      match recordOf cf before o with
      | none => .leaves
      | some record => record.touch cf now key

/-- What the last operation that wrote or removed a key left there. -/
abbrev written (cf : CaseFold) (key : Str) (h : History) : Option Written := left (pathTouch cf key) h

/-! ## The table follows the history -/

theorem reachable_state (cf : CaseFold) (h : History) : Reachable cf (state cf h) := by
  induction h with
  | nil => exact .default
  | cons step before ih =>
      obtain ⟨now, o⟩ := step
      cases o with
      | op o => exact .op now o ih
      | notify n => exact .notify now n ih
      | setNegativeTtl ttl => exact .setNegativeTtl ttl ih

/-- Below 2^64 recorded lookups the refcounts are those of the path entries. -/
theorem state_balanced (cf : CaseFold) {h : History} (hcount : h.recordings < 2 ^ 64) :
    (state cf h).Balanced ∧ ∀ i, (state cf h).held i ≤ h.recordings := by
  induction h with
  | nil => exact ⟨balanced_default, fun i => le_rfl⟩
  | cons step before ih =>
      obtain ⟨now, o⟩ := step
      have htotal : recordings ((now, o) :: before)
          = recordings before + if o.recordedIno.isSome then 1 else 0 := by
        simp [recordings, List.countP_cons]
      rw [htotal] at hcount
      obtain ⟨hb, hheld⟩ := ih (by omega)
      cases o with
      | op o =>
          obtain ⟨hb', hsum⟩ := apply_conserves cf now o hb fun ino hino => by
            have hroom := hheld ino
            rw [show (HistoryOp.op o).recordedIno = some ino from hino] at hcount
            simp only [Option.isSome_some, if_true] at hcount
            omega
          refine ⟨hb', fun i => ?_⟩
          have hi := hsum i
          have hbound := hheld i
          have hone : (if o.recordedIno = some i then 1 else 0)
              ≤ if (HistoryOp.op o).recordedIno.isSome then 1 else 0 := by
            by_cases hino : o.recordedIno = some i
            · simp [HistoryOp.recordedIno, hino]
            · simp [hino]
          rw [htotal]
          change (o.apply cf now (state cf before)).2.held i ≤ _
          omega
      | notify n =>
          refine ⟨notify_balanced cf now n hb, fun i => ?_⟩
          have hless := notify_sheds cf now n (state cf before) i
          have hbound := hheld i
          rw [htotal]
          change (n.apply cf now (state cf before)).held i ≤ _
          omega
      | setNegativeTtl ttl =>
          rw [htotal]
          exact ⟨hb, fun i => (hheld i).trans (Nat.le_add_right _ _)⟩

/-- The inode of every positive entry is known. -/
theorem entry_known (cf : CaseFold) {h : History} (hcount : h.recordings < 2 ^ 64) {key : Str}
    {e : PositiveEntry} (he : (state cf h).paths.lookup key = some (.positive e)) :
    (state cf h).inodes.lookup e.ino ≠ none :=
  (reachable_state cf h).shaped.entry_known (state_balanced cf hcount).1 he

end History

/-! ## What each section does to the entry at a key -/

namespace PathResolver

/-- What is written at a key. -/
def writtenAt (r : PathResolver) (key : Str) : Option Written :=
  (r.paths.lookup key).map PathCacheEntry.written

theorem writtenAt_of_paths {r r' : PathResolver} (h : r'.paths = r.paths) (key : Str) :
    r'.writtenAt key = r.writtenAt key := by rw [writtenAt, writtenAt, h]

theorem writtenAt_of_erase {r r' : PathResolver} {key' : Str} (h : r'.paths = r.paths.erase key')
    (key : Str) : r'.writtenAt key = if key' = key then none else r.writtenAt key := by
  unfold writtenAt
  rw [h]
  by_cases hkey : key' = key
  · rw [if_pos hkey, hkey, AList.lookup_erase]
    rfl
  · rw [if_neg hkey, AList.lookup_erase_ne (Ne.symm hkey)]

theorem writtenAt_of_insert {r r' : PathResolver} {key' : Str} {e : PathCacheEntry}
    (h : r'.paths = r.paths.insert key' e) (key : Str) :
    r'.writtenAt key = if key' = key then some e.written else r.writtenAt key := by
  unfold writtenAt
  rw [h]
  by_cases hkey : key' = key
  · rw [if_pos hkey, hkey, AList.lookup_insert]
    rfl
  · rw [if_neg hkey, AList.lookup_insert_ne (Ne.symm hkey)]

/-- Removing the entries that satisfy a test of what they say. -/
theorem writtenAt_of_eraseAll {r r' : PathResolver} {hits : Str → PathCacheEntry → Bool}
    {p : Written → Bool} (h : r'.paths = r.paths.eraseAll (r.paths.keysWhere hits)) (key : Str)
    (hp : ∀ e, hits key e = p e.written) :
    r'.writtenAt key = if (r.writtenAt key).any p then none else r.writtenAt key := by
  unfold writtenAt
  rw [h, KeyedMap.lookup_eraseAll_keysWhere]
  cases r.paths.lookup key with
  | none => rfl
  | some e => cases hhit : hits key e <;> simp [Option.filter, hhit, ← hp e]

theorem rememberPositive_writtenAt (cf : CaseFold) (now : Instant) (r : PathResolver)
    (record : PositivePathRecord) (key : Str) :
    (r.rememberPositive cf now record).2.writtenAt key
      = (record.touch cf now key).result (r.writtenAt key) := by
  have htaken : ∀ r' : PathResolver,
      r'.paths = (r.takeReusableOutstanding now (normalizePath cf record.path) record.attr.ino
        record.ttl).2.paths →
      r'.writtenAt key = if normalizePath cf record.path = key then none else r.writtenAt key := by
    intro r' h
    rw [takeReusableOutstanding_paths] at h
    exact writtenAt_of_erase h key
  unfold rememberPositive PositivePathRecord.touch
  dsimp only
  by_cases hzero : record.ttl.isZero = true
  · rw [if_neg (by simp [hzero]), htaken _ (by simp), if_pos hzero]
    split_ifs <;> rfl
  · rw [if_pos (by simpa using hzero), if_neg hzero,
      writtenAt_of_paths (rememberPositiveInode_paths _ _), writtenAt_of_insert rfl, htaken _ rfl]
    split_ifs <;> rfl

theorem rememberNegative_writtenAt (cf : CaseFold) (now : Instant) (r : PathResolver)
    (path : OsStr) (parent : INodeNo) (parentGeneration : Generation) (name : OsStr) (key : Str) :
    (r.rememberNegative cf now path parent parentGeneration name).writtenAt key
      = if normalizePath cf path = key then
          r.negativeTtl.map fun ttl =>
            ⟨parent, parentGeneration, name, .error ENOENT, now + ttl.nanos⟩
        else r.writtenAt key := by
  have hpurged := writtenAt_of_erase (purgePath_paths now r (normalizePath cf path)) key
  unfold rememberNegative
  dsimp only
  rw [purgePath_negativeTtl]
  cases r.negativeTtl with
  | none => exact hpurged
  | some ttl =>
      dsimp only
      rw [writtenAt_of_insert rfl, hpurged]
      split_ifs <;> rfl

theorem cached_writtenAt (cf : CaseFold) (now : Instant) (r : PathResolver) (path : OsStr)
    (parent : INodeNo) (parentGeneration : Generation) (key : Str) :
    (r.cached cf now path parent parentGeneration).2.writtenAt key
      = if normalizePath cf path = key ∧ key ≠ ['\\'] ∧
            ((r.writtenAt key).any fun w => !w.serves now parent parentGeneration) = true then none
        else r.writtenAt key := by
  unfold cached
  dsimp only
  by_cases hroot : normalizePath cf path = ['\\']
  · rw [if_pos hroot, if_neg]
    rintro ⟨hkey, hne, -⟩
    exact hne (hkey ▸ hroot)
  rw [if_neg hroot]
  by_cases hkey : normalizePath cf path = key
  · subst hkey
    have hsame : r.writtenAt (normalizePath cf path)
      = (r.paths.lookup (normalizePath cf path)).map PathCacheEntry.written := rfl
    have hgone : ∀ r' : PathResolver, r'.paths = r.paths.erase (normalizePath cf path) →
        r'.writtenAt (normalizePath cf path) = none := fun r' h =>
      (writtenAt_of_erase h _).trans (if_pos rfl)
    rcases hl : r.paths.lookup (normalizePath cf path) with _ | ⟨e⟩ | ⟨e⟩
    · simp [hsame, hl]
    · rw [hsame, hl]
      dsimp only
      split_ifs <;> simp_all [Written.serves, PathCacheEntry.written]
    · rw [hsame, hl]
      dsimp only
      by_cases hserves : now < e.expires ∧ e.parent = parent ∧ e.parentGeneration = parentGeneration
      · have hw : (PathCacheEntry.negative e).written.serves now parent parentGeneration = true :=
          (Written.serves_iff _ _ _ _).mpr hserves
        rw [if_pos hserves, hsame, hl]
        simp [hw]
      · have hw : (PathCacheEntry.negative e).written.serves now parent parentGeneration = false :=
          Bool.eq_false_iff.mpr (mt (Written.serves_iff _ _ _ _).mp hserves)
        rw [if_neg hserves, hgone _ (removePath_paths r _)]
        simp [hw, hroot]
  · have hkept : ∀ r' : PathResolver, r'.paths = r.paths.erase (normalizePath cf path) →
        r'.writtenAt key = r.writtenAt key := fun r' h =>
      (writtenAt_of_erase h key).trans (if_neg hkey)
    rw [if_neg fun h => hkey h.1]
    rcases r.paths.lookup (normalizePath cf path) with _ | ⟨e⟩ | ⟨e⟩
    · rfl
    · dsimp only
      split_ifs
      · exact hkept _ (dropPath_paths now r _)
      · rfl
      · rfl
      · exact hkept _ (dropPath_paths now r _)
    · dsimp only
      split_ifs
      · rfl
      · exact hkept _ (removePath_paths r _)

/-- What is served is what is written at the key, while it is valid for the parent. -/
theorem cached_answer {cf : CaseFold} {now : Instant} {r : PathResolver} {path : OsStr}
    {parent : INodeNo} {parentGeneration : Generation} (hroot : normalizePath cf path ≠ ['\\'])
    (hknown : ∀ e, r.paths.lookup (normalizePath cf path) = some (.positive e) →
      r.inodes.lookup e.ino ≠ none) :
    (r.cached cf now path parent parentGeneration).1
      = ((r.writtenAt (normalizePath cf path)).filter
          (Written.serves now parent parentGeneration)).map Written.answer := by
  unfold cached writtenAt
  dsimp only
  rw [if_neg hroot]
  rcases hl : r.paths.lookup (normalizePath cf path) with _ | ⟨e⟩ | ⟨e⟩
  · rfl
  · have hserves : (PathCacheEntry.positive e).written.serves now parent parentGeneration = true
        ↔ now < e.entryExpires ∧ e.parent = parent ∧ e.parentGeneration = parentGeneration :=
      Written.serves_iff _ _ _ _
    rw [Option.map_some, Option.filter_some]
    by_cases hw : (PathCacheEntry.positive e).written.serves now parent parentGeneration = true
    · obtain ⟨hlive, hp, hg⟩ := hserves.mp hw
      rw [if_pos hw]
      dsimp only
      rw [if_pos hlive, if_neg (not_or.mpr ⟨not_not.mpr hp, not_not.mpr hg⟩), if_neg (hknown e hl)]
      rfl
    · rw [if_neg hw]
      dsimp only
      split_ifs with hlive hmismatch
      · rfl
      · exact absurd (hserves.mpr ⟨hlive, by simpa [not_or] using hmismatch⟩) hw
      · exact absurd (hserves.mpr ⟨hlive, by simpa [not_or] using hmismatch⟩) hw
      · rfl
  · have hserves : (PathCacheEntry.negative e).written.serves now parent parentGeneration = true
        ↔ now < e.expires ∧ e.parent = parent ∧ e.parentGeneration = parentGeneration :=
      Written.serves_iff _ _ _ _
    rw [Option.map_some, Option.filter_some]
    by_cases hw : (PathCacheEntry.negative e).written.serves now parent parentGeneration = true
    · rw [if_pos hw]
      dsimp only
      rw [if_pos (hserves.mp hw)]
      rfl
    · rw [if_neg hw]
      dsimp only
      rw [if_neg (mt hserves.mpr hw)]
      rfl

end PathResolver

namespace History

theorem state_negativeTtl (cf : CaseFold) (h : History) :
    (state cf h).negativeTtl = negativeTtl h := by
  induction h with
  | nil => rfl
  | cons step before ih =>
      obtain ⟨now, o⟩ := step
      cases o with
      | op o => exact (apply_negativeTtl cf now o _).trans ih
      | notify n => exact (notify_negativeTtl cf now n _).trans ih
      | setNegativeTtl ttl => rfl

/-- One operation does to a key what `pathTouch` says. -/
theorem apply_pathTouch (cf : CaseFold) (now : Instant) (o : HistoryOp) (before : History) (key : Str) :
    (o.apply cf now (state cf before)).writtenAt key
      = (pathTouch cf key now before ((state cf before).writtenAt key) o).result
          ((state cf before).writtenAt key) := by
  have hif : ∀ (c : Prop) [Decidable c] (w : Option Written),
      (if c then none else w) = (if c then (Touch.removes : Touch Written) else .leaves).result w := by
    intro c _ w
    by_cases hc : c
    · rw [if_pos hc, if_pos hc]
      rfl
    · rw [if_neg hc, if_neg hc]
      rfl
  have hentry : ∀ parent name,
      ((state cf before).invalidateEntryFromNotify cf now parent name).writtenAt key = _ :=
    fun parent name => (writtenAt_of_eraseAll (p := Written.namesChild cf parent name)
      (invalidateEntryFromNotify_paths cf now _ parent name) key
      fun e => by cases e <;> rfl).trans (hif _ _)
  cases o with
  | op o =>
      cases o with
      | table o =>
          cases o with
          | rememberPositive record => exact rememberPositive_writtenAt cf now _ record key
          | rememberCreated c => exact rememberPositive_writtenAt cf now _ _ key
          | rememberNegative path parent parentGeneration name =>
              refine (rememberNegative_writtenAt cf now _ path _ _ name key).trans ?_
              rw [state_negativeTtl, pathTouch]
              split_ifs
              · cases negativeTtl before <;> rfl
              · rfl
          | cached path parent parentGeneration =>
              exact (cached_writtenAt cf now _ path parent parentGeneration key).trans (hif _ _)
          | cachedAttr ino => exact writtenAt_of_paths (cachedAttr_paths now _ ino) key
          | rememberAttr ino attr ttl =>
              exact writtenAt_of_paths (rememberAttr_paths now _ ino attr ttl) key
          | invalidateInodeAttr ino => rfl
      | drain o =>
          cases o with
          | takePendingForgets => rfl
          | reapExpired =>
              exact (writtenAt_of_eraseAll (p := fun w => w.expires ≤ now)
                (reapExpired_paths now _) key fun e => by cases e <;> rfl).trans (hif _ _)
          | invalidateSubtree path =>
              refine (writtenAt_of_eraseAll (p := fun _ => inSubtree (normalizePath cf path) key)
                (invalidateMatching_paths now _ _) key fun _ => rfl).trans ?_
              rw [pathTouch]
              cases (state cf before).writtenAt key with
              | none => split_ifs <;> rfl
              | some w => exact hif _ _
  | notify n =>
      cases n with
      | invalInode ino => rfl
      | invalEntry parent name => exact hentry parent name
      | delete parent child name => exact hentry parent name
  | setNegativeTtl ttl => rfl

/-- The table holds at each key what the history wrote there. -/
theorem state_written (cf : CaseFold) (h : History) (key : Str) :
    (state cf h).writtenAt key = written cf key h := by
  induction h with
  | nil => rfl
  | cons step before ih =>
      obtain ⟨now, o⟩ := step
      exact (apply_pathTouch cf now o before key).trans (by rw [ih]; rfl)

theorem pathTouch_of_recordOf {cf : CaseFold} {now : Instant} {before : History} {key : Str}
    {w : Option Written} {o : HistoryOp} {record : PositivePathRecord}
    (h : recordOf cf before o = some record) :
    pathTouch cf key now before w o = record.touch cf now key := by
  cases o with
  | op o =>
      cases o with
      | table o =>
          cases o with
          | rememberPositive record' =>
              obtain rfl : record' = record := Option.some.inj h
              rfl
          | rememberCreated c =>
              obtain rfl : c.record _ = record := Option.some.inj h
              rfl
          | rememberNegative _ _ _ _ => cases h
          | cached _ _ _ => cases h
          | cachedAttr _ => cases h
          | rememberAttr _ _ _ => cases h
          | invalidateInodeAttr _ => cases h
      | drain _ => cases h
  | notify _ => cases h
  | setNegativeTtl _ => cases h

/-- A recording that touches a key writes there, unless its time to live is zero. -/
theorem PositivePathRecord.touch_eq {cf : CaseFold} {now : Instant} {key : Str}
    {record : PositivePathRecord} (h : record.touch cf now key ≠ .leaves) :
    record.touch cf now key = if record.ttl.isZero then .removes else .writes (record.written now) := by
  unfold PositivePathRecord.touch at h ⊢
  split_ifs at h ⊢ with hkey hzero
  · rfl
  · rfl
  · exact absurd rfl h
  · exact absurd rfl h

/-- Only recordings and `remember_negative` write. -/
theorem pathTouch_writes {cf : CaseFold} {now : Instant} {before : History} {key : Str}
    {w : Option Written} {o : HistoryOp} {w' : Written}
    (h : pathTouch cf key now before w o = .writes w') :
    (∃ record, recordOf cf before o = some record ∧ record.ttl.isZero = false ∧
        w' = record.written now) ∨
      ∃ path parent parentGeneration name ttl,
        o = .op (.table (.rememberNegative path parent parentGeneration name)) ∧
        negativeTtl before = some ttl ∧
        w' = ⟨parent, parentGeneration, name, .error ENOENT, now + ttl.nanos⟩ := by
  cases hrecord : recordOf cf before o with
  | some record =>
      rw [pathTouch_of_recordOf hrecord] at h
      rw [PositivePathRecord.touch_eq (by simp [h])] at h
      split_ifs at h with hzero
      exact .inl ⟨record, rfl, by simpa using hzero, (Touch.writes.inj h).symm⟩
  | none =>
      unfold pathTouch at h
      split at h
      · rename_i path parent parentGeneration name
        split_ifs at h
        cases hnegative : negativeTtl before with
        | none => simp [hnegative] at h
        | some ttl =>
            rw [hnegative] at h
            exact .inr ⟨path, parent, parentGeneration, name, ttl, rfl, rfl, (Touch.writes.inj h).symm⟩
      · split_ifs at h
      · split_ifs at h
      · split_ifs at h
      · split_ifs at h
      · split_ifs at h
      · rw [hrecord] at h
        cases h

/-- The last operation that wrote or removed the key is a `remember_positive` of this entry for this
parent, with a nonzero time to live that has not elapsed. -/
def RecordedLast (cf : CaseFold) (key : Str) (now : Instant) (parent : INodeNo)
    (parentGeneration : Generation) (entry : ResolvedEntry) (h : History) : Prop :=
  ∃ recorded o before record, lastTouch (pathTouch cf key) h = (recorded, o) :: before ∧
    recordOf cf before o = some record ∧ record.parent = parent ∧
    record.parentGeneration = parentGeneration ∧ record.ttl.isZero = false ∧
    record.attr.ino = entry.ino ∧ record.generation = entry.generation ∧
    now < recorded + record.ttl.nanos

/-- The last operation that wrote or removed the key is a `remember_negative` for this parent, whose
time to live has not elapsed. -/
def AbsentLast (cf : CaseFold) (key : Str) (now : Instant) (parent : INodeNo)
    (parentGeneration : Generation) (h : History) : Prop :=
  ∃ recorded path name before ttl,
    lastTouch (pathTouch cf key) h
      = (recorded, .op (.table (.rememberNegative path parent parentGeneration name))) :: before ∧
    negativeTtl before = some ttl ∧ now < recorded + ttl.nanos

theorem recordedLast_iff (cf : CaseFold) (key : Str) (now : Instant) (parent : INodeNo)
    (parentGeneration : Generation) (entry : ResolvedEntry) (h : History) :
    (∃ w, written cf key h = some w ∧ w.answer = .ok entry ∧ now < w.expires ∧ w.parent = parent ∧
        w.parentGeneration = parentGeneration)
      ↔ RecordedLast cf key now parent parentGeneration entry h := by
  rcases left_lastTouch (pathTouch cf key) h with ⟨hlast, hnone⟩ | ⟨recorded, o, before, hlast, htouch, hw⟩
  · simp [RecordedLast, written, hlast, hnone]
  constructor
  · rintro ⟨w, hsome, hanswer, hlive, hp, hg⟩
    rcases pathTouch_writes (Touch.result_none (hw.symm.trans hsome)) with
      ⟨record, hrecord, hzero, rfl⟩ | ⟨_, _, _, _, _, -, -, rfl⟩
    · obtain rfl : (⟨record.attr.ino, record.generation⟩ : ResolvedEntry) = entry := by
        simpa [PositivePathRecord.written] using hanswer
      exact ⟨recorded, o, before, record, hlast, hrecord, hp, hg, hzero, rfl, rfl, hlive⟩
    · cases hanswer
  · rintro ⟨recorded', o', before', record, hlast', hrecord, hp, hg, hzero, hino, hgen, hlive⟩
    obtain ⟨⟨rfl, rfl⟩, rfl⟩ : (recorded = recorded' ∧ o = o') ∧ before = before' := by
      simpa [hlast] using hlast'
    rw [pathTouch_of_recordOf hrecord] at htouch hw
    rw [PositivePathRecord.touch_eq htouch, hzero] at hw
    refine ⟨record.written recorded, hw, ?_, hlive, hp, hg⟩
    rw [PositivePathRecord.written, hino, hgen]

theorem absentLast_iff (cf : CaseFold) (key : Str) (now : Instant) (parent : INodeNo)
    (parentGeneration : Generation) (err : Errno) (h : History) :
    (∃ w, written cf key h = some w ∧ w.answer = .error err ∧ now < w.expires ∧ w.parent = parent ∧
        w.parentGeneration = parentGeneration)
      ↔ err = ENOENT ∧ AbsentLast cf key now parent parentGeneration h := by
  rcases left_lastTouch (pathTouch cf key) h with ⟨hlast, hnone⟩ | ⟨recorded, o, before, hlast, htouch, hw⟩
  · simp [AbsentLast, written, hlast, hnone]
  constructor
  · rintro ⟨w, hsome, hanswer, hlive, hp, hg⟩
    rcases pathTouch_writes (Touch.result_none (hw.symm.trans hsome)) with
      ⟨record, hrecord, hzero, rfl⟩ | ⟨path', _, _, name, ttl, rfl, hnegative, rfl⟩
    · cases hanswer
    · obtain rfl := hp
      obtain rfl := hg
      have herr : err = ENOENT := by simpa using hanswer.symm
      exact ⟨herr, recorded, path', name, before, ttl, hlast, hnegative, hlive⟩
  · rintro ⟨rfl, recorded', path', name, before', ttl, hlast', hnegative, hlive⟩
    obtain ⟨⟨rfl, rfl⟩, rfl⟩ : (recorded = recorded' ∧ o = _) ∧ before = before' := by
      simpa [hlast] using hlast'
    have hkey : normalizePath cf path' = key := by
      by_contra hne
      exact htouch (if_neg hne)
    have hwrites : pathTouch cf key recorded before (written cf key before)
        (.op (.table (.rememberNegative path' parent parentGeneration name)))
      = .writes ⟨parent, parentGeneration, name, .error ENOENT, recorded + ttl.nanos⟩ := by
      rw [pathTouch, if_pos hkey, hnegative]
    rw [hwrites] at hw
    exact ⟨_, hw, rfl, hlive, rfl, rfl⟩

/-! ## Histories without a panic -/

end History

/-- If the operation computes an expiry, it is an instant. -/
def HistoryOp.Lasts (now : Instant) (negativeTtl : Option Duration) : HistoryOp → Prop
  | .op (.table o) => o.Lasts now negativeTtl
  | .op (.drain _) | .notify _ | .setNegativeTtl _ => True

def HistoryOp.applyOrPanic (cf : CaseFold) (now : Instant) :
    HistoryOp → PathResolver → Except PathResolver PathResolver
  | .op (.table o), r => (o.applyOrPanic cf now r).map Prod.snd
  | .op (.drain o), r => .ok (o.apply cf now r).2
  | .notify n, r => .ok (n.apply cf now r)
  | .setNegativeTtl ttl, r => .ok (r.setNegativeTtl ttl)

namespace HistoryOp
variable {cf : CaseFold} {now : Instant} {o : HistoryOp} {r : PathResolver}

theorem applyOrPanic_lasts (h : o.Lasts now r.negativeTtl) :
    o.applyOrPanic cf now r = .ok (o.apply cf now r) := by
  cases o with
  | op o =>
      cases o with
      | table o => exact congrArg (Except.map Prod.snd) (TableOp.applyOrPanic_lasts h)
      | drain o => rfl
  | notify n => rfl
  | setNegativeTtl ttl => rfl

variable (cf) in
theorem applyOrPanic_panics (h : ¬ o.Lasts now r.negativeTtl) :
    ∃ left, o.applyOrPanic cf now r = .error left := by
  cases o with
  | op o =>
      cases o with
      | table o =>
          obtain ⟨left, hleft⟩ := TableOp.applyOrPanic_panics cf h
          exact ⟨left, congrArg (Except.map Prod.snd) hleft⟩
      | drain o => exact absurd trivial h
  | notify n => exact absurd trivial h
  | setNegativeTtl ttl => exact absurd trivial h

theorem applyOrPanic_eq_ok {r' : PathResolver} (h : o.applyOrPanic cf now r = .ok r') :
    o.apply cf now r = r' := by
  by_cases ho : o.Lasts now r.negativeTtl
  · exact Except.ok.inj ((applyOrPanic_lasts ho).symm.trans h)
  · obtain ⟨left, hleft⟩ := applyOrPanic_panics cf ho
    cases hleft.symm.trans h

end HistoryOp

namespace History

/-- Every expiry that the operations compute is an instant. -/
def Lasting : History → Prop
  | [] => True
  | (now, o) :: before => o.Lasts now (negativeTtl before) ∧ Lasting before

/-- The resolver that a history leads to, or that a panic leaves behind. -/
def stateOrPanic (cf : CaseFold) : History → Except PathResolver PathResolver
  | [] => .ok default
  | (now, o) :: before => (stateOrPanic cf before).bind (o.applyOrPanic cf now)

theorem stateOrPanic_lasting (cf : CaseFold) {h : History} (hlasting : h.Lasting) :
    stateOrPanic cf h = .ok (state cf h) := by
  induction h with
  | nil => rfl
  | cons step before ih =>
      obtain ⟨now, o⟩ := step
      rw [stateOrPanic, ih hlasting.2]
      exact HistoryOp.applyOrPanic_lasts ((state_negativeTtl cf before).symm ▸ hlasting.1)

theorem stateOrPanic_panics (cf : CaseFold) {h : History} (hlasting : ¬ h.Lasting) :
    ∃ left, stateOrPanic cf h = .error left := by
  induction h with
  | nil => exact absurd trivial hlasting
  | cons step before ih =>
      obtain ⟨now, o⟩ := step
      rw [stateOrPanic]
      by_cases hbefore : Lasting before
      · rw [stateOrPanic_lasting cf hbefore]
        refine HistoryOp.applyOrPanic_panics cf fun ho => hlasting ⟨?_, hbefore⟩
        rwa [state_negativeTtl] at ho
      · obtain ⟨left, hleft⟩ := ih hbefore
        exact ⟨left, by rw [hleft]; rfl⟩

/-- All operations complete exactly when all expiries are instants. -/
theorem stateOrPanic_eq_ok_iff {cf : CaseFold} {h : History} {r : PathResolver} :
    stateOrPanic cf h = .ok r ↔ h.Lasting ∧ state cf h = r := by
  by_cases hlasting : h.Lasting
  · rw [stateOrPanic_lasting cf hlasting, Except.ok.injEq, and_iff_right hlasting]
  · obtain ⟨left, hleft⟩ := stateOrPanic_panics cf hlasting
    rw [hleft]
    exact iff_of_false (fun heq => by cases heq) fun heq => hlasting heq.1

/-- Operations that last whatever is configured. -/
theorem lasting_of_forall {h : History}
    (hsteps : ∀ step ∈ h, ∀ ttl, step.2.Lasts step.1 ttl) : h.Lasting := by
  induction h with
  | nil => trivial
  | cons step before ih =>
      rw [List.forall_mem_cons] at hsteps
      exact ⟨hsteps.1 _, ih hsteps.2⟩

/-- A lookup of inode 5 in the root, under a name of one letter. -/
def lookupOfLink (c : Char) (ttl : Duration) : PositivePathRecord where
  path := .new ['\\', c]
  parent := .ROOT
  parentGeneration := ⟨0⟩
  name := .new [c]
  attr := .plain ⟨5⟩ .regularFile
  generation := ⟨1⟩
  ttl := ttl

def shortLink : HistoryOp := .op (.table (.rememberPositive (lookupOfLink 'a' (.fromNanos 1))))

def longLink : HistoryOp := .op (.table (.rememberPositive (lookupOfLink 'b' (.fromNanos 10))))

theorem shortLink_lasts (negativeTtl : Option Duration) : shortLink.Lasts 0 negativeTtl :=
  (by decide : PathResolver.Lasts 0 (.fromNanos 1))

theorem longLink_lasts (negativeTtl : Option Duration) : longLink.Lasts 0 negativeTtl :=
  (by decide : PathResolver.Lasts 0 (.fromNanos 10))

/-- The path cache is sound and complete for the history, while no count of references can have
saturated. -/
theorem cached_iff_history (cf : CaseFold) (h : History) (hlasting : h.Lasting)
    (hcount : h.recordings < 2 ^ 64) (now : Instant) (path : OsStr)
    (hroot : normalizePath cf path ≠ ['\\']) (parent : INodeNo) (parentGeneration : Generation) :
    ∃ r, stateOrPanic cf h = .ok r ∧
      (∀ entry, (r.cached cf now path parent parentGeneration).1 = some (.ok entry)
          ↔ RecordedLast cf (normalizePath cf path) now parent parentGeneration entry h) ∧
      ∀ err, (r.cached cf now path parent parentGeneration).1 = some (.error err)
        ↔ err = ENOENT ∧ AbsentLast cf (normalizePath cf path) now parent parentGeneration h := by
  refine ⟨state cf h, stateOrPanic_lasting cf hlasting, ?_⟩
  rw [cached_answer hroot fun e he => entry_known cf hcount he, state_written]
  exact ⟨fun entry => (Written.served_iff ..).trans (recordedLast_iff cf _ now _ _ entry h),
    fun err => (Written.served_iff ..).trans (absentLast_iff cf _ now _ _ err h)⟩

theorem cached_iff_history_longLink :
    ∃ r, stateOrPanic CharFold.ascii.toCaseFold [(0, longLink)] = .ok r ∧
      (∀ entry, (r.cached CharFold.ascii.toCaseFold 5 (.new ['\\', 'b']) .ROOT ⟨0⟩).1
            = some (.ok entry)
          ↔ RecordedLast CharFold.ascii.toCaseFold (normalizePath CharFold.ascii.toCaseFold
            (.new ['\\', 'b'])) 5 .ROOT ⟨0⟩ entry [(0, longLink)]) ∧
      ∀ err, (r.cached CharFold.ascii.toCaseFold 5 (.new ['\\', 'b']) .ROOT ⟨0⟩).1
            = some (.error err)
          ↔ err = ENOENT ∧ AbsentLast CharFold.ascii.toCaseFold (normalizePath
            CharFold.ascii.toCaseFold (.new ['\\', 'b'])) 5 .ROOT ⟨0⟩ [(0, longLink)] :=
  cached_iff_history CharFold.ascii.toCaseFold [(0, longLink)] ⟨longLink_lasts none, trivial⟩
    (by decide) 5 (.new ['\\', 'b']) (by decide) .ROOT ⟨0⟩

/-! ## Saturated counts -/

/-- The resolver after `n` lookups of the short link. -/
def shortLinked (n : ℕ) : PathResolver where
  paths := (∅ : KeyedMap Str PathCacheEntry).insert ['\\', 'a'] <| .positive
    ⟨.ROOT, ⟨0⟩, .new ['a'], ⟨5⟩, ⟨1⟩, 1, [(⟨5⟩, n)]⟩
  inodes := (∅ : KeyedMap INodeNo InodeState).insert ⟨5⟩ ⟨.plain ⟨5⟩ .regularFile, ⟨1⟩, n, none⟩
  pendingForgets := []
  negativeTtl := some DEFAULT_NEGATIVE_TTL

theorem state_shortLinks (n : ℕ) :
    state CharFold.ascii.toCaseFold (List.replicate (n + 1) (0, shortLink))
      = shortLinked (min (n + 1) (2 ^ 64 - 1)) := by
  induction n with
  | zero => rfl
  | succ n ih =>
      have hstep : ∀ m, shortLink.apply CharFold.ascii.toCaseFold 0 (shortLinked m)
          = shortLinked (saturatingAdd m 1) := fun m => rfl
      have hmin : saturatingAdd (min (n + 1) (2 ^ 64 - 1)) 1 = min (n + 1 + 1) (2 ^ 64 - 1) := by
        unfold saturatingAdd
        omega
      rw [List.replicate_succ, state, ih, hstep, hmin]

/-- 2^64 lookups of one link, one of another, and the reaping of the first. -/
def saturatedLinks : History :=
  (5, .op (.drain .reapExpired)) :: (0, longLink) :: List.replicate (2 ^ 64) (0, shortLink)

theorem lastTouch_longLink (before : History) :
    lastTouch (pathTouch CharFold.ascii.toCaseFold ['\\', 'b'])
      ((5, .op (.drain .reapExpired)) :: (0, longLink) :: before) = (0, longLink) :: before := by rfl

theorem state_saturatedLinks :
    state CharFold.ascii.toCaseFold saturatedLinks
      = (HistoryOp.op (.drain .reapExpired)).apply CharFold.ascii.toCaseFold 5
        (longLink.apply CharFold.ascii.toCaseFold 0 (shortLinked (2 ^ 64 - 1))) := by
  have hlinks := state_shortLinks (2 ^ 64 - 1)
  rw [Nat.sub_add_cancel (Nat.one_le_two_pow), min_eq_right (Nat.sub_le _ _)] at hlinks
  rw [saturatedLinks, state, state, hlinks]

theorem saturatedLinks_lasting : saturatedLinks.Lasting := by
  refine ⟨trivial, longLink_lasts _, lasting_of_forall fun step hstep ttl => ?_⟩
  rw [List.eq_of_mem_replicate hstep]
  exact shortLink_lasts ttl

/-- The count of the inode has lost a lookup, so the inode is dropped with the first link and the
second one is not served. -/
theorem cached_misses_after_saturation :
    ¬ ∀ (cf : CaseFold) (h : History), h.Lasting → ∀ (now : Instant) (path : OsStr),
      normalizePath cf path ≠ ['\\'] → ∀ (parent : INodeNo) (parentGeneration : Generation),
        ∃ r, stateOrPanic cf h = .ok r ∧
          (∀ entry, (r.cached cf now path parent parentGeneration).1 = some (.ok entry)
            ↔ RecordedLast cf (normalizePath cf path) now parent parentGeneration entry h) ∧
          ∀ err, (r.cached cf now path parent parentGeneration).1 = some (.error err)
            ↔ err = ENOENT ∧ AbsentLast cf (normalizePath cf path) now parent parentGeneration h := by
  intro hall
  have hmiss : ((state CharFold.ascii.toCaseFold saturatedLinks).cached CharFold.ascii.toCaseFold 5
      (.new ['\\', 'b']) .ROOT ⟨0⟩).1 = none := by
    rw [state_saturatedLinks]
    rfl
  have hlast : RecordedLast CharFold.ascii.toCaseFold (normalizePath CharFold.ascii.toCaseFold
      (.new ['\\', 'b'])) 5 .ROOT ⟨0⟩ ⟨⟨5⟩, ⟨1⟩⟩ saturatedLinks :=
    ⟨0, longLink, _, lookupOfLink 'b' (.fromNanos 10), lastTouch_longLink _, rfl, rfl, rfl, rfl, rfl,
      rfl, by decide⟩
  obtain ⟨r, hr, hserves, -⟩ := hall CharFold.ascii.toCaseFold saturatedLinks saturatedLinks_lasting 5
    (.new ['\\', 'b']) (by decide) .ROOT ⟨0⟩
  obtain ⟨-, rfl⟩ := stateOrPanic_eq_ok_iff.mp hr
  have hserved := (hserves _).mpr hlast
  rw [hmiss] at hserved
  cases hserved

end History
end Confuse
