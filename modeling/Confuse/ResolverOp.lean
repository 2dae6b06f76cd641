import Confuse.Resolver

/-!
# Operations on the resolver

Each operation is one section of code under the resolver's lock. `rememberCreated` is the section of
`remember_created_path`, which reads the parent's generation and records the entry. The notifier's
calls come from other threads and return nothing.
-/

namespace Confuse

structure CreatedPath where
  path : U16CStr
  parent : INodeNo
  name : OsStr
  attr : FileAttr
  generation : Generation
  ttl : Duration

def CreatedPath.record (c : CreatedPath) (parentGeneration : Generation) : PositivePathRecord where
  path := .new c.path.toStringLossy
  parent := c.parent
  parentGeneration := parentGeneration
  name := c.name
  attr := c.attr
  generation := c.generation
  ttl := c.ttl

/-- Sections that look into the tables or change them. -/
inductive TableOp
  | rememberPositive (record : PositivePathRecord)
  | rememberCreated (created : CreatedPath)
  | rememberNegative (path : OsStr) (parent : INodeNo) (parentGeneration : Generation)
      (name : OsStr)
  | cached (path : OsStr) (parent : INodeNo) (parentGeneration : Generation)
  | cachedAttr (ino : INodeNo)
  | rememberAttr (ino : INodeNo) (attr : FileAttr) (ttl : Duration)
  | invalidateInodeAttr (ino : INodeNo)

namespace TableOp

def Result : TableOp → Type
  | .rememberPositive _ => ResolvedEntry
  | .rememberCreated _ => Unit
  | .rememberNegative _ _ _ _ => Unit
  | .cached _ _ _ => Option (Except Errno ResolvedEntry)
  | .cachedAttr _ => Option FileAttr
  | .rememberAttr _ _ _ => Unit
  | .invalidateInodeAttr _ => Unit

def apply (cf : CaseFold) (now : Instant) : (o : TableOp) → PathResolver →
    o.Result × PathResolver
  | .rememberPositive record, r => r.rememberPositive cf now record
  | .rememberCreated c, r =>
      ((), (r.rememberPositive cf now (c.record (r.generationFor c.parent))).2)
  | .rememberNegative path parent parentGeneration name, r =>
      ((), r.rememberNegative cf now path parent parentGeneration name)
  | .cached path parent parentGeneration, r => r.cached cf now path parent parentGeneration
  | .cachedAttr ino, r => r.cachedAttr now ino
  | .rememberAttr ino attr ttl, r => ((), r.rememberAttr now ino attr ttl)
  | .invalidateInodeAttr ino, r => ((), r.invalidateInodeAttr now ino)

/-- The inode on which a section records a lookup reference. -/
def recordedIno : TableOp → Option INodeNo
  | .rememberPositive record => some record.attr.ino
  | .rememberCreated c => some c.attr.ino
  | _ => none

/-- The inode that a section hands to a path walk. -/
def resolvedIno : (o : TableOp) → o.Result → Option INodeNo
  | .rememberPositive _, entry => some entry.ino
  | .cached _ _ _, result =>
      match result with
      | some (.ok entry) => some entry.ino
      | _ => none
  | _, _ => none

end TableOp

/-- Sections that hand out a list of references to forget. -/
inductive DrainOp
  | takePendingForgets
  | reapExpired
  | invalidateSubtree (path : OsStr)

def DrainOp.apply (cf : CaseFold) (now : Instant) : DrainOp → PathResolver →
    Forgets × PathResolver
  | .takePendingForgets, r => r.takePendingForgets
  | .reapExpired, r => r.reapExpired now
  | .invalidateSubtree path, r => r.invalidateSubtree cf now path

inductive ResolverOp
  | table (o : TableOp)
  | drain (o : DrainOp)

namespace ResolverOp

def apply (cf : CaseFold) (now : Instant) : ResolverOp → PathResolver → Forgets × PathResolver
  | .table o, r => ([], (o.apply cf now r).2)
  | .drain o, r => o.apply cf now r

def recordedIno : ResolverOp → Option INodeNo
  | .table o => o.recordedIno
  | .drain _ => none

end ResolverOp

/-- The calls of a `Notifier` that reach the resolver. -/
inductive NotifierCall
  | invalInode (ino : INodeNo)
  | invalEntry (parent : INodeNo) (name : OsStr)
  | delete (parent child : INodeNo) (name : OsStr)
  deriving DecidableEq

def NotifierCall.apply (cf : CaseFold) (now : Instant) :
    NotifierCall → PathResolver → PathResolver
  | .invalInode ino, r => r.invalidateInodeAttr now ino
  | .invalEntry parent name, r => r.invalidateEntryFromNotify cf now parent name
  | .delete parent child name, r =>
      (r.invalidateEntryFromNotify cf now parent name).invalidateInodeAttr now child

namespace PathResolver

/-- The states that a resolver can reach, notifications included. -/
inductive Reachable (cf : CaseFold) : PathResolver → Prop
  | default : Reachable cf default
  | setNegativeTtl {r : PathResolver} (ttl : Duration) (h : Reachable cf r) :
      Reachable cf (r.setNegativeTtl ttl)
  | op {r : PathResolver} (now : Instant) (o : ResolverOp) (h : Reachable cf r) :
      Reachable cf (o.apply cf now r).2
  | notify {r : PathResolver} (now : Instant) (n : NotifierCall) (h : Reachable cf r) :
      Reachable cf (n.apply cf now r)

/-- A sequence of operations, with the forget lists that it returned joined together. -/
def runOps (cf : CaseFold) : List (Instant × ResolverOp) → PathResolver → Forgets × PathResolver
  | [], r => ([], r)
  | (now, o) :: rest, r =>
      let (returned, r) := o.apply cf now r
      let (forgets, r) := runOps cf rest r
      (returned ++ forgets, r)

/-! ## The configured time to live -/

theorem foldl_negativeTtl {ι : Type} {f : PathResolver → ι → PathResolver}
    (hf : ∀ r e, (f r e).negativeTtl = r.negativeTtl) (l : List ι) (r : PathResolver) :
    (l.foldl f r).negativeTtl = r.negativeTtl := by
  induction l generalizing r with
  | nil => rfl
  | cons e l ih => rw [List.foldl_cons, ih, hf]

theorem releaseOutstanding_negativeTtl (now : Instant) (r : PathResolver) (outstanding : Forgets) :
    (r.releaseOutstanding now outstanding).negativeTtl = r.negativeTtl := by
  refine foldl_negativeTtl (fun r e => ?_) outstanding r
  unfold releaseLookup
  cases r.inodes.lookup e.1 <;> rfl

theorem dropPath_negativeTtl (now : Instant) (r : PathResolver) (key : Str) :
    (r.dropPath now key).negativeTtl = r.negativeTtl := by
  unfold dropPath
  rcases r.paths.lookup key with _ | ⟨e⟩ | ⟨e⟩
  · rfl
  · exact releaseOutstanding_negativeTtl now _ e.outstanding
  · rfl

theorem purgePath_negativeTtl (now : Instant) (r : PathResolver) (key : Str) :
    (r.purgePath now key).negativeTtl = r.negativeTtl := by
  unfold purgePath
  rcases r.paths.lookup key with _ | ⟨e⟩ | ⟨e⟩
  · rfl
  · exact (releaseOutstanding_negativeTtl now _ e.outstanding).trans
      (foldl_negativeTtl (f := clearAttrExpires) (fun _ _ => rfl) _ (r.removePath key))
  · rfl

theorem invalidateMatching_negativeTtl (now : Instant) (r : PathResolver)
    (hits : Str → PathCacheEntry → Bool) :
    (r.invalidateMatching now hits).2.negativeTtl = r.negativeTtl :=
  foldl_negativeTtl (purgePath_negativeTtl now) _ r

theorem cached_negativeTtl (cf : CaseFold) (now : Instant) (r : PathResolver) (path : OsStr)
    (parent : INodeNo) (parentGeneration : Generation) :
    (r.cached cf now path parent parentGeneration).2.negativeTtl = r.negativeTtl := by
  unfold cached
  dsimp only
  by_cases hroot : normalizePath cf path = ['\\']
  · rw [if_pos hroot]
  rw [if_neg hroot]
  rcases r.paths.lookup (normalizePath cf path) with _ | ⟨e⟩ | ⟨e⟩
  · rfl
  · dsimp only
    split_ifs <;> simp [dropPath_negativeTtl]
  · dsimp only
    split_ifs <;> rfl

theorem rememberPositive_negativeTtl (cf : CaseFold) (now : Instant) (r : PathResolver)
    (record : PositivePathRecord) :
    (r.rememberPositive cf now record).2.negativeTtl = r.negativeTtl := by
  have htaken : (r.takeReusableOutstanding now (normalizePath cf record.path) record.attr.ino
      record.ttl).2.negativeTtl = r.negativeTtl := by
    unfold takeReusableOutstanding
    rcases r.paths.lookup (normalizePath cf record.path) with _ | ⟨e⟩ | ⟨e⟩
    · rfl
    · dsimp only
      split_ifs
      · rfl
      · exact releaseOutstanding_negativeTtl now _ e.outstanding
    · rfl
  unfold rememberPositive
  dsimp only
  split_ifs
  · exact htaken
  · exact (releaseOutstanding_negativeTtl now _ _).trans htaken

theorem rememberNegative_negativeTtl (cf : CaseFold) (now : Instant) (r : PathResolver)
    (path : OsStr) (parent : INodeNo) (parentGeneration : Generation) (name : OsStr) :
    (r.rememberNegative cf now path parent parentGeneration name).negativeTtl = r.negativeTtl := by
  have hpurged := purgePath_negativeTtl now r (normalizePath cf path)
  unfold rememberNegative
  dsimp only
  cases hnegative : (r.purgePath now (normalizePath cf path)).negativeTtl with
  | none => exact hpurged
  | some ttl => exact hnegative.symm.trans hpurged

theorem rememberAttr_negativeTtl (now : Instant) (r : PathResolver) (ino : INodeNo)
    (attr : FileAttr) (ttl : Duration) :
    (r.rememberAttr now ino attr ttl).negativeTtl = r.negativeTtl := by
  unfold rememberAttr
  split_ifs <;> rfl

theorem cachedAttr_negativeTtl (now : Instant) (r : PathResolver) (ino : INodeNo) :
    (r.cachedAttr now ino).2.negativeTtl = r.negativeTtl := by
  unfold cachedAttr
  cases r.inodes.lookup ino with
  | none => rfl
  | some state =>
      dsimp only
      split_ifs <;> rfl

theorem apply_negativeTtl (cf : CaseFold) (now : Instant) (o : ResolverOp) (r : PathResolver) :
    (o.apply cf now r).2.negativeTtl = r.negativeTtl := by
  cases o with
  | table o =>
      cases o with
      | rememberPositive record => exact rememberPositive_negativeTtl cf now r record
      | rememberCreated c => exact rememberPositive_negativeTtl cf now r _
      | rememberNegative path parent parentGeneration name =>
          exact rememberNegative_negativeTtl cf now r path parent parentGeneration name
      | cached path parent parentGeneration =>
          exact cached_negativeTtl cf now r path parent parentGeneration
      | cachedAttr ino => exact cachedAttr_negativeTtl now r ino
      | rememberAttr ino attr ttl => exact rememberAttr_negativeTtl now r ino attr ttl
      | invalidateInodeAttr ino => rfl
  | drain o =>
      cases o with
      | takePendingForgets => rfl
      | reapExpired => exact foldl_negativeTtl (dropPath_negativeTtl now) _ r
      | invalidateSubtree path => exact invalidateMatching_negativeTtl now r _

theorem notify_negativeTtl (cf : CaseFold) (now : Instant) (n : NotifierCall) (r : PathResolver) :
    (n.apply cf now r).negativeTtl = r.negativeTtl := by
  cases n with
  | invalInode ino => rfl
  | invalEntry parent name => exact invalidateMatching_negativeTtl now r _
  | delete parent child name => exact invalidateMatching_negativeTtl now r _

end PathResolver
end Confuse
