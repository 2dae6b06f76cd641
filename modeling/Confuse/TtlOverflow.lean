import Confuse.NotifierLedger

/-!
# Times to live near the end of time

`Instant + Duration` panics when the sum is not an instant. A section that panics leaves the resolver
as it is at that moment in a poisoned mutex, for every later request to fail on. The sections are
those of `rememberPositive`, `rememberAttr` and `rememberNegative`, with the panic made explicit.
-/

namespace Confuse

/-- What a section returns with the resolver, or the resolver that its panic leaves behind. -/
abbrev SectionResult (α : Type) := Except PathResolver (α × PathResolver)

instance (now : Instant) (ttl : Duration) : Decidable (now.representable ttl) :=
  inferInstanceAs (Decidable (_ < _))

/-- `Instant + Duration`, or nothing when the sum panics. -/
def Instant.checkedAdd (now : Instant) (ttl : Duration) : Option Instant :=
  if now.representable ttl then some (now + ttl.nanos) else none

namespace PathResolver

/-- `store_positive_path_entry`, which computes the expiry when the old entry is already out of the
table. -/
def storePositivePathEntryOrPanic (now : Instant) (r : PathResolver) (key : Str)
    (record : PositivePathRecord) (outstanding : Forgets) : SectionResult Unit :=
  match now.checkedAdd record.ttl with
  | none => .error r
  | some entryExpires => .ok ((), { r with
      paths := r.paths.insert key <| .positive {
        parent := record.parent
        parentGeneration := record.parentGeneration
        name := record.name
        ino := record.attr.ino
        generation := record.generation
        entryExpires
        outstanding } })

def rememberPositiveOrPanic (cf : CaseFold) (now : Instant) (r : PathResolver)
    (record : PositivePathRecord) : SectionResult ResolvedEntry :=
  let entry : ResolvedEntry := ⟨record.attr.ino, record.generation⟩
  let key := normalizePath cf record.path
  let (outstanding, r) := r.takeReusableOutstanding now key record.attr.ino record.ttl
  if record.ttl.isZero = false then
    match r.storePositivePathEntryOrPanic now key record
        (incrementOutstandingLookup outstanding record.attr.ino) with
    | .error left => .error left
    | .ok ((), r) => .ok (entry, r.rememberPositiveInode record)
  else
    .ok (entry,
      ((r.releaseOutstanding now outstanding).pushForget record.attr.ino 1).retainLiveInodes now)

def rememberAttrOrPanic (now : Instant) (r : PathResolver) (ino : INodeNo) (attr : FileAttr)
    (ttl : Duration) : SectionResult Unit :=
  if ttl.isZero then .ok ((), r.clearAttrExpires ino)
  else
    match now.checkedAdd ttl with
    | none => .error r
    | some expires => .ok ((), { r with
        inodes := r.inodes.insert ino <|
          match r.inodes.lookup ino with
          | some state => { state with attr, attrExpires := some expires }
          | none => { attr, generation := ⟨0⟩, lookupRefcount := 0, attrExpires := some expires } })

/-- The entry at the path is already removed when the expiry is computed. -/
def rememberNegativeOrPanic (cf : CaseFold) (now : Instant) (r : PathResolver) (path : OsStr)
    (parent : INodeNo) (parentGeneration : Generation) (name : OsStr) : SectionResult Unit :=
  let key := normalizePath cf path
  let r := r.purgePath now key
  match r.negativeTtl with
  | none => .ok ((), r)
  | some negativeTtl =>
      match now.checkedAdd negativeTtl with
      | none => .error r
      | some expires => .ok ((), { r with
          paths := r.paths.insert key <| .negative { parent, parentGeneration, name, expires } })

variable (cf : CaseFold) (now : Instant) (r : PathResolver)

/-- A time to live with which an expiry can be computed. -/
def Lasts (now : Instant) (ttl : Duration) : Prop := ttl.isZero = true ∨ now.representable ttl

theorem rememberPositiveOrPanic_lasts {record : PositivePathRecord} (h : Lasts now record.ttl) :
    r.rememberPositiveOrPanic cf now record = .ok (r.rememberPositive cf now record) := by
  unfold rememberPositiveOrPanic rememberPositive
  by_cases hzero : record.ttl.isZero = true
  · simp [hzero]
  · have hsum : now.representable record.ttl := h.resolve_left hzero
    simp [hzero, storePositivePathEntryOrPanic, storePositivePathEntry, Instant.checkedAdd, hsum]

theorem rememberAttrOrPanic_lasts (ino : INodeNo) (attr : FileAttr) {ttl : Duration}
    (h : Lasts now ttl) :
    r.rememberAttrOrPanic now ino attr ttl = .ok ((), r.rememberAttr now ino attr ttl) := by
  unfold rememberAttrOrPanic rememberAttr
  by_cases hzero : ttl.isZero = true
  · simp [hzero]
  · have hsum : now.representable ttl := h.resolve_left hzero
    simp only [hzero, Instant.checkedAdd, hsum, if_true]
    cases r.inodes.lookup ino <;> rfl

theorem rememberNegativeOrPanic_lasts (path : OsStr) (parent : INodeNo)
    (parentGeneration : Generation) (name : OsStr)
    (h : ∀ ttl ∈ (r.purgePath now (normalizePath cf path)).negativeTtl, now.representable ttl) :
    r.rememberNegativeOrPanic cf now path parent parentGeneration name
      = .ok ((), r.rememberNegative cf now path parent parentGeneration name) := by
  unfold rememberNegativeOrPanic rememberNegative
  dsimp only
  cases hnegative : (r.purgePath now (normalizePath cf path)).negativeTtl with
  | none => rfl
  | some ttl =>
      have hsum : now.representable ttl := h ttl hnegative
      simp only [Instant.checkedAdd, hsum, if_true]

/-- A panic comes after the old entry was taken out of the table. -/
theorem rememberPositiveOrPanic_panics {record : PositivePathRecord}
    (h : ¬ Lasts now record.ttl) : r.rememberPositiveOrPanic cf now record
      = .error (r.takeReusableOutstanding now (normalizePath cf record.path) record.attr.ino
        record.ttl).2 := by
  obtain ⟨hzero, hsum⟩ := not_or.mp h
  simp [rememberPositiveOrPanic, hzero, storePositivePathEntryOrPanic, Instant.checkedAdd, hsum]

theorem rememberAttrOrPanic_panics (ino : INodeNo) (attr : FileAttr) {ttl : Duration}
    (h : ¬ Lasts now ttl) : r.rememberAttrOrPanic now ino attr ttl = .error r := by
  obtain ⟨hzero, hsum⟩ := not_or.mp h
  simp [rememberAttrOrPanic, hzero, Instant.checkedAdd, hsum]

theorem rememberNegativeOrPanic_panics (path : OsStr) (parent : INodeNo)
    (parentGeneration : Generation) (name : OsStr)
    (h : ¬ ∀ ttl ∈ (r.purgePath now (normalizePath cf path)).negativeTtl, now.representable ttl) :
    r.rememberNegativeOrPanic cf now path parent parentGeneration name
      = .error (r.purgePath now (normalizePath cf path)) := by
  unfold rememberNegativeOrPanic
  dsimp only
  cases hnegative : (r.purgePath now (normalizePath cf path)).negativeTtl with
  | none => simp [hnegative] at h
  | some ttl =>
      have hsum : ¬ now.representable ttl := by simpa [hnegative] using h
      simp only [Instant.checkedAdd, hsum, if_false]

/-- Neither section panics, and each leaves the resolver in the state that it has without clocks
that end. -/
structure Remembers (record : PositivePathRecord) (ino : INodeNo) (attr : FileAttr) (ttl : Duration) :
    Prop where
  positive : r.rememberPositiveOrPanic cf now record = .ok (r.rememberPositive cf now record)
  attr : r.rememberAttrOrPanic now ino attr ttl = .ok ((), r.rememberAttr now ino attr ttl)

/-- The sections complete exactly when the instant of the expiry exists. -/
theorem remembers_iff (record : PositivePathRecord) (ino : INodeNo) (attr : FileAttr)
    (ttl : Duration) :
    r.Remembers cf now record ino attr ttl ↔ Lasts now record.ttl ∧ Lasts now ttl := by
  constructor
  · intro h
    constructor
    · by_contra hlasts
      have hpanics := r.rememberPositiveOrPanic_panics cf now hlasts
      rw [h.positive] at hpanics
      cases hpanics
    · by_contra hlasts
      have hpanics := r.rememberAttrOrPanic_panics now ino attr hlasts
      rw [h.attr] at hpanics
      cases hpanics
  · rintro ⟨hpositive, hattr⟩
    exact ⟨r.rememberPositiveOrPanic_lasts cf now hpositive,
      r.rememberAttrOrPanic_lasts now ino attr hattr⟩

/-- `Duration::MAX`, which stands for an entry that is valid forever. -/
def forever : Duration := .ofNanos (2 ^ 64 * 10 ^ 9 - 1)

/-- A second lookup of `f`, valid forever, panics one nanosecond after the clock's start. The entry
of the first lookup is gone, and the reference that it held is neither held nor due to be
forgotten. -/
theorem forever_panics :
    ¬ afterLookupOfF.Remembers CharFold.ascii.toCaseFold 1 { lookupOfF with ttl := forever } ⟨5⟩
        (.plain ⟨5⟩ .regularFile) forever ∧
      ∃ left, afterLookupOfF.rememberPositiveOrPanic CharFold.ascii.toCaseFold 1
          { lookupOfF with ttl := forever } = .error left ∧
        afterLookupOfF.held ⟨5⟩ = 1 ∧ left.held ⟨5⟩ = 0 ∧ left.paths.lookup ['\\', 'f'] = none := by
  have hlasts : ¬ Lasts 1 forever := by
    unfold Lasts
    decide
  refine ⟨fun h => ?_, _, afterLookupOfF.rememberPositiveOrPanic_panics _ _ hlasts, ?_⟩
  · have hattr := h.attr
    rw [afterLookupOfF.rememberAttrOrPanic_panics 1 ⟨5⟩ (.plain ⟨5⟩ .regularFile) hlasts] at hattr
    cases hattr
  · decide

end PathResolver

/-! ## Every section -/

instance (now : Instant) (ttl : Duration) : Decidable (PathResolver.Lasts now ttl) :=
  inferInstanceAs (Decidable (_ ∨ _))

namespace TableOp

/-- If a section computes an expiry, it is an instant. -/
def Lasts (now : Instant) (negativeTtl : Option Duration) : TableOp → Prop
  | .rememberPositive record => PathResolver.Lasts now record.ttl
  | .rememberCreated c => PathResolver.Lasts now c.ttl
  | .rememberNegative _ _ _ _ => ∀ ttl ∈ negativeTtl, now.representable ttl
  | .rememberAttr _ _ ttl => PathResolver.Lasts now ttl
  | .cached _ _ _ | .cachedAttr _ | .invalidateInodeAttr _ => True

instance Lasts.decidable (now : Instant) (negativeTtl : Option Duration) :
    (o : TableOp) → Decidable (o.Lasts now negativeTtl)
  | .rememberPositive record => inferInstanceAs (Decidable (PathResolver.Lasts now record.ttl))
  | .rememberCreated c => inferInstanceAs (Decidable (PathResolver.Lasts now c.ttl))
  | .rememberNegative _ _ _ _ =>
      inferInstanceAs (Decidable (∀ ttl ∈ negativeTtl, now.representable ttl))
  | .rememberAttr _ _ ttl => inferInstanceAs (Decidable (PathResolver.Lasts now ttl))
  | .cached _ _ _ | .cachedAttr _ | .invalidateInodeAttr _ => inferInstanceAs (Decidable True)

/-- A section as it runs, up to its end or to its panic. -/
def applyOrPanic (cf : CaseFold) (now : Instant) : (o : TableOp) → PathResolver →
    SectionResult o.Result
  | .rememberPositive record, r => r.rememberPositiveOrPanic cf now record
  | .rememberCreated c, r =>
      (r.rememberPositiveOrPanic cf now (c.record (r.generationFor c.parent))).map
        fun answer => ((), answer.2)
  | .rememberNegative path parent parentGeneration name, r =>
      r.rememberNegativeOrPanic cf now path parent parentGeneration name
  | .rememberAttr ino attr ttl, r => r.rememberAttrOrPanic now ino attr ttl
  | .cached path parent parentGeneration, r => .ok (r.cached cf now path parent parentGeneration)
  | .cachedAttr ino, r => .ok (r.cachedAttr now ino)
  | .invalidateInodeAttr ino, r => .ok ((), r.invalidateInodeAttr now ino)

variable {cf : CaseFold} {now : Instant} {o : TableOp} {r : PathResolver}

theorem applyOrPanic_lasts (h : o.Lasts now r.negativeTtl) :
    o.applyOrPanic cf now r = .ok (o.apply cf now r) := by
  cases o with
  | rememberPositive record => exact r.rememberPositiveOrPanic_lasts cf now h
  | rememberCreated c =>
      have hrecord : PathResolver.Lasts now (c.record (r.generationFor c.parent)).ttl := h
      exact congrArg (Except.map _) (r.rememberPositiveOrPanic_lasts cf now hrecord)
  | rememberNegative path parent parentGeneration name =>
      refine r.rememberNegativeOrPanic_lasts cf now path parent parentGeneration name ?_
      rw [PathResolver.purgePath_negativeTtl]
      exact h
  | rememberAttr ino attr ttl => exact r.rememberAttrOrPanic_lasts now ino attr h
  | cached path parent parentGeneration => rfl
  | cachedAttr ino => rfl
  | invalidateInodeAttr ino => rfl

variable (cf) in
theorem applyOrPanic_panics (h : ¬ o.Lasts now r.negativeTtl) :
    ∃ left, o.applyOrPanic cf now r = .error left := by
  cases o with
  | rememberPositive record => exact ⟨_, r.rememberPositiveOrPanic_panics cf now h⟩
  | rememberCreated c =>
      have hrecord : ¬ PathResolver.Lasts now (c.record (r.generationFor c.parent)).ttl := h
      exact ⟨_, congrArg (Except.map _) (r.rememberPositiveOrPanic_panics cf now hrecord)⟩
  | rememberNegative path parent parentGeneration name =>
      refine ⟨_, r.rememberNegativeOrPanic_panics cf now path parent parentGeneration name ?_⟩
      rw [PathResolver.purgePath_negativeTtl]
      exact h
  | rememberAttr ino attr ttl => exact ⟨r, r.rememberAttrOrPanic_panics now ino attr h⟩
  | cached path parent parentGeneration => exact absurd trivial h
  | cachedAttr ino => exact absurd trivial h
  | invalidateInodeAttr ino => exact absurd trivial h

end TableOp
end Confuse
