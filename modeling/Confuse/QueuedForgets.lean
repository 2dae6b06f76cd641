import Confuse.ResolverLedger

/-!
# When a section queues a forget

A section under the resolver's lock queues references to be given back when it drops a path entry
that holds some, or records an entry that must not be kept. The queue only grows until it is drained.
-/

namespace Confuse
namespace PathResolver

/-- Some reference in the list is still counted. -/
def Counts (r : PathResolver) (outstanding : Forgets) : Prop :=
  ∃ f ∈ outstanding, 0 < f.2 ∧ 0 < r.refcount f.1

/-- The entry at the key of a path holds a reference that is still counted, and satisfies `P`. -/
def HoldsAt (cf : CaseFold) (r : PathResolver) (path : OsStr) (P : PositiveEntry → Prop) : Prop :=
  ∃ e, r.paths.lookup (normalizePath cf path) = some (.positive e) ∧ P e ∧ r.Counts e.outstanding

/-- Recording an entry gives up what the entry in its place holds on another inode, and the new
reference if it may not be kept. -/
def RecordGivesUp (cf : CaseFold) (r : PathResolver) (record : PositivePathRecord) : Prop :=
  record.ttl.isZero = true ∨ r.HoldsAt cf record.path fun e => e.ino ≠ record.attr.ino

/-! ## Releasing -/

theorem releaseLookup_refcount_of_zero {r : PathResolver} {e : INodeNo × ℕ}
    (h : e.2 = 0 ∨ r.refcount e.1 = 0) (i : INodeNo) :
    (r.releaseLookup e).refcount i = r.refcount i := by
  unfold refcount at h
  unfold releaseLookup
  cases hl : r.inodes.lookup e.1 with
  | none => rfl
  | some state =>
      have hmin : min state.lookupRefcount e.2 = 0 := by
        rcases h with hcount | href
        · omega
        · rw [hl] at href
          change state.lookupRefcount = 0 at href
          omega
      dsimp only
      unfold refcount
      by_cases hi : i = e.1
      · subst hi
        rw [AList.lookup_insert, hl, hmin]
        rfl
      · rw [AList.lookup_insert_ne hi]

theorem releaseLookup_pendingForgets (r : PathResolver) (e : INodeNo × ℕ) :
    (r.releaseLookup e).pendingForgets = r.pendingForgets ++
      if 0 < e.2 ∧ 0 < r.refcount e.1 then [(e.1, min (r.refcount e.1) e.2)] else [] := by
  unfold releaseLookup refcount
  cases r.inodes.lookup e.1 with
  | none => simp
  | some state =>
      by_cases hboth : 0 < e.2 ∧ 0 < state.lookupRefcount
      · have hmin : 0 < min state.lookupRefcount e.2 := by omega
        simp [hboth, hmin]
      · have hmin : ¬ 0 < min state.lookupRefcount e.2 := by omega
        simp [hboth, hmin]

theorem foldl_releaseLookup_grows (outstanding : Forgets) (r : PathResolver) :
    r.pendingForgets <+: (outstanding.foldl releaseLookup r).pendingForgets := by
  induction outstanding generalizing r with
  | nil => exact List.prefix_rfl
  | cons e outstanding ih =>
      refine List.IsPrefix.trans ?_ (ih (r.releaseLookup e))
      rw [releaseLookup_pendingForgets]
      exact List.prefix_append _ _

/-- Nothing is queued exactly when no reference is counted. -/
theorem foldl_releaseLookup_eq_iff (outstanding : Forgets) (r : PathResolver) :
    (outstanding.foldl releaseLookup r).pendingForgets = r.pendingForgets ↔ ¬ r.Counts outstanding := by
  induction outstanding generalizing r with
  | nil => simp [Counts]
  | cons e outstanding ih =>
      rw [List.foldl_cons]
      by_cases hboth : 0 < e.2 ∧ 0 < r.refcount e.1
      · refine iff_of_false ?_ (not_not.mpr ⟨e, List.mem_cons_self, hboth⟩)
        intro heq
        have hlength := (foldl_releaseLookup_grows outstanding (r.releaseLookup e)).length_le
        rw [heq, releaseLookup_pendingForgets, if_pos hboth, List.length_append] at hlength
        simp only [List.length_singleton] at hlength
        omega
      · have hsame : (r.releaseLookup e).pendingForgets = r.pendingForgets := by
          rw [releaseLookup_pendingForgets, if_neg hboth, List.append_nil]
        have hzero : e.2 = 0 ∨ r.refcount e.1 = 0 := by omega
        rw [← hsame, ih]
        unfold Counts
        simp [releaseLookup_refcount_of_zero hzero, hboth]

/-- The queue of `t` is that of `s` with more at its end, and with nothing more unless `gives`. -/
structure QueuesIf (gives : Prop) (s t : PathResolver) : Prop where
  grows : s.pendingForgets <+: t.pendingForgets
  same : t.pendingForgets = s.pendingForgets ↔ ¬ gives

namespace QueuesIf
variable {A B : Prop} {s t u : PathResolver}

theorem of_eq (h : t.pendingForgets = s.pendingForgets) (hA : ¬ A) : QueuesIf A s t where
  grows := ⟨[], by rw [h, List.append_nil]⟩
  same := iff_of_true h hA

theorem congr (h : QueuesIf A s t) (hAB : A ↔ B) : QueuesIf B s t where
  grows := h.grows
  same := h.same.trans (not_congr hAB)

theorem trans (h : QueuesIf A s t) (h' : QueuesIf B t u) : QueuesIf (A ∨ B) s u where
  grows := h.grows.trans h'.grows
  same := by
    rw [not_or, ← h.same, ← h'.same]
    constructor
    · intro heq
      have hlength := h.grows.length_le
      have hlength' := h'.grows.length_le
      rw [heq] at hlength'
      have hfirst := h.grows.eq_of_length (by omega)
      exact ⟨hfirst.symm, heq.trans hfirst⟩
    · rintro ⟨hfirst, hrest⟩
      exact hrest.trans hfirst

/-- A queue that is empty at the end was empty before, and nothing was queued. -/
theorem of_nil (h : QueuesIf A s t) (ht : t.pendingForgets = []) : s.pendingForgets = [] ∧ ¬ A := by
  have hs : s.pendingForgets = [] := List.prefix_nil.mp (ht ▸ h.grows)
  exact ⟨hs, h.same.mp (ht.trans hs.symm)⟩

end QueuesIf

variable {now : Instant} {r : PathResolver} {cf : CaseFold} {path : OsStr}

variable (now r) in
theorem releaseOutstanding_queues (outstanding : Forgets) :
    QueuesIf (r.Counts outstanding) r (r.releaseOutstanding now outstanding) where
  grows := foldl_releaseLookup_grows outstanding r
  same := foldl_releaseLookup_eq_iff outstanding r

/-! ## Dropping and recording entries -/

section Entry
variable {P : PositiveEntry → Prop} {e : PositiveEntry}

theorem holdsAt_iff (hl : r.paths.lookup (normalizePath cf path) = some (.positive e)) :
    r.HoldsAt cf path P ↔ P e ∧ r.Counts e.outstanding := by
  unfold HoldsAt
  simp [hl]

theorem not_holdsAt (hl : ∀ e, r.paths.lookup (normalizePath cf path) ≠ some (.positive e)) :
    ¬ r.HoldsAt cf path P := by
  rintro ⟨e, he, -⟩
  exact hl e he

end Entry

variable (now r) in
theorem removePath_releases (key : Str) (outstanding : Forgets) :
    QueuesIf (r.Counts outstanding) r ((r.removePath key).releaseOutstanding now outstanding) :=
  ⟨foldl_releaseLookup_grows outstanding (r.removePath key),
    foldl_releaseLookup_eq_iff outstanding (r.removePath key)⟩

/-- `cached` drops an entry that is past its time or was recorded under another parent. -/
theorem cached_queues (parent : INodeNo) (parentGeneration : Generation) :
    QueuesIf (normalizePath cf path ≠ ['\\'] ∧ r.HoldsAt cf path fun e =>
        now < e.entryExpires → e.parent = parent → e.parentGeneration ≠ parentGeneration)
      r (r.cached cf now path parent parentGeneration).2 := by
  unfold cached
  dsimp only
  by_cases hroot : normalizePath cf path = ['\\']
  · rw [if_pos hroot]
    exact .of_eq rfl fun h => h.1 hroot
  rw [if_neg hroot]
  rcases hl : r.paths.lookup (normalizePath cf path) with _ | ⟨e⟩ | ⟨e⟩
  · exact .of_eq rfl fun h => not_holdsAt (by simp [hl]) h.2
  · have hdrop : r.dropPath now (normalizePath cf path)
        = (r.removePath (normalizePath cf path)).releaseOutstanding now e.outstanding := by
      rw [dropPath, hl]
    have hdropped := removePath_releases now r (normalizePath cf path) e.outstanding
    simp only [holdsAt_iff hl]
    split_ifs with hlive hparent hino
    · rw [hdrop]
      refine hdropped.congr ⟨fun hcounts => ⟨hroot, fun _ hp => ?_, hcounts⟩, fun h => h.2.2⟩
      exact hparent.resolve_left (not_not.mpr hp)
    · refine .of_eq rfl ?_
      rintro ⟨-, hother, -⟩
      exact hparent (or_iff_not_imp_left.mpr fun hp => hother hlive (not_not.mp hp))
    · refine .of_eq rfl ?_
      rintro ⟨-, hother, -⟩
      exact hparent (or_iff_not_imp_left.mpr fun hp => hother hlive (not_not.mp hp))
    · rw [hdrop]
      exact hdropped.congr ⟨fun hcounts => ⟨hroot, fun h => absurd h hlive, hcounts⟩, fun h => h.2.2⟩
  · refine .of_eq ?_ fun h => not_holdsAt (by simp [hl]) h.2
    dsimp only
    split_ifs <;> rfl

variable (now r cf path) in
theorem takeReusableOutstanding_queues (ino : INodeNo) (ttl : Duration) :
    QueuesIf (r.HoldsAt cf path fun e => e.ino = ino → ttl.isZero = true) r
      (r.takeReusableOutstanding now (normalizePath cf path) ino ttl).2 := by
  unfold takeReusableOutstanding
  rcases hl : r.paths.lookup (normalizePath cf path) with _ | ⟨e⟩ | ⟨e⟩
  · exact .of_eq rfl (not_holdsAt (by simp [hl]))
  · dsimp only
    rw [holdsAt_iff hl]
    split_ifs with hreuse
    · refine .of_eq rfl ?_
      simp [hreuse.1, hreuse.2]
    · have hother : e.ino = ino → ttl.isZero = true := by simpa using hreuse
      exact (removePath_releases now r _ e.outstanding).congr (and_iff_right hother).symm
  · exact .of_eq rfl (not_holdsAt (by simp [hl]))

theorem rememberPositive_queues (record : PositivePathRecord) :
    QueuesIf (r.RecordGivesUp cf record) r (r.rememberPositive cf now record).2 := by
  have htaken := takeReusableOutstanding_queues now r cf record.path record.attr.ino record.ttl
  unfold rememberPositive RecordGivesUp
  dsimp only
  by_cases hzero : record.ttl.isZero = false
  · rw [if_pos hzero]
    refine ⟨htaken.grows, htaken.same.trans (not_congr ?_)⟩
    simp [hzero]
  · rw [if_neg hzero]
    have hreleased := htaken.trans (releaseOutstanding_queues now _
      (r.takeReusableOutstanding now (normalizePath cf record.path) record.attr.ino record.ttl).1)
    have hzero' : record.ttl.isZero = true := by simpa using hzero
    constructor
    · exact hreleased.grows.trans (List.prefix_append _ _)
    · refine iff_of_false ?_ (not_not.mpr (.inl hzero'))
      intro heq
      have hlength := hreleased.grows.length_le
      change _ ++ [(record.attr.ino, 1)] = _ at heq
      rw [← heq, List.length_append, List.length_singleton] at hlength
      omega

/-- A negative entry takes the place of what was there. -/
theorem rememberNegative_queues (parent : INodeNo) (parentGeneration : Generation) (name : OsStr) :
    QueuesIf (r.HoldsAt cf path fun _ => True) r
      (r.rememberNegative cf now path parent parentGeneration name) := by
  have hpurge : QueuesIf (r.HoldsAt cf path fun _ => True) r
      (r.purgePath now (normalizePath cf path)) := by
    unfold purgePath
    rcases hl : r.paths.lookup (normalizePath cf path) with _ | ⟨e⟩ | ⟨e⟩
    · exact .of_eq rfl (not_holdsAt (by simp [hl]))
    · rw [holdsAt_iff hl]
      obtain ⟨hpending, hcount⟩ := foldl_clearAttrExpires (e.outstanding.map Prod.fst)
        (r.removePath (normalizePath cf path))
      have hreleased := releaseOutstanding_queues now ((e.outstanding.map
        Prod.fst).foldl clearAttrExpires (r.removePath (normalizePath cf path))) e.outstanding
      have hsame : r.Counts e.outstanding ↔ ((e.outstanding.map Prod.fst).foldl clearAttrExpires
          (r.removePath (normalizePath cf path))).Counts e.outstanding := by
        unfold Counts
        simp only [hcount]
        rfl
      refine ⟨?_, ?_⟩
      · have hgrows := hreleased.grows
        rwa [hpending] at hgrows
      · have hkept := hreleased.same
        rw [hpending] at hkept
        rw [true_and, hsame]
        exact hkept
    · exact .of_eq rfl (not_holdsAt (by simp [hl]))
  unfold rememberNegative
  dsimp only
  cases (r.purgePath now (normalizePath cf path)).negativeTtl <;> exact ⟨hpurge.grows, hpurge.same⟩

end PathResolver

open PathResolver

/-- The section gives up a reference that is counted. -/
def TableOp.GivesUp (cf : CaseFold) (now : Instant) (r : PathResolver) : TableOp → Prop
  | .rememberPositive record => r.RecordGivesUp cf record
  | .rememberCreated created =>
      r.RecordGivesUp cf (created.record (r.generationFor created.parent))
  | .rememberNegative path _ _ _ => r.HoldsAt cf path fun _ => True
  | .cached path parent parentGeneration =>
      normalizePath cf path ≠ ['\\'] ∧ r.HoldsAt cf path fun e =>
        now < e.entryExpires → e.parent = parent → e.parentGeneration ≠ parentGeneration
  | _ => False

/-- A section queues a forget exactly when it gives up a reference. -/
theorem TableOp.queues (cf : CaseFold) (now : Instant) (r : PathResolver) (o : TableOp) :
    QueuesIf (o.GivesUp cf now r) r (o.apply cf now r).2 := by
  cases o with
  | rememberPositive record => exact rememberPositive_queues record
  | rememberCreated created => exact rememberPositive_queues _
  | rememberNegative path parent parentGeneration name => exact rememberNegative_queues ..
  | cached path parent parentGeneration => exact cached_queues ..
  | cachedAttr ino =>
      refine .of_eq ?_ id
      change (r.cachedAttr now ino).2.pendingForgets = _
      unfold PathResolver.cachedAttr
      cases r.inodes.lookup ino with
      | none => rfl
      | some state =>
          dsimp only
          split_ifs <;> rfl
  | rememberAttr ino attr ttl =>
      refine .of_eq ?_ id
      change (r.rememberAttr now ino attr ttl).pendingForgets = _
      unfold PathResolver.rememberAttr
      split_ifs <;> rfl
  | invalidateInodeAttr ino => exact .of_eq rfl id

/-- A drain leaves nothing queued. -/
theorem DrainOp.apply_pendingForgets (cf : CaseFold) (now : Instant) (o : DrainOp)
    (r : PathResolver) : (o.apply cf now r).2.pendingForgets = [] := by
  cases o <;> rfl

/-- The notifier leaves the queue alone or empties it. -/
theorem NotifierCall.apply_pendingForgets (cf : CaseFold) (now : Instant) (n : NotifierCall)
    {r : PathResolver} (h : r.pendingForgets = []) : (n.apply cf now r).pendingForgets = [] := by
  cases n with
  | invalInode ino => exact h
  | invalEntry parent name => rfl
  | delete parent child name => rfl

end Confuse
