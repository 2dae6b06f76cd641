import Confuse.AttributeHistory
import Confuse.ResolverEntries

/-!
# Attributes and generations

The generation of an inode's record follows the lookups, its attributes follow `remember_attr`, and
neither looks at the other. Attributes cross a generation exactly when a lookup reports another
generation while they are valid, or when they are recorded in a record that does not have the
generation reported last.
-/

namespace Confuse

open PathResolver

namespace PathResolver

/-- Keeping the generation of one inode, as a predicate on the marks of records. -/
def HasGeneration (i : INodeNo) (g : Generation) : INodeNo → Generation → Prop :=
  fun j g' => j = i → g' = g

theorem hasGeneration_generationFor (r : PathResolver) (i : INodeNo) :
    r.Marked (HasGeneration i (r.generationFor i)) := by
  rintro j state hj rfl
  rw [PathResolver.generationFor, hj]

/-- A record with valid attributes tells the generation that all records are marked with. -/
theorem generationFor_of_liveAttr {r : PathResolver} {i : INodeNo} {g : Generation}
    (hmarked : r.Marked (HasGeneration i g)) {now : Instant} {u : FileAttr × Instant}
    (hlive : r.liveAttr now i = some u) : r.generationFor i = g := by
  obtain ⟨state, hlookup, -⟩ := Option.bind_eq_some_iff.mp hlive
  rw [PathResolver.generationFor, hlookup]
  exact hmarked i state hlookup rfl

theorem liveAttr_earlier {r : PathResolver} {now later : Instant} (hlater : now ≤ later) {i : INodeNo}
    {u : FileAttr × Instant} (hlive : r.liveAttr later i = some u) : r.liveAttr now i = some u := by
  obtain ⟨state, hlookup, hu⟩ := Option.bind_eq_some_iff.mp hlive
  obtain ⟨expires, hexpires, rfl⟩ := Option.map_eq_some_iff.mp hu
  obtain ⟨hsome, hvalid⟩ := Option.filter_eq_some_iff.mp hexpires
  have hvalid' : now < expires := lt_of_le_of_lt hlater (by simpa using hvalid)
  unfold liveAttr
  rw [hlookup, Option.bind_some, hsome]
  simp [Option.filter, hvalid']

theorem rememberAttr_generationFor (now : Instant) (r : PathResolver) (ino i : INodeNo)
    (attr : FileAttr) (ttl : Duration) :
    (r.rememberAttr now ino attr ttl).generationFor i = r.generationFor i := by
  unfold rememberAttr
  split_ifs
  · unfold PathResolver.generationFor clearAttrExpires
    rw [KeyedMap.lookup_modify]
    split_ifs with hi
    · subst hi
      cases r.inodes.lookup i <;> rfl
    · rfl
  · unfold PathResolver.generationFor
    dsimp only
    by_cases hi : i = ino
    · subst hi
      rw [AList.lookup_insert]
      cases r.inodes.lookup i <;> rfl
    · rw [AList.lookup_insert_ne hi]

/-- A lookup with a nonzero time to live sets the generation. -/
theorem rememberPositive_generationFor (cf : CaseFold) (now : Instant) (r : PathResolver)
    {record : PositivePathRecord} (hzero : record.ttl.isZero = false) :
    (r.rememberPositive cf now record).2.generationFor record.attr.ino = record.generation := by
  unfold rememberPositive PathResolver.generationFor
  dsimp only
  rw [if_pos hzero, rememberPositiveInode]
  dsimp only
  rw [AList.lookup_insert]
  dsimp only
  split <;> rfl

end PathResolver

namespace History

/-- The generation that the last `remember_positive` of an inode reported, or the generation that the
resolver takes for an unknown inode. -/
def reported (cf : CaseFold) (i : INodeNo) : History → Generation
  | [] => ⟨0⟩
  | (_, o) :: before =>
      match recordOf cf before o with
      | some record => if record.attr.ino = i then record.generation else reported cf i before
      | none => reported cf i before

/-- From `now` on attributes are only served for an inode while the generation reported when they were
recorded is the one now stored and the one reported last. -/
def OneGeneration (cf : CaseFold) (now : Instant) (h : History) : Prop :=
  ∀ i attr later, now ≤ later → ((state cf h).cachedAttr later i).1 = some attr →
    ∀ t o before, lastTouch (attrTouch cf i) h = (t, o) :: before →
      reported cf i before = (state cf h).generationFor i ∧ reported cf i before = reported cf i h

/-- A lookup of an inode with valid attributes reports the generation that is stored, and attributes
are recorded while the generation that is stored is the one reported last. -/
def KeepsGeneration (cf : CaseFold) (now : Instant) (o : HistoryOp) (before : History) : Prop :=
  (∀ record, recordOf cf before o = some record →
      ((state cf before).cachedAttr now record.attr.ino).1 ≠ none →
      record.generation = (state cf before).generationFor record.attr.ino) ∧
    ∀ ino attr ttl, o = .op (.table (.rememberAttr ino attr ttl)) → ttl.isZero = false →
      (state cf before).generationFor ino = reported cf ino before

/-- Every operation of a history satisfies `P` with what was before it. -/
def Throughout (P : Instant → HistoryOp → History → Prop) : History → Prop
  | [] => True
  | (now, o) :: before => P now o before ∧ Throughout P before

/-! ## One operation -/

/-- An operation other than a lookup of the inode keeps the generation of a record whose attributes
stay valid. -/
theorem generationFor_kept (cf : CaseFold) (now : Instant) (o : HistoryOp) (before : History)
    (i : INodeNo)
    (hother : ∀ record, recordOf cf before o = some record → record.ttl.isZero = false →
      record.attr.ino ≠ i) {later : Instant} {u : FileAttr × Instant}
    (hlive : (o.apply cf now (state cf before)).liveAttr later i = some u) :
    (o.apply cf now (state cf before)).generationFor i = (state cf before).generationFor i := by
  have hmarked := hasGeneration_generationFor (state cf before) i
  have hrecorded : ∀ record, recordOf cf before o = some record →
      record.ttl.isZero = false → HasGeneration i ((state cf before).generationFor i)
        record.attr.ino record.generation :=
    fun record h hzero hi => absurd hi (hother record h hzero)
  cases o with
  | op o =>
      cases o with
      | table o =>
          cases o with
          | rememberPositive record =>
              exact generationFor_of_liveAttr
                (hmarked.rememberPositive cf now (hrecorded _ rfl)) hlive
          | rememberCreated c =>
              exact generationFor_of_liveAttr
                (hmarked.rememberPositive cf now (hrecorded _ rfl)) hlive
          | rememberNegative path parent parentGeneration name =>
              exact generationFor_of_liveAttr (hmarked.rememberNegative cf now path _ _ name) hlive
          | cached path parent parentGeneration =>
              exact generationFor_of_liveAttr (hmarked.cached cf now path _ _) hlive
          | cachedAttr ino => exact generationFor_of_liveAttr (hmarked.cachedAttr now ino) hlive
          | rememberAttr ino attr ttl => exact rememberAttr_generationFor now _ ino i attr ttl
          | invalidateInodeAttr ino =>
              exact generationFor_of_liveAttr (hmarked.invalidateInodeAttr now ino) hlive
      | drain o => exact generationFor_of_liveAttr (hmarked.drain cf now o) hlive
  | notify n => exact generationFor_of_liveAttr (hmarked.notify cf now n) hlive
  | setNegativeTtl ttl => rfl

theorem reported_of_record {cf : CaseFold} {now : Instant} {o : HistoryOp} {before : History}
    {record : PositivePathRecord} (hrecord : recordOf cf before o = some record) :
    reported cf record.attr.ino ((now, o) :: before) = record.generation := by
  rw [reported, hrecord]
  exact if_pos rfl

theorem reported_other {cf : CaseFold} {now : Instant} {o : HistoryOp} {before : History} {i : INodeNo}
    (hother : ∀ record, recordOf cf before o = some record → record.attr.ino ≠ i) :
    reported cf i ((now, o) :: before) = reported cf i before := by
  rw [reported]
  cases hrecord : recordOf cf before o with
  | none => rfl
  | some record => exact if_neg (hother record hrecord)

theorem recordsOrReleases_of_recordOf {cf : CaseFold} {before : History} {o : HistoryOp}
    {record : PositivePathRecord} (hrecord : recordOf cf before o = some record) :
    recordsOrReleases o = true := by
  unfold recordOf at hrecord
  split at hrecord
  · rfl
  · rfl
  · cases hrecord

/-- After a lookup with a nonzero time to live its generation is the stored one. -/
theorem generationFor_of_recordOf {cf : CaseFold} (now : Instant) {o : HistoryOp} {before : History}
    {record : PositivePathRecord} (hrecord : recordOf cf before o = some record)
    (hzero : record.ttl.isZero = false) :
    (o.apply cf now (state cf before)).generationFor record.attr.ino = record.generation := by
  unfold recordOf at hrecord
  split at hrecord
  · obtain rfl := Option.some.inj hrecord
    exact rememberPositive_generationFor cf now _ hzero
  · obtain rfl := Option.some.inj hrecord
    exact rememberPositive_generationFor cf now _ hzero
  · cases hrecord

section Step
variable {cf : CaseFold} {now : Instant} {o : HistoryOp} {before : History}

theorem keepsGeneration_of_after (hordered : before.Ordered now) (hbefore : OneGeneration cf now before)
    (hafter : OneGeneration cf now ((now, o) :: before)) : KeepsGeneration cf now o before := by
  constructor
  · intro record hrecord hlive
    obtain ⟨attr, hattr⟩ := Option.ne_none_iff_exists'.mp hlive
    have hrecords := recordsOrReleases_of_recordOf hrecord
    obtain ⟨recorded, ttl, b, hlast, -⟩ :=
      (cachedAttr_iff_remembered cf record.attr.ino hordered attr).mp hattr
    have hlast' : lastTouch (attrTouch cf record.attr.ino) ((now, o) :: before)
        = lastTouch (attrTouch cf record.attr.ino) before := by
      rw [lastTouch_cons, attrTouch_of_recordsOrReleases hrecords]
    rw [hlast] at hlast'
    have hattr' := (cachedAttr_kept cf record.attr.ino hordered hrecords le_rfl).trans hattr
    obtain ⟨-, hreported⟩ := hafter _ attr now le_rfl hattr' _ _ b hlast'
    obtain ⟨hstored, -⟩ := hbefore _ attr now le_rfl hattr _ _ b hlast
    rw [reported_of_record hrecord] at hreported
    exact hreported.symm.trans hstored
  · rintro ino attr ttl rfl hzero
    have hwrites : attrTouch cf ino now before (left (attrTouch cf ino) before)
        (.op (.table (.rememberAttr ino attr ttl))) = .writes (attr, now + ttl.nanos) := by
      rw [attrTouch, if_pos rfl, hzero]
      rfl
    have hlast : lastTouch (attrTouch cf ino) ((now, .op (.table (.rememberAttr ino attr ttl))) :: before)
        = (now, .op (.table (.rememberAttr ino attr ttl))) :: before := by
      rw [lastTouch_cons, hwrites]
    have hordered' : Ordered ((now, .op (.table (.rememberAttr ino attr ttl))) :: before) now :=
      ⟨le_rfl, hordered⟩
    have hattr := (cachedAttr_iff_remembered cf ino hordered' attr).mpr
      ⟨now, ttl, before, hlast, hzero, Nat.lt_add_of_pos_right (Duration.isZero_eq_false.mp hzero)⟩
    obtain ⟨hstored, -⟩ := hafter ino attr now le_rfl hattr _ _ before hlast
    rw [hstored]
    exact (rememberAttr_generationFor now (state cf before) ino ino attr ttl).symm

theorem oneGeneration_of_keeps (hordered : before.Ordered now) (hbefore : OneGeneration cf now before)
    (hkeeps : KeepsGeneration cf now o before) : OneGeneration cf now ((now, o) :: before) := by
  intro i attr later hlater hattr t o' b hlast
  rw [cachedAttr_answer] at hattr
  obtain ⟨u, hlive, hu⟩ := Option.map_eq_some_iff.mp hattr
  have hleft : (left (attrTouch cf i) ((now, o) :: before)).filter (fun w => later < w.2) = some u :=
    (state_liveAttr (h := (now, o) :: before) cf i ⟨hlater, hordered⟩).symm.trans hlive
  rw [left_cons] at hleft
  rw [lastTouch_cons] at hlast
  cases htouch : attrTouch cf i now before (left (attrTouch cf i) before) o with
  | removes =>
      rw [htouch] at hleft
      cases hleft
  | writes w =>
      -- the attributes are those that this operation records
      obtain ⟨attr', ttl, rfl, hzero, -⟩ := attrTouch_writes htouch
      rw [htouch] at hlast
      obtain ⟨⟨-, -⟩, rfl⟩ : (now = t ∧ _ = o') ∧ before = b := by simpa using hlast
      have hstored := hkeeps.2 i attr' ttl rfl hzero
      exact ⟨hstored.symm.trans (rememberAttr_generationFor now _ i i attr' ttl).symm, rfl⟩
  | leaves =>
      -- the attributes were valid before, and the lookups of the inode agree with their generation
      rw [htouch] at hleft hlast
      have hlive' : (state cf before).liveAttr later i = some u :=
        (state_liveAttr cf i (hordered.later hlater)).trans hleft
      have hattr' : ((state cf before).cachedAttr later i).1 = some attr := by
        rw [cachedAttr_answer, hlive', Option.map_some, hu]
      obtain ⟨hstored, hreported⟩ := hbefore i attr later hlater hattr' t o' b hlast
      by_cases hrec : ∃ record, recordOf cf before o = some record ∧ record.attr.ino = i
      · obtain ⟨record, hrecord, rfl⟩ := hrec
        have hnow : ((state cf before).cachedAttr now record.attr.ino).1 ≠ none := by
          rw [cachedAttr_answer, liveAttr_earlier hlater hlive']
          simp
        have hsame := hkeeps.1 record hrecord hnow
        rw [reported_of_record hrecord, hsame]
        refine ⟨?_, hstored⟩
        by_cases hzero : record.ttl.isZero = true
        · have hkept := generationFor_kept cf now o before record.attr.ino
            (fun record' h hzero' => by
              obtain rfl : record = record' := Option.some.inj (hrecord.symm.trans h)
              simp [hzero] at hzero') hlive
          exact hstored.trans hkept.symm
        · have hset := generationFor_of_recordOf now hrecord (by simpa using hzero)
          exact hstored.trans (hsame.symm.trans hset.symm)
      · have hother : ∀ record, recordOf cf before o = some record → record.attr.ino ≠ i :=
          fun record h hi => hrec ⟨record, h, hi⟩
        rw [reported_other hother]
        have hkept := generationFor_kept cf now o before i (fun record h _ => hother record h) hlive
        exact ⟨hstored.trans hkept.symm, hreported⟩

end Step

/-- Attributes never cross a generation in any state of a run exactly when every operation of the run
keeps the generation. -/
theorem attributes_of_one_generation_iff (cf : CaseFold) (h : History) (now : Instant)
    (hordered : h.Ordered now) :
    Throughout (fun t o before => OneGeneration cf t ((t, o) :: before)) h
      ↔ Throughout (KeepsGeneration cf) h := by
  induction h generalizing now with
  | nil => exact Iff.rfl
  | cons step before ih =>
      obtain ⟨t, o⟩ := step
      obtain ⟨-, hbefore⟩ := hordered
      have hprevious : Throughout (fun t o before => OneGeneration cf t ((t, o) :: before)) before →
          OneGeneration cf t before := by
        intro hall
        cases before with
        | nil =>
            intro i attr later _ hattr
            have hnone : ((state cf []).cachedAttr later i).1 = none := rfl
            simp [hnone] at hattr
        | cons previous b => exact fun i attr later hlater => hall.1 i attr later (hbefore.1.trans hlater)
      constructor
      · rintro ⟨hafter, hall⟩
        exact ⟨keepsGeneration_of_after hbefore (hprevious hall) hafter, (ih t hbefore).mp hall⟩
      · rintro ⟨hkeeps, hall⟩
        have hall' := (ih t hbefore).mpr hall
        exact ⟨oneGeneration_of_keeps hbefore (hprevious hall') hkeeps, hall'⟩

/-- Inode 5 is looked up, its attributes are recorded, and it is looked up again with generation
`g`, all within the ten nanoseconds for which both are valid. -/
def lookedUpAgain (g : Generation) : History :=
  [(2, .op (.table (.rememberPositive { lookupOfLink 'b' (.fromNanos 10) with generation := g }))),
    (1, .op (.table (.rememberAttr ⟨5⟩ (.plain ⟨5⟩ .regularFile) (.fromNanos 10)))),
    (0, longLink)]

theorem attributes_of_one_generation_iff_same :
    Throughout (fun t o before => OneGeneration CharFold.ascii.toCaseFold t ((t, o) :: before))
        (lookedUpAgain ⟨1⟩)
      ↔ Throughout (KeepsGeneration CharFold.ascii.toCaseFold) (lookedUpAgain ⟨1⟩) :=
  attributes_of_one_generation_iff _ (lookedUpAgain ⟨1⟩) 2 ⟨le_rfl, by decide, by decide, trivial⟩

/-- The inode comes back under generation 2 and the attributes of generation 1 are served. -/
theorem attributes_cross_generation :
    ¬ ∀ (cf : CaseFold) (h : History) (now : Instant), h.Ordered now →
      Throughout (fun t o before => OneGeneration cf t ((t, o) :: before)) h := by
  intro hall
  have hrun := hall CharFold.ascii.toCaseFold (lookedUpAgain ⟨2⟩) 2
    ⟨le_rfl, by decide, by decide, trivial⟩
  obtain ⟨hstored, -⟩ := hrun.1 ⟨5⟩ (.plain ⟨5⟩ .regularFile) 2 le_rfl (by rfl) 1 _ [(0, longLink)] (by rfl)
  exact absurd hstored (by decide)

end History
end Confuse
