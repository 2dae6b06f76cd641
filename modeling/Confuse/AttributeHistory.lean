import Confuse.ResolverHistory

/-!
# The attribute cache and its history

Attributes share a record with the count of references of their inode. Releasing references may drop
the record, but not before the attributes have expired, so what is served follows from the attribute
events of the inode alone.
-/

namespace Confuse

/-- The entry is a positive one of the inode. -/
def PathCacheEntry.isOf (i : INodeNo) : PathCacheEntry → Bool
  | .positive e => e.ino = i
  | .negative _ => false

namespace PathResolver

/-- The attributes of an inode that are valid at an instant, with the end of their validity. -/
def liveAttr (r : PathResolver) (now : Instant) (i : INodeNo) : Option (FileAttr × Instant) :=
  (r.inodes.lookup i).bind fun state =>
    (state.attrExpires.filter fun expires => now < expires).map fun expires => (state.attr, expires)

theorem cachedAttr_answer (now : Instant) (r : PathResolver) (i : INodeNo) :
    (r.cachedAttr now i).1 = (r.liveAttr now i).map Prod.fst := by
  unfold cachedAttr liveAttr
  cases r.inodes.lookup i with
  | none => rfl
  | some state =>
      cases hexpires : state.attrExpires with
      | none => simp [hexpires]
      | some expires =>
          by_cases hlive : now < expires
          · simp [hexpires, hlive, Option.filter]
          · simp [hexpires, hlive, Option.filter]

/-! ## Steps that keep the attributes of an inode -/

/-- From `now` on `r'` serves the attributes of `i` that `r` serves. -/
def SameAttr (now : Instant) (i : INodeNo) (r r' : PathResolver) : Prop :=
  ∀ t, now ≤ t → r'.liveAttr t i = r.liveAttr t i

section SameAttr
variable {now : Instant} {i : INodeNo} {r r' : PathResolver}

theorem SameAttr.refl (now : Instant) (i : INodeNo) (r : PathResolver) : SameAttr now i r r :=
  fun _ _ => rfl

theorem SameAttr.trans {r'' : PathResolver} (h : SameAttr now i r r') (h' : SameAttr now i r' r'') :
    SameAttr now i r r'' := fun t ht => (h' t ht).trans (h t ht)

theorem sameAttr_of_inodes (h : r'.inodes = r.inodes) : SameAttr now i r r' := by
  intro t ht
  rw [liveAttr, liveAttr, h]

theorem SameAttr.foldl {ι : Type} {f : PathResolver → ι → PathResolver}
    (hf : ∀ r e, SameAttr now i r (f r e)) (l : List ι) (r : PathResolver) :
    SameAttr now i r (l.foldl f r) := by
  induction l generalizing r with
  | nil => exact .refl now i r
  | cons e l ih => exact (hf r e).trans (ih (f r e))

/-- A record that is dropped has no valid attributes any more. -/
theorem retainLiveInodes_sameAttr (now : Instant) (i : INodeNo) (r : PathResolver) :
    SameAttr now i r (r.retainLiveInodes now) := by
  intro t ht
  unfold liveAttr retainLiveInodes
  rw [KeyedMap.lookup_retain]
  cases hi : r.inodes.lookup i with
  | none => rfl
  | some state =>
      by_cases hlive : state.live now = true
      · simp [Option.filter, hlive]
      · cases hexpires : state.attrExpires with
        | none => simp [Option.filter, hlive, hexpires]
        | some expires =>
            have hpast : ¬ now < expires := fun h => hlive (by simp [InodeState.live, hexpires, h])
            have hlater : ¬ t < expires := fun h => hpast (lt_of_le_of_lt ht h)
            simp [Option.filter, hlive, hexpires, hlater]

/-- Replacing a record by one with the same attributes and the same expiry. -/
theorem sameAttr_of_insert {j : INodeNo} {state state' : InodeState}
    (hinodes : r'.inodes = r.inodes.insert j state') (hlookup : r.inodes.lookup j = some state)
    (hattr : state'.attr = state.attr) (hexpires : state'.attrExpires = state.attrExpires) :
    SameAttr now i r r' := by
  intro t ht
  unfold liveAttr
  rw [hinodes]
  by_cases hij : i = j
  · rw [hij, AList.lookup_insert, hlookup, Option.bind_some, Option.bind_some, hattr, hexpires]
  · rw [AList.lookup_insert_ne hij]

theorem releaseLookup_sameAttr (r : PathResolver) (e : INodeNo × ℕ) :
    SameAttr now i r (r.releaseLookup e) := by
  unfold releaseLookup
  cases hlookup : r.inodes.lookup e.1 with
  | none => exact .refl now i r
  | some state => exact sameAttr_of_insert rfl hlookup rfl rfl

theorem releaseOutstanding_sameAttr (now : Instant) (i : INodeNo) (r : PathResolver)
    (outstanding : Forgets) : SameAttr now i r (r.releaseOutstanding now outstanding) :=
  (SameAttr.foldl releaseLookup_sameAttr outstanding r).trans (retainLiveInodes_sameAttr now i _)

theorem dropPath_sameAttr (now : Instant) (i : INodeNo) (r : PathResolver) (key : Str) :
    SameAttr now i r (r.dropPath now key) := by
  unfold dropPath
  rcases r.paths.lookup key with _ | ⟨e⟩ | ⟨e⟩
  · exact sameAttr_of_inodes rfl
  · exact (sameAttr_of_inodes rfl).trans (releaseOutstanding_sameAttr now i _ e.outstanding)
  · exact sameAttr_of_inodes rfl

theorem cached_sameAttr (cf : CaseFold) (now : Instant) (i : INodeNo) (r : PathResolver)
    (path : OsStr) (parent : INodeNo) (parentGeneration : Generation) :
    SameAttr now i r (r.cached cf now path parent parentGeneration).2 := by
  unfold cached
  dsimp only
  by_cases hroot : normalizePath cf path = ['\\']
  · rw [if_pos hroot]
    exact .refl now i r
  rw [if_neg hroot]
  rcases r.paths.lookup (normalizePath cf path) with _ | ⟨e⟩ | ⟨e⟩
  · exact .refl now i r
  · dsimp only
    split_ifs
    · exact dropPath_sameAttr now i r _
    · exact .refl now i r
    · exact .refl now i r
    · exact dropPath_sameAttr now i r _
  · dsimp only
    split_ifs
    · exact .refl now i r
    · exact sameAttr_of_inodes rfl

theorem takeReusableOutstanding_sameAttr (now : Instant) (i : INodeNo) (r : PathResolver) (key : Str)
    (ino : INodeNo) (ttl : Duration) :
    SameAttr now i r (r.takeReusableOutstanding now key ino ttl).2 := by
  unfold takeReusableOutstanding
  rcases r.paths.lookup key with _ | ⟨e⟩ | ⟨e⟩
  · exact sameAttr_of_inodes rfl
  · dsimp only
    split_ifs
    · exact sameAttr_of_inodes rfl
    · exact (sameAttr_of_inodes rfl).trans (releaseOutstanding_sameAttr now i _ e.outstanding)
  · exact sameAttr_of_inodes rfl

/-- A lookup takes over the attributes only where there are none. -/
theorem rememberPositiveInode_sameAttr (r : PathResolver) (record : PositivePathRecord) :
    SameAttr now i r (r.rememberPositiveInode record) := by
  intro t ht
  unfold liveAttr rememberPositiveInode
  by_cases hi : i = record.attr.ino
  · rw [hi, AList.lookup_insert]
    cases hlookup : r.inodes.lookup record.attr.ino with
    | none => rfl
    | some state =>
        cases hexpires : state.attrExpires with
        | none => simp [hexpires]
        | some expires => simp [hexpires]
  · rw [AList.lookup_insert_ne hi]

theorem rememberPositive_sameAttr (cf : CaseFold) (now : Instant) (i : INodeNo) (r : PathResolver)
    (record : PositivePathRecord) : SameAttr now i r (r.rememberPositive cf now record).2 := by
  have htaken := takeReusableOutstanding_sameAttr now i r (normalizePath cf record.path)
    record.attr.ino record.ttl
  unfold rememberPositive
  dsimp only
  split_ifs
  · exact (htaken.trans (sameAttr_of_inodes rfl)).trans (rememberPositiveInode_sameAttr _ record)
  · have hreleased := htaken.trans (releaseOutstanding_sameAttr now i _
      (r.takeReusableOutstanding now (normalizePath cf record.path) record.attr.ino record.ttl).1)
    exact (hreleased.trans (sameAttr_of_inodes rfl)).trans (retainLiveInodes_sameAttr now i _)

end SameAttr

/-! ## Steps that end the attributes of an inode -/

/-- From `now` on `r'` serves no attributes of `i` if `c` holds, and those that `r` serves if not. -/
structure EndsAttr (now : Instant) (i : INodeNo) (c : Prop) (r r' : PathResolver) : Prop where
  ended : c → ∀ t, now ≤ t → r'.liveAttr t i = none
  kept : ¬ c → SameAttr now i r r'

namespace EndsAttr
variable {now : Instant} {i : INodeNo} {c d : Prop} {r r' r'' : PathResolver}

theorem of_sameAttr (h : SameAttr now i r r') (hc : ¬ c) : EndsAttr now i c r r' :=
  ⟨fun h => absurd h hc, fun _ => h⟩

theorem trans (h : EndsAttr now i c r r') (h' : EndsAttr now i d r' r'') :
    EndsAttr now i (c ∨ d) r r'' := by
  constructor
  · intro hcd t ht
    by_cases hd : d
    · exact h'.ended hd t ht
    · rw [h'.kept hd t ht]
      exact h.ended (hcd.resolve_right hd) t ht
  · intro hcd
    exact (h.kept fun hc => hcd (.inl hc)).trans (h'.kept fun hd => hcd (.inr hd))

theorem trans_same (h : EndsAttr now i c r r') (h' : SameAttr now i r' r'') :
    EndsAttr now i c r r'' := by
  constructor
  · intro hc t ht
    rw [h' t ht]
    exact h.ended hc t ht
  · exact fun hc => (h.kept hc).trans h'

theorem same_trans (h : SameAttr now i r r') (h' : EndsAttr now i c r' r'') :
    EndsAttr now i c r r'' :=
  ⟨h'.ended, fun hc => h.trans (h'.kept hc)⟩

theorem congr (h : EndsAttr now i c r r') (hcd : c ↔ d) : EndsAttr now i d r r' :=
  ⟨fun hd => h.ended (hcd.mpr hd), fun hd => h.kept fun hc => hd (hcd.mp hc)⟩

end EndsAttr

section EndsAttr
variable {now : Instant} {i : INodeNo}

theorem clearAttrExpires_endsAttr (now : Instant) (r : PathResolver) (ino : INodeNo) :
    EndsAttr now i (ino = i) r (r.clearAttrExpires ino) := by
  constructor
  · rintro rfl t -
    unfold liveAttr clearAttrExpires
    rw [KeyedMap.lookup_modify, if_pos rfl]
    cases r.inodes.lookup ino <;> rfl
  · intro hi t _
    unfold liveAttr clearAttrExpires
    rw [KeyedMap.lookup_modify, if_neg (Ne.symm hi)]

theorem invalidateInodeAttr_endsAttr (r : PathResolver) (ino : INodeNo) :
    EndsAttr now i (ino = i) r (r.invalidateInodeAttr now ino) :=
  (clearAttrExpires_endsAttr now r ino).trans_same (retainLiveInodes_sameAttr now i _)

/-- The table has a positive entry of the inode at the key. -/
def EntryOf (r : PathResolver) (i : INodeNo) (key : Str) : Prop :=
  ∃ e, r.paths.lookup key = some (.positive e) ∧ e.ino = i

theorem purgePath_endsAttr (now : Instant) (i : INodeNo) {r : PathResolver} (hr : r.Shaped)
    (key : Str) :
    EndsAttr now i (r.EntryOf i key) r (r.purgePath now key) := by
  unfold purgePath EntryOf
  rcases hl : r.paths.lookup key with _ | ⟨e⟩ | ⟨e⟩
  · exact .of_sameAttr (sameAttr_of_inodes rfl) (by simp)
  · obtain ⟨n, -, hout⟩ := hr.entry key e hl
    have hcleared : EndsAttr now i (e.ino = i) r
        ((r.removePath key).invalidatePositiveOutstanding now e.outstanding) := by
      unfold invalidatePositiveOutstanding
      rw [hout]
      exact .same_trans (sameAttr_of_inodes rfl) ((clearAttrExpires_endsAttr now _ e.ino).trans_same
        (releaseOutstanding_sameAttr now i _ _))
    exact hcleared.congr (by simp)
  · exact .of_sameAttr (sameAttr_of_inodes rfl) (by simp)

theorem foldl_purgePath_endsAttr (now : Instant) (i : INodeNo) {r : PathResolver} (hr : r.Shaped)
    (keys : List Str) :
    EndsAttr now i (∃ key ∈ keys, r.EntryOf i key) r (keys.foldl (purgePath now) r) := by
  induction keys generalizing r with
  | nil => exact .of_sameAttr (.refl now i r) (by simp)
  | cons key keys ih =>
      have hrest := ih (hr.purgePath now key)
      refine ((purgePath_endsAttr now i hr key).trans hrest).congr ?_
      -- an entry that is still there after the first key was purged was there before
      have hlater : ∀ key', (r.purgePath now key).EntryOf i key' ↔ key' ≠ key ∧ r.EntryOf i key' := by
        intro key'
        unfold EntryOf
        rw [purgePath_paths]
        by_cases hkey : key' = key
        · rw [hkey, AList.lookup_erase]
          simp
        · rw [AList.lookup_erase_ne hkey]
          simp [hkey]
      simp only [hlater, List.mem_cons]
      constructor
      · rintro (h | ⟨key', hmem, -, h⟩)
        · exact ⟨key, .inl rfl, h⟩
        · exact ⟨key', .inr hmem, h⟩
      · rintro ⟨key', hmem, h⟩
        by_cases hkey : key' = key
        · exact .inl (hkey ▸ h)
        · exact .inr ⟨key', hmem.resolve_left hkey, hkey, h⟩

/-- Some positive entry of the inode is designated. -/
def HasEntryOf (r : PathResolver) (i : INodeNo) (hits : Str → PathCacheEntry → Bool) : Prop :=
  ∃ key e, r.paths.lookup key = some (.positive e) ∧ e.ino = i ∧ hits key (.positive e) = true

theorem invalidateMatching_endsAttr {r : PathResolver} (hr : r.Shaped)
    (hits : Str → PathCacheEntry → Bool) :
    EndsAttr now i (r.HasEntryOf i hits) r (r.invalidateMatching now hits).2 := by
  have hpurged := foldl_purgePath_endsAttr now i hr (r.paths.keysWhere hits)
  have hdrained : EndsAttr now i _ r (r.invalidateMatching now hits).2 := hpurged.trans_same
    ((sameAttr_of_inodes rfl).trans (retainLiveInodes_sameAttr now i _))
  refine hdrained.congr ?_
  constructor
  · rintro ⟨key, hmem, e, he, hi⟩
    obtain ⟨v, hv, hhit⟩ := KeyedMap.mem_keysWhere.mp hmem
    obtain rfl : PathCacheEntry.positive e = v := Option.some.inj (he.symm.trans hv)
    exact ⟨key, e, he, hi, hhit⟩
  · rintro ⟨key, e, he, hi, hhit⟩
    exact ⟨key, KeyedMap.mem_keysWhere.mpr ⟨_, he, hhit⟩, e, he, hi⟩

theorem rememberNegative_endsAttr (cf : CaseFold) {r : PathResolver} (hr : r.Shaped) (path : OsStr)
    (parent : INodeNo) (parentGeneration : Generation) (name : OsStr) :
    EndsAttr now i (r.EntryOf i (normalizePath cf path)) r
      (r.rememberNegative cf now path parent parentGeneration name) := by
  have hpurged := purgePath_endsAttr now i hr (normalizePath cf path)
  unfold rememberNegative
  dsimp only
  cases (r.purgePath now (normalizePath cf path)).negativeTtl with
  | none => exact hpurged
  | some ttl => exact hpurged.trans_same (sameAttr_of_inodes rfl)

/-- Expired attributes are cleared, which takes nothing that was still served. -/
theorem cachedAttr_sameAttr (r : PathResolver) (ino : INodeNo) :
    SameAttr now i r (r.cachedAttr now ino).2 := by
  unfold cachedAttr
  cases hlookup : r.inodes.lookup ino with
  | none => exact .refl now i r
  | some state =>
      dsimp only
      split_ifs with hlive
      · exact .refl now i r
      · refine SameAttr.trans ?_ (retainLiveInodes_sameAttr now i _)
        by_cases hi : ino = i
        · intro t ht
          rw [(clearAttrExpires_endsAttr now r ino).ended hi t ht, liveAttr, ← hi, hlookup]
          cases hexpires : state.attrExpires with
          | none => simp [hexpires]
          | some expires =>
              have hpast : ¬ now < expires := by simpa [hexpires] using hlive
              have hlater : ¬ t < expires := fun h => hpast (lt_of_le_of_lt ht h)
              simp [hexpires, hlater, Option.filter]
        · exact (clearAttrExpires_endsAttr now r ino).kept hi

/-- What `remember_attr` leaves for its inode and for the others. -/
theorem rememberAttr_liveAttr (r : PathResolver) (ino : INodeNo) (attr : FileAttr) (ttl : Duration)
    (t : Instant) :
    (r.rememberAttr now ino attr ttl).liveAttr t i
      = if ino = i then
          if ttl.isZero = false ∧ t < now + ttl.nanos then some (attr, now + ttl.nanos) else none
        else r.liveAttr t i := by
  unfold rememberAttr
  by_cases hzero : ttl.isZero = true
  · rw [if_pos hzero]
    by_cases hi : ino = i
    · rw [if_pos hi, (clearAttrExpires_endsAttr t r ino).ended hi t le_rfl]
      simp [hzero]
    · rw [if_neg hi]
      exact (clearAttrExpires_endsAttr t r ino).kept hi t le_rfl
  · rw [if_neg hzero]
    unfold liveAttr
    dsimp only
    by_cases hi : ino = i
    · rw [if_pos hi, hi, AList.lookup_insert]
      by_cases hlive : t < now + ttl.nanos
      · cases r.inodes.lookup i <;> simp [hzero, hlive, Option.filter]
      · cases r.inodes.lookup i <;> simp [hlive, Option.filter]
    · rw [if_neg hi, AList.lookup_insert_ne (Ne.symm hi)]

end EndsAttr

theorem entryOf_iff (r : PathResolver) (i : INodeNo) (key : Str) :
    r.EntryOf i key ↔ (r.paths.lookup key).any (PathCacheEntry.isOf i) = true := by
  unfold EntryOf
  rcases r.paths.lookup key with _ | ⟨e⟩ | ⟨e⟩ <;> simp [PathCacheEntry.isOf]

instance (r : PathResolver) (i : INodeNo) (key : Str) : Decidable (r.EntryOf i key) :=
  decidable_of_iff' _ (entryOf_iff r i key)

theorem hasEntryOf_iff (r : PathResolver) (i : INodeNo) (hits : Str → PathCacheEntry → Bool) :
    r.HasEntryOf i hits
      ↔ (r.paths.keysWhere fun key entry => entry.isOf i && hits key entry) ≠ [] := by
  constructor
  · rintro ⟨key, e, he, hi, hhit⟩
    have hmem : key ∈ r.paths.keysWhere fun key entry => entry.isOf i && hits key entry :=
      KeyedMap.mem_keysWhere.mpr ⟨_, he, by simp [PathCacheEntry.isOf, hi, hhit]⟩
    exact List.ne_nil_of_mem hmem
  · intro hne
    obtain ⟨key, hmem⟩ := List.exists_mem_of_ne_nil _ hne
    obtain ⟨v, hv, hboth⟩ := KeyedMap.mem_keysWhere.mp hmem
    cases v with
    | positive e =>
        obtain ⟨hi, hhit⟩ : e.ino = i ∧ hits key (.positive e) = true := by
          simpa [PathCacheEntry.isOf] using hboth
        exact ⟨key, e, hv, hi, hhit⟩
    | negative e => simp [PathCacheEntry.isOf] at hboth

instance (r : PathResolver) (i : INodeNo) (hits : Str → PathCacheEntry → Bool) :
    Decidable (r.HasEntryOf i hits) :=
  decidable_of_iff' _ (hasEntryOf_iff r i hits)

end PathResolver

namespace History

open PathResolver

/-- No operation is later than the one after it, and none is later than `now`. -/
def Ordered : History → Instant → Prop
  | [], _ => True
  | (t, _) :: before, now => t ≤ now ∧ Ordered before t

/-- The attribute events of an inode: what an operation does to the attributes remembered for it,
with the end of their validity. -/
def attrTouch (cf : CaseFold) (i : INodeNo) (now : Instant) (before : History)
    (w : Option (FileAttr × Instant)) : HistoryOp → Touch (FileAttr × Instant)
  | .op (.table (.rememberAttr ino attr ttl)) =>
      if ino = i then if ttl.isZero then .removes else .writes (attr, now + ttl.nanos) else .leaves
  | .op (.table (.invalidateInodeAttr ino)) => if ino = i then .removes else .leaves
  | .op (.table (.cachedAttr ino)) =>
      if ino = i ∧ (w.any fun w => w.2 ≤ now) = true then .removes else .leaves
  | .op (.table (.rememberNegative path _ _ _)) =>
      if (state cf before).EntryOf i (normalizePath cf path) then .removes else .leaves
  | .op (.drain (.invalidateSubtree path)) =>
      if (state cf before).HasEntryOf i fun key _ => inSubtree (normalizePath cf path) key then
        .removes
      else .leaves
  | .notify (.invalInode ino) => if ino = i then .removes else .leaves
  | .notify (.invalEntry parent name) =>
      if (state cf before).HasEntryOf i fun _ entry => namesChild cf parent name entry then .removes
      else .leaves
  | .notify (.delete parent child name) =>
      if (state cf before).HasEntryOf i (fun _ entry => namesChild cf parent name entry) ∨ child = i
        then .removes
      else .leaves
  | _ => .leaves

theorem Ordered.later {h : History} {t now : Instant} (ho : h.Ordered t) (ht : t ≤ now) :
    h.Ordered now := by
  cases h with
  | nil => trivial
  | cons step before => exact ⟨ho.1.trans ht, ho.2⟩

/-- The resolver serves what the last attribute event left, until its validity ends. -/
theorem state_liveAttr (cf : CaseFold) (i : INodeNo) {h : History} {now : Instant}
    (hordered : h.Ordered now) :
    (state cf h).liveAttr now i = (left (attrTouch cf i) h).filter fun w => now < w.2 := by
  induction h generalizing now with
  | nil => rfl
  | cons step before ih =>
      obtain ⟨t, o⟩ := step
      obtain ⟨ht, hbefore⟩ := hordered
      have hshaped := (reachable_state cf before).shaped
      have hleft := ih (hbefore.later ht)
      rw [left_cons]
      have hsame : ∀ r', SameAttr t i (state cf before) r' →
          r'.liveAttr now i = (left (attrTouch cf i) before).filter fun w => now < w.2 :=
        fun r' h => (h now ht).trans hleft
      have hends : ∀ r' (c : Prop) [Decidable c], EndsAttr t i c (state cf before) r' →
          r'.liveAttr now i = ((if c then (.removes : Touch (FileAttr × Instant)) else .leaves).result
            (left (attrTouch cf i) before)).filter fun w => now < w.2 := by
        intro r' c _ h
        by_cases hc : c
        · rw [if_pos hc, h.ended hc now ht]
          rfl
        · rw [if_neg hc]
          exact hsame r' (h.kept hc)
      have hentry : ∀ parent name, EndsAttr t i _ (state cf before)
          ((state cf before).invalidateEntryFromNotify cf t parent name) := fun parent name =>
        invalidateMatching_endsAttr hshaped fun _ entry => namesChild cf parent name entry
      cases o with
      | op o =>
          cases o with
          | table o =>
              cases o with
              | rememberPositive record => exact hsame _ (rememberPositive_sameAttr cf t i _ record)
              | rememberCreated c => exact hsame _ (rememberPositive_sameAttr cf t i _ _)
              | rememberNegative path parent parentGeneration name =>
                  exact hends _ _ (rememberNegative_endsAttr cf hshaped path _ _ name)
              | cached path parent parentGeneration =>
                  exact hsame _ (cached_sameAttr cf t i _ path parent parentGeneration)
              | cachedAttr ino =>
                  rw [attrTouch]
                  by_cases hevent : ino = i ∧ ((left (attrTouch cf i) before).any fun w => w.2 ≤ t) = true
                  · rw [if_pos hevent]
                    refine (hsame _ (cachedAttr_sameAttr _ ino)).trans ?_
                    cases hw : left (attrTouch cf i) before with
                    | none => rfl
                    | some w =>
                        have hpast : w.2 ≤ t := by simpa [hw] using hevent.2
                        have hover : ¬ now < w.2 := not_lt.mpr (hpast.trans ht)
                        simp [Option.filter, hover, Touch.result]
                  · rw [if_neg hevent]
                    exact hsame _ (cachedAttr_sameAttr _ ino)
              | rememberAttr ino attr ttl =>
                  refine (rememberAttr_liveAttr _ ino attr ttl now).trans ?_
                  rw [attrTouch, hleft]
                  by_cases hi : ino = i
                  · rw [if_pos hi, if_pos hi]
                    by_cases hzero : ttl.isZero = true
                    · simp [hzero, Touch.result]
                    · by_cases hlive : now < t + ttl.nanos <;>
                        simp [hzero, hlive, Touch.result, Option.filter]
                  · rw [if_neg hi, if_neg hi]
                    rfl
              | invalidateInodeAttr ino => exact hends _ _ (invalidateInodeAttr_endsAttr _ ino)
          | drain o =>
              cases o with
              | takePendingForgets => exact hsame _ (sameAttr_of_inodes rfl)
              | reapExpired =>
                  exact hsame _ ((SameAttr.foldl (dropPath_sameAttr t i) _ _).trans
                    (sameAttr_of_inodes rfl))
              | invalidateSubtree path => exact hends _ _ (invalidateMatching_endsAttr hshaped _)
      | notify n =>
          cases n with
          | invalInode ino => exact hends _ _ (invalidateInodeAttr_endsAttr _ ino)
          | invalEntry parent name => exact hends _ _ (hentry parent name)
          | delete parent child name =>
              exact hends _ _ ((hentry parent name).trans (invalidateInodeAttr_endsAttr _ child))
      | setNegativeTtl ttl => exact hsame _ (sameAttr_of_inodes rfl)

/-- Only `remember_attr` writes. -/
theorem attrTouch_writes {cf : CaseFold} {i : INodeNo} {now : Instant} {before : History}
    {w : Option (FileAttr × Instant)} {o : HistoryOp} {u : FileAttr × Instant}
    (h : attrTouch cf i now before w o = .writes u) :
    ∃ attr ttl, o = .op (.table (.rememberAttr i attr ttl)) ∧ ttl.isZero = false ∧
      u = (attr, now + ttl.nanos) := by
  unfold attrTouch at h
  split at h
  · rename_i ino attr ttl
    split_ifs at h with hi hzero
    exact ⟨attr, ttl, by rw [hi], by simpa using hzero, (Touch.writes.inj h).symm⟩
  · split_ifs at h
  · split_ifs at h
  · split_ifs at h
  · split_ifs at h
  · split_ifs at h
  · split_ifs at h
  · split_ifs at h
  · cases h

/-- Sections that record lookups, serve them or give references back. -/
def recordsOrReleases : HistoryOp → Bool
  | .op (.table (.rememberPositive _)) => true
  | .op (.table (.rememberCreated _)) => true
  | .op (.table (.cached _ _ _)) => true
  | .op (.drain .takePendingForgets) => true
  | .op (.drain .reapExpired) => true
  | _ => false

theorem attrTouch_of_recordsOrReleases {o : HistoryOp} (ho : recordsOrReleases o = true)
    (cf : CaseFold) (i : INodeNo) (now : Instant) (before : History)
    (w : Option (FileAttr × Instant)) : attrTouch cf i now before w o = .leaves := by
  unfold recordsOrReleases at ho
  split at ho
  · rfl
  · rfl
  · rfl
  · rfl
  · rfl
  · cases ho

/-- What is served is what the last attribute event remembered. -/
theorem cachedAttr_iff_remembered (cf : CaseFold) (i : INodeNo) {h : History} {now : Instant}
    (hordered : h.Ordered now) (attr : FileAttr) :
    ((state cf h).cachedAttr now i).1 = some attr ↔
      ∃ recorded ttl before,
        lastTouch (attrTouch cf i) h = (recorded, .op (.table (.rememberAttr i attr ttl))) :: before ∧
        ttl.isZero = false ∧ now < recorded + ttl.nanos := by
  rw [cachedAttr_answer, state_liveAttr cf i hordered]
  rcases left_lastTouch (attrTouch cf i) h with
    ⟨hlast, hnone⟩ | ⟨recorded, o, before, hlast, htouch, hleft⟩
  · simp [hlast, hnone]
  rw [hleft]
  constructor
  · intro hserved
    obtain ⟨u, hu, hattr⟩ := Option.map_eq_some_iff.mp hserved
    obtain ⟨hu, hlive⟩ := Option.filter_eq_some_iff.mp hu
    obtain ⟨attr', ttl, rfl, hzero, rfl⟩ := attrTouch_writes (Touch.result_none hu)
    obtain rfl : attr' = attr := hattr
    exact ⟨recorded, ttl, before, hlast, hzero, by simpa using hlive⟩
  · rintro ⟨recorded', ttl, before', hlast', hzero, hlive⟩
    obtain ⟨⟨rfl, rfl⟩, rfl⟩ : (recorded = recorded' ∧ o = _) ∧ before = before' := by
      simpa [hlast] using hlast'
    have hwrites : attrTouch cf i recorded before (left (attrTouch cf i) before)
        (.op (.table (.rememberAttr i attr ttl))) = .writes (attr, recorded + ttl.nanos) := by
      rw [attrTouch, if_pos rfl, hzero]
      rfl
    rw [hwrites]
    simp [Touch.result, Option.filter, hlive]

/-- Lookups and releases of references change nothing. -/
theorem cachedAttr_kept (cf : CaseFold) (i : INodeNo) {h : History} {now : Instant}
    (hordered : h.Ordered now) {o : HistoryOp} (ho : recordsOrReleases o = true) {later : Instant}
    (hlater : now ≤ later) :
    ((o.apply cf now (state cf h)).cachedAttr later i).1 = ((state cf h).cachedAttr later i).1 := by
  have hbefore := state_liveAttr cf i (hordered.later hlater)
  have hafter := state_liveAttr (h := (now, o) :: h) cf i ⟨hlater, hordered⟩
  rw [left_cons, attrTouch_of_recordsOrReleases ho] at hafter
  rw [cachedAttr_answer, cachedAttr_answer, hbefore]
  exact congrArg (Option.map Prod.fst) hafter

/-- The attribute cache is sound and complete for a history without a panic, which is a history whose
expiries are instants. -/
theorem cachedAttr_iff_history (cf : CaseFold) (i : INodeNo) (h : History) (now : Instant)
    (hordered : h.Ordered now) :
    (∃ r, stateOrPanic cf h = .ok r ∧
      (∀ attr, (r.cachedAttr now i).1 = some attr ↔
        ∃ recorded ttl before,
          lastTouch (attrTouch cf i) h = (recorded, .op (.table (.rememberAttr i attr ttl))) :: before ∧
          ttl.isZero = false ∧ now < recorded + ttl.nanos) ∧
      ∀ o r', recordsOrReleases o = true → o.applyOrPanic cf now r = .ok r' →
        ∀ later, now ≤ later → (r'.cachedAttr later i).1 = (r.cachedAttr later i).1) ↔ h.Lasting := by
  constructor
  · rintro ⟨r, hr, -⟩
    exact (stateOrPanic_eq_ok_iff.mp hr).1
  · intro hlasting
    refine ⟨state cf h, stateOrPanic_lasting cf hlasting, cachedAttr_iff_remembered cf i hordered, ?_⟩
    intro o r' ho hr' later hlater
    obtain rfl : o.apply cf now (state cf h) = r' := HistoryOp.applyOrPanic_eq_ok hr'
    exact cachedAttr_kept cf i hordered ho hlater

/-- Attributes of inode 5 remembered for a time. -/
def attrOfFive (ttl : Duration) : History :=
  [(1, .op (.table (.rememberAttr ⟨5⟩ (.plain ⟨5⟩ .regularFile) ttl)))]

theorem cachedAttr_iff_history_attrOfFive :
    (∃ r, stateOrPanic CharFold.ascii.toCaseFold (attrOfFive (.fromNanos 10)) = .ok r ∧
      (∀ attr, (r.cachedAttr 5 ⟨5⟩).1 = some attr ↔
        ∃ recorded ttl before,
          lastTouch (attrTouch CharFold.ascii.toCaseFold ⟨5⟩) (attrOfFive (.fromNanos 10))
            = (recorded, .op (.table (.rememberAttr ⟨5⟩ attr ttl))) :: before ∧
          ttl.isZero = false ∧ 5 < recorded + ttl.nanos) ∧
      ∀ o r', recordsOrReleases o = true → o.applyOrPanic CharFold.ascii.toCaseFold 5 r = .ok r' →
        ∀ later, 5 ≤ later → (r'.cachedAttr later ⟨5⟩).1 = (r.cachedAttr later ⟨5⟩).1) ↔
      (attrOfFive (.fromNanos 10)).Lasting :=
  cachedAttr_iff_history CharFold.ascii.toCaseFold ⟨5⟩ (attrOfFive (.fromNanos 10)) 5
    ⟨by decide, trivial⟩

/-- Attributes that are valid forever are the last that the history remembers, and the section that
remembers them panics. -/
theorem attr_valid_forever_panics :
    stateOrPanic CharFold.ascii.toCaseFold (attrOfFive forever) = .error default ∧
      lastTouch (attrTouch CharFold.ascii.toCaseFold ⟨5⟩) (attrOfFive forever) = attrOfFive forever ∧
      forever.isZero = false ∧ 5 < 1 + forever.nanos ∧
      ¬ ∀ (cf : CaseFold) (i : INodeNo) (h : History) (now : Instant), h.Ordered now →
        ∃ r, stateOrPanic cf h = .ok r ∧ ∀ attr, (r.cachedAttr now i).1 = some attr ↔
          ∃ recorded ttl before,
            lastTouch (attrTouch cf i) h
              = (recorded, .op (.table (.rememberAttr i attr ttl))) :: before ∧
            ttl.isZero = false ∧ now < recorded + ttl.nanos := by
  have hpanics : stateOrPanic CharFold.ascii.toCaseFold (attrOfFive forever) = .error default := by
    rfl
  refine ⟨hpanics, rfl, rfl, by decide, fun hall => ?_⟩
  obtain ⟨r, hr, -⟩ := hall CharFold.ascii.toCaseFold ⟨5⟩ (attrOfFive forever) 5 ⟨by decide, trivial⟩
  cases hpanics.symm.trans hr

end History
end Confuse
