import Confuse.KeyedMap

/-!
# Giving entries other keys

`rekey f m` moves each entry whose key `k` has an image `f k` to that image. All entries move at once,
so an image may be the old key of another entry. Nothing is lost where no two keys of the map have one
image and no entry that stays is at an image; a partial inverse of `f` then moves everything back.
-/

namespace KeyedMap
variable {κ ν : Type} [DecidableEq κ]

/-- The entries that are moved, at their new keys. -/
def moved (f : κ → Option κ) (m : KeyedMap κ ν) : List (κ × ν) :=
  m.entries.filterMap fun e => (f e.1).map fun next => (next, e.2)

/-- The map without the entries that are moved. -/
def unmoved (f : κ → Option κ) (m : KeyedMap κ ν) : KeyedMap κ ν := m.retain fun k _ => (f k).isNone

def rekey (f : κ → Option κ) (m : KeyedMap κ ν) : KeyedMap κ ν := (m.unmoved f).insertAll (m.moved f)

/-- No two keys of the map have one image. -/
def MovesApart (f : κ → Option κ) (m : KeyedMap κ ν) : Prop :=
  ∀ {k k' next}, m.lookup k ≠ none → m.lookup k' ≠ none → f k = some next → f k' = some next → k = k'

section Rekey
variable {f g : κ → Option κ} {m : KeyedMap κ ν} {k next : κ} {v : ν}

theorem mem_moved :
    (next, v) ∈ m.moved f ↔ ∃ k, m.lookup k = some v ∧ f k = some next := by
  constructor
  · intro hmem
    obtain ⟨e, he, hmap⟩ := List.mem_filterMap.mp hmem
    obtain ⟨next', hnext, heq⟩ := Option.map_eq_some_iff.mp hmap
    cases heq
    exact ⟨e.1, AList.mem_lookup_iff.mpr he, hnext⟩
  · rintro ⟨k, hk, hnext⟩
    refine List.mem_filterMap.mpr ⟨⟨k, v⟩, AList.mem_lookup_iff.mp hk, ?_⟩
    rw [hnext, Option.map_some]

theorem lookup_unmoved :
    (m.unmoved f).lookup k = some v ↔ f k = none ∧ m.lookup k = some v := by
  unfold unmoved
  rw [lookup_retain, Option.filter_eq_some_iff, Option.isNone_iff_eq_none]
  exact and_comm

/-- What is found at a key was moved there, or stayed there and was not overwritten. -/
theorem lookup_rekey (hapart : m.MovesApart f) :
    (m.rekey f).lookup next = some v ↔ (∃ k, m.lookup k = some v ∧ f k = some next) ∨
      (f next = none ∧ m.lookup next = some v ∧ ∀ k, m.lookup k ≠ none → f k ≠ some next) := by
  have hmoved : ∀ {k w}, m.lookup k = some w → f k = some next →
      (m.rekey f).lookup next = some w := by
    intro k w hk hnext
    refine lookup_insertAll (fun w' hw' => ?_) (.inl (mem_moved.mpr ⟨k, hk, hnext⟩))
    obtain ⟨k', hk', hnext'⟩ := mem_moved.mp hw'
    obtain rfl := hapart (by simp [hk]) (by simp [hk']) hnext hnext'
    exact Option.some.inj (hk'.symm.trans hk)
  constructor
  · intro hfound
    rcases mem_of_lookup_insertAll hfound with hmem | hstayed
    · exact .inl (mem_moved.mp hmem)
    · obtain ⟨hnone, hk⟩ := lookup_unmoved.mp hstayed
      by_cases hlanded : ∃ k, m.lookup k ≠ none ∧ f k = some next
      · obtain ⟨k, hheld, hnext⟩ := hlanded
        obtain ⟨w, hw⟩ := Option.ne_none_iff_exists'.mp hheld
        obtain rfl : w = v := Option.some.inj ((hmoved hw hnext).symm.trans hfound)
        exact .inl ⟨k, hw, hnext⟩
      · exact .inr ⟨hnone, hk, fun k hheld hnext => hlanded ⟨k, hheld, hnext⟩⟩
  · rintro (⟨k, hk, hnext⟩ | ⟨hnone, hk, hfree⟩)
    · exact hmoved hk hnext
    · refine lookup_insertAll (fun w hw => ?_) (.inr (lookup_unmoved.mpr ⟨hnone, hk⟩))
      obtain ⟨k', hk', hnext⟩ := mem_moved.mp hw
      exact (hfree k' (by simp [hk']) hnext).elim

/-- An entry that is not moved is still there, or overwritten. -/
theorem lookup_rekey_ne_none (hnone : f k = none) (hk : m.lookup k ≠ none) :
    (m.rekey f).lookup k ≠ none := by
  obtain ⟨v, hv⟩ := Option.ne_none_iff_exists'.mp hk
  apply lookup_insertAll_ne_none
  rw [lookup_unmoved.mpr ⟨hnone, hv⟩]
  exact Option.some_ne_none v

/-- Where nothing is moved to, the map is as it was. -/
theorem lookup_rekey_of_stays (hapart : m.MovesApart f) (hnone : f next = none)
    (hfree : ∀ k, m.lookup k ≠ none → f k ≠ some next) :
    (m.rekey f).lookup next = m.lookup next := by
  ext v
  rw [lookup_rekey hapart]
  constructor
  · rintro (⟨k, hk, hnext⟩ | ⟨-, hk, -⟩)
    · exact (hfree k (by simp [hk]) hnext).elim
    · exact hk
  · exact fun hk => .inr ⟨hnone, hk, hfree⟩

theorem movesApart_of_inverse (hinverse : ∀ k next, f k = some next → g next = some k) :
    m.MovesApart f := by
  intro k k' next _ _ hk hk'
  exact Option.some.inj ((hinverse k next hk).symm.trans (hinverse k' next hk'))

/-- The inverse moves everything back, unless an entry that stayed is moved with the others. -/
theorem lookup_rekey_rekey (hinverse : ∀ k next, f k = some next ↔ g next = some k)
    (hfree : ∀ k, m.lookup k ≠ none → f k = none → g k = none) (k : κ) :
    ((m.rekey f).rekey g).lookup k = m.lookup k := by
  have hthere : m.MovesApart f := movesApart_of_inverse fun k next => (hinverse k next).mp
  have hback : (m.rekey f).MovesApart g :=
    movesApart_of_inverse fun next k => (hinverse k next).mpr
  ext v
  rw [lookup_rekey hback]
  constructor
  · rintro (⟨next, hnext, hk⟩ | ⟨hnone, hk, -⟩)
    · rcases (lookup_rekey hthere).mp hnext with ⟨k', hk', hmoved⟩ | ⟨hstayed, hheld, -⟩
      · have hsame : some k = some k' := hk.symm.trans ((hinverse k' next).mp hmoved)
        rwa [Option.some.inj hsame]
      · rw [hfree next (by simp [hheld]) hstayed] at hk
        cases hk
    · rcases (lookup_rekey hthere).mp hk with ⟨k', -, hmoved⟩ | ⟨-, hheld, -⟩
      · rw [(hinverse k' k).mp hmoved] at hnone
        cases hnone
      · exact hheld
  · intro hk
    cases hf : f k with
    | some next => exact .inl ⟨next, (lookup_rekey hthere).mpr (.inl ⟨k, hk, hf⟩), (hinverse k next).mp hf⟩
    | none =>
        have hnone : g k = none := hfree k (by simp [hk]) hf
        have hunlanded : ∀ k', f k' ≠ some k := by
          intro k' hmoved
          rw [(hinverse k' k).mp hmoved] at hnone
          cases hnone
        refine .inr ⟨hnone, (lookup_rekey hthere).mpr (.inr ⟨hf, hk, fun k' _ => hunlanded k'⟩), ?_⟩
        intro next _ hmoved
        rw [(hinverse k next).mpr hmoved] at hf
        cases hf

end Rekey
end KeyedMap
