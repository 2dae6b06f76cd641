import Confuse.KeyedMap
import Mathlib.Data.Multiset.AddSub
import Mathlib.Data.Multiset.Count
import Mathlib.Data.Multiset.UnionInter

/-!
# The values of a keyed map

The values of a map, each as often as keys lead to it, and its keys. No two keys lead to the same
value when no value occurs twice.
-/

namespace KeyedMap
variable {κ ν : Type} [DecidableEq κ]

def values (m : KeyedMap κ ν) : Multiset ν := (m.entries.map Sigma.snd : List ν)

omit [DecidableEq κ] in
@[simp] theorem values_empty : (∅ : KeyedMap κ ν).values = 0 := rfl

theorem mem_values {m : KeyedMap κ ν} {v : ν} : v ∈ m.values ↔ ∃ k, m.lookup k = some v := by
  constructor
  · intro hv
    obtain ⟨⟨k, w⟩, hmem, rfl⟩ := List.mem_map.mp (Multiset.mem_coe.mp hv)
    exact ⟨k, AList.mem_lookup_iff.mpr hmem⟩
  · rintro ⟨k, hk⟩
    exact Multiset.mem_coe.mpr (List.mem_map.mpr ⟨⟨k, v⟩, AList.mem_lookup_iff.mp hk, rfl⟩)

theorem values_insert (k : κ) (v : ν) (m : KeyedMap κ ν) :
    values (m.insert k v) = v ::ₘ values (m.erase k) := rfl

/-- Removing a key takes one occurrence of its value away. -/
theorem values_erase {k : κ} {v : ν} {m : KeyedMap κ ν} (hk : m.lookup k = some v) :
    m.values = v ::ₘ values (m.erase k) := by
  obtain ⟨entries, hnd⟩ := m
  change ((entries.map Sigma.snd : List ν) : Multiset ν)
    = ((v :: (entries.kerase k).map Sigma.snd : List ν) : Multiset ν)
  refine Multiset.coe_eq_coe.mpr ?_
  induction entries with
  | nil => cases hk
  | cons e rest ih =>
      obtain ⟨k', w⟩ := e
      by_cases hkey : k = k'
      · subst k'
        have hl : (⟨k, w⟩ :: rest : List ((_ : κ) × ν)).dlookup k = some w := List.dlookup_cons_eq ..
        obtain rfl : w = v := Option.some.inj (hl.symm.trans hk)
        have he : List.kerase k ((⟨k, w⟩ : (_ : κ) × ν) :: rest) = rest := List.kerase_cons_eq rfl
        rw [he]
        exact List.Perm.refl _
      · have hl := List.dlookup_cons_ne (β := fun _ : κ => ν) rest ⟨k', w⟩ hkey
        have hrest := ih (List.nodupKeys_of_nodupKeys_cons hnd) (hl.symm.trans hk)
        have he := List.kerase_cons_ne (s := (⟨k', w⟩ : (_ : κ) × ν)) (l := rest) hkey
        rw [he]
        exact (List.Perm.cons w hrest).trans (List.Perm.swap ..)

theorem erase_of_lookup_eq_none {k : κ} {m : KeyedMap κ ν} (hk : m.lookup k = none) :
    m.erase k = m := by
  refine AList.ext (List.kerase_of_notMem_keys ?_)
  exact fun hmem => AList.lookup_eq_none.mp hk hmem

/-- With an absent key, inserting adds its value. -/
theorem values_insert_of_lookup_eq_none {k : κ} (v : ν) {m : KeyedMap κ ν} (hk : m.lookup k = none) :
    values (m.insert k v) = v ::ₘ m.values := by
  rw [values_insert, erase_of_lookup_eq_none hk]

/-- Removing keys leaves no value that was not there. -/
theorem values_erase_le (k : κ) (m : KeyedMap κ ν) : values (m.erase k) ≤ m.values := by
  cases hk : m.lookup k with
  | none => rw [erase_of_lookup_eq_none hk]
  | some v =>
      rw [values_erase hk]
      exact Multiset.le_cons_self _ _

/-- Where no value occurs twice, a value has one key. -/
theorem eq_of_nodup_values {m : KeyedMap κ ν} (h : m.values.Nodup) {k k' : κ} {v : ν}
    (hk : m.lookup k = some v) (hk' : m.lookup k' = some v) : k = k' := by
  by_contra hne
  rw [values_erase hk, Multiset.nodup_cons] at h
  refine h.1 (mem_values.mpr ⟨k', ?_⟩)
  rwa [AList.lookup_erase_ne (Ne.symm hne)]

/-! ## Keys -/

def keySet (m : KeyedMap κ ν) : Multiset κ := (m.keys : List κ)

omit [DecidableEq κ] in
theorem nodup_keySet (m : KeyedMap κ ν) : m.keySet.Nodup := Multiset.coe_nodup.mpr m.keys_nodup

theorem mem_keySet {m : KeyedMap κ ν} {k : κ} : k ∈ m.keySet ↔ (m.lookup k).isSome :=
  AList.lookup_isSome.symm

theorem keySet_insert {k : κ} (v : ν) {m : KeyedMap κ ν} (hk : m.lookup k = none) :
    keySet (m.insert k v) = k ::ₘ m.keySet := by
  have herase : m.keys.erase k = m.keys := List.erase_of_not_mem (AList.lookup_eq_none.mp hk)
  change ((m.insert k v).keys : Multiset κ) = _
  rw [AList.keys_insert, herase]
  rfl

theorem keySet_erase {k : κ} {m : KeyedMap κ ν} (hk : (m.lookup k).isSome) :
    m.keySet = k ::ₘ keySet (m.erase k) := by
  change (m.keys : Multiset κ) = k ::ₘ ((m.erase k).keys : Multiset κ)
  rw [AList.keys_erase, ← Multiset.coe_erase, Multiset.cons_erase]
  exact AList.lookup_isSome.mp hk

theorem keySet_modify (k : κ) (f : ν → ν) (m : KeyedMap κ ν) : keySet (modify k f m) = m.keySet := by
  refine (Multiset.Nodup.ext (nodup_keySet _) (nodup_keySet m)).mpr fun j => ?_
  rw [mem_keySet, mem_keySet, lookup_modify]
  split_ifs with hj
  · rw [hj, Option.isSome_map]
  · rfl

end KeyedMap
