import Mathlib.Data.List.AList
import Mathlib.Algebra.BigOperators.Group.List.Basic
import Mathlib.Algebra.GroupWithZero.Nat

/-!
# Keyed maps and tallies

A hash map is an association list without duplicate keys: the order of its entries stands for the
iteration order of the table, and nothing below depends on it. `total` sums a weight over all
entries; `tally` sums the amounts that a list of keyed amounts holds for one key.
-/

/-- Association lists without duplicate keys, at a constant value type. -/
abbrev KeyedMap (κ ν : Type) := AList (fun _ : κ => ν)

namespace KeyedMap
variable {κ ν : Type} [DecidableEq κ]

/-- Change the value at a key; an absent key stays absent. -/
def modify (k : κ) (f : ν → ν) (m : KeyedMap κ ν) : KeyedMap κ ν :=
  match m.lookup k with
  | some v => m.insert k (f v)
  | none => m

omit [DecidableEq κ] in
theorem nodupKeys_filter (p : κ → ν → Bool) (m : KeyedMap κ ν) :
    (m.entries.filter fun e => p e.1 e.2).NodupKeys :=
  List.NodupKeys.sublist List.filter_sublist m.nodupKeys

/-- Keep the entries that satisfy `p`. -/
def retain (p : κ → ν → Bool) (m : KeyedMap κ ν) : KeyedMap κ ν :=
  ⟨m.entries.filter fun e => p e.1 e.2, nodupKeys_filter p m⟩

/-- The keys whose entries satisfy `p`, in iteration order. -/
def keysWhere (p : κ → ν → Bool) (m : KeyedMap κ ν) : List κ :=
  (m.entries.filter fun e => p e.1 e.2).map Sigma.fst

/-- The sum of a weight over all entries. -/
def total (f : κ → ν → ℕ) (m : KeyedMap κ ν) : ℕ := (m.entries.map fun e => f e.1 e.2).sum

theorem lookup_modify (k j : κ) (f : ν → ν) (m : KeyedMap κ ν) :
    (modify k f m).lookup j = if j = k then (m.lookup k).map f else m.lookup j := by
  unfold modify
  by_cases hj : j = k
  · subst j
    cases hk : m.lookup k with
    | none => simp [hk]
    | some v => simp [AList.lookup_insert]
  · cases hk : m.lookup k with
    | none => simp [hj]
    | some v => simp [hj, AList.lookup_insert_ne hj]

theorem lookup_retain (p : κ → ν → Bool) (m : KeyedMap κ ν) (k : κ) :
    (retain p m).lookup k = (m.lookup k).filter (p k) := by
  ext v
  constructor
  · intro hv
    have hmem := AList.mem_lookup_iff.mp hv
    obtain ⟨hin, hp⟩ := List.mem_filter.mp hmem
    have hk : m.lookup k = some v := AList.mem_lookup_iff.mpr hin
    simp only [hk, Option.filter_some, hp, if_true]
  · intro hv
    obtain ⟨hk, hp⟩ := Option.mem_filter_iff.mp hv
    exact AList.mem_lookup_iff.mpr (List.mem_filter.mpr ⟨AList.mem_lookup_iff.mp hk, hp⟩)

omit [DecidableEq κ] in
theorem mem_keysWhere {p : κ → ν → Bool} {m : KeyedMap κ ν} [DecidableEq κ] {k : κ} :
    k ∈ keysWhere p m ↔ ∃ v, m.lookup k = some v ∧ p k v = true := by
  constructor
  · intro hk
    obtain ⟨⟨k', v⟩, hmem, rfl⟩ := List.mem_map.mp hk
    obtain ⟨hin, hp⟩ := List.mem_filter.mp hmem
    exact ⟨v, AList.mem_lookup_iff.mpr hin, hp⟩
  · rintro ⟨v, hv, hp⟩
    exact List.mem_map.mpr
      ⟨⟨k, v⟩, List.mem_filter.mpr ⟨AList.mem_lookup_iff.mp hv, hp⟩, rfl⟩

omit [DecidableEq κ] in
@[simp] theorem total_empty (f : κ → ν → ℕ) : total f (∅ : KeyedMap κ ν) = 0 := rfl

/-- Removing a key takes exactly its own weight out of the total. -/
theorem total_erase (f : κ → ν → ℕ) (k : κ) (m : KeyedMap κ ν) :
    total f m = (m.lookup k).elim 0 (f k) + total f (m.erase k) := by
  obtain ⟨entries, hnd⟩ := m
  change (entries.map _).sum = (entries.dlookup k).elim 0 (f k) + ((entries.kerase k).map _).sum
  induction entries with
  | nil => rfl
  | cons e rest ih =>
      obtain ⟨k', v⟩ := e
      have hrest := List.nodupKeys_of_nodupKeys_cons hnd
      by_cases hk : k = k'
      · subst k'
        have he : List.kerase k ((⟨k, v⟩ : (_ : κ) × ν) :: rest) = rest := List.kerase_cons_eq rfl
        simp [he]
      · have hl := List.dlookup_cons_ne (β := fun _ : κ => ν) rest ⟨k', v⟩ hk
        have he := List.kerase_cons_ne (s := (⟨k', v⟩ : (_ : κ) × ν)) (l := rest) hk
        have hsum := ih hrest
        simp only [hl, he, List.map_cons, List.sum_cons] at hsum ⊢
        omega

theorem total_insert (f : κ → ν → ℕ) (k : κ) (v : ν) (m : KeyedMap κ ν) :
    total f (m.insert k v) = f k v + total f (m.erase k) := by
  exact List.sum_cons

/-- One entry weighs at most the total. -/
theorem le_total (f : κ → ν → ℕ) {k : κ} {v : ν} {m : KeyedMap κ ν} (hk : m.lookup k = some v) :
    f k v ≤ total f m := by
  have h := total_erase f k m
  simp only [hk, Option.elim_some] at h
  omega

/-- Remove some keys, one after the other. -/
def eraseAll (keys : List κ) (m : KeyedMap κ ν) : KeyedMap κ ν :=
  keys.foldl (fun m k => m.erase k) m

theorem lookup_eraseAll (keys : List κ) (m : KeyedMap κ ν) (k : κ) :
    (eraseAll keys m).lookup k = if k ∈ keys then none else m.lookup k := by
  induction keys generalizing m with
  | nil => simp [eraseAll]
  | cons j keys ih =>
      have h := ih (m.erase j)
      simp only [eraseAll, List.foldl_cons, List.mem_cons] at h ⊢
      rw [h]
      by_cases hj : k = j
      · subst j
        simp [AList.lookup_erase]
      · simp [hj, AList.lookup_erase_ne hj]

theorem lookup_eraseAll_keysWhere (p : κ → ν → Bool) (m : KeyedMap κ ν) (k : κ) :
    (eraseAll (keysWhere p m) m).lookup k = (m.lookup k).filter fun v => !p k v := by
  rw [lookup_eraseAll]
  cases hk : m.lookup k with
  | none => simp
  | some v =>
      by_cases hp : p k v = true
      · rw [if_pos (mem_keysWhere.mpr ⟨v, hk, hp⟩)]
        simp [Option.filter, hp]
      · rw [if_neg]
        · simp [Option.filter, hp]
        · intro hmem
          obtain ⟨w, hw, hpw⟩ := mem_keysWhere.mp hmem
          rw [hk] at hw
          cases hw
          exact hp hpw

theorem total_eraseAll_le (f : κ → ν → ℕ) (keys : List κ) (m : KeyedMap κ ν) :
    total f (eraseAll keys m) ≤ total f m := by
  induction keys generalizing m with
  | nil => rfl
  | cons k keys ih =>
      have h := total_erase f k m
      exact (ih (m.erase k)).trans (by omega)

/-- Removing a key that is present takes at least its weight out of the total. -/
theorem total_eraseAll_of_mem (f : κ → ν → ℕ) {keys : List κ} {m : KeyedMap κ ν} {k : κ} {v : ν}
    (hk : k ∈ keys) (hv : m.lookup k = some v) : f k v + total f (eraseAll keys m) ≤ total f m := by
  induction keys generalizing m with
  | nil => simp at hk
  | cons j keys ih =>
      have hj := total_erase f j m
      by_cases hjk : k = j
      · subst j
        rw [hv, Option.elim_some] at hj
        have hle : total f (eraseAll (k :: keys) m) ≤ total f (m.erase k) :=
          total_eraseAll_le f keys (m.erase k)
        omega
      · have hmem : k ∈ keys := (List.mem_cons.mp hk).resolve_left hjk
        have hrest : f k v + total f (eraseAll (j :: keys) m) ≤ total f (m.erase j) :=
          ih hmem (by rwa [AList.lookup_erase_ne hjk])
        omega

theorem total_eraseAll_of_zero {f : κ → ν → ℕ} {keys : List κ} {m : KeyedMap κ ν}
    (h : ∀ k ∈ keys, ∀ v, m.lookup k = some v → f k v = 0) :
    total f (eraseAll keys m) = total f m := by
  induction keys generalizing m with
  | nil => rfl
  | cons k keys ih =>
      have hk := total_erase f k m
      have hzero : (m.lookup k).elim 0 (f k) = 0 := by
        cases hv : m.lookup k with
        | none => rfl
        | some v => exact h k (by simp) v hv
      rw [hzero, Nat.zero_add] at hk
      rw [hk]
      refine ih fun j hj v hv => h j (by simp [hj]) v ?_
      by_cases hjk : j = k
      · subst j
        simp [AList.lookup_erase] at hv
      · rwa [AList.lookup_erase_ne hjk] at hv

omit [DecidableEq κ] in
theorem total_add (f g : κ → ν → ℕ) (m : KeyedMap κ ν) :
    total (fun k v => f k v + g k v) m = total f m + total g m := List.sum_map_add

theorem total_congr {f g : κ → ν → ℕ} {m : KeyedMap κ ν}
    (h : ∀ k v, m.lookup k = some v → f k v = g k v) : total f m = total g m :=
  congrArg List.sum (List.map_congr_left fun e he => h e.1 e.2 (AList.mem_lookup_iff.mpr he))

/-- What is removed and what stays make up the total. -/
theorem total_eraseAll_keysWhere (f : κ → ν → ℕ) (p : κ → ν → Bool) (m : KeyedMap κ ν) :
    total f m = total (fun k v => if p k v then f k v else 0) m
      + total f (eraseAll (keysWhere p m) m) := by
  have hkept : total f (eraseAll (keysWhere p m) m)
      = total (fun k v => if p k v then 0 else f k v) m := by
    have hsame : total f (eraseAll (keysWhere p m) m)
        = total (fun k v => if p k v then 0 else f k v) (eraseAll (keysWhere p m) m) := by
      refine total_congr fun k v hv => ?_
      rw [lookup_eraseAll_keysWhere] at hv
      obtain ⟨-, hno⟩ := Option.mem_filter_iff.mp hv
      rw [if_neg (by simpa using hno)]
    rw [hsame]
    refine total_eraseAll_of_zero fun k hk v hv => ?_
    obtain ⟨v', hv', hp⟩ := mem_keysWhere.mp hk
    obtain rfl : v = v' := Option.some.inj (hv.symm.trans hv')
    exact if_pos hp
  rw [hkept, ← total_add]
  refine total_congr fun k v _ => ?_
  split_ifs <;> omega

/-- Insert entries one after the other. -/
def insertAll (entries : List (κ × ν)) (m : KeyedMap κ ν) : KeyedMap κ ν :=
  entries.foldl (fun m e => m.insert e.1 e.2) m

theorem mem_of_lookup_insertAll {entries : List (κ × ν)} {m : KeyedMap κ ν} {k : κ} {v : ν}
    (h : (insertAll entries m).lookup k = some v) : (k, v) ∈ entries ∨ m.lookup k = some v := by
  induction entries generalizing m with
  | nil => exact .inr h
  | cons e entries ih =>
      rcases ih (m := m.insert e.1 e.2) h with hmem | hinsert
      · exact .inl (List.mem_cons_of_mem _ hmem)
      · by_cases hk : k = e.1
        · rw [hk, AList.lookup_insert] at hinsert
          obtain rfl : e.2 = v := Option.some.inj hinsert
          exact .inl (hk ▸ List.mem_cons_self)
        · rw [AList.lookup_insert_ne hk] at hinsert
          exact .inr hinsert

/-- Where all entries of a key agree, their value is found. -/
theorem lookup_insertAll {entries : List (κ × ν)} {m : KeyedMap κ ν} {k : κ} {v : ν}
    (hagree : ∀ v', (k, v') ∈ entries → v' = v) (h : (k, v) ∈ entries ∨ m.lookup k = some v) :
    (insertAll entries m).lookup k = some v := by
  induction entries generalizing m with
  | nil => exact h.resolve_left List.not_mem_nil
  | cons e entries ih =>
      refine ih (m := m.insert e.1 e.2) (fun v' hv' => hagree v' (List.mem_cons_of_mem _ hv')) ?_
      by_cases hk : k = e.1
      · right
        rw [hk, AList.lookup_insert, hagree e.2 (hk ▸ List.mem_cons_self)]
      · rw [AList.lookup_insert_ne hk]
        refine h.imp_left fun hmem => (List.mem_cons.mp hmem).resolve_left fun he => hk ?_
        exact congrArg Prod.fst he

theorem lookup_insertAll_ne_none {entries : List (κ × ν)} {m : KeyedMap κ ν} {k : κ}
    (h : m.lookup k ≠ none) : (insertAll entries m).lookup k ≠ none := by
  induction entries generalizing m with
  | nil => exact h
  | cons e entries ih =>
      refine ih (m := m.insert e.1 e.2) ?_
      by_cases hk : k = e.1
      · simp [hk]
      · rwa [AList.lookup_insert_ne hk]

end KeyedMap

/-- The amount that a list of keyed amounts holds for one key. -/
def tally {ι : Type} [DecidableEq ι] (l : List (ι × ℕ)) (i : ι) : ℕ :=
  (l.map fun e => if e.1 = i then e.2 else 0).sum

section Tally
variable {ι : Type} [DecidableEq ι]

@[simp] theorem tally_nil (i : ι) : tally ([] : List (ι × ℕ)) i = 0 := rfl

@[simp] theorem tally_cons (e : ι × ℕ) (l : List (ι × ℕ)) (i : ι) :
    tally (e :: l) i = (if e.1 = i then e.2 else 0) + tally l i := by simp [tally]

@[simp] theorem tally_append (l l' : List (ι × ℕ)) (i : ι) :
    tally (l ++ l') i = tally l i + tally l' i := by simp [tally]

theorem le_tally {l : List (ι × ℕ)} {e : ι × ℕ} (h : e ∈ l) : e.2 ≤ tally l e.1 := by
  induction l with
  | nil => simp at h
  | cons e' l ih =>
      rw [tally_cons]
      rcases List.mem_cons.mp h with rfl | hl
      · simp
      · exact (ih hl).trans (Nat.le_add_left _ _)

end Tally
