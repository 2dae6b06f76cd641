import Confuse.Adapter
import Confuse.Rekeying

/-!
# Keys of open state after a rename

The maps of open state are keyed by the paths as the callbacks spell them. A rename gives a new key to
each key that begins with the spelling of the old path; paths are the same for the resolver when their
lower-cased components are.
-/

namespace Confuse

open PathResolver

/-! ## What follows a root in a key -/

/-- The prefix of the keys below a root. -/
def withSlash (root : Str) : Str := if root.getLast? = some '\\' then root else root ++ ['\\']

theorem length_le_withSlash (root : Str) : root.length ≤ (withSlash root).length := by
  unfold withSlash
  split_ifs <;> simp

/-- From `depth` components below a root, the parts of a path do not lead above it. -/
def staysBelow : ℕ → List Str → Bool
  | _, [] => true
  | depth, part :: parts =>
      if part.getLast? = some ':' ∨ part = ['.'] then staysBelow depth parts
      else if part = ['.', '.'] then decide (0 < depth) && staysBelow (depth - 1) parts
      else staysBelow (depth + 1) parts

theorem foldl_pushComponent_append (base below : List Str) {parts : List Str}
    (h : staysBelow below.length parts = true) :
    parts.foldl pushComponent (base ++ below) = base ++ parts.foldl pushComponent below := by
  induction parts generalizing below with
  | nil => rfl
  | cons part parts ih =>
      rw [List.foldl_cons, List.foldl_cons]
      unfold staysBelow at h
      unfold pushComponent
      split_ifs at h ⊢ with hskip hdots
      · exact ih _ h
      · obtain ⟨hdepth, hrest⟩ := Bool.and_eq_true_iff.mp h
        have hne : below ≠ [] := List.length_pos_iff.mp (of_decide_eq_true hdepth)
        rw [List.dropLast_append_of_ne_nil hne]
        refine ih _ ?_
        rwa [List.length_dropLast]
      · rw [List.append_assoc]
        refine ih _ ?_
        rwa [List.length_append, List.length_singleton]

theorem pathParts_withSlash_append (root rest : Str) :
    pathParts (withSlash root ++ rest) = pathParts root ++ pathParts rest := by
  unfold withSlash
  split_ifs with hlast
  · obtain ⟨base, rfl⟩ : ∃ base, root = base ++ ['\\'] :=
      ⟨_, (List.dropLast_append_getLast? _ hlast).symm⟩
    rw [List.append_assoc, List.singleton_append, pathParts_append (by decide),
      pathParts_append (by decide), pathParts_nil, List.append_nil]
  · rw [List.append_assoc, List.singleton_append, pathParts_append (by decide)]

/-- A key below a root designates what its rest designates below what the root designates. -/
theorem keyOf_withSlash_append (cf : CaseFold) (root : Str) {rest : Str}
    (hrest : staysBelow 0 (pathParts rest) = true) :
    keyOf cf (.new (withSlash root ++ rest)) = keyOf cf (.new root) ++ keyOf cf (.new rest) := by
  have hfold := foldl_pushComponent_append ((pathParts root).foldl pushComponent []) []
    hrest
  rw [List.append_nil] at hfold
  unfold keyOf normalizedComponents
  rw [OsStr.toStringLossy_new, OsStr.toStringLossy_new, OsStr.toStringLossy_new,
    pathParts_withSlash_append, List.foldl_append, hfold, List.map_append]

/-! ## The new keys -/

/-- The key is the root as it is spelled, or begins with it and a backslash. -/
def SpelledFrom (root key : Str) : Prop := key = root ∨ withSlash root <+: key

section NewKeys
variable {oldRoot newRoot key nextKey : Str}

theorem renameDescendantPathKey_of_ne (hkey : key ≠ oldRoot) :
    renameDescendantPathKey oldRoot newRoot key
      = if (withSlash oldRoot).isPrefixOf key then
          some (withSlash newRoot ++ key.drop (withSlash oldRoot).length)
        else none := if_neg hkey

theorem renameDescendantPathKey_eq_none :
    renameDescendantPathKey oldRoot newRoot key = none ↔ ¬ SpelledFrom oldRoot key := by
  by_cases hkey : key = oldRoot
  · simp [renameDescendantPathKey, SpelledFrom, hkey]
  · rw [renameDescendantPathKey_of_ne hkey, SpelledFrom, or_iff_right hkey,
      ← List.isPrefixOf_iff_prefix]
    by_cases hbelow : (withSlash oldRoot).isPrefixOf key = true <;> simp [hbelow]

/-- The root gets the new root, and a key below it the same rest below the new root. -/
theorem renameDescendantPathKey_eq_some
    (h : renameDescendantPathKey oldRoot newRoot key = some nextKey) :
    (key = oldRoot ∧ nextKey = newRoot) ∨
      ∃ rest, key ≠ oldRoot ∧ key = withSlash oldRoot ++ rest ∧ nextKey = withSlash newRoot ++ rest := by
  by_cases hkey : key = oldRoot
  · rw [renameDescendantPathKey, if_pos hkey] at h
    exact .inl ⟨hkey, (Option.some.inj h).symm⟩
  · rw [renameDescendantPathKey_of_ne hkey] at h
    split_ifs at h with hbelow
    obtain ⟨rest, rfl⟩ := List.isPrefixOf_iff_prefix.mp hbelow
    rw [List.drop_left] at h
    exact .inr ⟨rest, hkey, rfl, (Option.some.inj h).symm⟩

end NewKeys

/-! ## Maps that follow a rename -/

section Maps
variable {ν : Type} (cf : CaseFold) (oldRoot newRoot : Str)

/-- What was kept for the old path and for paths below it is kept for the new path and the paths
below it, and nothing is left behind. -/
structure FollowsRename (before after : KeyedMap Str ν) : Prop where
  moved : ∀ key value rest, before.lookup key = some value →
    keyOf cf (.new key) = keyOf cf (.new oldRoot) ++ rest →
      ∃ nextKey, after.lookup nextKey = some value ∧
        keyOf cf (.new nextKey) = keyOf cf (.new newRoot) ++ rest
  gone : ∀ key, after.lookup key ≠ none → keyOf cf (.new oldRoot) <+: keyOf cf (.new key) →
    keyOf cf (.new newRoot) <+: keyOf cf (.new key)

/-- One of the keys is given this new key. -/
def LandsOn (items : KeyedMap Str ν) (nextKey : Str) : Prop :=
  (nextKey = newRoot ∧ items.lookup oldRoot ≠ none) ∨
    ∃ rest, nextKey = withSlash newRoot ++ rest ∧ withSlash oldRoot ++ rest ≠ oldRoot ∧
      items.lookup (withSlash oldRoot ++ rest) ≠ none

/-- Every key for the old path or for a path below it begins with the old path as the rename spells
it; a key with another spelling may stay where only the spelling of the path changes, if no other key
lands on it. What follows the old path stays below it, and no two keys land on one. -/
structure Followable (items : KeyedMap Str ν) : Prop where
  spelled : ∀ key, items.lookup key ≠ none →
    keyOf cf (.new oldRoot) <+: keyOf cf (.new key) → SpelledFrom oldRoot key ∨
      (keyOf cf (.new oldRoot) = keyOf cf (.new newRoot) ∧ ¬ LandsOn oldRoot newRoot items key)
  below : ∀ rest, items.lookup (withSlash oldRoot ++ rest) ≠ none →
    staysBelow 0 (pathParts rest) = true
  apart : items.lookup oldRoot ≠ none → items.lookup (withSlash oldRoot) ≠ none →
    newRoot = withSlash newRoot → oldRoot = withSlash oldRoot

variable {cf oldRoot newRoot} {items : KeyedMap Str ν}

theorem remapDescendantKeys_eq_rekey (items : KeyedMap Str ν) (oldRoot newRoot : Str) :
    remapDescendantKeys items oldRoot newRoot
      = items.rekey (renameDescendantPathKey oldRoot newRoot) := rfl

theorem LandsOn.of_rename {key nextKey : Str} (hkey : items.lookup key ≠ none)
    (hnext : renameDescendantPathKey oldRoot newRoot key = some nextKey) :
    LandsOn oldRoot newRoot items nextKey := by
  rcases renameDescendantPathKey_eq_some hnext with ⟨rfl, rfl⟩ | ⟨rest, hne, rfl, rfl⟩
  · exact .inl ⟨rfl, hkey⟩
  · exact .inr ⟨rest, rfl, hne, hkey⟩

/-- Only the root and the root with a backslash could be given one key. -/
theorem eq_of_rename_eq (hapart : items.lookup oldRoot ≠ none →
      items.lookup (withSlash oldRoot) ≠ none → newRoot = withSlash newRoot →
        oldRoot = withSlash oldRoot) {key key' nextKey : Str}
    (hkey : items.lookup key ≠ none) (hkey' : items.lookup key' ≠ none)
    (h : renameDescendantPathKey oldRoot newRoot key = some nextKey)
    (h' : renameDescendantPathKey oldRoot newRoot key' = some nextKey) : key = key' := by
  have hroot : ∀ rest, items.lookup oldRoot ≠ none → items.lookup (withSlash oldRoot ++ rest) ≠ none →
      withSlash oldRoot ++ rest ≠ oldRoot → newRoot = withSlash newRoot ++ rest → False := by
    intro rest hold hbelow hne hnext
    have hlength := congrArg List.length hnext
    have hlonger := length_le_withSlash newRoot
    rw [List.length_append] at hlength
    obtain rfl : rest = [] := List.length_eq_zero_iff.mp (by omega)
    rw [List.append_nil] at hbelow hne hnext
    exact hne (hapart hold hbelow hnext).symm
  rcases renameDescendantPathKey_eq_some h with ⟨rfl, rfl⟩ | ⟨rest, hne, rfl, rfl⟩ <;>
    rcases renameDescendantPathKey_eq_some h' with ⟨rfl, hnext⟩ | ⟨rest', hne', rfl, hnext⟩
  · rfl
  · exact (hroot rest' hkey hkey' hne' hnext).elim
  · exact (hroot rest hkey' hkey hne hnext.symm).elim
  · rw [List.append_cancel_left hnext]

theorem follows_of_followable (h : Followable cf oldRoot newRoot items) :
    FollowsRename cf oldRoot newRoot items (remapDescendantKeys items oldRoot newRoot) where
  moved := by
    intro key value rest hkey hrest
    have hapart : items.MovesApart (renameDescendantPathKey oldRoot newRoot) := eq_of_rename_eq h.apart
    have hheld : items.lookup key ≠ none := by simp [hkey]
    rw [remapDescendantKeys_eq_rekey]
    by_cases hspelled : SpelledFrom oldRoot key
    · have hsome : renameDescendantPathKey oldRoot newRoot key ≠ none :=
        mt renameDescendantPathKey_eq_none.mp (not_not.mpr hspelled)
      obtain ⟨nextKey, hnext⟩ := Option.ne_none_iff_exists'.mp hsome
      refine ⟨nextKey, (KeyedMap.lookup_rekey hapart).mpr (.inl ⟨key, hkey, hnext⟩), ?_⟩
      rcases renameDescendantPathKey_eq_some hnext with ⟨rfl, rfl⟩ | ⟨below, -, rfl, rfl⟩
      · obtain rfl : rest = [] := by simpa using hrest
        rw [List.append_nil]
      · rw [keyOf_withSlash_append cf oldRoot (h.below below hheld)] at hrest
        rw [keyOf_withSlash_append cf newRoot (h.below below hheld), List.append_cancel_left hrest]
    · obtain ⟨hsame, hfree⟩ := (h.spelled key hheld ⟨rest, hrest.symm⟩).resolve_left hspelled
      have hstays : renameDescendantPathKey oldRoot newRoot key = none :=
        renameDescendantPathKey_eq_none.mpr hspelled
      refine ⟨key, (KeyedMap.lookup_rekey hapart).mpr (.inr ⟨hstays, hkey, ?_⟩), hsame ▸ hrest⟩
      exact fun key' hheld' hnext => hfree (.of_rename hheld' hnext)
  gone := by
    intro key hkey hold
    have hapart : items.MovesApart (renameDescendantPathKey oldRoot newRoot) := eq_of_rename_eq h.apart
    obtain ⟨value, hvalue⟩ := Option.ne_none_iff_exists'.mp hkey
    rw [remapDescendantKeys_eq_rekey, KeyedMap.lookup_rekey hapart] at hvalue
    rcases hvalue with ⟨key', hkey', hnext⟩ | ⟨hstays, hlookup, -⟩
    · rcases renameDescendantPathKey_eq_some hnext with ⟨-, rfl⟩ | ⟨rest, -, rfl, rfl⟩
      · exact List.prefix_rfl
      · rw [keyOf_withSlash_append cf newRoot (h.below rest (by simp [hkey']))]
        exact List.prefix_append _ _
    · have hspelled := renameDescendantPathKey_eq_none.mp hstays
      obtain ⟨hsame, -⟩ := (h.spelled key (by simp [hlookup]) hold).resolve_left hspelled
      rwa [← hsame]

/-- Where the root is the only key, the map can follow. -/
theorem followable_of_root (hroot : ∀ key, items.lookup key ≠ none → key = oldRoot) :
    Followable cf oldRoot newRoot items where
  spelled key hkey _ := .inl (.inl (hroot key hkey))
  below rest hrest := by
    have hlength := congrArg List.length (hroot _ hrest)
    have hlonger := length_le_withSlash oldRoot
    rw [List.length_append] at hlength
    obtain rfl : rest = [] := List.length_eq_zero_iff.mp (by omega)
    rfl
  apart _ hslash _ := (hroot _ hslash).symm

/-- A key in another spelling stays, so it must be below the new path already. -/
theorem spelled_of_follows
    (h : FollowsRename cf oldRoot newRoot items (remapDescendantKeys items oldRoot newRoot)) {key : Str}
    (hkey : items.lookup key ≠ none) (hold : keyOf cf (.new oldRoot) <+: keyOf cf (.new key)) :
    SpelledFrom oldRoot key ∨ keyOf cf (.new newRoot) <+: keyOf cf (.new key) := by
  refine or_iff_not_imp_left.mpr fun hspelled => h.gone key ?_ hold
  exact KeyedMap.lookup_rekey_ne_none (renameDescendantPathKey_eq_none.mpr hspelled) hkey

/-- Where the keys have no other defect, the map follows the rename exactly when every key for the
old path or below it begins with the spelling of the old path. -/
theorem follows_iff (hbelow : ∀ rest, items.lookup (withSlash oldRoot ++ rest) ≠ none →
      staysBelow 0 (pathParts rest) = true) (hslash : newRoot ≠ withSlash newRoot)
    (hapart : ∀ key, items.lookup key ≠ none → keyOf cf (.new oldRoot) <+: keyOf cf (.new key) →
      ¬ keyOf cf (.new newRoot) <+: keyOf cf (.new key)) :
    FollowsRename cf oldRoot newRoot items (remapDescendantKeys items oldRoot newRoot)
      ↔ ∀ key, items.lookup key ≠ none → keyOf cf (.new oldRoot) <+: keyOf cf (.new key) →
        SpelledFrom oldRoot key := by
  constructor
  · intro h key hkey hold
    exact (spelled_of_follows h hkey hold).resolve_right (hapart key hkey hold)
  · intro h
    exact follows_of_followable ⟨fun key hkey hold => .inl (h key hkey hold), hbelow,
      fun _ _ hnew => absurd hnew hslash⟩

end Maps
end Confuse
