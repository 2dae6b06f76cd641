import Confuse.RenamedKeys

/-!
# Moving a subtree of keys

A root that does not end in a backslash is followed in the keys of its subtree by nothing or by a
backslash and the rest. `remap_descendant_keys` puts another root before what follows the old one, for
all keys at once; putting the old root back undoes it.
-/

namespace Confuse

open KeyedMap

/-- What follows a root in a key at or below it. -/
def IsTail (tail : Str) : Prop := tail = [] ∨ ∃ rest, tail = '\\' :: rest

/-- The key is the root or below it. -/
def AtOrBelow (root key : Str) : Prop := ∃ tail, IsTail tail ∧ key = root ++ tail

section Roots
variable {oldRoot newRoot key nextKey : Str}

theorem withSlash_of_ne (hroot : oldRoot.getLast? ≠ some '\\') : withSlash oldRoot = oldRoot ++ ['\\'] :=
  if_neg hroot

/-- The code puts the new root before what follows the old one. -/
theorem renameDescendantPathKey_eq_some_iff (hold : oldRoot.getLast? ≠ some '\\')
    (hnew : newRoot.getLast? ≠ some '\\') :
    renameDescendantPathKey oldRoot newRoot key = some nextKey ↔
      ∃ tail, IsTail tail ∧ key = oldRoot ++ tail ∧ nextKey = newRoot ++ tail := by
  constructor
  · intro h
    rcases renameDescendantPathKey_eq_some h with ⟨hkey, hnext⟩ | ⟨rest, -, hkey, hnext⟩
    · exact ⟨[], .inl rfl, by simp [hkey], by simp [hnext]⟩
    · rw [withSlash_of_ne hold] at hkey
      rw [withSlash_of_ne hnew] at hnext
      exact ⟨'\\' :: rest, .inr ⟨rest, rfl⟩, by simp [hkey], by simp [hnext]⟩
  · rintro ⟨tail, rfl | ⟨rest, rfl⟩, rfl, rfl⟩
    · simp [renameDescendantPathKey]
    · have hbelow : oldRoot ++ '\\' :: rest = withSlash oldRoot ++ rest := by
        simp [withSlash_of_ne hold]
      rw [renameDescendantPathKey_of_ne (by simp), hbelow,
        if_pos (List.isPrefixOf_iff_prefix.mpr (List.prefix_append _ _)), List.drop_left,
        withSlash_of_ne hnew, List.append_assoc, List.singleton_append]

theorem renameDescendantPathKey_eq_none_iff (hold : oldRoot.getLast? ≠ some '\\')
    (hnew : newRoot.getLast? ≠ some '\\') :
    renameDescendantPathKey oldRoot newRoot key = none ↔ ¬ AtOrBelow oldRoot key := by
  rw [Option.eq_none_iff_forall_ne_some]
  constructor
  · rintro h ⟨tail, htail, hkey⟩
    exact h _ ((renameDescendantPathKey_eq_some_iff hold hnew).mpr ⟨tail, htail, hkey, rfl⟩)
  · intro h nextKey hsome
    obtain ⟨tail, htail, hkey, -⟩ := (renameDescendantPathKey_eq_some_iff hold hnew).mp hsome
    exact h ⟨tail, htail, hkey⟩

/-- Exchanging the roots is the inverse. -/
theorem renameDescendantPathKey_inverse (hold : oldRoot.getLast? ≠ some '\\')
    (hnew : newRoot.getLast? ≠ some '\\') (key nextKey : Str) :
    renameDescendantPathKey oldRoot newRoot key = some nextKey ↔
      renameDescendantPathKey newRoot oldRoot nextKey = some key := by
  rw [renameDescendantPathKey_eq_some_iff hold hnew, renameDescendantPathKey_eq_some_iff hnew hold]
  exact exists_congr fun tail => and_congr_right fun _ => and_comm

end Roots

/-- For roots that do not end in a backslash: what is not below the old root and where nothing is
moved stays; what follows the old root in a key follows the new one, with the value of the key, and
different keys get different ones; and where nothing else was below the new root, exchanging the
roots restores the map. -/
theorem rerooting_lossless {ν : Type} (items : KeyedMap Str ν) (oldRoot newRoot : Str)
    (hold : oldRoot.getLast? ≠ some '\\') (hnew : newRoot.getLast? ≠ some '\\') :
    let remapped := remapDescendantKeys items oldRoot newRoot
    (∀ key, ¬ AtOrBelow oldRoot key →
      (∀ tail, IsTail tail → items.lookup (oldRoot ++ tail) ≠ none → key ≠ newRoot ++ tail) →
        remapped.lookup key = items.lookup key) ∧
    (∀ tail, IsTail tail → ∀ value, items.lookup (oldRoot ++ tail) = some value →
      renameDescendantPathKey oldRoot newRoot (oldRoot ++ tail) = some (newRoot ++ tail) ∧
        remapped.lookup (newRoot ++ tail) = some value) ∧
    (∀ key key' nextKey, renameDescendantPathKey oldRoot newRoot key = some nextKey →
      renameDescendantPathKey oldRoot newRoot key' = some nextKey → key = key') ∧
    ((∀ key, items.lookup key ≠ none → ¬ AtOrBelow oldRoot key → ¬ AtOrBelow newRoot key) →
      ∀ key, (remapDescendantKeys remapped newRoot oldRoot).lookup key = items.lookup key) := by
  have hinverse := renameDescendantPathKey_inverse hold hnew
  have hapart : items.MovesApart (renameDescendantPathKey oldRoot newRoot) :=
    movesApart_of_inverse fun key nextKey => (hinverse key nextKey).mp
  intro remapped
  refine ⟨fun key hkey hfree => ?_, fun tail htail value hvalue => ?_, fun key key' nextKey h h' => ?_,
    fun hother => ?_⟩
  · refine lookup_rekey_of_stays hapart ((renameDescendantPathKey_eq_none_iff hold hnew).mpr hkey) ?_
    intro key' hheld hmoved
    obtain ⟨tail, htail, rfl, hnext⟩ := (renameDescendantPathKey_eq_some_iff hold hnew).mp hmoved
    exact hfree tail htail hheld hnext
  · have hmoved := (renameDescendantPathKey_eq_some_iff hold hnew).mpr ⟨tail, htail, rfl, rfl⟩
    exact ⟨hmoved, (lookup_rekey hapart).mpr (.inl ⟨_, hvalue, hmoved⟩)⟩
  · exact Option.some.inj (((hinverse key nextKey).mp h).symm.trans ((hinverse key' nextKey).mp h'))
  · refine lookup_rekey_rekey hinverse fun key hheld hnone => ?_
    rw [renameDescendantPathKey_eq_none_iff hold hnew] at hnone
    exact (renameDescendantPathKey_eq_none_iff hnew hold).mpr (hother key hheld hnone)

/-- The keys of a directory that is moved below itself, and of its child. -/
theorem rerooting_lossless_nested :
    (remapDescendantKeys (KeyedMap.insertAll [("\\a".toList, 1), ("\\a\\b".toList, 2)] ∅)
      "\\a".toList "\\a\\b".toList).lookup "\\a\\b".toList = some 1 :=
  ((rerooting_lossless (KeyedMap.insertAll [("\\a".toList, 1), ("\\a\\b".toList, 2)] ∅)
    "\\a".toList "\\a\\b".toList (by decide) (by decide)).2.1 [] (.inl rfl) 1 (by decide)).2

end Confuse
