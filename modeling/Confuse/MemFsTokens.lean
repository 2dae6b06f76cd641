import Confuse.MapValues
import Confuse.MemFs
import Confuse.Tokens
import Mathlib.Data.Multiset.Filter

/-!
# Calls under way

A call that has taken an inode number, or taken an inode out of the names, holds it until it gives it
a name or drops it. `SoundWith` ties what the calls under way hold to the maps; every operation of a
call keeps it, whatever the other calls hold.
-/

namespace Confuse

open Interaction

/-- What a call under way holds: the right to take a number, a number that it was given, a number
without an inode, an inode without a name. -/
inductive INodeToken
  | permit
  | issued (ino : UInt64)
  | fresh (ino : UInt64)
  | detached (ino : UInt64)
  deriving DecidableEq

namespace INodeToken

def unnamed : INodeToken → Option UInt64
  | .fresh ino | .detached ino => some ino
  | _ => none

def number : INodeToken → Option UInt64
  | .issued ino => some ino
  | _ => none

end INodeToken

/-- The inode numbers that are in use without having a name. -/
def unnamed (held : Multiset INodeToken) : Multiset UInt64 := held.filterMap INodeToken.unnamed

/-- The inode numbers that were given out. -/
def issuedNumbers (held : Multiset INodeToken) : Multiset UInt64 := held.filterMap INodeToken.number

/-- Given out by a counter that will give out `next`. -/
def Given (next ino : UInt64) : Prop := ROOT_INO_RAW.toNat < ino.toNat ∧ ino.toNat < next.toNat

structure SoundWith (held : Multiset INodeToken) (s : MemFs) : Prop where
  budget : s.nextIno.toNat + held.count .permit < 2 ^ 64
  started : ROOT_INO_RAW.toNat < s.nextIno.toNat
  root : ∃ node, s.inodes.lookup ROOT_INO_RAW = some node ∧ node.kind = .directory
  stored : ∀ {i node}, s.inodes.lookup i = some node →
    node.ino = i ∧ i.toNat < s.nextIno.toNat ∧ ROOT_INO_RAW.toNat ≤ i.toNat
  distinct : (unnamed held + s.children.values).Nodup
  given : ∀ i ∈ unnamed held + s.children.values, Given s.nextIno i
  named : ∀ i ∈ s.children.values, (s.inodes.lookup i).isSome
  detached : ∀ i, .detached i ∈ held → (s.inodes.lookup i).isSome
  fresh : ∀ i, .fresh i ∈ held → s.inodes.lookup i = none
  issuedOnce : (issuedNumbers held).Nodup
  issued : ∀ i ∈ issuedNumbers held, Given s.nextIno i

/-! ## The counts of one token -/

section Counts
variable (held : Multiset INodeToken) (i : UInt64)

@[simp] theorem unnamed_permit : unnamed (.permit ::ₘ held) = unnamed held :=
  Multiset.filterMap_cons_none _ held rfl

@[simp] theorem unnamed_issued : unnamed (.issued i ::ₘ held) = unnamed held :=
  Multiset.filterMap_cons_none _ held rfl

@[simp] theorem unnamed_fresh : unnamed (.fresh i ::ₘ held) = i ::ₘ unnamed held :=
  Multiset.filterMap_cons_some _ _ held rfl

@[simp] theorem unnamed_detached : unnamed (.detached i ::ₘ held) = i ::ₘ unnamed held :=
  Multiset.filterMap_cons_some _ _ held rfl

@[simp] theorem issuedNumbers_permit : issuedNumbers (.permit ::ₘ held) = issuedNumbers held :=
  Multiset.filterMap_cons_none _ held rfl

@[simp] theorem issuedNumbers_issued : issuedNumbers (.issued i ::ₘ held) = i ::ₘ issuedNumbers held :=
  Multiset.filterMap_cons_some _ _ held rfl

@[simp] theorem issuedNumbers_fresh : issuedNumbers (.fresh i ::ₘ held) = issuedNumbers held :=
  Multiset.filterMap_cons_none _ held rfl

@[simp] theorem issuedNumbers_detached : issuedNumbers (.detached i ::ₘ held) = issuedNumbers held :=
  Multiset.filterMap_cons_none _ held rfl

@[simp] theorem unnamed_replicate (n : ℕ) : unnamed (Multiset.replicate n .permit) = 0 := by
  induction n with
  | zero => rfl
  | succ n ih => rw [Multiset.replicate_succ, unnamed_permit, ih]

@[simp] theorem issuedNumbers_replicate (n : ℕ) :
    issuedNumbers (Multiset.replicate n .permit) = 0 := by
  induction n with
  | zero => rfl
  | succ n ih => rw [Multiset.replicate_succ, issuedNumbers_permit, ih]

variable {held i}

theorem mem_unnamed_of_fresh (h : .fresh i ∈ held) : i ∈ unnamed held :=
  (Multiset.mem_filterMap INodeToken.unnamed held).mpr ⟨_, h, rfl⟩

theorem mem_unnamed_of_detached (h : .detached i ∈ held) : i ∈ unnamed held :=
  (Multiset.mem_filterMap INodeToken.unnamed held).mpr ⟨_, h, rfl⟩

theorem mem_issuedNumbers :
    i ∈ issuedNumbers held ↔ .issued i ∈ held := by
  unfold issuedNumbers
  rw [Multiset.mem_filterMap]
  constructor
  · rintro ⟨t, ht, hi⟩
    cases t with
    | issued j =>
        obtain rfl : j = i := Option.some.inj hi
        exact ht
    | permit => cases hi
    | fresh j => cases hi
    | detached j => cases hi
  · exact fun h => ⟨_, h, rfl⟩

end Counts

/-! ## One operation -/

namespace SoundWith
variable {held : Multiset INodeToken} {s : MemFs} {i : UInt64}

theorem congr {s' : MemFs} (h : SoundWith held s) (hinodes : s'.inodes = s.inodes)
    (hchildren : s'.children = s.children) (hnext : s'.nextIno = s.nextIno) : SoundWith held s' := by
  obtain ⟨inodes, children, nextIno, clockReads⟩ := s
  obtain ⟨inodes', children', nextIno', clockReads'⟩ := s'
  cases hinodes
  cases hchildren
  cases hnext
  exact ⟨h.budget, h.started, h.root, h.stored, h.distinct, h.given, h.named, h.detached, h.fresh,
    h.issuedOnce, h.issued⟩

/-- What is held may be given up. -/
theorem mono {fewer : Multiset INodeToken} (h : SoundWith held s) (hle : fewer ≤ held) :
    SoundWith fewer s := by
  have hunnamed : unnamed fewer + s.children.values ≤ unnamed held + s.children.values :=
    Multiset.add_le_add_right (Multiset.filterMap_le_filterMap _ hle)
  have hissued : issuedNumbers fewer ≤ issuedNumbers held := Multiset.filterMap_le_filterMap _ hle
  refine ⟨?_, h.started, h.root, h.stored, Multiset.nodup_of_le hunnamed h.distinct,
    fun i hi => h.given i (Multiset.mem_of_le hunnamed hi), h.named,
    fun i hi => h.detached i (Multiset.mem_of_le hle hi),
    fun i hi => h.fresh i (Multiset.mem_of_le hle hi), Multiset.nodup_of_le hissued h.issuedOnce,
    fun i hi => h.issued i (Multiset.mem_of_le hissued hi)⟩
  have hbudget := h.budget
  have hcount := Multiset.count_le_of_le .permit hle
  omega

/-- Taking a number uses up the right to do so. -/
theorem allocIno (h : SoundWith (.permit ::ₘ held) s) :
    SoundWith (.issued s.nextIno ::ₘ .fresh s.nextIno ::ₘ held) { s with nextIno := s.nextIno + 1 } := by
  have hbudget := h.budget
  rw [Multiset.count_cons_self] at hbudget
  have hnext : (s.nextIno + 1).toNat = s.nextIno.toNat + 1 := by
    rw [UInt64.toNat_add]
    exact Nat.mod_eq_of_lt (by simp only [UInt64.reduceToNat]; omega)
  have hgiven : ∀ {j}, Given s.nextIno j → Given (s.nextIno + 1) j := by
    rintro j ⟨hroot, hlt⟩
    exact ⟨hroot, by omega⟩
  have hself : Given (s.nextIno + 1) s.nextIno := ⟨h.started, by omega⟩
  have hunused : ∀ {j}, Given s.nextIno j → j ≠ s.nextIno := by
    rintro j ⟨-, hlt⟩ rfl
    exact Nat.lt_irrefl _ hlt
  have hunnamed := h.given
  rw [unnamed_permit] at hunnamed
  have hissued := h.issued
  rw [issuedNumbers_permit] at hissued
  refine ⟨?_, ?_, h.root, fun hi => ?_, ?_, fun j hj => ?_, h.named, fun j hj => ?_, fun j hj => ?_,
    ?_, fun j hj => ?_⟩
  · change (s.nextIno + 1).toNat + _ < _
    rw [Multiset.count_cons_of_ne (by simp), Multiset.count_cons_of_ne (by simp)]
    omega
  · change _ < (s.nextIno + 1).toNat
    have := h.started
    omega
  · refine ⟨(h.stored hi).1, ?_, (h.stored hi).2.2⟩
    change _ < (s.nextIno + 1).toNat
    have := (h.stored hi).2.1
    omega
  · have hdistinct := h.distinct
    rw [unnamed_permit] at hdistinct
    rw [unnamed_issued, unnamed_fresh, Multiset.cons_add, Multiset.nodup_cons]
    exact ⟨fun hmem => hunused (hunnamed _ hmem) rfl, hdistinct⟩
  · rw [unnamed_issued, unnamed_fresh, Multiset.cons_add, Multiset.mem_cons] at hj
    rcases hj with rfl | hj
    · exact hself
    · exact hgiven (hunnamed j hj)
  · exact h.detached j (by simpa using hj)
  · rw [Multiset.mem_cons, Multiset.mem_cons] at hj
    rcases hj with hj | hj | hj
    · cases hj
    · obtain rfl : j = s.nextIno := by injection hj
      by_contra hstored
      obtain ⟨node, hnode⟩ := Option.ne_none_iff_exists'.mp hstored
      exact Nat.lt_irrefl _ (h.stored hnode).2.1
    · exact h.fresh j (Multiset.mem_cons_of_mem hj)
  · have honce := h.issuedOnce
    rw [issuedNumbers_permit] at honce
    rw [issuedNumbers_issued, issuedNumbers_fresh, Multiset.nodup_cons]
    exact ⟨fun hmem => hunused (hissued _ hmem) rfl, honce⟩
  · rw [issuedNumbers_issued, issuedNumbers_fresh, Multiset.mem_cons] at hj
    rcases hj with rfl | hj
    · exact hself
    · exact hgiven (hissued j hj)

theorem ne_root (h : SoundWith held s) {j : UInt64} (hj : j ∈ unnamed held + s.children.values) :
    j ≠ ROOT_INO_RAW := by
  rintro rfl
  exact Nat.lt_irrefl _ (h.given _ hj).1

/-- The inode of a number that is held. -/
theorem insertNode (h : SoundWith (.fresh i ::ₘ held) s) {node : INode} (hnode : node.ino = i) :
    SoundWith (.detached i ::ₘ held) { s with inodes := s.inodes.insert i node } := by
  have hmem : i ∈ unnamed (.fresh i ::ₘ held) + s.children.values := by simp
  have hlookup : ∀ {j}, (s.inodes.lookup j).isSome → ((s.inodes.insert i node).lookup j).isSome := by
    intro j hj
    by_cases hji : j = i
    · subst hji
      simp
    · rwa [AList.lookup_insert_ne hji]
  have hdistinct := h.distinct
  rw [unnamed_fresh, Multiset.cons_add] at hdistinct
  have hothers := (Multiset.nodup_cons.mp hdistinct).1
  refine ⟨?_, h.started, ?_, fun {j node'} hj => ?_, ?_, ?_, fun j hj => hlookup (h.named j hj),
    fun j hj => ?_, fun j hj => ?_, ?_, ?_⟩
  · have hbudget := h.budget
    rwa [Multiset.count_cons_of_ne (by simp)] at hbudget ⊢
  · obtain ⟨root, hroot, hkind⟩ := h.root
    exact ⟨root, by rwa [AList.lookup_insert_ne (h.ne_root hmem).symm], hkind⟩
  · by_cases hji : j = i
    · subst hji
      rw [AList.lookup_insert] at hj
      obtain rfl := Option.some.inj hj
      exact ⟨hnode, (h.given j hmem).2, (h.given j hmem).1.le⟩
    · rw [AList.lookup_insert_ne hji] at hj
      exact h.stored hj
  · rwa [unnamed_detached, Multiset.cons_add]
  · rw [unnamed_detached]
    exact fun j hj => h.given j (by rwa [unnamed_fresh])
  · rcases Multiset.mem_cons.mp hj with hji | hj
    · obtain rfl : j = i := by injection hji
      simp
    · exact hlookup (h.detached j (Multiset.mem_cons_of_mem hj))
  · have hj' : .fresh j ∈ held := by simpa using hj
    have hji : j ≠ i := by
      rintro rfl
      exact hothers (Multiset.mem_add.mpr (.inl (mem_unnamed_of_fresh hj')))
    rw [AList.lookup_insert_ne hji]
    exact h.fresh j (Multiset.mem_cons_of_mem hj')
  · simpa using h.issuedOnce
  · simpa using h.issued

/-- An inode without a name gets one, in the place of what had it before. -/
theorem insertChild (h : SoundWith (.detached i ::ₘ held) s) (key : UInt64 × OsStr) :
    SoundWith held { s with children := s.children.insert key i } := by
  have hle : KeyedMap.values (s.children.insert key i) ≤ i ::ₘ s.children.values := by
    rw [KeyedMap.values_insert]
    exact Multiset.cons_le_cons i (KeyedMap.values_erase_le key s.children)
  have hsub : unnamed held + KeyedMap.values (s.children.insert key i)
      ≤ unnamed (.detached i ::ₘ held) + s.children.values := by
    rw [unnamed_detached, Multiset.cons_add, ← Multiset.add_cons]
    exact Multiset.add_le_add_left hle
  refine ⟨?_, h.started, h.root, h.stored, Multiset.nodup_of_le hsub h.distinct,
    fun j hj => h.given j (Multiset.mem_of_le hsub hj), fun j hj => ?_,
    fun j hj => h.detached j (Multiset.mem_cons_of_mem hj),
    fun j hj => h.fresh j (Multiset.mem_cons_of_mem hj), ?_, ?_⟩
  · have hbudget := h.budget
    rwa [Multiset.count_cons_of_ne (by simp)] at hbudget
  · rcases Multiset.mem_cons.mp (Multiset.mem_of_le hle hj) with rfl | hj
    · exact h.detached j (Multiset.mem_cons_self _ _)
    · exact h.named j hj
  · simpa using h.issuedOnce
  · simpa using h.issued

/-- What is taken out of the names is held. -/
theorem removeChild (h : SoundWith held s) {key : UInt64 × OsStr}
    (hi : s.children.lookup key = some i) :
    SoundWith (.detached i ::ₘ held) { s with children := s.children.erase key } := by
  have hvalues := KeyedMap.values_erase hi
  have hsame : unnamed (.detached i ::ₘ held) + KeyedMap.values (s.children.erase key)
      = unnamed held + s.children.values := by
    rw [unnamed_detached, Multiset.cons_add, ← Multiset.add_cons, ← hvalues]
  refine ⟨?_, h.started, h.root, h.stored, ?_, ?_, fun j hj => ?_, fun j hj => ?_, fun j hj => ?_,
    ?_, ?_⟩
  · have hbudget := h.budget
    rwa [Multiset.count_cons_of_ne (by simp)]
  · change (unnamed (.detached i ::ₘ held) + KeyedMap.values (s.children.erase key)).Nodup
    rw [hsame]
    exact h.distinct
  · change ∀ j ∈ unnamed (.detached i ::ₘ held) + KeyedMap.values (s.children.erase key), Given s.nextIno j
    rw [hsame]
    exact h.given
  · refine h.named j ?_
    rw [hvalues]
    exact Multiset.mem_cons_of_mem hj
  · rcases Multiset.mem_cons.mp hj with hji | hj
    · obtain rfl : j = i := by injection hji
      exact h.named j (KeyedMap.mem_values.mpr ⟨key, hi⟩)
    · exact h.detached j hj
  · exact h.fresh j (by simpa using hj)
  · simpa using h.issuedOnce
  · simpa using h.issued

/-- An inode that is held is no longer stored. -/
theorem removeNode (h : SoundWith (.detached i ::ₘ held) s) :
    SoundWith held { s with inodes := s.inodes.erase i } := by
  have hdistinct := h.distinct
  rw [unnamed_detached, Multiset.cons_add, Multiset.nodup_cons] at hdistinct
  obtain ⟨hothers, hnodup⟩ := hdistinct
  have hmem : i ∈ unnamed (.detached i ::ₘ held) + s.children.values := by simp
  refine ⟨?_, h.started, ?_, fun {j node} hj => ?_, hnodup, fun j hj => h.given j ?_, fun j hj => ?_,
    fun j hj => ?_, fun j hj => ?_, ?_, ?_⟩
  · have hbudget := h.budget
    rwa [Multiset.count_cons_of_ne (by simp)] at hbudget
  · obtain ⟨root, hroot, hkind⟩ := h.root
    exact ⟨root, by rwa [AList.lookup_erase_ne (h.ne_root hmem).symm], hkind⟩
  · by_cases hji : j = i
    · subst hji
      rw [AList.lookup_erase] at hj
      cases hj
    · rw [AList.lookup_erase_ne hji] at hj
      exact h.stored hj
  · rw [unnamed_detached, Multiset.cons_add]
    exact Multiset.mem_cons_of_mem hj
  · have hji : j ≠ i := by
      rintro rfl
      exact hothers (Multiset.mem_add.mpr (.inr hj))
    rw [AList.lookup_erase_ne hji]
    exact h.named j hj
  · have hji : j ≠ i := by
      rintro rfl
      exact hothers (Multiset.mem_add.mpr (.inl (mem_unnamed_of_detached hj)))
    rw [AList.lookup_erase_ne hji]
    exact h.detached j (Multiset.mem_cons_of_mem hj)
  · by_cases hji : j = i
    · subst hji
      exact AList.lookup_erase j s.inodes
    · rw [AList.lookup_erase_ne hji]
      exact h.fresh j (Multiset.mem_cons_of_mem hj)
  · simpa using h.issuedOnce
  · simpa using h.issued

/-- An inode changes, but not its number or its kind. -/
theorem updateNode (h : SoundWith held s) (i : UInt64) {f : INode → INode}
    (hf : ∀ node, (f node).ino = node.ino ∧ (f node).kind = node.kind) :
    SoundWith held { s with inodes := KeyedMap.modify i f s.inodes } := by
  have hsome : ∀ {j}, ((KeyedMap.modify i f s.inodes).lookup j).isSome
      = (s.inodes.lookup j).isSome := by
    intro j
    rw [KeyedMap.lookup_modify]
    split_ifs with hji
    · subst hji
      exact Option.isSome_map
    · rfl
  refine ⟨h.budget, h.started, ?_, fun {j node} hj => ?_, h.distinct, h.given,
    fun j hj => hsome.trans (h.named j hj), fun j hj => hsome.trans (h.detached j hj),
    fun j hj => ?_, h.issuedOnce, h.issued⟩
  · obtain ⟨root, hroot, hkind⟩ := h.root
    by_cases hri : ROOT_INO_RAW = i
    · subst hri
      refine ⟨f root, ?_, (hf root).2.trans hkind⟩
      rw [KeyedMap.lookup_modify, if_pos rfl, hroot]
      rfl
    · refine ⟨root, ?_, hkind⟩
      rw [KeyedMap.lookup_modify, if_neg hri]
      exact hroot
  · rw [KeyedMap.lookup_modify] at hj
    split_ifs at hj with hji
    · subst hji
      obtain ⟨old, hold, rfl⟩ := Option.map_eq_some_iff.mp hj
      exact ⟨(hf old).1.trans (h.stored hold).1, (h.stored hold).2⟩
    · exact h.stored hj
  · have hnone := hsome (j := j)
    rw [h.fresh j hj] at hnone
    exact Option.isSome_eq_false_iff.mp hnone |> Option.isNone_iff_eq_none.mp

end SoundWith
end Confuse
