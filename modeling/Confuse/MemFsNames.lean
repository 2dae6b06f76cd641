import Confuse.MemFsRuns

/-!
# The names that are stored

The file system in memory stores the names that its calls give out, as they are. What holds of all of
these holds of every name that is stored.
-/

namespace Confuse

/-- The name that a call gives to something. -/
def FsCall.newName? : FsCall → Option OsStr
  | .mkdir _ _ name _ _ | .create _ _ name _ _ _ | .rename _ _ _ _ name _ => some name
  | _ => none

namespace MemFs

def Named (P : OsStr → Prop) (children : KeyedMap (UInt64 × OsStr) UInt64) : Prop :=
  ∀ key i, children.lookup key = some i → P key.2

namespace Named
variable {P : OsStr → Prop} {children : KeyedMap (UInt64 × OsStr) UInt64} {clock : ℕ → SystemTime}
  {s : MemFs}

theorem erase (h : Named P children) (key : UInt64 × OsStr) : Named P (children.erase key) := by
  intro key' i hi
  by_cases heq : key' = key
  · rw [heq, AList.lookup_erase] at hi
    cases hi
  · rw [AList.lookup_erase_ne heq] at hi
    exact h key' i hi

theorem insert (h : Named P children) (parent : UInt64) {name : OsStr} (hname : P name)
    (ino : UInt64) : Named P (children.insert (parent, name) ino) := by
  intro key' i hi
  by_cases heq : key' = (parent, name)
  · rw [heq]
    exact hname
  · rw [AList.lookup_insert_ne heq] at hi
    exact h key' i hi

theorem insertEffect (h : Named P s.children) (parent : UInt64) {name : OsStr} (hname : P name)
    (mode : UInt32) (kind : NewNodeKind) :
    Named P (s.insertEffect clock parent name mode kind).children := by
  unfold MemFs.insertEffect
  cases s.children.lookup (parent, name) with
  | none => exact h.insert parent hname _
  | some i => exact h

theorem effect (h : Named P s.children) {c : FsCall} (hc : ∀ name, c.newName? = some name → P name) :
    Named P ((MemFsCall.fs c).effect clock s).children := by
  cases c with
  | mkdir req parent name mode umask => exact h.insertEffect _ (hc name rfl) _ _
  | create req parent name mode umask flags => exact h.insertEffect _ (hc name rfl) _ _
  | unlink req parent name =>
      change Named P (s.unlinkEffect clock parent.raw name).children
      unfold unlinkEffect
      cases s.children.lookup (parent.raw, name) with
      | none => exact h
      | some i => exact h.erase _
  | rmdir req parent name =>
      change Named P (s.rmdirEffect clock parent.raw name).children
      unfold rmdirEffect
      cases hkey : s.children.lookup (parent.raw, name) with
      | none => exact h
      | some i =>
          dsimp only [Option.elim_some]
          split_ifs
          · exact (h.erase _).insert _ (h _ i hkey) i
          · exact h.erase _
  | rename req parent name newparent newname flags =>
      change Named P (s.renameEffect clock parent.raw name newparent.raw newname).children
      unfold renameEffect
      cases s.children.lookup (parent.raw, name) with
      | none => exact h
      | some i => exact ((h.erase _).erase _).insert _ (hc newname rfl) i
  | _ => exact h

theorem served {calls : List FsCall} (hsizes : ∀ c ∈ calls, c.panics = false)
    (hcalls : ∀ c ∈ calls, ∀ name, c.newName? = some name → P name) (h : Named P s.children) :
    Named P (served clock (calls.map .fs) (calm s)).1.children := by
  induction calls generalizing s with
  | nil => exact h
  | cons c calls ih =>
      rw [List.forall_mem_cons] at hsizes hcalls
      have hrun : ((MemFsCall.fs c).program.run (Interaction.Prog.Machine.alone (machine clock))
          (calm s)).2 = calm ((MemFsCall.fs c).effect clock s) := run_effect clock s hsizes.1
      rw [List.map_cons, MemFs.served, List.foldl_cons, hrun]
      exact ih hsizes.2 hcalls.2 (h.effect hcalls.1)

end Named
end MemFs
end Confuse
