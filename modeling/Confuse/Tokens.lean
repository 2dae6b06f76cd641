import Confuse.Mutexes
import Mathlib.Algebra.BigOperators.Group.Finset.Piecewise
import Mathlib.Algebra.Order.Group.Multiset
import Mathlib.Data.Fintype.Basic

/-!
# Invariants over tokens

Every task of a pool holds tokens, and an invariant ties the tokens that are held to the shared data.
An operation changes the tokens of the task that performs it and no others, so a task keeps the
invariant when each of its operations does, whatever tokens the other tasks hold. What holds for each
task then holds for the pool under every schedule.
-/

namespace Interaction

variable {S : Signature} {Λ σ τ α β : Type}

section Rules
variable (M : Prog.Machine S σ) (I : Multiset τ → σ → Prop) (mayPanic : Prop)

/-- Every operation keeps the invariant, and `Q` holds of the result and the tokens that are left. -/
def Prog.Keeps (Q : α → Multiset τ → Prop) : Prog (S.guarded Λ) α → Multiset τ → Prop
  | .pure a, held => Q a held
  | .op (.inl o) next, held => ∀ frame s, I (held + frame) s →
      ∃ held', I (held' + frame) (M o s).2 ∧ (next (M o s).1).Keeps Q held'
  | .op (.inr (.lock _)) next, held =>
      ∀ poisoned : Bool, (poisoned = true → mayPanic) → (next poisoned).Keeps Q held
  | .op (.inr (.unlock _ panicking)) next, held =>
      (panicking = true → mayPanic) ∧ (next ()).Keeps Q held

/-- A program that may panic at most where this is allowed. -/
def Panicking.Keeps (Q : α → Multiset τ → Prop) (p : Panicking S Λ α) (held : Multiset τ) : Prop :=
  p.run.Keeps M I mayPanic (fun r held' => r.elim mayPanic fun a => Q a held') held

variable {M I mayPanic} {Q Q' : α → Multiset τ → Prop} {R : β → Multiset τ → Prop}
  {held : Multiset τ}

theorem Prog.Keeps.bind {p : Prog (S.guarded Λ) α} {f : α → Prog (S.guarded Λ) β}
    (hp : p.Keeps M I mayPanic Q held)
    (hf : ∀ a held', Q a held' → (f a).Keeps M I mayPanic R held') :
    (p >>= f).Keeps M I mayPanic R held := by
  induction p generalizing held with
  | pure a => exact hf a held hp
  | op o next ih =>
      rcases o with o | l | ⟨l, panicking⟩
      · intro frame s hs
        obtain ⟨held', hs', hnext⟩ := hp frame s hs
        exact ⟨held', hs', ih _ hnext⟩
      · exact fun poisoned hpoisoned => ih poisoned (hp poisoned hpoisoned)
      · exact ⟨hp.1, ih () hp.2⟩

theorem Prog.Keeps.mono {p : Prog (S.guarded Λ) α} (hp : p.Keeps M I mayPanic Q held)
    (h : ∀ a held', Q a held' → Q' a held') : p.Keeps M I mayPanic Q' held := by
  have hbind := hp.bind (f := Prog.pure) h
  rwa [show p >>= Prog.pure = p from Prog.bind_pure p] at hbind

namespace Panicking.Keeps

theorem panic (h : mayPanic) : (Panicking.panic : Panicking S Λ α).Keeps M I mayPanic Q held := h

theorem bind {p : Panicking S Λ α} {f : α → Panicking S Λ β} (hp : p.Keeps M I mayPanic Q held)
    (hf : ∀ a held', Q a held' → (f a).Keeps M I mayPanic R held') :
    (p >>= f).Keeps M I mayPanic R held := by
  refine Prog.Keeps.bind hp fun r held' hr => ?_
  cases r with
  | none => exact hr
  | some a => exact hf a held' hr

theorem access {o : S.Op} {Q : S.Res o → Multiset τ → Prop}
    (h : ∀ frame s, I (held + frame) s →
      ∃ held', I (held' + frame) (M o s).2 ∧ Q (M o s).1 held') :
    (Panicking.access o : Panicking S Λ _).Keeps M I mayPanic Q held := h

theorem withLock {l : Λ} {body : Panicking S Λ α} (h : body.Keeps M I mayPanic Q held) :
    (Panicking.withLock l body).Keeps M I mayPanic Q held := by
  intro poisoned hpoisoned
  cases poisoned with
  | true => exact ⟨hpoisoned, hpoisoned rfl⟩
  | false =>
      change Prog.Keeps M I mayPanic _
        (body.run >>= fun r => Prog.unlock l r.isNone >>= fun _ => Pure.pure r) held
      refine Prog.Keeps.bind h fun r held' hr => ⟨fun hnone => ?_, hr⟩
      cases r with
      | none => exact hr
      | some a => cases hnone

end Panicking.Keeps
end Rules

/-! ## Pools -/

namespace Pool
variable {ι : Type} [DecidableEq ι] [Fintype ι] [DecidableEq Λ] {α : ι → Type}

/-- All tasks keep the invariant, which holds of the tokens of all tasks. -/
structure Holds (M : Prog.Machine S σ) (I : Multiset τ → σ → Prop) (mayPanic : Prop)
    (Q : (i : ι) → α i → Multiset τ → Prop) (held : ι → Multiset τ) (p : Pool S Λ σ α) : Prop where
  tasks : ∀ i, (p.tasks i).Keeps M I mayPanic (Q i) (held i)
  data : I (∑ i, held i) p.data
  poisoned : ∀ l, p.poisoned l = true → mayPanic

variable {M : Prog.Machine S σ} {I : Multiset τ → σ → Prop} {mayPanic : Prop}
  {Q : (i : ι) → α i → Multiset τ → Prop} {held : ι → Multiset τ} {p : Pool S Λ σ α}

omit [DecidableEq Λ] in
/-- The tasks after one of them has moved on. -/
theorem Holds.update_task (h : p.Holds M I mayPanic Q held) {i : ι} {held' : Multiset τ}
    {task : Prog (S.guarded Λ) (α i)} (htask : task.Keeps M I mayPanic (Q i) held') (j : ι) :
    (Function.update p.tasks i task j).Keeps M I mayPanic (Q j) (Function.update held i held' j) := by
  by_cases hj : j = i
  · subst hj
    rwa [Function.update_self, Function.update_self]
  · rw [Function.update_of_ne hj, Function.update_of_ne hj]
    exact h.tasks j

theorem Holds.step (h : p.Holds M I mayPanic Q held) (i : ι) :
    ∃ held', (p.step M i).Holds M I mayPanic Q held' := by
  have htask := h.tasks i
  cases hp : p.tasks i with
  | pure a =>
      rw [step_pure hp]
      exact ⟨held, h⟩
  | op o next =>
      rw [hp] at htask
      rcases o with o | l | ⟨l, panicking⟩
      · have hsum := Finset.add_sum_erase Finset.univ held (Finset.mem_univ i)
        have hdata := h.data
        rw [← hsum] at hdata
        obtain ⟨held', hdata', hnext⟩ := htask _ _ hdata
        rw [step_access hp]
        refine ⟨Function.update held i held', h.update_task hnext, ?_, h.poisoned⟩
        rw [Finset.sum_update_of_mem (Finset.mem_univ i), Finset.sdiff_singleton_eq_erase]
        exact hdata'
      · by_cases hl : p.owner l = none
        · rw [step_lock hp hl]
          refine ⟨held, fun j => ?_, h.data, h.poisoned⟩
          have hnext := h.update_task (htask (p.poisoned l) (h.poisoned l)) j
          rwa [Function.update_eq_self] at hnext
        · rw [step_wait hp hl]
          exact ⟨held, h⟩
      · rw [step_unlock hp]
        refine ⟨held, fun j => ?_, h.data, fun k hk => ?_⟩
        · have hnext := h.update_task htask.2 j
          rwa [Function.update_eq_self] at hnext
        · dsimp only at hk
          by_cases hkl : k = l
          · subst hkl
            rw [Function.update_self, Bool.or_eq_true] at hk
            exact hk.elim (h.poisoned k) htask.1
          · rw [Function.update_of_ne hkl] at hk
            exact h.poisoned k hk

/-- What every task keeps, the pool keeps under every schedule. -/
theorem Holds.run (h : p.Holds M I mayPanic Q held) (schedule : List ι) :
    ∃ held', (p.run M schedule).Holds M I mayPanic Q held' := by
  induction schedule generalizing p held with
  | nil => exact ⟨held, h⟩
  | cons i rest ih =>
      obtain ⟨held', hstep⟩ := h.step i
      exact ih hstep

end Pool

/-! ## A task that runs alone -/

/-- A task keeps the invariant on its own, with the tokens of others in the frame. -/
theorem Prog.Keeps.runAlone [DecidableEq Λ] {M : Prog.Machine S σ} {I : Multiset τ → σ → Prop}
    {mayPanic : Prop} {Q : α → Multiset τ → Prop} {p : Prog (S.guarded Λ) α} {held frame : Multiset τ}
    {s : σ × (Λ → Bool)} (hp : p.Keeps M I mayPanic Q held) (hs : I (held + frame) s.1)
    (hpoisoned : ∀ l, s.2 l = true → mayPanic) :
    ∃ held', I (held' + frame) (p.run M.alone s).2.1 ∧ Q (p.run M.alone s).1 held' ∧
      ∀ l, (p.run M.alone s).2.2 l = true → mayPanic := by
  induction p generalizing held s with
  | pure a => exact ⟨held, hs, hp, hpoisoned⟩
  | op o next ih =>
      rcases o with o | l | ⟨l, panicking⟩
      · obtain ⟨held', hs', hnext⟩ := hp frame s.1 hs
        exact ih _ (s := ((M o s.1).2, s.2)) hnext hs' hpoisoned
      · exact ih _ (hp (s.2 l) (hpoisoned l)) hs hpoisoned
      · refine ih _ hp.2 hs fun k hk => ?_
        change Function.update s.2 l (s.2 l || panicking) k = true at hk
        by_cases hkl : k = l
        · subst hkl
          rw [Function.update_self, Bool.or_eq_true] at hk
          exact hk.elim (hpoisoned k) hp.1
        · rw [Function.update_of_ne hkl] at hk
          exact hpoisoned k hk

end Interaction
