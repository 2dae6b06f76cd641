import Mathlib.Logic.Basic

/-!
# Labelled transitions

The steps of a system are labelled; a step that is not enabled cannot be taken. Two systems that
share nothing run side by side, their steps in any order.
-/

structure Transitions (σ α : Type) where
  step : α → σ → Option σ

namespace Transitions
variable {σ τ α β : Type} {A : Transitions σ α} {B : Transitions τ β}

def run (A : Transitions σ α) : List α → σ → Option σ
  | [], s => some s
  | a :: rest, s => (A.step a s).bind (A.run rest)

/-- Every step is taken in a state that allows it. -/
def Obeys (A : Transitions σ α) (C : α → σ → Prop) : List α → σ → Prop
  | [], _ => True
  | a :: rest, s => C a s ∧ ∀ t, A.step a s = some t → A.Obeys C rest t

/-- The allowed steps keep `I`. -/
def Preserves (A : Transitions σ α) (C : α → σ → Prop) (I : σ → Prop) : Prop :=
  ∀ a s t, A.step a s = some t → C a s → I s → I t

/-- Either system takes a step. -/
def beside (A : Transitions σ α) (B : Transitions τ β) : Transitions (σ × τ) (α ⊕ β) where
  step
    | .inl a, s => (A.step a s.1).map fun t => (t, s.2)
    | .inr b, s => (B.step b s.2).map fun t => (s.1, t)

variable {C : α → σ → Prop} {D : β → τ → Prop} {I Bad : σ → Prop} {J : τ → Prop}

theorem run_cons {a : α} {rest : List α} {s t : σ} :
    A.run (a :: rest) s = some t ↔ ∃ u, A.step a s = some u ∧ A.run rest u = some t :=
  Option.bind_eq_some_iff

theorem run_append {first rest : List α} {s t u : σ} (hfirst : A.run first s = some t)
    (hrest : A.run rest t = some u) : A.run (first ++ rest) s = some u := by
  induction first generalizing s with
  | nil =>
      cases hfirst
      exact hrest
  | cons a first ih =>
      obtain ⟨v, hstep, hrun⟩ := run_cons.mp hfirst
      exact run_cons.mpr ⟨v, hstep, ih hrun⟩

theorem obeys_true (actions : List α) (s : σ) : A.Obeys (fun _ _ => True) actions s := by
  induction actions generalizing s with
  | nil => exact trivial
  | cons a rest ih => exact ⟨trivial, fun t _ => ih t⟩

theorem Preserves.run (h : A.Preserves C I) {actions : List α} {s t : σ}
    (hrun : A.run actions s = some t) (hobeys : A.Obeys C actions s) (hs : I s) : I t := by
  induction actions generalizing s with
  | nil =>
      cases hrun
      exact hs
  | cons a rest ih =>
      obtain ⟨u, hstep, hrest⟩ := run_cons.mp hrun
      exact ih hrest (hobeys.2 u hstep) (h a s u hstep hobeys.1 hs)

/-- If a step that is not allowed does lasting harm, the runs without harm are those that take only
allowed steps. -/
theorem obeys_iff (hgood : A.Preserves C I) (hbad : A.Preserves (fun _ _ => True) Bad)
    (hharm : ∀ a s t, A.step a s = some t → ¬ C a s → I s → Bad t) (happart : ∀ s, I s → ¬ Bad s)
    {actions : List α} {s t : σ} (hrun : A.run actions s = some t) (hs : I s) :
    A.Obeys C actions s ↔ ¬ Bad t := by
  induction actions generalizing s with
  | nil =>
      cases hrun
      exact iff_of_true trivial (happart _ hs)
  | cons a rest ih =>
      obtain ⟨u, hstep, hrest⟩ := run_cons.mp hrun
      by_cases hallowed : C a s
      · rw [← ih hrest (hgood a s u hstep hallowed hs)]
        constructor
        · intro hobeys
          exact hobeys.2 u hstep
        · intro hobeys
          refine ⟨hallowed, fun u' hstep' => ?_⟩
          obtain rfl := Option.some.inj (hstep.symm.trans hstep')
          exact hobeys
      · refine iff_of_false (fun hobeys => hallowed hobeys.1) (not_not.mpr ?_)
        have hbroken : Bad u := hharm a s u hstep hallowed hs
        exact hbad.run hrest (obeys_true rest u) hbroken

theorem Preserves.beside (hA : A.Preserves C I) (hB : B.Preserves D J) :
    (A.beside B).Preserves (Sum.elim (fun a s => C a s.1) fun b s => D b s.2)
      fun s => I s.1 ∧ J s.2 := by
  intro action s t hstep hallowed hs
  cases action with
  | inl a =>
      obtain ⟨u, hu, rfl⟩ := Option.map_eq_some_iff.mp hstep
      exact ⟨hA a s.1 u hu hallowed hs.1, hs.2⟩
  | inr b =>
      obtain ⟨u, hu, rfl⟩ := Option.map_eq_some_iff.mp hstep
      exact ⟨hs.1, hB b s.2 u hu hallowed hs.2⟩

/-- One system runs while the other rests. -/
theorem run_inl {actions : List α} {s u : σ} (t : τ) (hrun : A.run actions s = some u) :
    (A.beside B).run (actions.map .inl) (s, t) = some (u, t) := by
  induction actions generalizing s with
  | nil =>
      cases hrun
      rfl
  | cons a rest ih =>
      obtain ⟨v, hstep, hrest⟩ := run_cons.mp hrun
      refine run_cons.mpr ⟨(v, t), ?_, ih hrest⟩
      change (A.step a s).map _ = _
      rw [hstep]
      rfl

end Transitions
