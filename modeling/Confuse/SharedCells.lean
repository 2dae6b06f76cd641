import Mathlib.Logic.Function.Basic

/-!
# Users of shared cells

Users act on cells that they share. What an action shows to its user and what it leaves in its cell
depend on what the cell holds. A user is isolated when it sees what it would see on its own; all
users are isolated exactly when every action shows the same as it would with what the last action of
its own user left in the cell.
-/

/-- Actions on cells; `cell` is `none` for an action that uses no cell. -/
structure SharedCells (η κ ν ω γ : Type) where
  user : γ → η
  cell : γ → Option κ
  initial : ν
  view : γ → ν → ω
  next : γ → ν → ν

namespace SharedCells
variable {η κ ν ω γ : Type} (A : SharedCells η κ ν ω γ)

/-- What the cell of an action holds. -/
def held (s : κ → ν) (c : γ) : ν := (A.cell c).elim A.initial s

/-- What is shown along a run, with the users. -/
def shown (c : γ) (s : κ → ν) : η × ω := (A.user c, A.view c (A.held s c))

/-- What an action shows decides what it leaves. -/
def Determined : Prop := ∀ c v v', A.view c v = A.view c v' → A.next c v = A.next c v'

variable [DecidableEq κ]

def step (s : κ → ν) (c : γ) : κ → ν :=
  (A.cell c).elim s fun k => Function.update s k (A.next c (s k))

def views (s : κ → ν) : List γ → List (η × ω)
  | [] => []
  | c :: rest => A.shown c s :: views (A.step s c) rest

variable [DecidableEq η]

/-- The actions of one user. -/
def ofUser (u : η) (cs : List γ) : List γ := cs.filter fun c => A.user c = u

/-- For each user what its last action left in each cell, after one more action. -/
def leave (own : η → κ → ν) (s : κ → ν) (c : γ) : η → κ → ν :=
  (A.cell c).elim own fun k =>
    Function.update own (A.user c) (Function.update (own (A.user c)) k (A.next c (s k)))

/-- Every action shows the same as it would with what its user's last action left. -/
def Undisturbed (s : κ → ν) (own : η → κ → ν) : List γ → Prop
  | [] => True
  | c :: rest => A.view c (A.held s c) = A.view c (A.held (own (A.user c)) c) ∧
      Undisturbed (A.step s c) (A.leave own s c) rest

/-- Every user sees what it would see on its own. -/
def Isolated (s : κ → ν) (own : η → κ → ν) (cs : List γ) : Prop :=
  ∀ u, ((A.views s cs).filter fun p => p.1 = u) = A.views (own u) (A.ofUser u cs)

variable {A}

theorem leave_of_ne {own : η → κ → ν} {s : κ → ν} {c : γ} {u : η} (h : A.user c ≠ u) :
    A.leave own s c u = own u := by
  unfold leave
  cases A.cell c with
  | none => rfl
  | some k => exact Function.update_of_ne (Ne.symm h) _ _

/-- As long as an action shows the same, it leaves the same. -/
theorem step_own (hA : A.Determined) {own : η → κ → ν} {s : κ → ν} {c : γ}
    (h : A.view c (A.held s c) = A.view c (A.held (own (A.user c)) c)) :
    A.step (own (A.user c)) c = A.leave own s c (A.user c) := by
  have hnext := hA c _ _ h
  unfold held at hnext
  unfold step leave
  cases hcell : A.cell c with
  | none => rfl
  | some k =>
      rw [hcell, Option.elim_some, Option.elim_some] at hnext
      rw [Option.elim_some, Option.elim_some, Function.update_self, hnext]

theorem isolated_iff (hA : A.Determined) (s : κ → ν) (own : η → κ → ν) (cs : List γ) :
    A.Isolated s own cs ↔ A.Undisturbed s own cs := by
  induction cs generalizing s own with
  | nil => exact ⟨fun _ => trivial, fun _ _ => rfl⟩
  | cons c rest ih =>
      have hown : ∀ u, A.user c = u →
          ((((A.views s (c :: rest)).filter fun p => p.1 = u) = A.views (own u) (A.ofUser u (c :: rest)))
            ↔ A.view c (A.held s c) = A.view c (A.held (own u) c) ∧
              ((A.views (A.step s c) rest).filter fun p => p.1 = u)
                = A.views (A.step (own u) c) (A.ofUser u rest)) := by
        rintro u rfl
        simp [views, ofUser, shown]
      have hother : ∀ u, A.user c ≠ u →
          ((((A.views s (c :: rest)).filter fun p => p.1 = u) = A.views (own u) (A.ofUser u (c :: rest)))
            ↔ ((A.views (A.step s c) rest).filter fun p => p.1 = u)
                = A.views (own u) (A.ofUser u rest)) := by
        intro u hu
        simp [views, ofUser, shown, hu]
      have hrest := ih (A.step s c) (A.leave own s c)
      constructor
      · intro hall
        obtain ⟨hview, -⟩ := (hown _ rfl).mp (hall (A.user c))
        refine ⟨hview, hrest.mp fun u => ?_⟩
        by_cases hu : A.user c = u
        · obtain ⟨-, htail⟩ := (hown u hu).mp (hall u)
          subst hu
          rwa [step_own hA hview] at htail
        · rw [leave_of_ne hu]
          exact (hother u hu).mp (hall u)
      · rintro ⟨hview, hlater⟩ u
        have htail := hrest.mpr hlater u
        by_cases hu : A.user c = u
        · subst hu
          rw [← step_own hA hview] at htail
          exact (hown _ rfl).mpr ⟨hview, htail⟩
        · rw [leave_of_ne hu] at htail
          exact (hother u hu).mpr htail

end SharedCells
