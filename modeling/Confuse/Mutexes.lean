import Confuse.Interaction
import Mathlib.Logic.Function.Basic

/-!
# Programs that share mutexes

Tasks operate on shared data and take mutexes around their operations. A mutex that is released
during a panic is poisoned, and taking a poisoned mutex panics. A task that waits for a mutex stays
where it is. A task that runs alone never waits, so its run is that of a machine.
-/

namespace Interaction

inductive MutexOp (Λ : Type)
  | lock (l : Λ)
  | unlock (l : Λ) (panicking : Bool)

/-- Taking a mutex tells whether it is poisoned. -/
def MutexOp.Res {Λ : Type} : MutexOp Λ → Type
  | .lock _ => Bool
  | .unlock _ _ => Unit

/-- The operations of `S` on the data, and those on the mutexes. -/
def Signature.guarded (S : Signature) (Λ : Type) : Signature where
  Op := S.Op ⊕ MutexOp Λ
  Res := Sum.elim S.Res MutexOp.Res

variable {S : Signature} {Λ σ α β : Type}

namespace Prog

def lock (l : Λ) : Prog (S.guarded Λ) Bool := .perform (S := S.guarded Λ) (.inr (.lock l))

def unlock (l : Λ) (panicking : Bool) : Prog (S.guarded Λ) Unit :=
  .perform (S := S.guarded Λ) (.inr (.unlock l panicking))

end Prog

/-- A program that may panic. -/
abbrev Panicking (S : Signature) (Λ : Type) := OptionT (Prog (S.guarded Λ))

namespace Panicking

/-- An operation on the data. -/
def access (o : S.Op) : Panicking S Λ (S.Res o) :=
  OptionT.mk (.op (S := S.guarded Λ) (.inl o) fun r => .pure (some r))

def panic : Panicking S Λ α := OptionT.mk (.pure none)

/-- What runs while the guard of a mutex is held. -/
def withLock (l : Λ) (body : Panicking S Λ α) : Panicking S Λ α := OptionT.mk do
  if ← Prog.lock l then
    Prog.unlock l true
    pure none
  else
    let result ← body.run
    Prog.unlock l result.isNone
    pure result

end Panicking

/-! ## A task that runs alone -/

variable [DecidableEq Λ]

/-- The data and the poisoned mutexes. -/
def Prog.Machine.alone (M : Prog.Machine S σ) : Prog.Machine (S.guarded Λ) (σ × (Λ → Bool))
  | .inl o, s => ((M o s.1).1, (M o s.1).2, s.2)
  | .inr (.lock l), s => (s.2 l, s)
  | .inr (.unlock l panicking), s =>
      ((), s.1, Function.update s.2 l (s.2 l || panicking))

namespace Panicking
variable (M : Prog.Machine S σ)

/-- The run of a program that meets no other task and no poisoned mutex. -/
def runAlone (p : Panicking S Λ α) (s : σ × (Λ → Bool)) : Option α × (σ × (Λ → Bool)) :=
  Prog.run (Prog.Machine.alone M) p.run s

variable {M} {s : σ × (Λ → Bool)}

@[simp] theorem runAlone_pure (a : α) :
    (pure a : Panicking S Λ α).runAlone M s = (some a, s) := rfl

@[simp] theorem runAlone_panic : (panic : Panicking S Λ α).runAlone M s = (none, s) := rfl

@[simp] theorem runAlone_access (o : S.Op) :
    (access o : Panicking S Λ _).runAlone M s = (some (M o s.1).1, (M o s.1).2, s.2) := rfl

theorem runAlone_bind (p : Panicking S Λ α) (f : α → Panicking S Λ β) :
    (p >>= f).runAlone M s = (p.runAlone M s).1.elim (none, (p.runAlone M s).2)
      fun a => (f a).runAlone M (p.runAlone M s).2 := by
  unfold runAlone
  change Prog.run _ (p.run >>= fun r => _) s = _
  rw [Prog.run_bind]
  rcases Prog.run (Prog.Machine.alone M) p.run s with ⟨_ | a, t⟩ <;> rfl

theorem runAlone_bind_some {p : Panicking S Λ α} {f : α → Panicking S Λ β} {a : α}
    {t : σ × (Λ → Bool)} (h : p.runAlone M s = (some a, t)) :
    (p >>= f).runAlone M s = (f a).runAlone M t := by
  rw [runAlone_bind, h]
  rfl

/-- A guard that is dropped without a panic leaves the mutex as it was. -/
theorem runAlone_withLock {l : Λ} {body : Panicking S Λ α} {a : α} {t : σ × (Λ → Bool)}
    (hl : s.2 l = false) (h : body.runAlone M s = (some a, t)) :
    (withLock l body).runAlone M s = (some a, t) := by
  unfold runAlone at h ⊢
  change Prog.run _ (Prog.lock l >>= fun poisoned => _) s = _
  rw [Prog.run_bind]
  change Prog.run _ (if s.2 l = true then _ else _) s = _
  rw [hl, if_neg Bool.false_ne_true, Prog.run_bind, h]
  change (some a, t.1, Function.update t.2 l (t.2 l || false)) = _
  rw [Bool.or_false, Function.update_eq_self]

end Panicking

/-! ## Pools -/

/-- Tasks with the data and the mutexes that they share. -/
structure Pool (S : Signature) (Λ σ : Type) {ι : Type} (α : ι → Type) where
  tasks : (i : ι) → Prog (S.guarded Λ) (α i)
  data : σ
  owner : Λ → Option ι
  poisoned : Λ → Bool

namespace Pool
variable {ι : Type} [DecidableEq ι] {α : ι → Type}

/-- Nothing has run yet. -/
def start (tasks : (i : ι) → Prog (S.guarded Λ) (α i)) (data : σ) (poisoned : Λ → Bool) :
    Pool S Λ σ α := ⟨tasks, data, fun _ => none, poisoned⟩

/-- The next operation of one task; a task that has returned or that waits stays where it is. -/
def step (M : Prog.Machine S σ) (i : ι) (p : Pool S Λ σ α) : Pool S Λ σ α :=
  match p.tasks i with
  | .pure _ => p
  | .op (.inl o) next => { p with
      tasks := Function.update p.tasks i (next (M o p.data).1)
      data := (M o p.data).2 }
  | .op (.inr (.lock l)) next =>
      if (p.owner l).isSome then p
      else { p with
        tasks := Function.update p.tasks i (next (p.poisoned l))
        owner := Function.update p.owner l (some i) }
  | .op (.inr (.unlock l panicking)) next => { p with
      tasks := Function.update p.tasks i (next ())
      owner := Function.update p.owner l none
      poisoned := Function.update p.poisoned l (p.poisoned l || panicking) }

/-- The tasks take turns as a schedule says. -/
def run (M : Prog.Machine S σ) (schedule : List ι) (p : Pool S Λ σ α) : Pool S Λ σ α :=
  schedule.foldl (fun p i => p.step M i) p

/-- The tasks run one after the other; their results, and the data and mutexes that are left. -/
def inTurn (M : Prog.Machine S σ) (tasks : (i : ι) → Prog (S.guarded Λ) (α i)) :
    List ι → σ × (Λ → Bool) → List ((i : ι) × α i) × (σ × (Λ → Bool))
  | [], s => ([], s)
  | i :: rest, s =>
      (⟨i, ((tasks i).run M.alone s).1⟩ :: (inTurn M tasks rest ((tasks i).run M.alone s).2).1,
        (inTurn M tasks rest ((tasks i).run M.alone s).2).2)

variable {M : Prog.Machine S σ} {p : Pool S Λ σ α} {i : ι}

theorem step_pure {a : α i} (h : p.tasks i = .pure a) : p.step M i = p := by rw [step, h]

theorem step_access {o : S.Op} {next : S.Res o → Prog (S.guarded Λ) (α i)}
    (h : p.tasks i = .op (.inl o) next) : p.step M i = { p with
      tasks := Function.update p.tasks i (next (M o p.data).1)
      data := (M o p.data).2 } := by
  rw [step, h]

theorem step_lock {l : Λ} {next : Bool → Prog (S.guarded Λ) (α i)}
    (h : p.tasks i = .op (.inr (.lock l)) next) (hl : p.owner l = none) : p.step M i = { p with
      tasks := Function.update p.tasks i (next (p.poisoned l))
      owner := Function.update p.owner l (some i) } := by
  rw [step, h]
  dsimp only
  rw [hl]
  rfl

theorem step_wait {l : Λ} {next : Bool → Prog (S.guarded Λ) (α i)}
    (h : p.tasks i = .op (.inr (.lock l)) next) (hl : p.owner l ≠ none) : p.step M i = p := by
  rw [step, h]
  exact if_pos (Option.isSome_iff_ne_none.mpr hl)

theorem step_unlock {l : Λ} {panicking : Bool} {next : Unit → Prog (S.guarded Λ) (α i)}
    (h : p.tasks i = .op (.inr (.unlock l panicking)) next) : p.step M i = { p with
      tasks := Function.update p.tasks i (next ())
      owner := Function.update p.owner l none
      poisoned := Function.update p.poisoned l (p.poisoned l || panicking) } := by
  rw [step, h]

/-- Only the task whose turn it is moves. -/
theorem step_tasks_of_ne {j : ι} (hj : i ≠ j) : (p.step M j).tasks i = p.tasks i := by
  cases htask : p.tasks j with
  | pure a => rw [step_pure htask]
  | op o next =>
      rcases o with o | l | ⟨l, panicking⟩
      · rw [step_access htask]
        exact Function.update_of_ne hj _ _
      · by_cases hl : p.owner l = none
        · rw [step_lock htask hl]
          exact Function.update_of_ne hj _ _
        · rw [step_wait htask hl]
      · rw [step_unlock htask]
        exact Function.update_of_ne hj _ _

@[simp] theorem run_nil : p.run M [] = p := rfl

@[simp] theorem run_cons (i : ι) (rest : List ι) : p.run M (i :: rest) = (p.step M i).run M rest := rfl

theorem run_append (first rest : List ι) :
    p.run M (first ++ rest) = (p.run M first).run M rest := List.foldl_append

/-- A result stays. -/
theorem run_tasks_of_pure {a : α i} (h : p.tasks i = .pure a) (schedule : List ι) :
    (p.run M schedule).tasks i = .pure a := by
  induction schedule generalizing p with
  | nil => exact h
  | cons j rest ih =>
      rw [run_cons]
      refine ih ?_
      by_cases hj : i = j
      · subst hj
        rw [step_pure h, h]
      · rw [step_tasks_of_ne hj, h]

end Pool
end Interaction
