import Confuse.Mutexes
import Mathlib.Algebra.BigOperators.Group.Finset.Piecewise
import Mathlib.Algebra.Order.BigOperators.Group.Finset
import Mathlib.Data.Finset.Max
import Mathlib.Data.Fintype.Basic

/-!
# Mutexes taken in order

Mutexes have ranks. A task is orderly when it takes mutexes in the order of their ranks, releases the
one that it took last first, holds none in the end and performs a bounded number of operations. In a
pool of orderly tasks some task can always move until all have returned, so every schedule that gives
all tasks enough turns lets all of them return.
-/

namespace Interaction

variable {S : Signature} {Λ σ α β : Type}

section Rules
variable (rank : Λ → ℕ)

/-- At most `n` operations lead from the mutexes in `held` to those in `base`. -/
def Prog.Orderly (base : List Λ) : ℕ → List Λ → Prog (S.guarded Λ) α → Prop
  | _, held, .pure _ => held = base
  | 0, _, .op _ _ => False
  | n + 1, held, .op (.inl _) next => ∀ r, (next r).Orderly base n held
  | n + 1, held, .op (.inr (.lock l)) next =>
      (∀ k ∈ held, rank k < rank l) ∧ ∀ poisoned : Bool, (next poisoned).Orderly base n (l :: held)
  | n + 1, held, .op (.inr (.unlock l _)) next =>
      ∃ rest, held = l :: rest ∧ (next ()).Orderly base n rest

/-- The program releases all mutexes that it takes. -/
def Panicking.Orderly (n : ℕ) (held : List Λ) (p : Panicking S Λ α) : Prop :=
  p.run.Orderly rank held n held

variable {rank} {base mid held : List Λ} {m n : ℕ}

theorem Prog.Orderly.mono {p : Prog (S.guarded Λ) α} (hp : p.Orderly rank base m held) (h : m ≤ n) :
    p.Orderly rank base n held := by
  induction p generalizing m n held with
  | pure a =>
      cases m <;> cases n <;> exact hp
  | op o next ih =>
      cases m with
      | zero => exact hp.elim
      | succ m =>
          obtain ⟨n, rfl⟩ : ∃ n', n = n' + 1 := ⟨n - 1, by omega⟩
          have hmn : m ≤ n := by omega
          rcases o with o | l | ⟨l, panicking⟩
          · exact fun r => ih r (hp r) hmn
          · exact ⟨hp.1, fun poisoned => ih poisoned (hp.2 poisoned) hmn⟩
          · obtain ⟨rest, hheld, hnext⟩ := hp
            exact ⟨rest, hheld, ih () hnext hmn⟩

theorem Prog.Orderly.bind {p : Prog (S.guarded Λ) α} {f : α → Prog (S.guarded Λ) β}
    (hp : p.Orderly rank mid m held) (hf : ∀ a, (f a).Orderly rank base n mid) :
    (p >>= f).Orderly rank base (m + n) held := by
  induction p generalizing m held with
  | pure a =>
      obtain rfl : held = mid := by cases m <;> exact hp
      exact (hf a).mono (Nat.le_add_left n m)
  | op o next ih =>
      cases m with
      | zero => exact hp.elim
      | succ m =>
          rw [Nat.succ_add]
          rcases o with o | l | ⟨l, panicking⟩
          · exact fun r => ih r (hp r)
          · exact ⟨hp.1, fun poisoned => ih poisoned (hp.2 poisoned)⟩
          · obtain ⟨rest, hheld, hnext⟩ := hp
            exact ⟨rest, hheld, ih () hnext⟩

namespace Panicking.Orderly

theorem pure (a : α) : (Pure.pure a : Panicking S Λ α).Orderly rank 0 held := rfl

theorem panic : (Panicking.panic : Panicking S Λ α).Orderly rank 0 held := rfl

theorem access (o : S.Op) : (Panicking.access o : Panicking S Λ _).Orderly rank 1 held :=
  fun _ => rfl

theorem mono {p : Panicking S Λ α} (hp : p.Orderly rank m held) (h : m ≤ n) :
    p.Orderly rank n held := Prog.Orderly.mono hp h

theorem bind {p : Panicking S Λ α} {f : α → Panicking S Λ β} (hp : p.Orderly rank m held)
    (hf : ∀ a, (f a).Orderly rank n held) : (p >>= f).Orderly rank (m + n) held := by
  refine Prog.Orderly.bind hp fun r => ?_
  cases r with
  | none => exact Prog.Orderly.mono (panic (α := β)) (Nat.zero_le n)
  | some a => exact hf a

theorem withLock {l : Λ} {body : Panicking S Λ α} (hl : ∀ k ∈ held, rank k < rank l)
    (h : body.Orderly rank n (l :: held)) :
    (Panicking.withLock l body).Orderly rank (n + 2) held := by
  refine ⟨hl, fun poisoned => ?_⟩
  cases poisoned with
  | true =>
      refine ⟨held, rfl, ?_⟩
      exact Prog.Orderly.mono (panic (α := α)) (Nat.zero_le n)
  | false =>
      change Prog.Orderly rank held (n + 1) (l :: held)
        (body.run >>= fun r => Prog.unlock l r.isNone >>= fun _ => Pure.pure r)
      exact Prog.Orderly.bind h fun r => ⟨held, rfl, rfl⟩

end Panicking.Orderly
end Rules

def Prog.returned : Prog S α → Bool
  | .pure _ => true
  | .op _ _ => false

/-! ## Pools of orderly tasks -/

namespace Pool
variable {ι : Type} [DecidableEq ι] [DecidableEq Λ] {α : ι → Type}

/-- The next operation of the task takes a mutex that is taken. -/
def Waits (p : Pool S Λ σ α) (i : ι) : Prop :=
  ∃ l next, p.tasks i = .op (.inr (.lock l)) next ∧ p.owner l ≠ none

/-- All tasks are orderly, each with the operations that are left and the mutexes that it holds. -/
structure Ordered (rank : Λ → ℕ) (left : ι → ℕ) (held : ι → List Λ) (p : Pool S Λ σ α) : Prop where
  tasks : ∀ i, (p.tasks i).Orderly rank [] (left i) (held i)
  owner : ∀ l i, p.owner l = some i ↔ l ∈ held i
  sorted : ∀ i, (held i).Pairwise fun k l => rank l < rank k

variable {M : Prog.Machine S σ} {rank : Λ → ℕ} {left : ι → ℕ} {held : ι → List Λ} {p : Pool S Λ σ α}
  {i : ι}

omit [DecidableEq ι] [DecidableEq Λ] in
theorem Ordered.held_of_returned (h : p.Ordered rank left held) (hi : (p.tasks i).returned) :
    held i = [] := by
  have htask := h.tasks i
  cases hp : p.tasks i with
  | pure a =>
      rw [hp] at htask
      cases hl : left i <;> rw [hl] at htask <;> exact htask
  | op o next =>
      rw [hp] at hi
      cases hi

theorem step_of_returned (hi : (p.tasks i).returned) : p.step M i = p := by
  cases hp : p.tasks i with
  | pure a => exact step_pure hp
  | op o next =>
      rw [hp] at hi
      cases hi

theorem step_of_waits (hi : p.Waits i) : p.step M i = p := by
  obtain ⟨l, next, htask, hl⟩ := hi
  exact step_wait htask hl

omit [DecidableEq ι] [DecidableEq Λ] in
theorem owner_eq_none (hi : ¬ p.Waits i) {l : Λ} {next : Bool → Prog (S.guarded Λ) (α i)}
    (htask : p.tasks i = .op (.inr (.lock l)) next) : p.owner l = none := by
  by_contra hl
  exact hi ⟨l, next, htask, hl⟩

omit [DecidableEq Λ] in
/-- The tasks after one of them has moved on. -/
theorem Ordered.update_task (h : p.Ordered rank left held) {task : Prog (S.guarded Λ) (α i)} {n : ℕ}
    {mutexes : List Λ} (hnew : task.Orderly rank [] n mutexes) (j : ι) :
    (Function.update p.tasks i task j).Orderly rank [] (Function.update left i n j)
      (Function.update held i mutexes j) := by
  by_cases hj : j = i
  · subst hj
    rwa [Function.update_self, Function.update_self, Function.update_self]
  · rw [Function.update_of_ne hj, Function.update_of_ne hj, Function.update_of_ne hj]
    exact h.tasks j

omit [DecidableEq Λ] in
theorem Ordered.update_sorted (h : p.Ordered rank left held) {mutexes : List Λ}
    (hnew : mutexes.Pairwise fun k l => rank l < rank k) (j : ι) :
    (Function.update held i mutexes j).Pairwise fun k l => rank l < rank k := by
  by_cases hj : j = i
  · subst hj
    rwa [Function.update_self]
  · rw [Function.update_of_ne hj]
    exact h.sorted j

theorem Ordered.owner_lock (h : p.Ordered rank left held) {l : Λ} (hfree : p.owner l = none) (k : Λ)
    (j : ι) : Function.update p.owner l (some i) k = some j ↔
      k ∈ Function.update held i (l :: held i) j := by
  by_cases hk : k = l
  · subst hk
    rw [Function.update_self]
    by_cases hj : j = i
    · subst hj
      simp
    · rw [Function.update_of_ne hj, ← h.owner, hfree]
      simp [Ne.symm hj]
  · rw [Function.update_of_ne hk]
    by_cases hj : j = i
    · subst hj
      rw [Function.update_self, h.owner]
      simp [hk]
    · rw [Function.update_of_ne hj, h.owner]

theorem Ordered.owner_unlock (h : p.Ordered rank left held) {l : Λ} {rest : List Λ}
    (hheld : held i = l :: rest) (hl : l ∉ rest) (k : Λ) (j : ι) :
    Function.update p.owner l none k = some j ↔ k ∈ Function.update held i rest j := by
  have hown := h.owner k j
  by_cases hk : k = l
  · subst hk
    rw [Function.update_self]
    refine iff_of_false (by simp) fun hmem => ?_
    by_cases hj : j = i
    · subst hj
      rw [Function.update_self] at hmem
      exact hl hmem
    · rw [Function.update_of_ne hj] at hmem
      have hi := (h.owner k i).mpr (by rw [hheld]; exact List.mem_cons_self)
      exact hj (Option.some.inj ((hown.mpr hmem).symm.trans hi))
  · rw [Function.update_of_ne hk, hown]
    by_cases hj : j = i
    · subst hj
      rw [Function.update_self, hheld]
      simp [hk]
    · rw [Function.update_of_ne hj]

/-- Either a task stays where it is, or it performs one of the operations that are left. -/
theorem Ordered.step (h : p.Ordered rank left held) (i : ι) (hi : (p.tasks i).returned = false)
    (hwaits : ¬ p.Waits i) : 0 < left i ∧
      ∃ held', (p.step M i).Ordered rank (Function.update left i (left i - 1)) held' := by
  have htask := h.tasks i
  cases hp : p.tasks i with
  | pure a =>
      rw [hp] at hi
      cases hi
  | op o next =>
      rw [hp] at htask
      cases hleft : left i with
      | zero =>
          rw [hleft] at htask
          exact htask.elim
      | succ n =>
          rw [hleft] at htask
          refine ⟨Nat.succ_pos n, ?_⟩
          rcases o with o | l | ⟨l, panicking⟩
          · rw [step_access hp]
            refine ⟨held, fun j => ?_, h.owner, h.sorted⟩
            have hnext := h.update_task (htask (M o p.data).1) j
            rwa [Function.update_eq_self] at hnext
          · have hfree := owner_eq_none hwaits hp
            rw [step_lock hp hfree]
            exact ⟨Function.update held i (l :: held i), h.update_task (htask.2 (p.poisoned l)),
              h.owner_lock hfree,
              h.update_sorted (List.pairwise_cons.mpr ⟨htask.1, h.sorted i⟩)⟩
          · obtain ⟨rest, hheld, hnext⟩ := htask
            have hsorted := h.sorted i
            rw [hheld] at hsorted
            obtain ⟨hbelow, hrest⟩ := List.pairwise_cons.mp hsorted
            have hl : l ∉ rest := fun hmem => Nat.lt_irrefl _ (hbelow l hmem)
            rw [step_unlock hp]
            exact ⟨Function.update held i rest, h.update_task hnext, h.owner_unlock hheld hl,
              h.update_sorted hrest⟩

/-! ## A task that runs alone -/

/-- No task but `i` holds a mutex. -/
def OnlyHolder (p : Pool S Λ σ α) (i : ι) : Prop := ∀ l j, p.owner l = some j → j = i

omit [DecidableEq ι] [DecidableEq Λ] in
/-- A mutex that the task holds itself has a lower rank than the one that it takes next. -/
theorem Ordered.not_waits (h : p.Ordered rank left held) (hi : p.OnlyHolder i) : ¬ p.Waits i := by
  rintro ⟨l, next, htask, htaken⟩
  obtain ⟨j, hj⟩ := Option.ne_none_iff_exists'.mp htaken
  have hheld := (h.owner l j).mp hj
  rw [hi l j hj] at hheld
  have horderly := h.tasks i
  rw [htask] at horderly
  cases hleft : left i with
  | zero =>
      rw [hleft] at horderly
      exact horderly
  | succ n =>
      rw [hleft] at horderly
      exact Nat.lt_irrefl _ (horderly.1 l hheld)

theorem OnlyHolder.lock (hi : p.OnlyHolder i) (l : Λ) (task : Prog (S.guarded Λ) (α i)) :
    OnlyHolder { p with
      tasks := Function.update p.tasks i task
      owner := Function.update p.owner l (some i) } i := by
  intro k j hj
  change Function.update p.owner l (some i) k = some j at hj
  by_cases hk : k = l
  · subst hk
    rw [Function.update_self] at hj
    exact (Option.some.inj hj).symm
  · rw [Function.update_of_ne hk] at hj
    exact hi k j hj

theorem OnlyHolder.unlock (hi : p.OnlyHolder i) (l : Λ) (panicking : Bool)
    (task : Prog (S.guarded Λ) (α i)) :
    OnlyHolder { p with
      tasks := Function.update p.tasks i task
      owner := Function.update p.owner l none
      poisoned := Function.update p.poisoned l (p.poisoned l || panicking) } i := by
  intro k j hj
  change Function.update p.owner l none k = some j at hj
  by_cases hk : k = l
  · subst hk
    rw [Function.update_self] at hj
    cases hj
  · rw [Function.update_of_ne hk] at hj
    exact hi k j hj

/-- A task that only it itself could keep waiting runs to its end. -/
theorem Ordered.runs_alone {task : Prog (S.guarded Λ) (α i)} (h : p.Ordered rank left held)
    (htask : p.tasks i = task) (hi : p.OnlyHolder i) :
    ∃ turns, p.run M (List.replicate turns i) =
      { tasks := Function.update p.tasks i (.pure (task.run M.alone (p.data, p.poisoned)).1)
        data := (task.run M.alone (p.data, p.poisoned)).2.1
        owner := fun _ => none
        poisoned := (task.run M.alone (p.data, p.poisoned)).2.2 } := by
  induction task generalizing p left held with
  | pure a =>
      have hheld : held i = [] := h.held_of_returned (by rw [htask]; rfl)
      have howner : p.owner = fun _ => none := by
        funext l
        by_contra hl
        obtain ⟨j, hj⟩ := Option.ne_none_iff_exists'.mp hl
        have hmem := (h.owner l j).mp hj
        rw [hi l j hj, hheld] at hmem
        exact List.not_mem_nil hmem
      have htasks : Function.update p.tasks i (.pure a) = p.tasks := by
        rw [← htask, Function.update_eq_self]
      refine ⟨0, ?_⟩
      rw [Prog.run_pure, htasks, ← howner]
      rfl
  | op o next ih =>
      have hreturned : (p.tasks i).returned = false := by
        rw [htask]
        rfl
      have hwaits : ¬ p.Waits i := h.not_waits hi
      obtain ⟨-, held', hstep⟩ := h.step (M := M) i hreturned hwaits
      rcases o with o | l | ⟨l, panicking⟩
      · have hnext := step_access (M := M) htask
        rw [hnext] at hstep
        obtain ⟨turns, hrun⟩ := ih _ hstep (Function.update_self i _ _) hi
        exact ⟨turns + 1, by rw [List.replicate_succ, run_cons, hnext, hrun, Function.update_idem]; rfl⟩
      · have hnext := step_lock (M := M) htask (owner_eq_none hwaits htask)
        rw [hnext] at hstep
        have honly := hi.lock l (next (p.poisoned l))
        obtain ⟨turns, hrun⟩ := ih _ hstep (Function.update_self i _ _) honly
        exact ⟨turns + 1, by rw [List.replicate_succ, run_cons, hnext, hrun, Function.update_idem]; rfl⟩
      · have hnext := step_unlock (M := M) htask
        rw [hnext] at hstep
        have honly := hi.unlock l panicking (next ())
        obtain ⟨turns, hrun⟩ := ih _ hstep (Function.update_self i _ _) honly
        exact ⟨turns + 1, by rw [List.replicate_succ, run_cons, hnext, hrun, Function.update_idem]; rfl⟩

omit [DecidableEq ι] in
theorem inTurn_congr {tasks tasks' : (i : ι) → Prog (S.guarded Λ) (α i)} {order : List ι}
    (h : ∀ i ∈ order, tasks i = tasks' i) (s : σ × (Λ → Bool)) :
    inTurn M tasks order s = inTurn M tasks' order s := by
  induction order generalizing s with
  | nil => rfl
  | cons i rest ih =>
      rw [inTurn, inTurn, h i List.mem_cons_self, ih fun j hj => h j (List.mem_cons_of_mem _ hj)]

omit [DecidableEq ι] [DecidableEq Λ] in
theorem Ordered.held_eq_nil (h : p.Ordered rank left held) (hfree : ∀ l, p.owner l = none) (i : ι) :
    held i = [] := by
  refine List.eq_nil_iff_forall_not_mem.mpr fun l hl => ?_
  have howner := (h.owner l i).mpr hl
  rw [hfree l] at howner
  cases howner

/-- Tasks that run one after the other run under some schedule. -/
theorem Ordered.runs_inTurn (h : p.Ordered rank left held) (hfree : ∀ l, p.owner l = none)
    {order : List ι} (horder : order.Nodup) :
    ∃ schedule, (p.run M schedule).data = (inTurn M p.tasks order (p.data, p.poisoned)).2.1 ∧
      (p.run M schedule).poisoned = (inTurn M p.tasks order (p.data, p.poisoned)).2.2 ∧
      ∀ r ∈ (inTurn M p.tasks order (p.data, p.poisoned)).1,
        (p.run M schedule).tasks r.1 = .pure r.2 := by
  induction order generalizing p left held with
  | nil => exact ⟨[], rfl, rfl, by simp [inTurn]⟩
  | cons i rest ih =>
      obtain ⟨hi, hrest⟩ := List.nodup_cons.mp horder
      have honly : p.OnlyHolder i := fun l j hj => by rw [hfree l] at hj; cases hj
      obtain ⟨turns, hturns⟩ := h.runs_alone (M := M) rfl honly
      have hstart : Ordered rank left (fun _ => []) (p.run M (List.replicate turns i)) := by
        rw [hturns]
        refine ⟨fun j => ?_, fun l j => by simp, fun j => List.Pairwise.nil⟩
        dsimp only
        by_cases hj : j = i
        · subst hj
          rw [Function.update_self]
          cases left j <;> rfl
        · rw [Function.update_of_ne hj]
          have htask := h.tasks j
          rwa [h.held_eq_nil hfree j] at htask
      obtain ⟨schedule, hdata, hpoisoned, hresults⟩ := ih hstart (by rw [hturns]; simp) hrest
      have hsame : inTurn M (p.run M (List.replicate turns i)).tasks rest
          ((p.run M (List.replicate turns i)).data, (p.run M (List.replicate turns i)).poisoned)
            = inTurn M p.tasks rest ((p.tasks i).run M.alone (p.data, p.poisoned)).2 := by
        rw [hturns]
        refine inTurn_congr (fun j hj => ?_) _
        have hj' : j ≠ i := by
          rintro rfl
          exact hi hj
        exact Function.update_of_ne hj' _ p.tasks
      rw [hsame] at hdata hpoisoned hresults
      refine ⟨List.replicate turns i ++ schedule, ?_, ?_, fun r hr => ?_⟩
      · rw [run_append]
        exact hdata
      · rw [run_append]
        exact hpoisoned
      · rw [run_append]
        rcases List.mem_cons.mp hr with rfl | hr
        · refine run_tasks_of_pure ?_ schedule
          rw [hturns]
          exact Function.update_self i _ _
        · exact hresults r hr

/-! ## Progress -/

variable [Fintype ι]

omit [DecidableEq ι] [DecidableEq Λ] in
/-- Of the tasks that wait, one for a mutex of the highest rank would wait for a task that waits for
one of a higher rank. -/
theorem Ordered.exists_moves (h : p.Ordered rank left held) (hi : ∃ i, (p.tasks i).returned = false) :
    ∃ i, (p.tasks i).returned = false ∧ ¬ p.Waits i := by
  classical
  by_contra hnone
  have hall : ∀ i, (p.tasks i).returned = false → p.Waits i := by
    intro i hi
    by_contra hwaits
    exact hnone ⟨i, hi, hwaits⟩
  let wanted : ι → ℕ := fun i => if hw : p.Waits i then rank hw.choose else 0
  obtain ⟨i₀, hi₀⟩ := hi
  obtain ⟨i, hmem, hmax⟩ := Finset.exists_max_image
    (Finset.univ.filter fun i => (p.tasks i).returned = false) wanted
    ⟨i₀, Finset.mem_filter.mpr ⟨Finset.mem_univ i₀, hi₀⟩⟩
  have hwaits := hall i (Finset.mem_filter.mp hmem).2
  have hwanted : wanted i = rank hwaits.choose := dif_pos hwaits
  obtain ⟨next, htask, htaken⟩ := hwaits.choose_spec
  obtain ⟨j, hj⟩ := Option.ne_none_iff_exists'.mp htaken
  have hheld := (h.owner _ j).mp hj
  have hrunning : (p.tasks j).returned = false := by
    by_contra hreturned
    rw [h.held_of_returned (Bool.not_eq_false _ ▸ hreturned)] at hheld
    exact List.not_mem_nil hheld
  have hwaits' := hall j hrunning
  have hwanted' : wanted j = rank hwaits'.choose := dif_pos hwaits'
  obtain ⟨next', htask', -⟩ := hwaits'.choose_spec
  have horderly := h.tasks j
  rw [htask'] at horderly
  have hlt : rank hwaits.choose < rank hwaits'.choose := by
    cases hleft : left j with
    | zero =>
        rw [hleft] at horderly
        exact horderly.elim
    | succ n =>
        rw [hleft] at horderly
        exact horderly.1 _ hheld
  have hle := hmax j (Finset.mem_filter.mpr ⟨Finset.mem_univ j, hrunning⟩)
  omega

/-- A schedule leaves a pool as it is, or some operations fewer are left. -/
theorem Ordered.run (h : p.Ordered rank left held) (schedule : List ι) :
    p.run M schedule = p ∧ (∀ i ∈ schedule, (p.tasks i).returned ∨ p.Waits i) ∨
      ∃ left' held', (p.run M schedule).Ordered rank left' held' ∧ ∑ i, left' i < ∑ i, left i := by
  induction schedule generalizing p left held with
  | nil => exact .inl ⟨rfl, by simp⟩
  | cons i rest ih =>
      by_cases hstays : (p.tasks i).returned ∨ p.Waits i
      · have hstep : p.step M i = p := hstays.elim step_of_returned step_of_waits
        rw [run_cons, hstep]
        refine (ih h).imp_left fun hrest => ⟨hrest.1, fun j hj => ?_⟩
        rcases List.mem_cons.mp hj with rfl | hj
        · exact hstays
        · exact hrest.2 j hj
      · right
        obtain ⟨hreturned, hwaits⟩ := not_or.mp hstays
        obtain ⟨hpos, held', hstep⟩ := h.step (M := M) i (Bool.eq_false_iff.mpr hreturned) hwaits
        have hless : ∑ j, Function.update left i (left i - 1) j < ∑ j, left j := by
          refine Finset.sum_lt_sum (fun j _ => ?_) ⟨i, Finset.mem_univ i, ?_⟩
          · by_cases hj : j = i
            · subst hj
              rw [Function.update_self]
              exact Nat.sub_le _ _
            · rw [Function.update_of_ne hj]
          · rw [Function.update_self]
            omega
        rcases ih hstep with ⟨hsame, -⟩ | ⟨left', held'', hrun, hlt⟩
        · exact ⟨_, held', by rw [run_cons, hsame]; exact hstep, hless⟩
        · exact ⟨left', held'', hrun, hlt.trans hless⟩

/-- After as many rounds as operations are left, all tasks have returned. -/
theorem Ordered.returns (h : p.Ordered rank left held) {rounds : List (List ι)}
    (hrounds : ∀ round ∈ rounds, ∀ i, i ∈ round) (henough : ∑ i, left i ≤ rounds.length) :
    ∀ i, ((p.run M rounds.flatten).tasks i).returned := by
  induction rounds generalizing p left held with
  | nil =>
      intro i
      by_contra hi
      obtain ⟨j, hj, hwaits⟩ := h.exists_moves ⟨i, Bool.eq_false_iff.mpr hi⟩
      have hpos := (h.step (M := M) j hj hwaits).1
      have hle := Finset.single_le_sum (f := left) (fun i _ => Nat.zero_le _) (Finset.mem_univ j)
      rw [List.length_nil] at henough
      omega
  | cons round rest ih =>
      rw [List.flatten_cons, run_append]
      have hrest : ∀ round ∈ rest, ∀ i, i ∈ round :=
        fun r hr => hrounds r (List.mem_cons_of_mem _ hr)
      rcases h.run (M := M) round with ⟨hsame, hstays⟩ | ⟨left', held', hrun, hlt⟩
      · have hdone : ∀ i, (p.tasks i).returned := by
          intro i
          by_contra hi
          obtain ⟨j, hj, hwaits⟩ := h.exists_moves ⟨i, Bool.eq_false_iff.mpr hi⟩
          refine (hstays j (hrounds round List.mem_cons_self j)).elim (fun hret => ?_) hwaits
          rw [hj] at hret
          cases hret
        rw [hsame]
        have hkept : p.run M rest.flatten = p := by
          generalize rest.flatten = schedule
          induction schedule with
          | nil => rfl
          | cons i schedule ih => rw [run_cons, step_of_returned (hdone i), ih]
        rw [hkept]
        exact hdone
      · rw [List.length_cons] at henough
        exact ih hrun hrest (by omega)

end Pool
end Interaction
