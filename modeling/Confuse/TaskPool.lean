import Confuse.Interaction

/-!
# Pools of tasks

A task is a program that shares a machine with the other tasks of its pool and writes to a cell of
its own. Every turn lets some tasks perform one operation each, in any order. A task that has
returned is left alone by all turns, so its cell keeps what was written last.
-/

namespace Interaction

variable {ι σ α R : Type} {S : Signature}

/-- The operations of `S`, and writes to a cell. -/
def Signature.writing (S : Signature) (R : Type) : Signature where
  Op := S.Op ⊕ (R → R)
  Res := Sum.elim S.Res fun _ => Unit

namespace Prog

/-- A program that leaves the cell alone. -/
def await : Prog S α → Prog (S.writing R) α
  | .pure a => .pure a
  | .op o next => .op (.inl o) fun r => (next r).await

def write (f : R → R) : Prog (S.writing R) Unit := .perform (S := S.writing R) (.inr f)

/-- `Q` becomes true of the cell with the last operation, and not before. -/
def Delivers (Q : R → Prop) : Prog (S.writing R) Unit → R → Prop
  | .pure _, r => Q r
  | .op (.inl _) next, r => ¬ Q r ∧ ∀ a, (next a).Delivers Q r
  | .op (.inr f) next, r => ¬ Q r ∧ (next ()).Delivers Q (f r)

theorem Delivers.write {Q : R → Prop} {f : R → R} {r : R} (hr : ¬ Q r) (hf : Q (f r)) :
    (write f : Prog (S.writing R) Unit).Delivers Q r := ⟨hr, hf⟩

theorem Delivers.await {Q : R → Prop} {r : R} (hr : ¬ Q r) (p : Prog S α)
    {f : α → Prog (S.writing R) Unit} (hf : ∀ a, (f a).Delivers Q r) :
    (p.await >>= f).Delivers Q r := by
  induction p with
  | pure a => exact hf a
  | op o next ih => exact ⟨hr, ih⟩

end Prog

open Prog

/-- A task of some kind, with a cell of the type that belongs to the kind. -/
structure Task (S : Signature) (R : ι → Type) where
  kind : ι
  cell : R kind
  rest : Prog (S.writing (R kind)) Unit

namespace Task
variable {R : ι → Type} {M : Machine S σ} {t : Task S R} {ts : List (Task S R)} {s : σ}

def finished (t : Task S R) : Bool :=
  match t.rest with
  | .pure _ => true
  | .op _ _ => false

theorem eq_of_finished (h : t.finished) : t = ⟨t.kind, t.cell, .pure ()⟩ := by
  obtain ⟨kind, cell, rest⟩ := t
  cases rest with
  | pure a => rfl
  | op o next => cases h

/-- What the cell holds. -/
def answer (t : Task S R) : (i : ι) × R i := ⟨t.kind, t.cell⟩

/-- One operation of a task; a task that has returned does nothing. -/
def step (M : Machine S σ) (t : Task S R) (s : σ) : Task S R × σ :=
  match t.rest with
  | .pure _ => (t, s)
  | .op (.inl o) next => ({ t with rest := next (M o s).1 }, (M o s).2)
  | .op (.inr f) next => ({ t with cell := f t.cell, rest := next () }, s)

theorem step_finished (h : t.finished) : t.step M s = (t, s) := by
  rw [eq_of_finished h]
  rfl

theorem step_kind : (t.step M s).1.kind = t.kind := by
  obtain ⟨kind, cell, rest⟩ := t
  rcases rest with a | ⟨o | f, next⟩ <;> rfl

/-- The task makes `Q` true of its cell with its last operation. -/
def Delivers (Q : (i : ι) → R i → Prop) (t : Task S R) : Prop :=
  t.rest.Delivers (Q t.kind) t.cell

variable {Q : (i : ι) → R i → Prop}

theorem Delivers.step (h : t.Delivers Q) : (t.step M s).1.Delivers Q := by
  obtain ⟨kind, cell, rest⟩ := t
  rcases rest with a | ⟨o | f, next⟩
  · exact h
  · exact h.2 (M o s).1
  · exact h.2

/-- The cell shows whether the task has returned. -/
theorem Delivers.finished_iff (h : t.Delivers Q) : t.finished ↔ Q t.kind t.cell := by
  obtain ⟨kind, cell, rest⟩ := t
  rcases rest with a | ⟨o | f, next⟩
  · exact iff_of_true rfl h
  · exact iff_of_false Bool.false_ne_true h.1
  · exact iff_of_false Bool.false_ne_true h.1

/-! ## Turns -/

/-- The task with number `n` performs one operation. -/
def stepAt (M : Machine S σ) (pool : List (Task S R) × σ) (n : ℕ) : List (Task S R) × σ :=
  match pool.1[n]? with
  | none => pool
  | some t => (pool.1.set n (t.step M pool.2).1, (t.step M pool.2).2)

/-- The tasks with the given numbers perform an operation each. -/
def advance (M : Machine S σ) (turn : List ℕ) (pool : List (Task S R) × σ) :
    List (Task S R) × σ := turn.foldl (stepAt M) pool

theorem stepAt_all {P : Task S R → Prop} (hstep : ∀ t s, P t → P (t.step M s).1)
    (hts : ∀ t ∈ ts, P t) (n : ℕ) : ∀ t ∈ (stepAt M (ts, s) n).1, P t := by
  intro t ht
  unfold stepAt at ht
  cases hn : ts[n]? with
  | none =>
      simp only [hn] at ht
      exact hts t ht
  | some u =>
      simp only [hn] at ht
      rcases List.mem_or_eq_of_mem_set ht with ht | rfl
      · exact hts t ht
      · exact hstep u s (hts u (List.mem_of_getElem? hn))

theorem advance_all {P : Task S R → Prop} (hstep : ∀ t s, P t → P (t.step M s).1) (turn : List ℕ)
    (hts : ∀ t ∈ ts, P t) : ∀ t ∈ (advance M turn (ts, s)).1, P t := by
  induction turn generalizing ts s with
  | nil => exact hts
  | cons n turn ih => exact ih (stepAt_all hstep hts n)

theorem stepAt_finished (hts : ∀ t ∈ ts, t.finished) (n : ℕ) : stepAt M (ts, s) n = (ts, s) := by
  unfold stepAt
  cases hn : ts[n]? with
  | none => rfl
  | some t =>
      obtain ⟨hlt, rfl⟩ := List.getElem?_eq_some_iff.mp hn
      simp only [step_finished (hts _ (List.getElem_mem hlt)), List.set_getElem_self]

theorem advance_finished (hts : ∀ t ∈ ts, t.finished) (turn : List ℕ) :
    advance M turn (ts, s) = (ts, s) := by
  induction turn with
  | nil => rfl
  | cons n turn ih => rw [advance, List.foldl_cons, stepAt_finished hts, ← advance, ih]

/-- A turn changes the only task that has not returned, and no other. -/
theorem stepAt_concat (hts : ∀ t ∈ ts, t.finished) (t : Task S R) (s : σ) (n : ℕ) :
    ∃ t' s', stepAt M (ts ++ [t], s) n = (ts ++ [t'], s') ∧ t'.kind = t.kind := by
  unfold stepAt
  rcases Nat.lt_trichotomy n ts.length with hn | rfl | hn
  · have hget : (ts ++ [t])[n]? = some ts[n] := by
      rw [List.getElem?_append_left hn, List.getElem?_eq_getElem hn]
    refine ⟨t, s, ?_, rfl⟩
    simp only [hget, step_finished (hts _ (List.getElem_mem hn))]
    rw [List.set_append_left _ _ hn, List.set_getElem_self]
  · refine ⟨(t.step M s).1, (t.step M s).2, ?_, step_kind⟩
    simp
  · refine ⟨t, s, ?_, rfl⟩
    have hget : (ts ++ [t])[n]? = none := by
      rw [List.getElem?_eq_none_iff, List.length_append, List.length_singleton]
      omega
    simp only [hget]

theorem advance_concat (hts : ∀ t ∈ ts, t.finished) (t : Task S R) (s : σ) (turn : List ℕ) :
    ∃ t' s', advance M turn (ts ++ [t], s) = (ts ++ [t'], s') ∧ t'.kind = t.kind := by
  induction turn generalizing t s with
  | nil => exact ⟨t, s, rfl, rfl⟩
  | cons n turn ih =>
      obtain ⟨u, su, hstep, hkind⟩ := stepAt_concat (M := M) hts t s n
      obtain ⟨t', s', hturn, hkind'⟩ := ih u su
      exact ⟨t', s', by rw [advance, List.foldl_cons, hstep, ← advance, hturn],
        hkind'.trans hkind⟩

/-! ## Reading cells -/

variable [DecidableEq ι]

/-- The cell of the task with number `n`, which is of kind `i`. -/
def cellOf (ts : List (Task S R)) (n : ℕ) (i : ι) (default : R i) : R i :=
  match ts[n]? with
  | some t => if h : t.kind = i then h ▸ t.cell else default
  | none => default

theorem cellOf_of_prefix {kept : List (Task S R)} {i : ι} {cell default : R i}
    {rest : Prog (S.writing (R i)) Unit} (h : kept ++ [⟨i, cell, rest⟩] <+: ts) :
    cellOf ts kept.length i default = cell := by
  obtain ⟨later, rfl⟩ := h
  unfold cellOf
  have hget : (kept ++ [⟨i, cell, rest⟩] ++ later)[kept.length]? = some ⟨i, cell, rest⟩ := by simp
  simp only [hget]
  exact dif_pos trivial

end Task
end Interaction
