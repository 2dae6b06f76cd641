import Mathlib.Init
import Mathlib.Tactic.TypeStar
import Mathlib.Data.Nat.Notation

/-!
# Interactive programs

A program over a signature of operations is a tree: it returns, or it performs one operation and
continues with the answer. A machine answers the operations from a state, so a machine runs a
program. `Returns` speaks of the results, whatever the answers are, and `Triple` is a Hoare triple
for the runs of one machine. `Traces` lists the events that runs can leave behind when the events of
each single operation are given. A machine may also stop for good; `attempt` is the run up to there.
`Composed` says that a program is put together from blocks of a given kind by sequencing alone: an
invariant of every block, or a property of its traces that joins, then carries over to the whole
program.
-/

namespace Interaction

/-- Operations, each with the type of its answer. -/
structure Signature where
  Op : Type
  Res : Op → Type

inductive Prog (S : Signature) (α : Type) : Type
  | pure (a : α) : Prog S α
  | op (o : S.Op) (next : S.Res o → Prog S α) : Prog S α

variable {S : Signature} {σ α β : Type}

namespace Prog

def bind : Prog S α → (α → Prog S β) → Prog S β
  | .pure a, f => f a
  | .op o next, f => .op o fun r => (next r).bind f

/-- Perform one operation and return its answer. -/
def perform (o : S.Op) : Prog S (S.Res o) := .op o .pure

instance : Monad (Prog S) where
  pure := .pure
  bind := .bind

theorem perform_bind (o : S.Op) (f : S.Res o → Prog S α) : (perform o >>= f) = .op o f := rfl

theorem bind_assoc {γ : Type} (p : Prog S α) (f : α → Prog S β) (g : β → Prog S γ) :
    (p >>= f >>= g) = p >>= fun a => f a >>= g := by
  induction p with
  | pure a => rfl
  | op o next ih => exact congrArg (Prog.op o) (funext fun r => ih r)

theorem bind_pure (p : Prog S α) : (p >>= pure) = p := by
  induction p with
  | pure a => rfl
  | op o next ih => exact congrArg (Prog.op o) (funext ih)

/-- What ends the continuations can be taken out of them. -/
theorem bind_eq_bind {γ : Type} {p : Prog S α} {f : α → Prog S γ} {g : α → Prog S β}
    {k : β → Prog S γ} (h : ∀ a, f a = g a >>= k) : p >>= f = p >>= g >>= k :=
  (congrArg (p >>= ·) (funext h)).trans (bind_assoc p g k).symm

/-- A machine answers every operation from its state. -/
abbrev Machine (S : Signature) (σ : Type) := (o : S.Op) → σ → S.Res o × σ

def run (M : Machine S σ) : Prog S α → σ → α × σ
  | .pure a, s => (a, s)
  | .op o next, s => (next (M o s).1).run M (M o s).2

@[simp] theorem run_pure (M : Machine S σ) (a : α) (s : σ) :
    (pure a : Prog S α).run M s = (a, s) := rfl

@[simp] theorem run_return (M : Machine S σ) (a : α) (s : σ) :
    (Pure.pure a : Prog S α).run M s = (a, s) := rfl

@[simp] theorem run_op (M : Machine S σ) (o : S.Op) (next : S.Res o → Prog S α) (s : σ) :
    (Prog.op o next).run M s = (next (M o s).1).run M (M o s).2 := rfl

@[simp] theorem run_perform (M : Machine S σ) (o : S.Op) (s : σ) :
    (perform o).run M s = M o s := rfl

@[simp] theorem run_bind (M : Machine S σ) (p : Prog S α) (f : α → Prog S β) (s : σ) :
    (p >>= f).run M s = (f (p.run M s).1).run M (p.run M s).2 := by
  induction p generalizing s with
  | pure a => rfl
  | op o next ih => exact ih (M o s).1 (M o s).2

/-- Every operation that `p` can perform satisfies `ok`. -/
def Performs (ok : S.Op → Prop) : Prog S α → Prop
  | .pure _ => True
  | .op o next => ok o ∧ ∀ r, (next r).Performs ok

namespace Performs
variable {ok ok' : S.Op → Prop}

theorem pure (a : α) : (Pure.pure a : Prog S α).Performs ok := trivial

theorem perform {o : S.Op} (h : ok o) : (Prog.perform o).Performs ok := ⟨h, fun _ => trivial⟩

theorem bind {p : Prog S α} {f : α → Prog S β} (hp : p.Performs ok)
    (hf : ∀ a, (f a).Performs ok) : (p >>= f).Performs ok := by
  induction p with
  | pure a => exact hf a
  | op o next ih => exact ⟨hp.1, fun r => ih r (hp.2 r)⟩

/-- An invariant of the operations performed is an invariant of runs. -/
theorem invariant {M : Machine S σ} {I : σ → Prop} (h : ∀ o s, ok o → I s → I (M o s).2)
    {p : Prog S α} (hp : p.Performs ok) {s : σ} (hs : I s) : I (p.run M s).2 := by
  induction p generalizing s with
  | pure a => exact hs
  | op o next ih => exact ih _ (hp.2 _) (h o s hp.1 hs)

/-- Machines that agree on the operations performed give the same run. -/
theorem run_congr {M M' : Machine S σ} (h : ∀ o s, ok o → M o s = M' o s) {p : Prog S α}
    (hp : p.Performs ok) (s : σ) : p.run M s = p.run M' s := by
  induction p generalizing s with
  | pure a => rfl
  | op o next ih => rw [run_op, run_op, h o s hp.1, ih _ (hp.2 _)]

theorem mono (h : ∀ o, ok o → ok' o) {p : Prog S α} (hp : p.Performs ok) : p.Performs ok' := by
  induction p with
  | pure a => trivial
  | op o next ih => exact ⟨h o hp.1, fun r => ih r (hp.2 r)⟩

end Performs

/-- However the operations are answered, `p` returns a result in `Q`. -/
def Returns (Q : α → Prop) : Prog S α → Prop
  | .pure a => Q a
  | .op _ next => ∀ r, (next r).Returns Q

namespace Returns
variable {P : α → Prop} {Q : β → Prop}

theorem pure {a : α} (h : P a) : (Pure.pure a : Prog S α).Returns P := h

theorem bind {p : Prog S α} {f : α → Prog S β} (hp : p.Returns P)
    (hf : ∀ a, P a → (f a).Returns Q) : (p >>= f).Returns Q := by
  induction p with
  | pure a => exact hf a hp
  | op o next ih => exact fun r => ih r (hp r)

theorem trivial (p : Prog S α) : p.Returns fun _ => True := by
  induction p with
  | pure a => exact True.intro
  | op o next ih => exact ih

theorem mono {P' : α → Prop} {p : Prog S α} (hp : p.Returns P) (h : ∀ a, P a → P' a) :
    p.Returns P' := by
  induction p with
  | pure a => exact h a hp
  | op o next ih => exact fun r => ih r (hp r)

/-- The result depends on the last part only. -/
theorem last {p : Prog S α} {f : α → Prog S β} (hf : ∀ a, (f a).Returns Q) :
    (p >>= f).Returns Q := bind (trivial p) fun a _ => hf a

/-- Continuations matter on the results that are returned only. -/
theorem bind_congr {p : Prog S α} (hp : p.Returns P) {f g : α → Prog S β}
    (h : ∀ a, P a → f a = g a) : p >>= f = p >>= g := by
  induction p with
  | pure a => exact h a hp
  | op o next ih => exact congrArg (Prog.op o) (funext fun r => ih r (hp r))

theorem run {M : Machine S σ} {p : Prog S α} (hp : p.Returns P) (s : σ) : P (p.run M s).1 := by
  induction p generalizing s with
  | pure a => exact hp
  | op o next ih => exact ih _ (hp _) _

end Returns

/-- Every operation of the run of `p` meets `ok` in the state before it. -/
def RunMeets (M : Machine S σ) (ok : S.Op → σ → Prop) : Prog S α → σ → Prop
  | .pure _, _ => True
  | .op o next, s => ok o s ∧ (next (M o s).1).RunMeets M ok (M o s).2

instance RunMeets.decidable {M : Machine S σ} {ok : S.Op → σ → Prop}
    [∀ o s, Decidable (ok o s)] : (p : Prog S α) → (s : σ) → Decidable (p.RunMeets M ok s)
  | .pure _, _ => inferInstanceAs (Decidable True)
  | .op o next, s =>
      @instDecidableAnd _ _ _ (RunMeets.decidable (next (M o s).1) (M o s).2)

@[simp] theorem runMeets_bind {M : Machine S σ} {ok : S.Op → σ → Prop} {p : Prog S α}
    {f : α → Prog S β} {s : σ} : (p >>= f).RunMeets M ok s ↔
      p.RunMeets M ok s ∧ (f (p.run M s).1).RunMeets M ok (p.run M s).2 := by
  induction p generalizing s with
  | pure a => exact ⟨fun h => ⟨trivial, h⟩, And.right⟩
  | op o next ih =>
      have hnext := ih (M o s).1 (s := (M o s).2)
      exact (and_congr_right fun _ => hnext).trans and_assoc.symm

/-- Programs that perform only what meets `ok` anyway. -/
theorem Performs.runMeets {M : Machine S σ} {ok : S.Op → σ → Prop} {safe : S.Op → Prop}
    (h : ∀ o s, safe o → ok o s) {p : Prog S α} (hp : p.Performs safe) (s : σ) :
    p.RunMeets M ok s := by
  induction p generalizing s with
  | pure a => trivial
  | op o next ih => exact ⟨h o s hp.1, ih _ (hp.2 _) _⟩

/-- On the operations performed the machines agree, so their runs meet the same. -/
theorem Performs.runMeets_congr {M M' : Machine S σ} (ok : S.Op → σ → Prop) {safe : S.Op → Prop}
    (h : ∀ o s, safe o → M o s = M' o s) {p : Prog S α} (hp : p.Performs safe) (s : σ) :
    p.RunMeets M ok s ↔ p.RunMeets M' ok s := by
  induction p generalizing s with
  | pure a => rfl
  | op o next ih =>
      unfold RunMeets
      rw [h o s hp.1, ih _ (hp.2 _)]

/-- Programs one after the other, whatever they return. -/
def each {ι : Type} {ρ : ι → Type} (f : (i : ι) → Prog S (ρ i)) : List ι → Prog S Unit
  | [] => .pure ()
  | i :: l => (f i).bind fun _ => each f l

theorem each_cons {ι : Type} {ρ : ι → Type} (f : (i : ι) → Prog S (ρ i)) (i : ι) (l : List ι) :
    each f (i :: l) = f i >>= fun _ => each f l := rfl

theorem run_each {ι : Type} {ρ : ι → Type} (M : Machine S σ) (f : (i : ι) → Prog S (ρ i))
    (l : List ι) (s : σ) :
    (each f l).run M s = ((), l.foldl (fun s i => ((f i).run M s).2) s) := by
  induction l generalizing s with
  | nil => rfl
  | cons i l ih => rw [each_cons, run_bind, ih, List.foldl_cons]

/-! ## Runs that may stop -/

/-- A machine that answers an operation, or stops for good and leaves a state behind. -/
abbrev StoppingMachine (S : Signature) (σ : Type) := (o : S.Op) → σ → Except σ (S.Res o × σ)

/-- Run a program up to the first operation at which the machine stops. -/
def attempt (M : StoppingMachine S σ) : Prog S α → σ → Except σ (α × σ)
  | .pure a, s => .ok (a, s)
  | .op o next, s =>
      match M o s with
      | .error left => .error left
      | .ok answer => (next answer.1).attempt M answer.2

/-- `M'` answers as `M` does where `ok` holds, and stops where it does not. -/
structure StopsUnless (ok : S.Op → σ → Prop) (M' : StoppingMachine S σ) (M : Machine S σ) :
    Prop where
  goes : ∀ {o s}, ok o s → M' o s = .ok (M o s)
  stops : ∀ {o s}, ¬ ok o s → ∃ left, M' o s = .error left

namespace StopsUnless
variable {M : Machine S σ} {M' : StoppingMachine S σ} {ok : S.Op → σ → Prop} {p : Prog S α} {s : σ}

theorem attempt_of_meets (h : StopsUnless ok M' M) (hp : p.RunMeets M ok s) :
    p.attempt M' s = .ok (p.run M s) := by
  induction p generalizing s with
  | pure a => rfl
  | op o next ih =>
      rw [attempt, h.goes hp.1]
      exact ih _ hp.2

theorem attempt_of_not_meets (h : StopsUnless ok M' M) (hp : ¬ p.RunMeets M ok s) :
    ∃ left, p.attempt M' s = .error left := by
  induction p generalizing s with
  | pure a => exact absurd trivial hp
  | op o next ih =>
      unfold attempt
      by_cases ho : ok o s
      · rw [h.goes ho]
        exact ih _ fun hrest => hp ⟨ho, hrest⟩
      · obtain ⟨left, hleft⟩ := h.stops ho
        exact ⟨left, by rw [hleft]⟩

/-- A run comes to its end exactly when every operation meets `ok`, and then it is the run of the
machine that never stops. -/
theorem attempt_eq_ok_iff (h : StopsUnless ok M' M) {out : α × σ} :
    p.attempt M' s = .ok out ↔ p.RunMeets M ok s ∧ p.run M s = out := by
  by_cases hp : p.RunMeets M ok s
  · rw [h.attempt_of_meets hp, Except.ok.injEq, and_iff_right hp]
  · obtain ⟨left, hleft⟩ := h.attempt_of_not_meets hp
    rw [hleft]
    exact iff_of_false (fun heq => by cases heq) fun heq => hp heq.1

/-- What a run that comes to its end gives. -/
theorem exists_attempt_iff (h : StopsUnless ok M' M) {Q : α → σ → Prop} :
    (∃ a s', p.attempt M' s = .ok (a, s') ∧ Q a s') ↔
      p.RunMeets M ok s ∧ Q (p.run M s).1 (p.run M s).2 := by
  simp only [h.attempt_eq_ok_iff]
  constructor
  · rintro ⟨a, s', ⟨hp, hrun⟩, hQ⟩
    rw [hrun]
    exact ⟨hp, hQ⟩
  · rintro ⟨hp, hQ⟩
    exact ⟨_, _, ⟨hp, rfl⟩, hQ⟩

end StopsUnless

/-- What every operation keeps, every run keeps. -/
theorem run_invariant {M : Machine S σ} {I : σ → Prop} (h : ∀ o s, I s → I (M o s).2)
    (p : Prog S α) {s : σ} (hs : I s) : I (p.run M s).2 := by
  induction p generalizing s with
  | pure a => exact hs
  | op o next ih => exact ih _ (h o s hs)

variable {ε : Type} {E : (o : S.Op) → S.Res o → List ε → Prop}

/-- `p` can leave the events `evs` behind and return `a`, when `E o r es` says that the operation
`o`, answered by `r`, can leave `es` behind. -/
def Traces (E : (o : S.Op) → S.Res o → List ε → Prop) : Prog S α → List ε → α → Prop
  | .pure a, evs, b => evs = [] ∧ b = a
  | .op o next, evs, b => ∃ r es rest, E o r es ∧ (next r).Traces E rest b ∧ evs = es ++ rest

@[simp] theorem traces_pure {a b : α} {evs : List ε} :
    (pure a : Prog S α).Traces E evs b ↔ evs = [] ∧ b = a := Iff.rfl

@[simp] theorem traces_perform {o : S.Op} {evs : List ε} {r : S.Res o} :
    (perform o).Traces E evs r ↔ E o r evs := by
  constructor
  · rintro ⟨r', es, rest, he, ⟨rfl, rfl⟩, rfl⟩
    rwa [List.append_nil]
  · intro h
    exact ⟨r, evs, [], h, ⟨rfl, rfl⟩, (List.append_nil evs).symm⟩

theorem traces_bind {p : Prog S α} {f : α → Prog S β} {evs : List ε} {b : β} :
    (p >>= f).Traces E evs b ↔
      ∃ a es rest, p.Traces E es a ∧ (f a).Traces E rest b ∧ evs = es ++ rest := by
  induction p generalizing evs with
  | pure a =>
      constructor
      · intro h
        exact ⟨a, [], evs, ⟨rfl, rfl⟩, h, rfl⟩
      · rintro ⟨a', es, rest, ⟨rfl, rfl⟩, hrest, rfl⟩
        exact hrest
  | op o next ih =>
      constructor
      · rintro ⟨r, es, rest, he, hrest, rfl⟩
        obtain ⟨a, es', rest', ha, hb, rfl⟩ := (ih r).mp hrest
        exact ⟨a, es ++ es', rest', ⟨r, es, es', he, ha, rfl⟩, hb, (List.append_assoc ..).symm⟩
      · rintro ⟨a, es, rest, ⟨r, es', rest', he, hrest, rfl⟩, hb, rfl⟩
        exact ⟨r, es', rest' ++ rest, he, (ih r).mpr ⟨a, rest', rest, hrest, hb, rfl⟩,
          List.append_assoc ..⟩

theorem Returns.traces {P : α → Prop} {p : Prog S α} (hp : p.Returns P) {evs : List ε} {a : α}
    (ht : p.Traces E evs a) : P a := by
  induction p generalizing evs with
  | pure b =>
      obtain ⟨-, rfl⟩ := ht
      exact hp
  | op o next ih =>
      obtain ⟨r, es, rest, -, hrest, -⟩ := ht
      exact ih r (hp r) hrest

/-- When every operation leaves events behind that `R` ties to the states before and after it, a
run leaves a trace behind, tied in the same way. -/
theorem traces_of_run {M : Machine S σ} {R : σ → List ε → σ → Prop} (nil : ∀ s, R s [] s)
    (append : ∀ s t u es es', R s es t → R t es' u → R s (es ++ es') u)
    (hop : ∀ o s, ∃ es, E o (M o s).1 es ∧ R s es (M o s).2) (p : Prog S α) (s : σ) :
    ∃ evs, p.Traces E evs (p.run M s).1 ∧ R s evs (p.run M s).2 := by
  induction p generalizing s with
  | pure a => exact ⟨[], ⟨rfl, rfl⟩, nil s⟩
  | op o next ih =>
      obtain ⟨es, he, hes⟩ := hop o s
      obtain ⟨rest, hrest, htail⟩ := ih (M o s).1 (M o s).2
      exact ⟨es ++ rest, ⟨_, es, rest, he, hrest, rfl⟩, append _ _ _ _ _ hes htail⟩

/-- Every trace of `p` satisfies `P`. -/
def EveryTrace (E : (o : S.Op) → S.Res o → List ε → Prop) (P : List ε → Prop) (p : Prog S α) :
    Prop := ∀ evs a, p.Traces E evs a → P evs

/-- `P` holds of no events and of two joined lists when it holds of both. -/
structure Joins (P : List ε → Prop) : Prop where
  nil : P []
  append : ∀ {l l'}, P l → P l' → P (l ++ l')

namespace EveryTrace
variable {P : List ε → Prop}

theorem pure (hP : Joins P) (a : α) : EveryTrace E P (Pure.pure a : Prog S α) := by
  rintro evs b ⟨rfl, -⟩
  exact hP.nil

theorem seq {P Q R : List ε → Prop} (h : ∀ l l', P l → Q l' → R (l ++ l')) {p : Prog S α}
    {f : α → Prog S β} (hp : EveryTrace E P p) (hf : ∀ a, EveryTrace E Q (f a)) :
    EveryTrace E R (p >>= f) := by
  intro evs b ht
  obtain ⟨a, es, rest, ha, hb, rfl⟩ := traces_bind.mp ht
  exact h es rest (hp _ _ ha) (hf a _ _ hb)

theorem bind (hP : Joins P) {p : Prog S α} {f : α → Prog S β} (hp : EveryTrace E P p)
    (hf : ∀ a, EveryTrace E P (f a)) : EveryTrace E P (p >>= f) := seq (fun _ _ => hP.append) hp hf

theorem mono {P Q : List ε → Prop} (h : ∀ {l}, P l → Q l) {p : Prog S α} (hp : EveryTrace E P p) :
    EveryTrace E Q p := fun evs a ht => h (hp evs a ht)

/-- What holds of the events of the operations performed holds of all traces. -/
theorem of_performs (hP : Joins P) {ok : S.Op → Prop} (h : ∀ o r es, ok o → E o r es → P es)
    {p : Prog S α} (hp : p.Performs ok) : EveryTrace E P p := by
  induction p with
  | pure a => exact pure hP a
  | op o next ih =>
      rintro evs a ⟨r, es, rest, he, hrest, rfl⟩
      exact hP.append (h o r es hp.1 he) (ih r (hp.2 r) rest a hrest)

theorem of_perform (hP : Joins P) (h : ∀ o r es, E o r es → P es) (p : Prog S α) :
    EveryTrace E P p := by
  induction p with
  | pure a => exact pure hP a
  | op o next ih =>
      rintro evs a ⟨r, es, rest, he, hrest, rfl⟩
      exact hP.append (h o r es he) (ih r rest a hrest)

theorem perform {o : S.Op} (h : ∀ r es, E o r es → P es) : EveryTrace E P (Prog.perform o) :=
  fun evs r hr => h r evs (traces_perform.mp hr)

end EveryTrace

/-- Every trace of `p` and the result it ends with satisfy `Q`. -/
def Yields (E : (o : S.Op) → S.Res o → List ε → Prop) (Q : List ε → α → Prop) (p : Prog S α) :
    Prop := ∀ evs a, p.Traces E evs a → Q evs a

namespace Yields

theorem pure {Q : List ε → α → Prop} {a : α} (h : Q [] a) :
    Yields E Q (Pure.pure a : Prog S α) := by
  rintro evs b ⟨rfl, rfl⟩
  exact h

theorem bind {P : List ε → α → Prop} {Q R : List ε → β → Prop} {p : Prog S α} {f : α → Prog S β}
    (hp : Yields E P p) (hf : ∀ a, Yields E Q (f a))
    (h : ∀ l l' a b, P l a → Q l' b → R (l ++ l') b) : Yields E R (p >>= f) := by
  intro evs b ht
  obtain ⟨a, es, rest, ha, hb, rfl⟩ := traces_bind.mp ht
  exact h es rest a b (hp _ _ ha) (hf a _ _ hb)

/-- A property of the result alone depends on the last part only. -/
theorem last {Q : β → Prop} {p : Prog S α} {f : α → Prog S β}
    (hf : ∀ a, Yields E (fun _ => Q) (f a)) : Yields E (fun _ => Q) (p >>= f) :=
  bind (P := fun _ _ => True) (fun _ _ _ => trivial) hf fun _ _ _ _ _ h => h

end Yields
end Prog

open Prog

/-- Every run of `p` from a state in `P` returns `a` and ends in `t` with `Q a t`. -/
def Triple (M : Machine S σ) (P : σ → Prop) (p : Prog S α) (Q : α → σ → Prop) : Prop :=
  ∀ s, P s → Q (p.run M s).1 (p.run M s).2

namespace Triple
variable {M : Machine S σ} {P P' : σ → Prop} {Q Q' : α → σ → Prop} {R : β → σ → Prop}

theorem pure {a : α} (h : ∀ s, P s → Q a s) : Triple M P (Pure.pure a : Prog S α) Q := h

theorem bind {p : Prog S α} {f : α → Prog S β} (hp : Triple M P p Q)
    (hf : ∀ a, Triple M (Q a) (f a) R) : Triple M P (p >>= f) R := by
  intro s hs
  rw [run_bind]
  exact hf _ _ (hp s hs)

theorem consequence {p : Prog S α} (h : Triple M P p Q) (hP : ∀ s, P' s → P s)
    (hQ : ∀ a s, Q a s → Q' a s) : Triple M P' p Q' :=
  fun s hs => hQ _ _ (h s (hP s hs))

/-- A fact that does not depend on the state is assumed once for the rest of the program. -/
theorem assume {φ : Prop} {p : Prog S α} (h : φ → Triple M P p Q) :
    Triple M (fun s => φ ∧ P s) p Q := fun s hs => h hs.1 s hs.2

theorem choose {ι : Type} {I : ι → σ → Prop} {p : Prog S α} (h : ∀ i, Triple M (I i) p Q) :
    Triple M (fun s => ∃ i, I i s) p Q := fun s ⟨i, hs⟩ => h i s hs

theorem of_returns {p : Prog S α} {Q : α → Prop} (h : p.Returns Q) :
    Triple M P p fun a _ => Q a := fun s _ => h.run s

theorem weakenPre {p : Prog S α} (h : Triple M P p Q) (hP : ∀ s, P' s → P s) :
    Triple M P' p Q := fun s hs => h s (hP s hs)

theorem and {p : Prog S α} (h : Triple M P p Q) (h' : Triple M P' p Q') :
    Triple M (fun s => P s ∧ P' s) p (fun a s => Q a s ∧ Q' a s) :=
  fun s hs => ⟨h s hs.1, h' s hs.2⟩

end Triple

/-- `p` is put together by sequencing from programs in `B`. -/
inductive Composed (B : (β : Type) → Prog S β → Prop) : {α : Type} → Prog S α → Prop
  | pure {α : Type} (a : α) : Composed B (Pure.pure a : Prog S α)
  | block {α : Type} {p : Prog S α} (h : B α p) : Composed B p
  | bind {α β : Type} {p : Prog S α} {f : α → Prog S β} (hp : Composed B p)
      (hf : ∀ a, Composed B (f a)) : Composed B (p >>= f)

namespace Composed
variable {M : Machine S σ} {B B' : (β : Type) → Prog S β → Prop}

theorem mono (h : ∀ β p, B β p → B' β p) {p : Prog S α} (hp : Composed B p) :
    Composed B' p := by
  induction hp with
  | pure a => exact .pure a
  | block hb => exact .block (h _ _ hb)
  | bind _ _ ihp ihf => exact .bind ihp ihf

/-- An invariant of every block is an invariant of every composed program. -/
theorem invariant {I : σ → Prop} (hB : ∀ β p, B β p → Triple M I p fun _ => I)
    {p : Prog S α} (hp : Composed B p) : Triple M I p fun _ => I := by
  induction hp with
  | pure a => exact fun s hs => hs
  | block hb => exact hB _ _ hb
  | bind _ _ ihp ihf => exact ihp.bind ihf

theorem performs {ok : S.Op → Prop} (hB : ∀ β p, B β p → p.Performs ok) {p : Prog S α}
    (hp : Composed B p) : p.Performs ok := by
  induction hp with
  | pure a => exact .pure a
  | block hb => exact hB _ _ hb
  | bind _ _ ihp ihf => exact ihp.bind ihf

/-- A property of traces that joins holds of every composed program when it holds of the blocks. -/
theorem everyTrace {ε : Type} {E : (o : S.Op) → S.Res o → List ε → Prop} {P : List ε → Prop}
    (hP : Joins P) (hB : ∀ β p, B β p → EveryTrace E P p) {p : Prog S α} (hp : Composed B p) :
    EveryTrace E P p := by
  induction hp with
  | pure a => exact .pure hP a
  | block hb => exact hB _ _ hb
  | bind _ _ ihp ihf => exact .bind hP ihp ihf

end Composed
end Interaction
