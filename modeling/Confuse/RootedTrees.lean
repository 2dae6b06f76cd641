import Confuse.NameTree

/-!
# Trees that hang together

In a rooted tree every node that has a name is reached from the root, by one path. New nodes below
reached ones, taking away nodes without children, and moving a node to where it does not lie above
keep a tree rooted.
-/

namespace NameTree

variable {ν κ γ : Type*}

structure Rooted (ns : Children ν κ γ) (start : ν × γ) : Prop extends Tree ns start.1 where
  reached : ∀ {p k v}, ns p k = some v → ∃ ks, walk ns start ks = some v

/-- The node lies on or below the other. -/
def Below (ns : Children ν κ γ) (v : ν × γ) (i : ν) : Prop := ∃ ks g, walk ns v ks = some (i, g)

theorem inTree_of_below {ns : Children ν κ γ} {start : ν × γ} {i : ν} (h : Below ns start i) :
    Tree.InTree ns start.1 i := by
  obtain ⟨ks, g, hks⟩ := h
  rcases List.eq_nil_or_concat ks with rfl | ⟨qs, k, rfl⟩
  · exact .inl (congrArg Prod.fst (Option.some.inj hks)).symm
  · rw [List.concat_eq_append, walk_concat] at hks
    obtain ⟨w, -, hw⟩ := Option.bind_eq_some_iff.mp hks
    exact .inr ⟨w.1, k, g, hw⟩

/-- A walk that succeeds takes the steps that it takes. -/
theorem step_of_walk {ns : Children ν κ γ} {start v w : ν × γ} {qs rest : List κ} {k : κ}
    (hks : walk ns start (qs ++ k :: rest) = some v) (hqs : walk ns start qs = some w) :
    ∃ u, ns w.1 k = some u ∧ walk ns u rest = some v := by
  rw [walk_append, hqs, Option.bind_some, walk_cons] at hks
  exact Option.bind_eq_some_iff.mp hks

/-- The walk takes the step of the name `k` of `p`. -/
def Takes (ns : Children ν κ γ) (start : ν × γ) (ks : List κ) (p : ν) (k : κ) : Prop :=
  ∃ qs rest g, ks = qs ++ k :: rest ∧ walk ns start qs = some (p, g)

variable {ns : Children ν κ γ} {start : ν × γ}

theorem not_takes_of_absent {v w : ν × γ} {ks : List κ} {p : ν} {k : κ}
    (hks : walk ns w ks = some v) (habsent : ns p k = none) : ¬ Takes ns w ks p k := by
  rintro ⟨qs, rest, g, rfl, hqs⟩
  obtain ⟨u, hu, -⟩ := step_of_walk hks hqs
  rw [habsent] at hu
  cases hu

namespace Rooted

theorem empty (start : ν × γ) : Rooted (fun _ _ => none : Children ν κ γ) start where
  toTree := .empty start.1
  reached h := by cases h

theorem parent (h : Rooted ns start) {p : ν} {k : κ} {v : ν × γ} (hv : ns p k = some v) :
    Below ns start p := by
  rcases h.hung hv with rfl | ⟨p', k', g, hplace⟩
  · exact ⟨[], start.2, rfl⟩
  · obtain ⟨ks, hks⟩ := h.reached hplace
    exact ⟨ks, g, hks⟩

/-- Nothing lies above the node that it hangs below. -/
theorem not_below_self (h : Rooted ns start) {p i : ν} {k : κ} {g : γ}
    (hchild : ns p k = some (i, g)) : ¬ Below ns (i, g) p := by
  rintro ⟨qs, gp, hqs⟩
  obtain ⟨ps, gp', hps⟩ := h.parent hchild
  have haround : walk ns start (ps ++ k :: qs) = some (p, gp) := by
    rw [walk_append, hps, Option.bind_some, walk_cons, hchild]
    exact hqs
  have hsame : ps = ps ++ k :: qs := h.path_unique hps haround
  simp at hsame

end Rooted

/-! ## Changes -/

variable [DecidableEq ν] [DecidableEq κ]

theorem assign_twice (p : ν) (k : κ) (c d : Option (ν × γ)) :
    assign (assign ns p k c) p k d = assign ns p k d := by
  funext p' k'
  unfold assign
  split_ifs <;> rfl

/-- Walks past other names are not affected by a change. -/
theorem walk_assign_of_not_takes {v w : ν × γ} {ks : List κ} {p : ν} {k : κ} {c : Option (ν × γ)}
    (hks : walk ns w ks = some v) (hnot : ¬ Takes ns w ks p k) :
    walk (assign ns p k c) w ks = some v := by
  rw [← hks]
  refine walk_unchanged (assign_agreesOff ns p k c) fun qs k' rest u heq hqs => ?_
  rintro ⟨rfl, rfl⟩
  exact hnot ⟨qs, rest, u.2, heq, hqs⟩

theorem walk_of_assign_none {v w : ν × γ} {ks : List κ} {p : ν} {k : κ}
    (hks : walk (assign ns p k none) w ks = some v) : walk ns w ks = some v := by
  induction ks generalizing w with
  | nil => exact hks
  | cons c ks ih =>
      rw [walk_cons] at hks ⊢
      obtain ⟨u, hu, hrest⟩ := Option.bind_eq_some_iff.mp hks
      unfold assign at hu
      split_ifs at hu
      rw [hu]
      exact ih hrest

namespace Rooted

/-- Hang a new node below a node that is reached. -/
theorem add (h : Rooted ns start) {p i : ν} {k : κ} (g : γ) (hp : Below ns start p)
    (habsent : ns p k = none) (hroot : i ≠ start.1) (hnew : ∀ p' k' g', ns p' k' ≠ some (i, g')) :
    Rooted (assign ns p k (some (i, g))) start where
  toTree := h.toTree.add g (inTree_of_below hp) habsent hroot hnew
  reached := by
    have hkept : ∀ {ks v}, walk ns start ks = some v →
        walk (assign ns p k (some (i, g))) start ks = some v := fun hks =>
      walk_assign_of_not_takes hks (not_takes_of_absent hks habsent)
    intro p' k' v hv
    by_cases hplace : p' = p ∧ k' = k
    · obtain ⟨ps, gp, hps⟩ := hp
      refine ⟨ps ++ [k], ?_⟩
      rw [hplace.1, hplace.2] at hv
      rw [walk_concat, hkept hps, Option.bind_some, hv]
    · rw [assign_other ns _ hplace] at hv
      obtain ⟨ks, hks⟩ := h.reached hv
      exact ⟨ks, hkept hks⟩

/-- Take away a node without children. -/
theorem remove (h : Rooted ns start) {p i : ν} {k : κ} {g : γ} (hchild : ns p k = some (i, g))
    (hleaf : ∀ c, ns i c = none) : Rooted (assign ns p k none) start where
  toTree := h.toTree.remove hchild hleaf
  reached := by
    intro p' k' v hv
    have hplace : ¬ (p' = p ∧ k' = k) := by
      rintro ⟨rfl, rfl⟩
      rw [assign_self] at hv
      cases hv
    rw [assign_other ns _ hplace] at hv
    obtain ⟨ks, hks⟩ := h.reached hv
    refine ⟨ks, walk_assign_of_not_takes hks ?_⟩
    rintro ⟨qs, rest, gp, rfl, hqs⟩
    obtain ⟨u, hu, hrest⟩ := step_of_walk hks hqs
    obtain rfl := Option.some.inj (hchild.symm.trans hu)
    cases rest with
    | nil =>
        obtain rfl := Option.some.inj hrest
        exact hplace (h.injective hv hchild)
    | cons c rest =>
        rw [walk_cons, hleaf c] at hrest
        cases hrest

/-- Hang a node elsewhere, but not on or below itself. -/
theorem move (h : Rooted ns start) {p i np : ν} {k nk : κ} {g : γ} (hchild : ns p k = some (i, g))
    (hnp : Below ns start np) (hself : ¬ Below ns (i, g) np) (hfree : ns np nk = none) :
    Rooted (assign (assign ns p k none) np nk (some (i, g))) start where
  toTree := h.toTree.move hchild (inTree_of_below hnp) (fun heq => hself ⟨[], g, by rw [heq]; rfl⟩)
    hfree
  reached := by
    have hne : ¬ (np = p ∧ nk = k) := by
      rintro ⟨rfl, rfl⟩
      rw [hfree] at hchild
      cases hchild
    have hkept : ∀ {w ks v}, walk ns w ks = some v → ¬ Takes ns w ks p k →
        walk (assign (assign ns p k none) np nk (some (i, g))) w ks = some v := by
      intro w ks v hks hnot
      have hcut : walk (assign ns p k none) w ks = some v := walk_assign_of_not_takes hks hnot
      refine walk_assign_of_not_takes hcut (not_takes_of_absent hcut ?_)
      rw [assign_other ns _ hne, hfree]
    -- What lies on or below the moved node is reached from it as before.
    have hbelow : ∀ {ks v}, walk ns (i, g) ks = some v →
        walk (assign (assign ns p k none) np nk (some (i, g))) (i, g) ks = some v := by
      intro ks v hks
      refine hkept hks ?_
      rintro ⟨qs, rest, gp, -, hqs⟩
      exact h.not_below_self hchild ⟨qs, gp, hqs⟩
    obtain ⟨nps, gnp, hnps⟩ := hnp
    have hnps' : ¬ Takes ns start nps p k := by
      rintro ⟨qs, rest, gp, rfl, hqs⟩
      obtain ⟨u, hu, hrest⟩ := step_of_walk hnps hqs
      obtain rfl := Option.some.inj (hchild.symm.trans hu)
      exact hself ⟨rest, gnp, hrest⟩
    have hmoved : walk (assign (assign ns p k none) np nk (some (i, g))) start (nps ++ [nk])
        = some (i, g) := by
      rw [walk_concat, hkept hnps hnps', Option.bind_some, assign_self]
    intro p' k' v hv
    by_cases hplace : p' = np ∧ k' = nk
    · rw [hplace.1, hplace.2, assign_self] at hv
      exact ⟨nps ++ [nk], hmoved.trans hv⟩
    · rw [assign_other _ _ hplace] at hv
      have hold : ns p' k' = some v := by
        unfold assign at hv
        split_ifs at hv
        exact hv
      obtain ⟨ks, hks⟩ := h.reached hold
      by_cases htakes : Takes ns start ks p k
      · obtain ⟨qs, rest, gp, rfl, hqs⟩ := htakes
        obtain ⟨u, hu, hrest⟩ := step_of_walk hks hqs
        obtain rfl := Option.some.inj (hchild.symm.trans hu)
        refine ⟨(nps ++ [nk]) ++ rest, ?_⟩
        rw [walk_append, hmoved]
        exact hbelow hrest
      · exact ⟨ks, hkept hks htakes⟩

/-- Hang a node elsewhere, in the place of a node without children. -/
theorem replace (h : Rooted ns start) {p i np : ν} {k nk : κ} {g : γ}
    (hchild : ns p k = some (i, g)) (hnp : Below ns start np) (hself : ¬ Below ns (i, g) np)
    (hleaf : ∀ r, ¬ (np = p ∧ nk = k) → ns np nk = some r → ∀ c, ns r.1 c = none) :
    Rooted (assign (assign ns p k none) np nk (some (i, g))) start := by
  by_cases hsame : np = p ∧ nk = k
  · obtain ⟨rfl, rfl⟩ := hsame
    have hback : assign (assign ns np nk none) np nk (some (i, g)) = ns := by
      funext p' k'
      by_cases hplace : p' = np ∧ k' = nk
      · rw [hplace.1, hplace.2, assign_self, hchild]
      · rw [assign_other _ _ hplace, assign_other _ _ hplace]
    rwa [hback]
  · cases htarget : ns np nk with
    | none => exact h.move hchild hnp hself htarget
    | some r =>
        have hcleared := h.remove (show ns np nk = some (r.1, r.2) from htarget) (hleaf r hsame htarget)
        obtain ⟨nps, gnp, hnps⟩ := hnp
        have hmoved := hcleared.move (p := p) (k := k) (i := i) (g := g) ?_
          ⟨nps, gnp, h.walk_assign hnps nk none⟩ ?_ (assign_self ns np nk none)
        · have horder : assign (assign (assign ns np nk none) p k none) np nk (some (i, g))
              = assign (assign ns p k none) np nk (some (i, g)) := by
            funext p' k'
            unfold assign
            split_ifs <;> rfl
          rwa [horder] at hmoved
        · rw [assign_other ns _ fun heq => hsame ⟨heq.1.symm, heq.2.symm⟩]
          exact hchild
        · rintro ⟨ks, gk, hks⟩
          exact hself ⟨ks, gk, walk_of_assign_none hks⟩

end Rooted
end NameTree
