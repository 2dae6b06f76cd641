import Mathlib.Data.List.Basic
import Mathlib.Data.List.Induction
import Mathlib.Logic.Function.Basic
import Mathlib.Tactic.TypeStar

/-!
# Trees of names

Nodes have named children; a child is a node together with a tag. A walk follows a list of names from
a start. In a tree every node is the child of at most one node under one name, so a node is reached
by one path only, and a change of one name leaves all walks alone that do not pass through it.
-/

namespace NameTree

variable {ν κ γ : Type*}

/-- The children of each node. -/
abbrev Children (ν κ γ : Type*) := ν → κ → Option (ν × γ)

def walk (ns : Children ν κ γ) (start : ν × γ) : List κ → Option (ν × γ)
  | [] => some start
  | k :: ks => (ns start.1 k).bind fun v => walk ns v ks

section Walk
variable (ns : Children ν κ γ) (start : ν × γ)

@[simp] theorem walk_nil : walk ns start [] = some start := rfl

theorem walk_cons (k : κ) (ks : List κ) :
    walk ns start (k :: ks) = (ns start.1 k).bind fun v => walk ns v ks := rfl

theorem walk_append (ks ks' : List κ) :
    walk ns start (ks ++ ks') = (walk ns start ks).bind fun v => walk ns v ks' := by
  induction ks generalizing start with
  | nil => rfl
  | cons k ks ih =>
      rw [List.cons_append, walk_cons, walk_cons]
      cases ns start.1 k with
      | none => rfl
      | some v => exact ih v

theorem walk_concat (ks : List κ) (k : κ) :
    walk ns start (ks ++ [k]) = (walk ns start ks).bind fun v => ns v.1 k := by
  rw [walk_append]
  congr 1
  funext v
  rw [walk_cons]
  cases ns v.1 k <;> rfl

end Walk

/-- A tree: no node has two places, the root has none, and only nodes of the tree have children. -/
structure Tree (ns : Children ν κ γ) (root : ν) : Prop where
  injective : ∀ {p p' k k' i g g'}, ns p k = some (i, g) → ns p' k' = some (i, g') → p = p' ∧ k = k'
  root_free : ∀ p k g, ns p k ≠ some (root, g)
  hung : ∀ {p k v}, ns p k = some v → p = root ∨ ∃ p' k' g, ns p' k' = some (p, g)

namespace Tree
variable {ns : Children ν κ γ} {root : ν}

/-- A node is reached by one path only. -/
theorem path_unique (h : Tree ns root) {g₀ : γ} {ks ks' : List κ} {i : ν} {g g' : γ}
    (hks : walk ns (root, g₀) ks = some (i, g)) (hks' : walk ns (root, g₀) ks' = some (i, g')) :
    ks = ks' := by
  induction ks using List.reverseRecOn generalizing ks' i g g' with
  | nil =>
      obtain rfl : root = i := congrArg Prod.fst (Option.some.inj hks)
      rcases List.eq_nil_or_concat ks' with rfl | ⟨qs, k, rfl⟩
      · rfl
      · rw [List.concat_eq_append, walk_concat] at hks'
        obtain ⟨v, -, hv⟩ := Option.bind_eq_some_iff.mp hks'
        exact absurd hv (h.root_free _ _ _)
  | append_singleton qs k ih =>
      rw [walk_concat] at hks
      obtain ⟨v, hqs, hv⟩ := Option.bind_eq_some_iff.mp hks
      rcases List.eq_nil_or_concat ks' with rfl | ⟨qs', k', rfl⟩
      · obtain rfl : root = i := congrArg Prod.fst (Option.some.inj hks')
        exact absurd hv (h.root_free _ _ _)
      · rw [List.concat_eq_append, walk_concat] at hks'
        obtain ⟨v', hqs', hv'⟩ := Option.bind_eq_some_iff.mp hks'
        obtain ⟨hparent, rfl⟩ := h.injective hv hv'
        rw [show v' = (v.1, v'.2) from Prod.ext hparent.symm rfl] at hqs'
        have hsame : qs = qs' := ih hqs hqs'
        rw [hsame, List.concat_eq_append]

end Tree

/-- The two assignments agree except where `changed` holds. -/
def AgreesOff (changed : ν → κ → Prop) (ns ns' : Children ν κ γ) : Prop :=
  ∀ p k, ¬ changed p k → ns' p k = ns p k

/-- A walk that never takes a changed step is the same in both. -/
theorem walk_unchanged {ns ns' : Children ν κ γ} {changed : ν → κ → Prop}
    (hagree : AgreesOff changed ns ns') {start : ν × γ} {ks : List κ}
    (hks : ∀ qs k rest v, ks = qs ++ k :: rest → walk ns start qs = some v → ¬ changed v.1 k) :
    walk ns' start ks = walk ns start ks := by
  induction ks generalizing start with
  | nil => rfl
  | cons k ks ih =>
      rw [walk_cons, walk_cons, hagree start.1 k (hks [] k ks start rfl rfl)]
      cases hv : ns start.1 k with
      | none => rfl
      | some v =>
          refine ih fun qs k' rest v' heq hwalk => hks (k :: qs) k' rest v' ?_ ?_
          · rw [heq, List.cons_append]
          · rw [walk_cons, hv]
            exact hwalk

section Update
variable [DecidableEq ν] [DecidableEq κ]

/-- Assign a child, or none, to one name of one node. -/
def assign (ns : Children ν κ γ) (p : ν) (k : κ) (v : Option (ν × γ)) : Children ν κ γ :=
  fun p' k' => if p' = p ∧ k' = k then v else ns p' k'

theorem assign_self (ns : Children ν κ γ) (p : ν) (k : κ) (v : Option (ν × γ)) :
    assign ns p k v p k = v := if_pos ⟨rfl, rfl⟩

theorem assign_other (ns : Children ν κ γ) {p p' : ν} {k k' : κ} (v : Option (ν × γ))
    (h : ¬ (p' = p ∧ k' = k)) : assign ns p k v p' k' = ns p' k' := if_neg h

theorem assign_agreesOff (ns : Children ν κ γ) (p : ν) (k : κ) (v : Option (ν × γ)) :
    AgreesOff (fun p' k' => p' = p ∧ k' = k) ns (assign ns p k v) :=
  fun _ _ h => assign_other ns v h

namespace Tree
variable {ns : Children ν κ γ} {root : ν}

/-- A path does not pass through the names of its own end. -/
theorem walk_assign (h : Tree ns root) {g₀ : γ} {ps : List κ} {p : ν} {g : γ}
    (hps : walk ns (root, g₀) ps = some (p, g)) (k : κ) (v : Option (ν × γ)) :
    walk (assign ns p k v) (root, g₀) ps = some (p, g) := by
  rw [← hps]
  refine walk_unchanged (assign_agreesOff ns p k v) fun qs c rest w heq hqs => ?_
  rintro ⟨rfl, -⟩
  have hsame := h.path_unique (g := w.2) hqs hps
  rw [heq] at hsame
  simp at hsame

/-- A new child of a tree has no children. -/
theorem childless_of_new (h : Tree ns root) {p i : ν} {k : κ} {g : γ}
    (h' : Tree (assign ns p k (some (i, g))) root) (habsent : ns p k = none) {g₀ gp : γ}
    {ps : List κ} (hps : walk ns (root, g₀) ps = some (p, gp)) (c : κ) :
    assign ns p k (some (i, g)) i c = none := by
  have hnew := assign_self ns p k (some (i, g))
  have hps' := h.walk_assign hps k (some (i, g))
  by_contra hchild
  obtain ⟨v, hv⟩ := Option.ne_none_iff_exists'.mp hchild
  by_cases hself : i = p ∧ c = k
  · obtain ⟨rfl, rfl⟩ := hself
    have hagain : walk (assign ns i c (some (i, g))) (root, g₀) (ps ++ [c]) = some (i, g) := by
      rw [walk_concat, hps', Option.bind_some, hnew]
    simpa using h'.path_unique hps' hagain
  · rw [assign_other ns _ hself] at hv
    rcases h.hung hv with rfl | ⟨p', k', g', hplace⟩
    · exact h'.root_free p k g hnew
    · have hne : ¬ (p' = p ∧ k' = k) := by
        rintro ⟨rfl, rfl⟩
        rw [habsent] at hplace
        exact absurd hplace (by simp)
      exact hne (h'.injective (by rw [assign_other ns _ hne]; exact hplace) hnew)

/-! ## Changes that keep a tree -/

/-- A node of the tree: the root or a child. -/
def InTree (ns : Children ν κ γ) (root p : ν) : Prop := p = root ∨ ∃ p' k g, ns p' k = some (p, g)

omit [DecidableEq ν] [DecidableEq κ] in
theorem empty (root : ν) : Tree (fun _ _ => none : Children ν κ γ) root where
  injective h := absurd h (by simp)
  root_free _ _ _ := by simp
  hung h := absurd h (by simp)

/-- Hang a new node below a node of the tree. -/
theorem add (h : Tree ns root) {p i : ν} {k : κ} (g : γ) (hp : InTree ns root p)
    (habsent : ns p k = none) (hroot : i ≠ root) (hnew : ∀ p' k' g', ns p' k' ≠ some (i, g')) :
    Tree (assign ns p k (some (i, g))) root := by
  have hkept : ∀ {p' k' v}, ns p' k' = some v → assign ns p k (some (i, g)) p' k' = some v := by
    intro p' k' v hv
    rw [assign_other]
    · exact hv
    · rintro ⟨rfl, rfl⟩
      rw [habsent] at hv
      cases hv
  refine ⟨?_, ?_, ?_⟩
  · intro p₁ p₂ k₁ k₂ j g₁ g₂ h₁ h₂
    unfold assign at h₁ h₂
    split_ifs at h₁ h₂ with hs₁ hs₂ hs₂
    · exact ⟨hs₁.1.trans hs₂.1.symm, hs₁.2.trans hs₂.2.symm⟩
    · obtain ⟨rfl, -⟩ := Prod.mk.inj (Option.some.inj h₁)
      exact absurd h₂ (hnew _ _ _)
    · obtain ⟨rfl, -⟩ := Prod.mk.inj (Option.some.inj h₂)
      exact absurd h₁ (hnew _ _ _)
    · exact h.injective h₁ h₂
  · intro p' k' g'
    unfold assign
    split_ifs
    · simp [hroot]
    · exact h.root_free p' k' g'
  · intro p' k' v hv
    have hold : InTree ns root p' := by
      unfold assign at hv
      split_ifs at hv with hs
      · exact hs.1 ▸ hp
      · exact h.hung hv
    exact hold.imp id fun ⟨p'', k'', g'', hplace⟩ => ⟨p'', k'', g'', hkept hplace⟩

/-- Take away a node without children. -/
theorem remove (h : Tree ns root) {p i : ν} {k : κ} {g : γ} (hchild : ns p k = some (i, g))
    (hleaf : ∀ c, ns i c = none) : Tree (assign ns p k none) root := by
  have hkept : ∀ {p' k' v}, assign ns p k none p' k' = some v → ns p' k' = some v := by
    intro p' k' v hv
    unfold assign at hv
    split_ifs at hv
    exact hv
  refine ⟨fun h₁ h₂ => h.injective (hkept h₁) (hkept h₂),
    fun p' k' g' hv => h.root_free p' k' g' (hkept hv), ?_⟩
  intro p' k' v hv
  refine (h.hung (hkept hv)).imp id fun ⟨p'', k'', g'', hplace⟩ => ⟨p'', k'', g'', ?_⟩
  rw [assign_other]
  · exact hplace
  · rintro ⟨rfl, rfl⟩
    rw [hchild] at hplace
    obtain ⟨rfl, -⟩ := Prod.mk.inj (Option.some.inj hplace)
    have hchildren := hkept hv
    rw [hleaf] at hchildren
    cases hchildren

/-- Hang a node elsewhere, under a free name of another node. -/
theorem move (h : Tree ns root) {p i np : ν} {k nk : κ} {g : γ} (hchild : ns p k = some (i, g))
    (hnp : InTree ns root np) (hself : np ≠ i) (hfree : ns np nk = none) :
    Tree (assign (assign ns p k none) np nk (some (i, g))) root := by
  have hcases : ∀ {p' k' v}, assign (assign ns p k none) np nk (some (i, g)) p' k' = some v →
      (p' = np ∧ k' = nk ∧ v = (i, g)) ∨ (¬ (p' = p ∧ k' = k) ∧ ns p' k' = some v) := by
    intro p' k' v hv
    unfold assign at hv
    split_ifs at hv with hnew hold
    · exact .inl ⟨hnew.1, hnew.2, (Option.some.inj hv).symm⟩
    · exact .inr ⟨hold, hv⟩
  have hkept : ∀ {p' k' v}, ¬ (p' = p ∧ k' = k) → ns p' k' = some v →
      assign (assign ns p k none) np nk (some (i, g)) p' k' = some v := by
    intro p' k' v hne hv
    rw [assign_other, assign_other ns _ hne]
    · exact hv
    · rintro ⟨rfl, rfl⟩
      rw [hfree] at hv
      cases hv
  refine ⟨?_, ?_, ?_⟩
  · intro p₁ p₂ k₁ k₂ j g₁ g₂ h₁ h₂
    rcases hcases h₁ with ⟨rfl, rfl, hv₁⟩ | ⟨hne₁, hv₁⟩ <;>
      rcases hcases h₂ with ⟨rfl, rfl, hv₂⟩ | ⟨hne₂, hv₂⟩
    · exact ⟨rfl, rfl⟩
    · obtain ⟨rfl, -⟩ := Prod.mk.inj hv₁
      exact absurd (h.injective hv₂ hchild) hne₂
    · obtain ⟨rfl, -⟩ := Prod.mk.inj hv₂
      exact absurd (h.injective hv₁ hchild) hne₁
    · exact h.injective hv₁ hv₂
  · intro p' k' g' hv
    rcases hcases hv with ⟨-, -, heq⟩ | ⟨-, hv⟩
    · obtain ⟨rfl, -⟩ := Prod.mk.inj heq
      exact h.root_free p k g hchild
    · exact h.root_free p' k' g' hv
  · intro p' k' v hv
    have hold : InTree ns root p' := by
      rcases hcases hv with ⟨rfl, -, -⟩ | ⟨-, hv⟩
      · exact hnp
      · exact h.hung hv
    by_cases hmoved : p' = i
    · exact .inr ⟨np, nk, g, by rw [hmoved, assign_self]⟩
    · refine hold.imp id fun ⟨p'', k'', g'', hplace⟩ => ⟨p'', k'', g'', hkept ?_ hplace⟩
      rintro ⟨rfl, rfl⟩
      rw [hchild] at hplace
      exact hmoved (Prod.mk.inj (Option.some.inj hplace)).1.symm

end Tree
end Update
end NameTree
