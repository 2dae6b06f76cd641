import Confuse.NameTree
import Confuse.ResolverEntries

/-!
# Coherence of the path cache

A cached entry stands for the walk to its parent followed by one name. It is served only to a walk
that arrives at the parent and generation stored in it, so it has to be right in that case only. A
change of the namespace is harmless for every entry whose path does not pass through the changed
name; the entries that do are exempt until the adapter drops or replaces them.
-/

namespace Confuse

open NameTree PathResolver

/-- For each inode and lower-cased name the child's inode and generation. -/
abbrev Namespace := Children INodeNo Str Generation

abbrev rootEntry : INodeNo × Generation := (.ROOT, ⟨0⟩)

/-- The child that an entry asserts, or its absence. -/
def PathCacheEntry.value : PathCacheEntry → Option (INodeNo × Generation)
  | .positive e => some (e.ino, e.generation)
  | .negative _ => none

/-- A pair that was in use, or generation 0 of an inode that was: the resolver takes generation 0 for
an inode that it does not know. -/
def Known (used : INodeNo → Generation → Prop) (i : INodeNo) (g : Generation) : Prop :=
  used i g ∨ g = ⟨0⟩ ∧ ∃ g', used i g'

theorem Known.mono {used used' : INodeNo → Generation → Prop} (h : ∀ i g, used i g → used' i g)
    {i : INodeNo} {g : Generation} (hk : Known used i g) : Known used' i g :=
  hk.imp (h i g) fun ⟨hg, g', hg'⟩ => ⟨hg, g', h i g' hg'⟩

/-- The cache agrees with the namespace, except at the keys that are exempt. -/
structure Coherent (ns : Namespace) (used : INodeNo → Generation → Prop) (exempt : Str → Prop)
    (r : PathResolver) : Prop where
  known : ∀ key e, r.paths.lookup key = some e → Known used e.parent e.parentGeneration
  right : ∀ ks k e, (∀ p ∈ ks ++ [k], IsComponent p) →
    r.paths.lookup (joinPath (ks ++ [k])) = some e → ¬ exempt (joinPath (ks ++ [k])) →
      walk ns rootEntry ks = some (e.parent, e.parentGeneration) → ns e.parent k = e.value
  marked : r.Marked fun i g => used i g ∨ g = ⟨0⟩

/-- No key is exempt. -/
def nowhere : Str → Prop := fun _ => False

namespace Coherent
variable {ns ns' : Namespace} {used used' : INodeNo → Generation → Prop} {exempt exempt' : Str → Prop}
  {r r' : PathResolver}

theorem within (h : Coherent ns used exempt r) (hr' : r'.Within r)
    (hmarked : r'.Marked fun i g => used i g ∨ g = ⟨0⟩) : Coherent ns used exempt r' where
  known key e he := h.known key e (hr' key e he)
  right ks k e hks he := h.right ks k e hks (hr' _ e he)
  marked := hmarked

theorem weaken (h : Coherent ns used exempt r) (hexempt : ∀ key, exempt key → exempt' key) :
    Coherent ns used exempt' r where
  known := h.known
  right ks k e hks he hnot := h.right ks k e hks he fun hkey => hnot (hexempt _ hkey)
  marked := h.marked

theorem mono (h : Coherent ns used exempt r) (hused : ∀ i g, used i g → used' i g) :
    Coherent ns used' exempt r where
  known key e he := (h.known key e he).mono hused
  right := h.right
  marked i state hi := (h.marked i state hi).imp (hused _ _) id

theorem initial (ns : Namespace) (used : INodeNo → Generation → Prop) (ttl : Duration) :
    Coherent ns used nowhere ((default : PathResolver).setNegativeTtl ttl) where
  known key e he := absurd he (by simp [PathResolver.setNegativeTtl])
  right ks k e _ he := absurd he (by simp [PathResolver.setNegativeTtl])
  marked i state hi := absurd (a := (∅ : KeyedMap INodeNo InodeState).lookup i = some state) hi (by simp)

/-! ## Sections that record nothing -/

theorem drain (h : Coherent ns used exempt r) (cf : CaseFold) (now : Instant) (o : DrainOp) :
    Coherent ns used exempt (o.apply cf now r).2 :=
  h.within (drain_within cf now o r) (h.marked.drain cf now o)

theorem notify (h : Coherent ns used exempt r) (cf : CaseFold) (now : Instant) (n : NotifierCall) :
    Coherent ns used exempt (n.apply cf now r) :=
  h.within (notify_within cf now n r) (h.marked.notify cf now n)

theorem cached (h : Coherent ns used exempt r) (cf : CaseFold) (now : Instant) (path : OsStr)
    (parent : INodeNo) (parentGeneration : Generation) :
    Coherent ns used exempt (r.cached cf now path parent parentGeneration).2 :=
  h.within (cached_within cf now r path parent parentGeneration)
    (h.marked.cached cf now path parent parentGeneration)

theorem invalidateInodeAttr (h : Coherent ns used exempt r) (now : Instant) (ino : INodeNo) :
    Coherent ns used exempt (r.invalidateInodeAttr now ino) :=
  h.within (within_of_paths rfl) (h.marked.invalidateInodeAttr now ino)

theorem cachedAttr (h : Coherent ns used exempt r) (now : Instant) (ino : INodeNo) :
    Coherent ns used exempt (r.cachedAttr now ino).2 :=
  h.within (within_of_paths (cachedAttr_paths now r ino)) (h.marked.cachedAttr now ino)

theorem rememberAttr (h : Coherent ns used exempt r) (now : Instant) (ino : INodeNo)
    (attr : FileAttr) (ttl : Duration) :
    Coherent ns used exempt (r.rememberAttr now ino attr ttl) :=
  h.within (within_of_paths (rememberAttr_paths now r ino attr ttl))
    (h.marked.rememberAttr (fun _ => .inr rfl) now ino attr ttl)

/-- An invalidation lifts the exemption of what it drops. -/
theorem invalidateSubtree (h : Coherent ns used exempt r) (cf : CaseFold) (now : Instant)
    (path : OsStr) :
    Coherent ns used (fun key => exempt key ∧ inSubtree (normalizePath cf path) key = false)
      (r.invalidateSubtree cf now path).2 := by
  have hdrained := h.drain cf now (.invalidateSubtree path)
  refine ⟨hdrained.known, fun ks k e hks he hnot => hdrained.right ks k e hks he fun hexempt =>
    hnot ⟨hexempt, not_inSubtree_of_invalidated he⟩, hdrained.marked⟩

/-! ## Sections that record -/

/-- A recorded child is right when the walk to its parent arrives at the recorded parent; its key is
no longer exempt. -/
theorem rememberPositive (h : Coherent ns used exempt r) (cf : CaseFold) (now : Instant)
    (record : PositivePathRecord) {ps : List Str} {c : Str}
    (hkey : normalizePath cf record.path = joinPath (ps ++ [c]))
    (hps : ∀ p ∈ ps ++ [c], IsComponent p)
    (hparent : Known used record.parent record.parentGeneration)
    (hused : used record.attr.ino record.generation)
    (hright : walk ns rootEntry ps = some (record.parent, record.parentGeneration) →
      ns record.parent c = some (record.attr.ino, record.generation)) :
    Coherent ns used (fun key => exempt key ∧ key ≠ normalizePath cf record.path)
      (r.rememberPositive cf now record).2 where
  known key e he := by
    rcases rememberPositive_lookup he with ⟨-, hold⟩ | ⟨-, expires, outstanding, rfl⟩
    · exact h.known key e hold
    · exact hparent
  right ks k e hks he hnot hwalk := by
    rcases rememberPositive_lookup he with ⟨hne, hold⟩ | ⟨hsame, expires, outstanding, rfl⟩
    · exact h.right ks k e hks hold (fun hexempt => hnot ⟨hexempt, hne⟩) hwalk
    · rw [hkey] at hsame
      obtain ⟨rfl, hlast⟩ := List.append_inj' (joinPath_injOn hks hps hsame) rfl
      obtain rfl : k = c := by simpa using hlast
      exact hright hwalk
  marked := h.marked.rememberPositive cf now fun _ => .inl hused

theorem rememberNegative (h : Coherent ns used exempt r) (cf : CaseFold) (now : Instant)
    {path : OsStr} {parent : INodeNo} {parentGeneration : Generation} {name : OsStr}
    {ps : List Str} {c : Str} (hkey : normalizePath cf path = joinPath (ps ++ [c]))
    (hps : ∀ p ∈ ps ++ [c], IsComponent p) (hparent : Known used parent parentGeneration)
    (hright : ns parent c = none) :
    Coherent ns used exempt
      (r.rememberNegative cf now path parent parentGeneration name) where
  known key e he := by
    rcases rememberNegative_lookup he with ⟨-, hold⟩ | ⟨-, expires, rfl⟩
    · exact h.known key e hold
    · exact hparent
  right ks k e hks he hnot hwalk := by
    rcases rememberNegative_lookup he with ⟨-, hold⟩ | ⟨hsame, expires, rfl⟩
    · exact h.right ks k e hks hold hnot hwalk
    · rw [hkey] at hsame
      obtain ⟨rfl, hlast⟩ := List.append_inj' (joinPath_injOn hks hps hsame) rfl
      obtain rfl : k = c := by simpa using hlast
      exact hright
  marked := h.marked.rememberNegative cf now path parent parentGeneration name

/-! ## Changes of the namespace -/

/-- After a change the entries at and below the changed names are exempt, and all others are still
right: their walks do not pass through a changed name. -/
theorem change (h : Coherent ns used nowhere r) (htree : Tree ns .ROOT)
    {changed : INodeNo → Str → Prop} (hagree : AgreesOff changed ns ns')
    (hexempt : ∀ p k, changed p k → ∃ ps g, walk ns rootEntry ps = some (p, g) ∧
      ∀ ks, (∀ q ∈ ks, IsComponent q) → (ps ++ [k]) <+: ks → exempt (joinPath ks)) :
    Coherent ns' used exempt r where
  known := h.known
  right ks k e hks he hnot hwalk := by
    have huntouched : ∀ qs c rest v, ks ++ [k] = qs ++ c :: rest → walk ns rootEntry qs = some v →
        ¬ changed v.1 c := by
      intro qs c rest v heq hqs hchanged
      obtain ⟨ps, g, hps, hbelow⟩ := hexempt v.1 c hchanged
      obtain rfl : qs = ps := htree.path_unique (g := v.2) hqs hps
      exact hnot (hbelow _ hks ⟨rest, by rw [heq, List.append_assoc, List.singleton_append]⟩)
    have hsame : walk ns' rootEntry ks = walk ns rootEntry ks :=
      walk_unchanged hagree fun qs c rest v heq hqs =>
        huntouched qs c (rest ++ [k]) v (by rw [heq, List.append_assoc, List.cons_append]) hqs
    rw [hsame] at hwalk
    rw [hagree e.parent k (huntouched ks k [] _ rfl hwalk)]
    exact h.right ks k e hks he (fun hno => hno) hwalk
  marked := h.marked

/-- A new child has no children and its pair was never in use, so only the entry at its own path is
exempt. -/
theorem created (h : Coherent ns used nowhere r) (htree : Tree ns .ROOT) {p : INodeNo} {k : Str}
    {ps : List Str} {gp : Generation} (hps : walk ns rootEntry ps = some (p, gp))
    {i : INodeNo} {g : Generation} (htree' : Tree (assign ns p k (some (i, g))) .ROOT)
    (habsent : ns p k = none) (hfresh : ¬ Known used i g) :
    Coherent (assign ns p k (some (i, g))) used (fun key => key = joinPath (ps ++ [k])) r := by
  have hchanged : Coherent (assign ns p k (some (i, g))) used (fun key => ∃ ks,
      (∀ q ∈ ks, IsComponent q) ∧ (ps ++ [k]) <+: ks ∧ key = joinPath ks) r := by
    refine h.change htree (assign_agreesOff ns p k (some (i, g))) ?_
    rintro _ _ ⟨rfl, rfl⟩
    exact ⟨ps, gp, hps, fun ks hks hpre => ⟨ks, hks, hpre, rfl⟩⟩
  have hwalk : walk (assign ns p k (some (i, g))) rootEntry (ps ++ [k]) = some (i, g) := by
    rw [walk_concat, htree.walk_assign hps, Option.bind_some, assign_self]
  refine ⟨hchanged.known, fun ks c e hks he hnot hparent => ?_, hchanged.marked⟩
  by_cases hbelow : (ps ++ [k]) <+: ks
  · -- the walk to the parent passes through the new child
    obtain ⟨rest, rfl⟩ := hbelow
    rw [walk_append, hwalk, Option.bind_some] at hparent
    cases rest with
    | nil =>
        obtain ⟨rfl, rfl⟩ := Prod.mk.inj (Option.some.inj hparent)
        exact absurd (h.known _ e he) hfresh
    | cons c' rest =>
        rw [walk_cons, htree.childless_of_new htree' habsent hps] at hparent
        exact absurd hparent (by simp)
  · refine hchanged.right ks c e hks he ?_ hparent
    rintro ⟨ks', hks', hpre, heq⟩
    obtain rfl := joinPath_injOn hks hks' heq
    rcases List.prefix_concat_iff.mp hpre with hsame | hpre
    · exact hnot (by rw [hsame])
    · exact hbelow hpre

end Coherent
end Confuse
