import Confuse.Callbacks
import Confuse.Coherence

/-!
# Truthful file systems

A truthful file system answers from a tree of names, and only the successful calls that create, move
or remove a name change the tree. An inode and generation that were once in use are never given out
again. A world agrees with a namespace when its file system has this namespace and the path cache is
coherent with it.
-/

namespace Confuse

open Interaction NameTree PathResolver

/-- What a successful call does to the namespace. -/
inductive NameChange
  | add (parent : INodeNo) (name : OsStr) (ino : INodeNo) (generation : Generation)
  | move (parent : INodeNo) (name : OsStr) (newparent : INodeNo) (newname : OsStr)
  | remove (parent : INodeNo) (name : OsStr)

def FsCall.change : (c : FsCall) → c.Reply → Option NameChange
  | .mkdir _ parent name _ _, reply =>
      match (reply : Confuse.Reply ReplyEntryPayload) with
      | some (.ok payload) => some (.add parent name payload.attr.ino payload.generation)
      | _ => none
  | .create _ parent name _ _ _, reply =>
      match (reply : Confuse.Reply ReplyCreatePayload) with
      | some (.ok payload) => some (.add parent name payload.attr.ino payload.generation)
      | _ => none
  | .rename _ parent name newparent newname _, reply =>
      match (reply : Confuse.Reply Unit) with
      | some (.ok ()) => some (.move parent name newparent newname)
      | _ => none
  | .unlink _ parent name, reply | .rmdir _ parent name, reply =>
      match (reply : Confuse.Reply Unit) with
      | some (.ok ()) => some (.remove parent name)
      | _ => none
  | _, _ => none

namespace FsCall
variable {req : Request} {parent newparent : INodeNo} {name newname : OsStr} {change : NameChange}

theorem change_mkdir {mode umask : UInt32} {reply : Confuse.Reply ReplyEntryPayload}
    (h : (mkdir req parent name mode umask).change reply = some change) :
    ∃ i g, change = .add parent name i g := by
  rcases reply with _ | ⟨err⟩ | ⟨payload⟩
  · cases h
  · cases h
  · exact ⟨_, _, (Option.some.inj h).symm⟩

theorem change_create {mode umask : UInt32} {flags : Int32}
    {reply : Confuse.Reply ReplyCreatePayload}
    (h : (create req parent name mode umask flags).change reply = some change) :
    ∃ i g, change = .add parent name i g := by
  rcases reply with _ | ⟨err⟩ | ⟨payload⟩
  · cases h
  · cases h
  · exact ⟨_, _, (Option.some.inj h).symm⟩

theorem change_rename {flags : RenameFlags} {reply : Confuse.Reply Unit}
    (h : (rename req parent name newparent newname flags).change reply = some change) :
    reply = some (.ok ()) ∧ change = .move parent name newparent newname := by
  rcases reply with _ | ⟨err⟩ | ⟨⟩
  · cases h
  · cases h
  · exact ⟨rfl, (Option.some.inj h).symm⟩

theorem change_unlink {reply : Confuse.Reply Unit}
    (h : (unlink req parent name).change reply = some change) :
    reply = some (.ok ()) ∧ change = .remove parent name := by
  rcases reply with _ | ⟨err⟩ | ⟨⟩
  · cases h
  · cases h
  · exact ⟨rfl, (Option.some.inj h).symm⟩

theorem change_rmdir {reply : Confuse.Reply Unit}
    (h : (rmdir req parent name).change reply = some change) :
    reply = some (.ok ()) ∧ change = .remove parent name := by
  rcases reply with _ | ⟨err⟩ | ⟨⟩
  · cases h
  · cases h
  · exact ⟨rfl, (Option.some.inj h).symm⟩

end FsCall

/-- The key of a name among the children of a node. -/
def nameKey (cf : CaseFold) (name : OsStr) : Str := cf.toLowercase name.toStringLossy

/-- The change leads from `ns` to `ns'`. -/
def NameChange.Leads (cf : CaseFold) (ns ns' : Namespace) : NameChange → Prop
  | .add parent name ino generation => IsComponent name.toStringLossy ∧
      ns parent (nameKey cf name) = none ∧
      ns' = assign ns parent (nameKey cf name) (some (ino, generation))
  | .move parent name newparent newname =>
      IsComponent name.toStringLossy ∧ IsComponent newname.toStringLossy ∧
      ∃ child, ns parent (nameKey cf name) = some child ∧
        ns' = assign (assign ns parent (nameKey cf name) none) newparent (nameKey cf newname)
          (some child)
  | .remove parent name => IsComponent name.toStringLossy ∧
      ns' = assign ns parent (nameKey cf name) none

/-- `ns` is the file system's tree of names, and `used` the pairs that have been in use. -/
structure Truthful {β φ : Type} (cf : CaseFold) (h : Host β φ) (ns : β → Namespace)
    (used : β → INodeNo → Generation → Prop) : Prop where
  tree : ∀ b, Tree (ns b) .ROOT
  in_use : ∀ {b p k i g}, ns b p k = some (i, g) → used b i g
  root_in_use : ∀ b, used b .ROOT ⟨0⟩
  changed : ∀ {c : FsCall} {b change}, c.change (h.reply c b).1 = some change →
    change.Leads cf (ns b) (ns (h.reply c b).2)
  unchanged : ∀ {c : FsCall} {b}, c.change (h.reply c b).1 = none →
    ns (h.reply c b).2 = ns b
  stays_used : ∀ (c : FsCall) b i g, used b i g → used (h.reply c b).2 i g
  never_reused : ∀ {c : FsCall} {b parent name i g},
    c.change (h.reply c b).1 = some (.add parent name i g) → ¬ used b i g
  lookup_present : ∀ {req p name b i g}, ns b p (nameKey cf name) = some (i, g) →
    ∃ payload : ReplyEntryPayload, (h.reply (.lookup req p name) b).1 = some (.ok payload) ∧
      payload.attr.ino = i ∧ payload.generation = g
  lookup_absent : ∀ {req p name b}, ns b p (nameKey cf name) = none →
    (h.reply (.lookup req p name) b).1 = some (.error ENOENT)
  listed : ∀ {req i fh offset b entry},
    entry ∈ ((h.reply (.readdirplus req i fh offset) b).1 : ReplyDirectoryPlus).entries →
      IsComponent entry.name.toStringLossy ∧
      ns b i (nameKey cf entry.name) = some (entry.attr.ino, entry.generation)
  forget_names : ∀ req i n b, ns (h.forget req i n b) = ns b
  forget_used : ∀ req i n b j g, used b j g → used (h.forget req i n b) j g

/-- An inode that was in use never comes back with generation 0. -/
def ZeroIsFirst {β φ : Type} (h : Host β φ) (used : β → INodeNo → Generation → Prop) : Prop :=
  ∀ (c : FsCall) b parent name i, c.change (h.reply c b).1 = some (.add parent name i ⟨0⟩) →
    ∀ g, ¬ used b i g

/-- The result of the walk without a cache. -/
def resolved (ns : Namespace) (components : List Str) : Except Errno INodeNo :=
  match walk ns rootEntry components with
  | some (ino, _) => .ok ino
  | none => .error ENOENT

namespace Truthful
variable {β φ : Type} {cf : CaseFold} {h : Host β φ} {ns : β → Namespace}
  {used : β → INodeNo → Generation → Prop}

/-- Every node that a walk reaches is in use. -/
theorem walk_used (ht : Truthful cf h ns used) {b : β} {ks : List Str} {i : INodeNo}
    {g : Generation} (hwalk : walk (ns b) rootEntry ks = some (i, g)) : used b i g := by
  rcases List.eq_nil_or_concat ks with rfl | ⟨qs, k, rfl⟩
  · obtain ⟨rfl, rfl⟩ := Prod.mk.inj (Option.some.inj hwalk)
    exact ht.root_in_use b
  · rw [List.concat_eq_append, walk_concat] at hwalk
    obtain ⟨v, -, hv⟩ := Option.bind_eq_some_iff.mp hwalk
    exact ht.in_use hv

/-- A node with children is in use. -/
theorem parent_used (ht : Truthful cf h ns used) {b : β} {p : INodeNo} {k : Str}
    {v : INodeNo × Generation} (hv : ns b p k = some v) : ∃ g, used b p g := by
  rcases (ht.tree b).hung hv with rfl | ⟨p', k', g, hplace⟩
  · exact ⟨_, ht.root_in_use b⟩
  · exact ⟨g, ht.in_use hplace⟩

end Truthful

/-! ## Worlds that agree with a namespace -/

/-- The file system has the namespace `n`, and the cache is coherent with it. -/
structure World.Agrees {β φ : Type} (ns : β → Namespace) (used : β → INodeNo → Generation → Prop)
    (exempt : Str → Prop) (n : Namespace) (w : World β φ) : Prop where
  names : ns w.backend = n
  coherent : Coherent n (used w.backend) exempt w.resolver

/-- Calls that change no names, whatever they are answered. -/
def FsCall.keepsNames : FsCall → Bool
  | .mkdir .. | .create .. | .rename .. | .unlink .. | .rmdir .. => false
  | _ => true

theorem FsCall.keepsNames.change {c : FsCall} (hc : c.keepsNames) (reply : c.Reply) :
    c.change reply = none := by
  cases c <;> first | rfl | exact absurd hc (by simp [keepsNames])

/-- Effects that neither record a path entry nor change a name. -/
def Effect.isSteady : Effect → Bool
  | .fs c => c.keepsNames
  | .table (.rememberPositive _) | .table (.rememberCreated _) | .table (.rememberNegative ..) =>
      false
  | _ => true

namespace World.Agrees
variable {β φ : Type} {pf : Platform} {h : Host β φ} {notices : Notices} {ns : β → Namespace}
  {used : β → INodeNo → Generation → Prop} {exempt exempt' : Str → Prop} {n : Namespace}
  {w : World β φ}

theorem notify (hw : w.Agrees ns used exempt n) (call : NotifierCall) :
    (w.notify pf h call).Agrees ns used exempt n :=
  ⟨hw.names, hw.coherent.notify pf.caseFold _ call⟩

variable (pf h) in
theorem foldl_notify (hw : w.Agrees ns used exempt n) (calls : List NotifierCall) :
    (calls.foldl (World.notify pf h) w).Agrees ns used exempt n := by
  induction calls generalizing w with
  | nil => exact hw
  | cons call calls ih => exact ih (hw.notify call)

theorem forget (ht : Truthful pf.caseFold h ns used) (hw : w.Agrees ns used exempt n)
    (req : Request) (f : INodeNo × ℕ) : (w.forget h req f).Agrees ns used exempt n where
  names := (ht.forget_names req f.1 f.2 w.backend).trans hw.names
  coherent := hw.coherent.mono (ht.forget_used req f.1 f.2 w.backend)

theorem foldl_forget (ht : Truthful pf.caseFold h ns used) (hw : w.Agrees ns used exempt n)
    (req : Request) (forgets : Forgets) :
    (forgets.foldl (World.forget h req) w).Agrees ns used exempt n := by
  induction forgets generalizing w with
  | nil => exact hw
  | cons f forgets ih => exact ih (hw.forget ht req f)

/-- A drained list is forgotten, which changes no names. -/
theorem deliver (ht : Truthful pf.caseFold h ns used) (hw : w.Agrees ns used exempt n)
    (req : Request) (o : DrainOp)
    (hop : ∀ now r, Coherent n (used w.backend) exempt r →
      Coherent n (used w.backend) exempt' (o.apply pf.caseFold now r).2) :
    (w.deliver pf h req o).Agrees ns used exempt' n :=
  foldl_forget ht (w := { w with
    resolver := (o.apply pf.caseFold (h.clock w.steps) w.resolver).2
    log := w.log ++ [.drain (h.clock w.steps) o
      (o.apply pf.caseFold (h.clock w.steps) w.resolver).1] })
    ⟨hw.names, hop _ _ hw.coherent⟩ req _

/-- A steady effect keeps the agreement. -/
theorem steady (ht : Truthful pf.caseFold h ns used) {e : Effect} (he : e.isSteady)
    (hw : w.Agrees ns used exempt n) :
    (machine pf h notices e w).2.Agrees ns used exempt n := by
  have hnotified := hw.foldl_notify pf h (notices w.steps)
  generalize hw' : (notices w.steps).foldl (World.notify pf h) w = w' at hnotified
  suffices hperform : (w'.perform pf h e).2.Agrees ns used exempt n by
    refine ⟨?_, ?_⟩
    · rw [← hw'] at hperform
      exact hperform.names
    · rw [← hw'] at hperform
      exact hperform.coherent
  cases e with
  | fs c =>
      have hnames : ns (h.reply c w'.backend).2 = ns w'.backend :=
        ht.unchanged (FsCall.keepsNames.change he _)
      exact ⟨hnames.trans hnotified.names, hnotified.coherent.mono (ht.stays_used c w'.backend)⟩
  | table o =>
      refine ⟨hnotified.names, ?_⟩
      cases o with
      | rememberPositive record => exact absurd he (by simp [Effect.isSteady])
      | rememberCreated created => exact absurd he (by simp [Effect.isSteady])
      | rememberNegative path parent parentGeneration name =>
          exact absurd he (by simp [Effect.isSteady])
      | cached path parent parentGeneration =>
          exact hnotified.coherent.cached pf.caseFold _ path parent parentGeneration
      | cachedAttr ino => exact hnotified.coherent.cachedAttr _ ino
      | rememberAttr ino attr ttl => exact hnotified.coherent.rememberAttr _ ino attr ttl
      | invalidateInodeAttr ino => exact hnotified.coherent.invalidateInodeAttr _ ino
  | deliver req o =>
      exact hnotified.deliver ht req o fun now r hr => hr.drain pf.caseFold now o
  | openState o => exact ⟨hnotified.names, hnotified.coherent⟩
  | fillFindData data => exact ⟨hnotified.names, hnotified.coherent⟩
  | fillFindStreamData data => exact ⟨hnotified.names, hnotified.coherent⟩

end World.Agrees
end Confuse
