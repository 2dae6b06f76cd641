import Confuse.HandleLedger
import Confuse.TimedAttributes

/-!
# Attributes that only the adapter changes

A mutating call changes the attributes of the inodes that it names, creates, moves, unlinks or
replaces. Between the call and the invalidations that follow it, remembered attributes may be wrong
for the inodes that are still to be invalidated; otherwise what the resolver remembers is what the
file system would answer.
-/

namespace Confuse

open Interaction PathResolver

/-! ## What the file system owes -/

/-- Attributes up to the access time. -/
def FileAttr.settled (attr : FileAttr) : FileAttr := { attr with atime := .UNIX_EPOCH }

/-- The attributes that a reply carries, up to the access time. -/
def Reply.settled? : Reply ReplyAttrPayload → Option FileAttr
  | some (.ok payload) => some payload.attr.settled
  | _ => none

/-- The calls that change no attributes. -/
def FsCall.keepsAttributes : FsCall → Bool
  | .setattr .. | .mkdir .. | .unlink .. | .rmdir .. | .rename .. | .create .. | .write ..
  | .setxattr .. | .fallocate .. => false
  | _ => true

instance : AllowsObserving FsCall.keepsAttributes :=
  ⟨fun c h => by cases c <;> first | rfl | cases h⟩

/-- The inodes whose attributes an answered call can change, when `child` gives the children of
directories before the call. -/
def FsCall.affected (child : INodeNo → OsStr → Option INodeNo) :
    (c : FsCall) → c.Reply → List INodeNo
  | .setattr _ ino _, reply => Reply.reads (fun _ : ReplyAttrPayload => ino) reply
  | .write _ ino _ _ _ _ _ _, reply => Reply.reads (fun _ : UInt32 => ino) reply
  | .setxattr _ ino _ _ _ _, reply => Reply.reads (fun _ : Unit => ino) reply
  | .fallocate _ ino _ _ _ _, reply => Reply.reads (fun _ : Unit => ino) reply
  | .mkdir _ parent _ _ _, reply => Reply.reads (fun _ : ReplyEntryPayload => parent) reply ++
      Reply.reads (fun payload : ReplyEntryPayload => payload.attr.ino) reply
  | .create _ parent _ _ _ _, reply => Reply.reads (fun _ : ReplyCreatePayload => parent) reply ++
      Reply.reads (fun payload : ReplyCreatePayload => payload.attr.ino) reply
  | .unlink _ parent name, reply => Reply.reads (fun _ : Unit => parent) reply ++
      (Reply.reads (fun _ : Unit => (child parent name).toList) reply).flatten
  | .rmdir _ parent name, reply => Reply.reads (fun _ : Unit => parent) reply ++
      (Reply.reads (fun _ : Unit => (child parent name).toList) reply).flatten
  | .rename _ parent name newparent newname _, reply =>
      (Reply.reads (fun _ : Unit => [parent, newparent] ++ (child parent name).toList ++
        (child newparent newname).toList) reply).flatten
  | _, _ => []

/-- The inodes whose names a call removes. -/
def FsCall.children (child : INodeNo → OsStr → Option INodeNo) : FsCall → List INodeNo
  | .unlink _ parent name | .rmdir _ parent name => (child parent name).toList
  | .rename _ parent name newparent newname _ =>
      (child parent name).toList ++ (child newparent newname).toList
  | _ => []

/-- Attributes are what `getattr` answers, and change with the calls of the adapter only. -/
structure OwnMutations {β φ : Type} (h : Host β φ) (attrs : β → INodeNo → Option FileAttr)
    (child : β → INodeNo → OsStr → Option INodeNo) : Prop where
  answered : ∀ req i fh b, Reply.settled? (h.reply (.getattr req i fh) b).1 = attrs b i
  named : ∀ b i attr, attrs b i = some attr → attr.ino = i
  kept : ∀ c b i, i ∉ c.affected (child b) (h.reply c b).1 → attrs (h.reply c b).2 i = attrs b i
  forgotten : ∀ req ino n b, attrs (h.forget req ino n b) = attrs b

theorem FsCall.affected_of_keeps {c : FsCall} (hc : c.keepsAttributes)
    (child : INodeNo → OsStr → Option INodeNo) (reply : c.Reply) : c.affected child reply = [] := by
  cases c <;> first | rfl | cases hc

/-! ## What is still to be invalidated -/

/-- Inodes, and path keys with all that is below them, which are still to be invalidated. -/
structure Pending where
  inodes : List INodeNo
  keys : List Str

namespace Pending

def none : Pending := ⟨[], []⟩

/-- The attributes of an inode are still to be invalidated. -/
def Excuses (p : Pending) (r : PathResolver) (i : INodeNo) : Prop :=
  i ∈ p.inodes ∨ ∃ key ∈ p.keys, r.HasEntryOf i fun candidate _ => inSubtree key candidate

theorem not_excuses_none (r : PathResolver) (i : INodeNo) : ¬ none.Excuses r i := by
  rintro (h | ⟨key, h, -⟩) <;> cases h

/-- Entries go only together with the attributes that they excuse. -/
theorem Excuses.purges {p : Pending} {r r' : PathResolver} {i : INodeNo} {attr : FileAttr}
    (h : p.Excuses r i) (hpurges : r.Purges r') (hattr : r'.timedAttr i = some attr) :
    p.Excuses r' i := by
  refine h.imp id ?_
  rintro ⟨key, hkey, key', e, he, hi, hbelow⟩
  exact ⟨key, hkey, key', e, (hpurges i attr hattr).2 key' e he hi, hi, hbelow⟩

end Pending

/-- What a reply leaves pending: only a success does. -/
def Pending.onSuccess {γ : Type} (p : γ → Pending) : Reply γ → Pending
  | some (.ok v) => p v
  | _ => .none

/-- If a call changes the attributes of an inode, none are remembered or they are pending. -/
def World.Accounts {β φ : Type} (h : Host β φ) (attrs : β → INodeNo → Option FileAttr) (c : FsCall)
    (p : Pending) (w : World β φ) (i : INodeNo) : Prop :=
  attrs (h.reply c w.backend).2 i ≠ attrs w.backend i →
    w.resolver.timedAttr i = none ∨ p.Excuses w.resolver i

/-- The attributes are the actual ones, and so is what the resolver remembers where nothing is
pending. -/
structure World.Fresh {β φ : Type} (attrs : β → INodeNo → Option FileAttr)
    (actual : INodeNo → Option FileAttr) (p : Pending) (w : World β φ) : Prop where
  backend : attrs w.backend = actual
  shaped : w.resolver.Shaped
  right : ∀ i attr, w.resolver.timedAttr i = some attr →
    actual i = some attr.settled ∨ p.Excuses w.resolver i

/-- What the resolver remembers is what the file system would answer. -/
def World.Settled {β φ : Type} (attrs : β → INodeNo → Option FileAttr) (w : World β φ) : Prop :=
  ∃ actual, w.Fresh attrs actual .none

/-- Calls that change no attributes, and sections that put none in. -/
def Effect.keepsAttributes : Effect → Bool
  | .fs c => c.keepsAttributes
  | .table (.rememberAttr ..) => false
  | _ => true

theorem World.initial_settled {β φ : Type} (attrs : β → INodeNo → Option FileAttr) (ttl : Duration)
    (backend : β) (caller : φ) : (World.initial ttl backend caller).Settled attrs := by
  have hreachable : Reachable CharFold.ascii.toCaseFold _ := .setNegativeTtl ttl .default
  refine ⟨_, rfl, hreachable.shaped, fun i attr hattr => ?_⟩
  cases hattr

namespace World.Fresh
variable {β φ : Type} {pf : Platform} {h : Host β φ} {notices : Notices}
  {attrs : β → INodeNo → Option FileAttr} {child : β → INodeNo → OsStr → Option INodeNo}
  {actual actual' : INodeNo → Option FileAttr} {p p' : Pending} {w w' : World β φ}

/-- A section that purges entries keeps the excuses. -/
theorem purges (hw : w.Fresh attrs actual p) (hbackend : attrs w'.backend = attrs w.backend)
    (hshaped : w'.resolver.Shaped) (hpurges : w.resolver.Purges w'.resolver) :
    w'.Fresh attrs actual p := by
  refine ⟨hbackend.trans hw.backend, hshaped, fun i attr hattr => ?_⟩
  rcases hw.right i attr (hpurges i attr hattr).1 with hright | hpending
  · exact .inl hright
  · exact .inr (hpending.purges hpurges hattr)

/-- A section that puts no attributes in, when nothing is pending. -/
theorem within (hw : w.Fresh attrs actual .none) (hbackend : attrs w'.backend = attrs w.backend)
    (hshaped : w'.resolver.Shaped) (hwithin : w'.resolver.AttrsWithin w.resolver) :
    w'.Fresh attrs actual .none :=
  ⟨hbackend.trans hw.backend, hshaped, fun i attr hattr =>
    (hw.right i attr (hwithin i attr hattr)).imp_right fun hpending =>
      absurd hpending (Pending.not_excuses_none _ i)⟩

theorem notified (hw : w.Fresh attrs actual p) (pf : Platform) (host : Host β φ)
    (ns : List NotifierCall) : (ns.foldl (World.notify pf host) w).Fresh attrs actual p := by
  induction ns generalizing w with
  | nil => exact hw
  | cons n ns ih =>
      exact ih (hw.purges rfl (hw.shaped.notify _ _ n) (notify_purges _ _ n hw.shaped))

/-- Giving references back changes nothing. -/
theorem forgets (hown : OwnMutations h attrs child) (hw : w.Fresh attrs actual p) (req : Request)
    (forgets : Forgets) : (forgets.foldl (World.forget h req) w).Fresh attrs actual p := by
  induction forgets generalizing w with
  | nil => exact hw
  | cons f forgets ih =>
      refine ih ⟨?_, hw.shaped, hw.right⟩
      exact (hown.forgotten req f.1 f.2 w.backend).trans hw.backend

theorem notified_purges (pf : Platform) (host : Host β φ) (ns : List NotifierCall)
    (hshaped : w.resolver.Shaped) :
    w.resolver.Purges (ns.foldl (World.notify pf host) w).resolver := by
  induction ns generalizing w with
  | nil => exact .refl _
  | cons n ns ih =>
      have hnotify : w.resolver.Purges (w.notify pf host n).resolver := notify_purges _ _ n hshaped
      exact hnotify.trans (ih (hshaped.notify _ _ n))

/-- An effect, with the notices before it. -/
theorem step {e : Effect} (hw : w.Fresh attrs actual p)
    (hperform : ∀ w' : World β φ, w'.Fresh attrs actual p →
      (w'.perform pf h e).2.Fresh attrs actual' p') :
    (machine pf h notices e w).2.Fresh attrs actual' p' := by
  obtain ⟨hbackend, hshaped, hright⟩ := hperform _ (hw.notified pf h (notices w.steps))
  exact ⟨hbackend, hshaped, hright⟩

theorem keeps (hown : OwnMutations h attrs child) {e : Effect} (he : e.keepsAttributes = true)
    (hw : w.Fresh attrs actual .none) :
    (machine pf h notices e w).2.Fresh attrs actual .none := by
  refine hw.step fun w' hw' => ?_
  cases e with
  | fs c =>
      refine ⟨?_, hw'.shaped, hw'.right⟩
      funext i
      have hnone := FsCall.affected_of_keeps he (child w'.backend) (h.reply c w'.backend).1
      have hkept := hown.kept c w'.backend i (by simp [hnone])
      exact hkept.trans (congrFun hw'.backend i)
  | table o =>
      refine hw'.within rfl (hw'.shaped.table _ _ o) fun i attr hattr => ?_
      rcases timedAttr_table hattr with ⟨ttl, rfl⟩ | hattr
      · cases he
      · exact hattr
  | deliver req o =>
      exact forgets hown (w := { w' with
          resolver := (o.apply pf.caseFold (h.clock w'.steps) w'.resolver).2
          log := w'.log ++ [.drain (h.clock w'.steps) o
            (o.apply pf.caseFold (h.clock w'.steps) w'.resolver).1] })
        (hw'.within rfl (hw'.shaped.drain _ _ o) (drain_attrsWithin _ _ o _)) req _
  | openState o => exact ⟨hw'.backend, hw'.shaped, hw'.right⟩
  | fillFindData data => exact ⟨hw'.backend, hw'.shaped, hw'.right⟩
  | fillFindStreamData data => exact ⟨hw'.backend, hw'.shaped, hw'.right⟩

end World.Fresh
end Confuse
