import Confuse.CallbackLedger

/-!
# Forgets and later uses

What has been granted and not yet given back covers what the resolver still holds, at every point of
every run. Within one callback the two are even equal at each call, so a call finds its inode alive
exactly when the resolver still holds a reference on it; a drain between the resolution of an inode
and its use is what can take the last one away.
-/

namespace Confuse

open Interaction
open Event (granted recorded drained forgotten)

namespace PathResolver

/-- A path entry or a queued forget is left on the inode. -/
def Retains (r : PathResolver) (i : INodeNo) : Prop :=
  (∃ key e, r.paths.lookup key = some (.positive e) ∧ e.ino = i) ∨ ∃ f ∈ r.pendingForgets, f.1 = i

theorem outstandingRefs_pos {r : PathResolver} (hs : r.Shaped) {key : Str} {e : PositiveEntry}
    (he : r.paths.lookup key = some (.positive e)) : 0 < r.outstandingRefs e.ino := by
  obtain ⟨n, hn, hout⟩ := hs.entry key e he
  have hle := KeyedMap.le_total (fun _ entry => tally (PathCacheEntry.outstanding entry) e.ino) he
  simp only [PathCacheEntry.outstanding, hout, tally_cons, if_true, tally_nil] at hle
  unfold outstandingRefs PathCacheEntry.outstanding
  omega

theorem Retains.held_pos {r : PathResolver} {i : INodeNo} (h : r.Retains i) (hs : r.Shaped) :
    0 < r.held i := by
  rcases h with ⟨key, e, he, rfl⟩ | ⟨f, hf, rfl⟩
  · exact Nat.add_pos_right _ (outstandingRefs_pos hs he)
  · exact Nat.add_pos_left ((hs.pending f hf).trans_le (le_tally hf)) _

theorem shaped_initial (ttl : Duration) : ((default : PathResolver).setNegativeTtl ttl).Shaped :=
  (Reachable.setNegativeTtl ttl (.default : Reachable CharFold.ascii.toCaseFold _)).shaped

@[simp] theorem held_initial (ttl : Duration) (i : INodeNo) :
    ((default : PathResolver).setNegativeTtl ttl).held i = 0 := rfl

theorem balanced_initial (ttl : Duration) :
    ((default : PathResolver).setNegativeTtl ttl).Balanced := balanced_default

end PathResolver

/-! ## Whole runs -/

/-- At every point of every run, notifications included, the references granted and not yet given
back are at least those that the resolver holds. -/
theorem granted_covers_held {β φ : Type} (pf : Platform) (h : Host β φ) (notices : Notices)
    (ttl : Duration) (backend : β) (caller : φ) (callbacks : List Callback)
    (hall : ∀ e ∈ ((World.initial ttl backend caller).serve pf h notices callbacks).log, e.grantsAll)
    (m : List Event)
    (hm : m <+: ((World.initial ttl backend caller).serve pf h notices callbacks).log)
    (i : INodeNo) :
    along forgotten m i
      + (replay pf.caseFold ((default : PathResolver).setNegativeTtl ttl) m).held i
        ≤ along granted m i := by
  have hjoins : Prog.Joins fun evs => ((∀ e ∈ evs, e.grantsAll) → Below recorded granted evs) ∧
      Settles forgotten drained evs := by
    refine ⟨⟨fun _ => (below_joins _ _).nil, (settles_joins _ _).nil⟩, fun hl hl' => ⟨?_, ?_⟩⟩
    · intro hall
      exact (below_joins _ _).append (hl.1 fun e he => hall e (List.mem_append_left _ he))
        (hl'.1 fun e he => hall e (List.mem_append_right _ he))
    · exact (settles_joins _ _).append hl.2 hl'.2
  obtain ⟨evs, ⟨hbooked, hforgets⟩, hleads⟩ := World.serve_leads h notices
    hjoins (fun c evs a ht => ⟨(every_oneCallback pf c evs a ht).below,
      every_settles_forgotten _ evs a ht⟩) callbacks (World.initial ttl backend caller)
  have hlog : ((World.initial ttl backend caller).serve pf h notices callbacks).log = evs :=
    hleads.log
  rw [hlog] at hall hm
  have hpaid := hforgets.below m hm i
  have hrecorded := hbooked hall m hm i
  have hlaw := (hleads.legal.of_prefix hm).drained_add_held_le i
  simp only [World.initial, PathResolver.held_initial] at hlaw
  omega

/-- A reference stays with the backend as long as the resolver retains one, and none is given back
that was not granted. -/
theorem references_last_while_retained {β φ : Type} (pf : Platform) (h : Host β φ)
    (notices : Notices) (ttl : Duration) (backend : β) (caller : φ) (callbacks : List Callback)
    (hall : ∀ e ∈ ((World.initial ttl backend caller).serve pf h notices callbacks).log, e.grantsAll)
    (m : List Event)
    (hm : m <+: ((World.initial ttl backend caller).serve pf h notices callbacks).log)
    (i : INodeNo) :
    along forgotten m i ≤ along granted m i ∧
      ((replay pf.caseFold ((default : PathResolver).setNegativeTtl ttl) m).Retains i →
        along forgotten m i < along granted m i) := by
  have hcover := granted_covers_held pf h notices ttl backend caller callbacks hall m hm i
  refine ⟨by omega, fun hretains => ?_⟩
  have hpos := hretains.held_pos (shaped_replay (PathResolver.shaped_initial ttl) m)
  omega

def openF : Callback := .createFile fileF GENERIC_READ 0 FILE_OPEN 0 (.unavailable 1)

theorem references_last_while_retained_open :
    let h := Host.stateless (oneFile (.fromSecs 10))
    let log := (World.mounted.serve .ascii h undisturbed [openF]).log
    along forgotten log ⟨5⟩ ≤ along granted log ⟨5⟩ ∧
      ((replay Platform.ascii.caseFold ((default : PathResolver).setNegativeTtl (.fromSecs 1))
        log).Retains ⟨5⟩ → along forgotten log ⟨5⟩ < along granted log ⟨5⟩) :=
  references_last_while_retained .ascii (.stateless (oneFile (.fromSecs 10))) undisturbed
    (.fromSecs 1) () () [openF] (by decide) _ List.prefix_rfl ⟨5⟩

/-- With a zero time to live the one reference of an open file is given back before `create_file`
returns its context. -/
theorem open_file_is_forgotten :
    let served := (createFile .ascii fileF GENERIC_READ 0 FILE_OPEN 0 (.unavailable 1)).run
      (machine .ascii (.stateless (oneFile (.ofNanos 0))) undisturbed) World.mounted
    (served.1.map fun info => info.context.ino) = .ok ⟨5⟩ ∧
      ¬ along forgotten served.2.log ⟨5⟩ + 1 ≤ along granted served.2.log ⟨5⟩ := by
  decide

/-! ## Within one callback -/

namespace World
variable {β φ : Type}

/-- The resolver came about by the events of the log. -/
def Genuine (pf : Platform) (w : World β φ) : Prop :=
  ∃ ttl, ((initial ttl w.backend w.caller : World β φ)).Leads pf w.log w

/-- The events that one undisturbed callback adds to the log. -/
def eventsOf (pf : Platform) (h : Host β φ) (c : Callback) (w : World β φ) : List Event :=
  ((c.routine pf).run (machine pf h undisturbed) w).2.log.drop w.log.length

end World

/-- The inode that a section hands to a path walk. -/
def Event.resolvedIno : Event → Option INodeNo
  | .table _ o result => o.resolvedIno result
  | _ => none

def Event.isDrain : Event → Bool
  | .drain _ _ _ => true
  | _ => false

/-- A path walk of the log resolved to the inode. -/
abbrev Resolved (m : List Event) (i : INodeNo) : Prop := ∃ e ∈ m, Event.resolvedIno e = some i

/-- A path walk resolved to the inode and nothing was drained since. -/
def Fresh (m : List Event) (i : INodeNo) : Prop :=
  ∃ l e l', m = l ++ e :: l' ∧ Event.resolvedIno e = some i ∧ ∀ e' ∈ l', Event.isDrain e' = false

/-- `P` holds of the log before each call that names an inode resolved before it, the root apart. -/
def AtUses (P : List Event → INodeNo → Prop) (log : List Event) : Prop :=
  ∀ m c reply, m ++ [.call c reply] <+: log → ∀ i ∈ c.names, i ≠ .ROOT → Resolved m i → P m i

/-- A section that hands an inode to a path walk leaves a reference on it. -/
theorem held_pos_of_resolved {cf : CaseFold} {r : PathResolver} {e : Event} {i : INodeNo}
    (hb : r.Balanced) (hs : r.Shaped) (hroom : ∀ ino, r.held ino + e.recorded ino < 2 ^ 64)
    (hlegal : e.Legal cf r) (hi : e.resolvedIno = some i) : 0 < (e.replay cf r).held i := by
  obtain ⟨now, o, result, rfl⟩ : ∃ now o result, e = .table now o result := by
    cases e <;> simp [Event.resolvedIno] at hi ⊢
  change o.resolvedIno result = some i at hi
  cases o with
  | rememberPositive record =>
      obtain rfl : record.attr.ino = i := by
        rw [show result = (r.rememberPositive cf now record).1 from hlegal] at hi
        simpa [TableOp.resolvedIno, PathResolver.rememberPositive] using hi
      have heq := hlegal.held_eq hb hroom rfl record.attr.ino
      have hone : recorded (.table now (.rememberPositive record) result) record.attr.ino = 1 :=
        if_pos rfl
      have hzero : drained (.table now (.rememberPositive record) result) record.attr.ino = 0 := rfl
      omega
  | cached path parent parentGeneration =>
      have hresult : (r.cached cf now path parent parentGeneration).1 = result := Eq.symm hlegal
      rcases result with _ | ⟨err⟩ | ⟨entry⟩
      · simp [TableOp.resolvedIno] at hi
      · simp [TableOp.resolvedIno] at hi
      · obtain ⟨e, he, -, -, rfl, hsame⟩ := PathResolver.cached_ok hresult
        obtain rfl : e.ino = i := by simpa [TableOp.resolvedIno] using hi
        have hreplay : (Event.table now (.cached path parent parentGeneration)
            (some (.ok ⟨e.ino, e.generation⟩))).replay cf r = r := hsame
        rw [hreplay]
        exact Nat.add_pos_right _ (PathResolver.outstandingRefs_pos hs he)
  | rememberCreated c => simp [TableOp.resolvedIno] at hi
  | rememberNegative => simp [TableOp.resolvedIno] at hi
  | cachedAttr ino => simp [TableOp.resolvedIno] at hi
  | rememberAttr ino attr ttl => simp [TableOp.resolvedIno] at hi
  | invalidateInodeAttr ino => simp [TableOp.resolvedIno] at hi

theorem drained_of_no_drain {log : List Event} (h : ∀ e ∈ log, e.isDrain = false) (i : INodeNo) :
    along drained log i = 0 := by
  refine along_eq_zero _ fun e he => ?_
  have hno := h e he
  cases e <;> first | rfl | simp [Event.isDrain] at hno

/-- What a walk resolved to stays referenced until something is drained. -/
theorem held_pos_of_fresh {cf : CaseFold} {r : PathResolver} {m : List Event} {i : INodeNo}
    (hb : r.Balanced) (hs : r.Shaped) (hroom : ∀ i, r.held i + along recorded m i < 2 ^ 64)
    (hlegal : Legal cf r m) (hquiet : ∀ e ∈ m, e.isNotify = false) (hfresh : Fresh m i) :
    0 < (replay cf r m).held i := by
  obtain ⟨l, e, l', rfl, hi, hdrain⟩ := hfresh
  obtain ⟨hlegal', hevent, hrest⟩ := legal_append.mp hlegal
  simp only [along_append, along_cons] at hroom
  have hbefore : ∀ j, (replay cf r l).held j ≤ r.held j + along recorded l j := fun j =>
    (Nat.le_add_left _ _).trans (hlegal'.drained_add_held_le j)
  have hbl : (replay cf r l).Balanced := hlegal'.balanced hb fun j => by
    have hj := hroom j
    omega
  have hroome : ∀ j, (replay cf r l).held j + e.recorded j < 2 ^ 64 := fun j => by
    have hj := hroom j
    have hle := hbefore j
    omega
  have hpos : 0 < (e.replay cf (replay cf r l)).held i :=
    held_pos_of_resolved hbl (shaped_replay hs l) hroome hevent hi
  have hlaw := hrest.drained_add_held (hevent.balanced hbl hroome) (fun j => by
    have hj := hroom j
    have hle := hbefore j
    have hle' := hevent.held_le j
    omega) (fun e' he' => hquiet e' (by simp [he'])) i
  rw [drained_of_no_drain hdrain] at hlaw
  rw [replay_append, replay_cons]
  omega

/-- At each call of a callback, what is granted and not given back is what the resolver holds. -/
theorem granted_eq_held_at_calls {cf : CaseFold} {r : PathResolver} {evs m : List Event}
    {c : FsCall} {reply : c.Reply} (hb : r.Balanced)
    (hroom : ∀ i, r.held i + along recorded evs i < 2 ^ 64) (hlegal : Legal cf r evs)
    (hquiet : ∀ e ∈ evs, e.isNotify = false) (hbooked : AtCalls recorded granted evs)
    (hforgets : AtCalls forgotten drained evs) (hm : m ++ [.call c reply] <+: evs) (i : INodeNo) :
    along forgotten m i + (replay cf r m).held i = r.held i + along granted m i := by
  have hpast : m <+: evs := (List.prefix_append _ _).trans hm
  have hlaw := (hlegal.of_prefix hpast).drained_add_held hb (fun j => by
    have hj := hroom j
    have hle := along_le_of_prefix recorded hpast j
    omega) (fun e he => hquiet e (hpast.subset he)) i
  have hrecorded := hbooked m c reply hm i
  have hforgotten := hforgets m c reply hm i
  omega

namespace World
variable {β φ : Type} {pf : Platform} {h : Host β φ} {c : Callback} {w : World β φ}

theorem eventsOf_spec (pf : Platform) (h : Host β φ) (c : Callback) (w : World β φ) :
    (c.routine pf).Traces Emits (w.eventsOf pf h c)
        ((c.routine pf).run (machine pf h undisturbed) w).1 ∧
      w.Leads pf (w.eventsOf pf h c) ((c.routine pf).run (machine pf h undisturbed) w).2 ∧
      ∀ e ∈ w.eventsOf pf h c, e.isNotify = false := by
  obtain ⟨evs, ht, hleads, hquiet⟩ := run_leads pf h undisturbed
    (c.routine pf) w
  have hevs : w.eventsOf pf h c = evs := by
    rw [eventsOf, hleads.log, List.drop_left]
  rw [hevs]
  exact ⟨ht, hleads, hquiet rfl⟩

theorem Genuine.shaped (hw : w.Genuine pf) : w.resolver.Shaped := by
  obtain ⟨ttl, hleads⟩ := hw
  rw [hleads.resolver]
  exact shaped_replay (PathResolver.shaped_initial ttl) _

theorem Genuine.balanced (hw : w.Genuine pf) (hroom : ∀ i, along recorded w.log i < 2 ^ 64) :
    w.resolver.Balanced := by
  obtain ⟨ttl, hleads⟩ := hw
  rw [hleads.resolver]
  exact hleads.legal.balanced (PathResolver.balanced_initial ttl) fun i => by
    simpa [initial] using hroom i

theorem Genuine.held_le (hw : w.Genuine pf) (i : INodeNo) :
    w.resolver.held i ≤ along recorded w.log i := by
  obtain ⟨ttl, hleads⟩ := hw
  have hle := hleads.legal.drained_add_held_le i
  rw [← hleads.resolver] at hle
  simp only [initial, PathResolver.held_initial] at hle
  omega

end World

/-- In every callback, a call on a resolved inode comes before the last reference is given back
exactly when those calls that follow a drain find the resolver still holding one. -/
theorem uses_before_forgets_iff {β φ : Type} (pf : Platform) (h : Host β φ) (c : Callback)
    (w : World β φ) (hw : w.Genuine pf)
    (hroom : ∀ i, along recorded (w.log ++ w.eventsOf pf h c) i < 2 ^ 64) :
    AtUses (fun m i => along forgotten m i < w.resolver.held i + along granted m i)
        (w.eventsOf pf h c) ↔
      AtUses (fun m i => ¬ Fresh m i → 0 < (replay pf.caseFold w.resolver m).held i)
        (w.eventsOf pf h c) := by
  obtain ⟨ht, ⟨-, hlegal, -⟩, hquiet⟩ := World.eventsOf_spec pf h c w
  set evs := w.eventsOf pf h c
  have hb := hw.balanced fun i => by
    have hi := hroom i
    rw [along_append] at hi
    omega
  have hroom' : ∀ i, w.resolver.held i + along recorded evs i < 2 ^ 64 := fun i => by
    have hi := hroom i
    have hle := hw.held_le i
    rw [along_append] at hi
    omega
  have heq : ∀ m fsCall reply, m ++ [.call fsCall reply] <+: evs → ∀ i, along forgotten m i
      + (replay pf.caseFold w.resolver m).held i = w.resolver.held i + along granted m i :=
    fun m fsCall reply hm i => granted_eq_held_at_calls hb hroom' hlegal hquiet
      (every_oneCallback pf c evs _ ht).atCalls (every_settles_forgotten _ evs _ ht).atCalls hm i
  constructor
  · intro hlive m fsCall reply hm i hi hroot hresolved _
    have hlt := hlive m fsCall reply hm i hi hroot hresolved
    have hsum := heq m fsCall reply hm i
    omega
  · intro hheld m fsCall reply hm i hi hroot hresolved
    have hpast : m <+: evs := (List.prefix_append _ _).trans hm
    have hpos : 0 < (replay pf.caseFold w.resolver m).held i := by
      by_cases hfresh : Fresh m i
      · exact held_pos_of_fresh hb hw.shaped (fun j => by
          have hj := hroom' j
          have hle := along_le_of_prefix recorded hpast j
          omega) (hlegal.of_prefix hpast) (fun e he => hquiet e (hpast.subset he)) hfresh
      · exact hheld m fsCall reply hm i hi hroot hresolved hfresh
    have hsum := heq m fsCall reply hm i
    omega

theorem along_recorded_le_length (log : List Event) (i : INodeNo) :
    along recorded log i ≤ log.length := by
  induction log with
  | nil => rfl
  | cons e log ih =>
      have hone : recorded e i ≤ 1 := by
        cases e with
        | table now o result =>
            rw [recorded]
            split_ifs <;> omega
        | _ => exact Nat.zero_le _
      rw [along_cons, List.length_cons]
      omega

theorem genuine_mounted (pf : Platform) : World.mounted.Genuine pf :=
  ⟨.fromSecs 1, World.leads_nil rfl rfl⟩

/-- A file without a security descriptor that the backend lets expire at once. -/
def noDescriptor : (c : FsCall) → c.Reply
  | .lookup .. => some (.ok (⟨.plain ⟨5⟩ .regularFile, .fromNanos 0, ⟨1⟩⟩ : ReplyEntryPayload))
  | .getxattr .. => ReplyXattr.error NO_XATTR
  | c => c.unanswered

def securityOfF : Callback := .getFileSecurity fileF true 64 {}

theorem uses_before_forgets_iff_security :
    let evs := World.mounted.eventsOf .ascii (.stateless noDescriptor) securityOfF
    AtUses (fun m i => along forgotten m i < World.mounted.resolver.held i + along granted m i)
        evs ↔
      AtUses (fun m i => ¬ Fresh m i →
        0 < (replay Platform.ascii.caseFold World.mounted.resolver m).held i) evs :=
  uses_before_forgets_iff .ascii (.stateless noDescriptor) securityOfF World.mounted
    (genuine_mounted _) fun i => (along_recorded_le_length _ i).trans_lt (by decide)

/-- The descriptor is synthesized from an inode that the drain before has given back. -/
theorem security_uses_forgotten_inode :
    ¬ AtUses (fun m i => along forgotten m i < World.mounted.resolver.held i + along granted m i)
      (World.mounted.eventsOf .ascii (.stateless noDescriptor) securityOfF) := by
  intro hlive
  have hcall : (World.mounted.eventsOf .ascii (.stateless noDescriptor) securityOfF)[7]? = some
      (.call (.getattr ⟨INVALID_UID_GID, INVALID_UID_GID, 0⟩ ⟨5⟩ (some ⟨0⟩)) none) := rfl
  exact absurd (hlive _ _ _ (prefix_take_append hcall) ⟨5⟩ (by decide) (by decide) (by decide))
    (by decide)

end Confuse
