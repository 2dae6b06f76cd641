import Confuse.Callbacks
import Confuse.ResolverHistory
import Confuse.TimedAttributes

/-!
# Notifications and answers in flight

A callback records an answer of the file system in a section of its own, and the notifier of another
thread may come in between. What the resolver held when the notifier took its lock is gone; an
answer that was still in flight is recorded afterwards and served. The resolver keeps no count of
notifications against which a recording could be checked.
-/

namespace Confuse

open Interaction PathResolver

namespace NotifierCall

/-- The inode whose attributes a notification ends. -/
def attrOf? : NotifierCall → Option INodeNo
  | .invalInode ino => some ino
  | .invalEntry _ _ => none
  | .delete _ child _ => some child

/-- The parent and the name of the entries that a notification ends. -/
def entryOf? : NotifierCall → Option (INodeNo × OsStr)
  | .invalInode _ => none
  | .invalEntry parent name => some (parent, name)
  | .delete parent _ name => some (parent, name)

theorem timedAttr_apply {n : NotifierCall} {i : INodeNo} (h : n.attrOf? = some i) (cf : CaseFold)
    (now : Instant) (r : PathResolver) : (n.apply cf now r).timedAttr i = none := by
  cases n with
  | invalInode ino =>
      obtain rfl : ino = i := Option.some.inj h
      exact timedAttr_invalidateInodeAttr now r ino
  | invalEntry parent name => cases h
  | delete parent child name =>
      obtain rfl : child = i := Option.some.inj h
      exact timedAttr_invalidateInodeAttr now _ child

theorem namesChild_apply {n : NotifierCall} {parent : INodeNo} {name : OsStr}
    (h : n.entryOf? = some (parent, name)) {cf : CaseFold} {now : Instant} {r : PathResolver}
    {key : Str} {e : PathCacheEntry} (he : (n.apply cf now r).paths.lookup key = some e) :
    namesChild cf parent name e = false := by
  have hkept : ∀ {parent name}, (r.invalidateEntryFromNotify cf now parent name).paths.lookup key
      = some e → namesChild cf parent name e = false := by
    intro parent name he
    have hpaths : (r.invalidateEntryFromNotify cf now parent name).paths = _ :=
      invalidateMatching_paths now r _
    rw [hpaths, KeyedMap.lookup_eraseAll_keysWhere] at he
    simpa using (Option.mem_filter_iff.mp he).2
  cases n with
  | invalInode ino => cases h
  | invalEntry parent name =>
      cases h
      exact hkept he
  | delete parent child name =>
      cases h
      exact hkept he

end NotifierCall

/-! ## Recordings -/

/-- The entry says this about the child of a parent. -/
structure PathCacheEntry.Says (e : PathCacheEntry) (parent : INodeNo) (name : OsStr)
    (answer : Except Errno ResolvedEntry) : Prop where
  parent : e.parent = parent
  name : e.name = name
  answer : e.written.answer = answer

/-- The event recorded the entry at the key. -/
def Event.Records (cf : CaseFold) (key : Str) (e : PathCacheEntry) : Event → Prop
  | .table _ (.rememberPositive record) _ => normalizePath cf record.path = key ∧
      e.Says record.parent record.name (.ok ⟨record.attr.ino, record.generation⟩)
  | .table _ (.rememberCreated c) _ => normalizePath cf (.new c.path.toStringLossy) = key ∧
      e.Says c.parent c.name (.ok ⟨c.attr.ino, c.generation⟩)
  | .table _ (.rememberNegative path parent _ name) _ =>
      normalizePath cf path = key ∧ e.Says parent name (.error ENOENT)
  | _ => False

theorem lookup_replay_table {cf : CaseFold} {now : Instant} {o : TableOp} {result : o.Result}
    {r : PathResolver} {key : Str} {e : PathCacheEntry}
    (h : (o.apply cf now r).2.paths.lookup key = some e) :
    (Event.table now o result).Records cf key e ∨ r.paths.lookup key = some e := by
  cases o with
  | rememberPositive record =>
      rcases rememberPositive_lookup h with ⟨-, hold⟩ | ⟨hkey, expires, outstanding, rfl⟩
      · exact .inr hold
      · exact .inl ⟨hkey.symm, rfl, rfl, rfl⟩
  | rememberCreated c =>
      rcases rememberPositive_lookup h with ⟨-, hold⟩ | ⟨hkey, expires, outstanding, rfl⟩
      · exact .inr hold
      · exact .inl ⟨hkey.symm, rfl, rfl, rfl⟩
  | rememberNegative path parent parentGeneration name =>
      rcases rememberNegative_lookup h with ⟨-, hold⟩ | ⟨hkey, expires, rfl⟩
      · exact .inr hold
      · exact .inl ⟨hkey.symm, rfl, rfl, rfl⟩
  | cached path parent parentGeneration =>
      exact .inr (cached_within cf now r path parent parentGeneration key e h)
  | cachedAttr ino => exact .inr (within_of_paths (cachedAttr_paths now r ino) key e h)
  | rememberAttr ino attr ttl =>
      exact .inr (within_of_paths (rememberAttr_paths now r ino attr ttl) key e h)
  | invalidateInodeAttr ino => exact .inr h

/-- An entry after a log was there before, or the log recorded it. -/
theorem lookup_replay {cf : CaseFold} {r : PathResolver} {log : List Event} {key : Str}
    {e : PathCacheEntry} (h : (replay cf r log).paths.lookup key = some e) :
    (∃ event ∈ log, event.Records cf key e) ∨ r.paths.lookup key = some e := by
  induction log generalizing r with
  | nil => exact .inr h
  | cons event log ih =>
      rcases ih h with ⟨event', hmem, hrecords⟩ | hbefore
      · exact .inl ⟨event', List.mem_cons_of_mem event hmem, hrecords⟩
      cases event with
      | call c reply => exact .inr hbefore
      | forget req ino nlookup => exact .inr hbefore
      | table now o result =>
          exact (lookup_replay_table hbefore).imp (fun h => ⟨_, List.mem_cons_self .., h⟩) id
      | drain now o forgets => exact .inr (drain_within cf now o r key e hbefore)
      | notify now n => exact .inr (notify_within cf now n r key e hbefore)
      | fillFindData data accepted => exact .inr hbefore
      | fillFindStreamData data accepted => exact .inr hbefore

/-! ## What is served after a notification -/

section Served
variable {cf : CaseFold} {r : PathResolver} {before since after : List Event} {t now : Instant}
  {n : NotifierCall}

/-- Served attributes were remembered since a notification about their inode. -/
theorem Legal.attr_since {i : INodeNo} {attr : FileAttr}
    (h : Legal cf r (before ++ .notify t n :: (since ++
      .table now (.cachedAttr i) (some attr) :: after)))
    (hn : n.attrOf? = some i) : ∃ now ttl, .table now (.rememberAttr i attr ttl) () ∈ since := by
  obtain ⟨-, -, hrest⟩ := legal_append.mp h
  obtain ⟨-, hserved, -⟩ := legal_append.mp hrest
  have hanswer : (cachedAttr now _ i).1 = some attr := hserved.symm
  rcases timedAttr_replay (timedAttr_of_cachedAttr hanswer) with hsince | hbefore
  · exact hsince
  · have hended := NotifierCall.timedAttr_apply hn cf t (replay cf r before)
    cases hended.symm.trans hbefore

/-- A served entry stands at the path's key; one that was notified was recorded since. -/
theorem Legal.entry_since {path : OsStr} {parent : INodeNo} {parentGeneration : Generation}
    {answer : Except Errno ResolvedEntry}
    (h : Legal cf r (before ++ .notify t n :: (since ++
      .table now (.cached path parent parentGeneration) (some answer) :: after))) :
    ∃ e, (replay cf r (before ++ .notify t n :: since)).paths.lookup (normalizePath cf path) = some e ∧
      e.parent = parent ∧ e.written.answer = answer ∧
      ∀ name, n.entryOf? = some (parent, name) → namesChild cf parent name e = true →
        ∃ event ∈ since, event.Records cf (normalizePath cf path) e := by
  obtain ⟨-, -, hrest⟩ := legal_append.mp h
  obtain ⟨-, hserved, -⟩ := legal_append.mp hrest
  have hanswer : (cached cf now _ path parent parentGeneration).1 = some answer := hserved.symm
  have hsince : ∀ e, (replay cf r (before ++ .notify t n :: since)).paths.lookup
        (normalizePath cf path) = some e →
      ∀ name, n.entryOf? = some (parent, name) → namesChild cf parent name e = true →
        ∃ event ∈ since, event.Records cf (normalizePath cf path) e := by
    intro e he name hn hname
    rw [replay_append, replay_cons] at he
    rcases lookup_replay he with hrecorded | hold
    · exact hrecorded
    · rw [NotifierCall.namesChild_apply hn hold] at hname
      cases hname
  cases answer with
  | ok entry =>
      obtain ⟨e, he, hparent, -, rfl, -⟩ := cached_ok hanswer
      rw [← replay_cons, ← replay_append] at he
      exact ⟨.positive e, he, hparent, rfl, hsince _ he⟩
  | error err =>
      obtain ⟨rfl, e, he, hparent, -, -⟩ := cached_error hanswer
      rw [← replay_cons, ← replay_append] at he
      exact ⟨.negative e, he, hparent, rfl, hsince _ he⟩

end Served

theorem World.log_legal {β φ : Type} (pf : Platform) (h : Host β φ) (notices : Notices)
    (ttl : Duration) (backend : β) (caller : φ) (callbacks : List Callback) :
    Legal pf.caseFold ((default : PathResolver).setNegativeTtl ttl)
      ((World.initial ttl backend caller).serve pf h notices callbacks).log := by
  obtain ⟨evs, -, hleads⟩ := World.serve_leads h notices (P := fun _ => True)
    ⟨trivial, fun _ _ => trivial⟩ (fun _ _ _ _ => trivial) callbacks
    (World.initial ttl backend caller)
  rw [hleads.log]
  exact hleads.legal

/-- Whatever callbacks are served and whenever the notifier is used, what is served after a
notification was recorded after it, if the notification was about it. -/
theorem served_is_recorded_since {β φ : Type} (pf : Platform) (h : Host β φ) (notices : Notices)
    (ttl : Duration) (backend : β) (caller : φ) (callbacks : List Callback)
    (before since after : List Event) (t : Instant) (n : NotifierCall) (served : Event)
    (hlog : ((World.initial ttl backend caller).serve pf h notices callbacks).log
      = before ++ .notify t n :: (since ++ served :: after)) :
    (∀ now i attr, n.attrOf? = some i → served = .table now (.cachedAttr i) (some attr) →
        ∃ now ttl, .table now (.rememberAttr i attr ttl) () ∈ since) ∧
      ∀ now path parent parentGeneration answer,
        served = .table now (.cached path parent parentGeneration) (some answer) →
        ∃ e, (replay pf.caseFold ((default : PathResolver).setNegativeTtl ttl)
              (before ++ .notify t n :: since)).paths.lookup (normalizePath pf.caseFold path) = some e ∧
          e.parent = parent ∧ e.written.answer = answer ∧
          ∀ name, n.entryOf? = some (parent, name) →
            namesChild pf.caseFold parent name e = true →
            ∃ event ∈ since, event.Records pf.caseFold (normalizePath pf.caseFold path) e := by
  have hlegal := World.log_legal pf h notices ttl backend caller callbacks
  rw [hlog] at hlegal
  constructor
  · rintro now i attr hn rfl
    exact hlegal.attr_since hn
  · rintro now path parent parentGeneration answer rfl
    exact hlegal.entry_since

/-! ## An answer in flight -/

/-- A backend that answers every question for attributes with those of inode 5. -/
def fiveAttr (ttl : Duration) : (c : FsCall) → c.Reply
  | .getattr .. => some (.ok (⟨.plain ⟨5⟩ .regularFile, ttl⟩ : ReplyAttrPayload))
  | c => c.unanswered

/-- Before the fourth effect inode 5 is invalidated. -/
def invalFiveAtThree : Notices := fun step => if step = 3 then [.invalInode ⟨5⟩] else []

def infoOfFive : Callback := .getFileInformation fileF { ino := ⟨5⟩ }

/-- The file system answers, the inode is invalidated, the answer is recorded, and the next callback
is served from the cache. -/
def raced : World Unit Unit :=
  World.mounted.serve .ascii (.stateless (fiveAttr (.fromSecs 10))) invalFiveAtThree
    [infoOfFive, infoOfFive]

theorem raced_log : raced.log = raced.log.take 3 ++ .notify 0 (.invalInode ⟨5⟩) ::
    ([.table 0 (.rememberAttr ⟨5⟩ (.plain ⟨5⟩ .regularFile) (.fromSecs 10)) ()] ++
      .table 0 (.cachedAttr ⟨5⟩) (some (.plain ⟨5⟩ .regularFile)) :: raced.log.drop 6) := rfl

theorem served_is_recorded_since_raced :
    ∃ now ttl, .table now (.rememberAttr ⟨5⟩ (.plain ⟨5⟩ .regularFile) ttl) () ∈
      [(.table 0 (.rememberAttr ⟨5⟩ (.plain ⟨5⟩ .regularFile) (.fromSecs 10)) () : Event)] :=
  (served_is_recorded_since .ascii (.stateless (fiveAttr (.fromSecs 10))) invalFiveAtThree
    (.fromSecs 1) () () [infoOfFive, infoOfFive] _ _ _ 0 (.invalInode ⟨5⟩) _ raced_log).1 0 ⟨5⟩ _ rfl rfl

/-- The attributes that are served after the invalidation were answered before it. -/
theorem invalidation_misses_answer_in_flight :
    ¬ ∀ (β φ : Type) (pf : Platform) (h : Host β φ) (notices : Notices) (ttl : Duration)
      (backend : β) (caller : φ) (callbacks : List Callback) (before since after : List Event)
      (t now : Instant) (n : NotifierCall) (i : INodeNo) (attr : FileAttr),
      ((World.initial ttl backend caller).serve pf h notices callbacks).log
          = before ++ .notify t n :: (since ++ .table now (.cachedAttr i) (some attr) :: after) →
        n.attrOf? = some i →
        ∃ req ino fh ttl, Event.call (.getattr req ino fh)
          (some (.ok (⟨attr, ttl⟩ : ReplyAttrPayload))) ∈ since := by
  intro hall
  obtain ⟨req, ino, fh, ttl, hmem⟩ := hall _ _ .ascii (.stateless (fiveAttr (.fromSecs 10)))
    invalFiveAtThree (.fromSecs 1) () () [infoOfFive, infoOfFive] _ _ _ 0 0 _ ⟨5⟩ _ raced_log rfl
  cases List.mem_singleton.mp hmem

end Confuse
