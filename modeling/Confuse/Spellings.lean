import Confuse.CachedWalk
import Confuse.PanickingRuns

/-!
# Spellings

The file system is asked for a component as the path spells it, and the answer is kept under the
lower-cased path. A file system may tell spellings apart; then a cached answer is the one that it gave
for a spelling that was used before.
-/

namespace Confuse

open Interaction PathResolver

/-! ## File systems that tell spellings apart -/

/-- What a lookup comes to. -/
def lookupOutcome : Reply ReplyEntryPayload → Except Errno ResolvedEntry
  | some (.ok payload) => .ok ⟨payload.attr.ino, payload.generation⟩
  | some (.error err) => .error err
  | none => .error EIO

/-- Names that do not change: a lookup comes to the same at any time. -/
def Host.Names {β φ : Type} (h : Host β φ)
    (names : INodeNo → OsStr → Except Errno ResolvedEntry) : Prop :=
  ∀ req parent name b, lookupOutcome (h.reply (.lookup req parent name) b).1 = names parent name

/-- The walk with the components as they are spelled. -/
def spelledWalk (names : INodeNo → OsStr → Except Errno ResolvedEntry) :
    ResolvedEntry → List Str → Except Errno ResolvedEntry
  | current, [] => .ok current
  | current, component :: rest =>
      (names current.ino (.new component)).bind fun child => spelledWalk names child rest

/-- What a resolution without a cache returns for components spelled like this. -/
def resolvedAs (names : INodeNo → OsStr → Except Errno ResolvedEntry) (components : List Str) :
    Except Errno INodeNo := (spelledWalk names ⟨.ROOT, ⟨0⟩⟩ components).map ResolvedEntry.ino

/-- One of the paths spells the component like this at this place; the place is lower-cased. -/
def SpelledIn (cf : CaseFold) (paths : List OsStr) (place : List Str) (component : Str) : Prop :=
  ∃ path ∈ paths, ∃ parents, parents.map cf.toLowercase = place ∧
    (parents ++ [component]) <+: normalizedComponents path

/-- The spellings differ in letter case only, and each is used at its place in one of the paths. -/
def SpelledAs (cf : CaseFold) (paths : List OsStr) : List Str → List Str → List Str → Prop
  | _, [], [] => True
  | place, component :: rest, spelled :: spelledRest =>
      (cf.toLowercase spelled = cf.toLowercase component ∧ SpelledIn cf paths place spelled) ∧
        SpelledAs cf paths (place ++ [cf.toLowercase component]) rest spelledRest
  | _, _, _ => False

/-- At each place the file system answers all spellings that the paths use as it answers the
component. -/
def AnsweredAlike (cf : CaseFold) (names : INodeNo → OsStr → Except Errno ResolvedEntry)
    (paths : List OsStr) : List Str → List Str → Prop
  | _, [] => True
  | place, component :: rest =>
      (∀ spelled, cf.toLowercase spelled = cf.toLowercase component →
        SpelledIn cf paths place spelled →
          ∀ parent, names parent (.new spelled) = names parent (.new component)) ∧
        AnsweredAlike cf names paths (place ++ [cf.toLowercase component]) rest

/-- What an entry says about its name. -/
def PathCacheEntry.outcome : PathCacheEntry → Except Errno ResolvedEntry
  | .positive e => .ok ⟨e.ino, e.generation⟩
  | .negative _ => .error ENOENT

/-- Every entry is what the file system answers for a spelling that one of the paths uses. -/
def PathResolver.Spelled (cf : CaseFold) (names : INodeNo → OsStr → Except Errno ResolvedEntry)
    (paths : List OsStr) (r : PathResolver) : Prop :=
  ∀ place key e, (∀ p ∈ place ++ [key], IsComponent p) →
    r.paths.lookup (joinPath (place ++ [key])) = some e →
      ∃ spelled, cf.toLowercase spelled = key ∧ SpelledIn cf paths place spelled ∧
        names e.parent (.new spelled) = e.outcome

section Spelled
variable {cf : CaseFold} {names : INodeNo → OsStr → Except Errno ResolvedEntry}
  {paths : List OsStr} {r r' : PathResolver}

theorem PathResolver.Spelled.within (hr : r.Spelled cf names paths) (hr' : r'.Within r) :
    r'.Spelled cf names paths := fun place key e hkeys he => hr place key e hkeys (hr' _ e he)

/-- A path is spelled as it is. -/
theorem spelledAs_self {path : OsStr} (hpath : path ∈ paths) (parents : List Str)
    {components : List Str} (hcomponents : parents ++ components = normalizedComponents path) :
    SpelledAs cf paths (parents.map cf.toLowercase) components components := by
  induction components generalizing parents with
  | nil => trivial
  | cons component rest ih =>
      have happend : parents ++ [component] ++ rest = normalizedComponents path := by
        rw [← hcomponents, List.append_assoc, List.singleton_append]
      refine ⟨⟨rfl, path, hpath, parents, rfl, rest, happend⟩, ?_⟩
      have htail := ih (parents ++ [component]) happend
      rwa [List.map_append, List.map_singleton] at htail

/-- Where all spellings are answered alike, so are the walks. -/
theorem SpelledAs.walk_eq {place components spelled : List Str}
    (h : SpelledAs cf paths place components spelled)
    (halike : AnsweredAlike cf names paths place components) (current : ResolvedEntry) :
    spelledWalk names current spelled = spelledWalk names current components := by
  induction components generalizing place spelled current with
  | nil =>
      cases spelled with
      | nil => rfl
      | cons _ _ => cases h
  | cons component rest ih =>
      cases spelled with
      | nil => cases h
      | cons head tail =>
          obtain ⟨⟨hkey, hspelled⟩, hrest⟩ := h
          rw [spelledWalk, spelledWalk, halike.1 head hkey hspelled current.ino]
          exact congrArg _ (funext fun child => ih hrest halike.2 child)

/-- The place of a component that one of the paths spells like this. -/
structure Spot (cf : CaseFold) (paths : List OsStr) (parents : List Str) (part : Str)
    (component : LookupComponent) : Prop where
  path : component.path = .new (joinPath (parents ++ [part]))
  name : component.name = .new part
  components : ∀ p ∈ parents ++ [part], IsComponent p
  spelled : SpelledIn cf paths (parents.map cf.toLowercase) part

namespace Spot
variable {parents : List Str} {part : Str} {component : LookupComponent}

theorem normalizePath (hs : Spot cf paths parents part component) :
    normalizePath cf component.path
      = joinPath (parents.map cf.toLowercase ++ [cf.toLowercase part]) := by
  rw [hs.path, normalizePath_new_joinPath cf hs.components]

theorem keys (hs : Spot cf paths parents part component) :
    ∀ p ∈ parents.map cf.toLowercase ++ [cf.toLowercase part], IsComponent p := by
  have h := isComponent_map_toLowercase cf hs.components
  rwa [List.map_append, List.map_singleton] at h

/-- An answer that is put in at the place of a component. -/
theorem recorded (hs : Spot cf paths parents part component) (hr : r.Spelled cf names paths)
    {e : PathCacheEntry} (he : names e.parent component.name = e.outcome)
    (hlookup : ∀ key e', r'.paths.lookup key = some e' →
      (key ≠ PathResolver.normalizePath cf component.path ∧ r.paths.lookup key = some e') ∨
        (key = PathResolver.normalizePath cf component.path ∧ e'.parent = e.parent ∧
          e'.outcome = e.outcome)) :
    r'.Spelled cf names paths := by
  intro place key e' hkeys he'
  rcases hlookup _ e' he' with ⟨-, hbefore⟩ | ⟨hkey, hparent, houtcome⟩
  · exact hr place key e' hkeys hbefore
  · rw [hs.normalizePath] at hkey
    obtain ⟨rfl, hpart⟩ := List.append_inj' (joinPath_injOn hkeys hs.keys hkey) rfl
    obtain rfl : key = cf.toLowercase part := by simpa using hpart
    exact ⟨part, rfl, hs.spelled, by rw [hparent, houtcome, ← he, hs.name]⟩

/-- What is served for a component is an answer for one of its spellings. -/
theorem cached_spelled (hs : Spot cf paths parents part component) (hr : r.Spelled cf names paths)
    (now : Instant) {served : Except Errno ResolvedEntry}
    (hserved : (r.cached cf now component.path component.parent component.parentGeneration).1
      = some served) :
    ∃ spelled, cf.toLowercase spelled = cf.toLowercase part ∧
      SpelledIn cf paths (parents.map cf.toLowercase) spelled ∧
        served = names component.parent (.new spelled) := by
  have hentry : ∀ e, r.paths.lookup (PathResolver.normalizePath cf component.path) = some e →
      e.parent = component.parent → e.outcome = served →
        ∃ spelled, cf.toLowercase spelled = cf.toLowercase part ∧
          SpelledIn cf paths (parents.map cf.toLowercase) spelled ∧
            served = names component.parent (.new spelled) := by
    intro e he hparent houtcome
    rw [hs.normalizePath] at he
    obtain ⟨spelled, hkey, hspelled, hanswer⟩ := hr _ _ e hs.keys he
    exact ⟨spelled, hkey, hspelled, by rw [← houtcome, ← hanswer, hparent]⟩
  cases served with
  | ok entry =>
      obtain ⟨e, he, hparent, -, rfl, -⟩ := cached_ok hserved
      exact hentry _ he hparent rfl
  | error err =>
      obtain ⟨rfl, e, he, hparent, -, -⟩ := cached_error hserved
      exact hentry _ he hparent rfl

end Spot
end Spelled

/-! ## Walks -/

section Walks
variable {β φ : Type} {pf : Platform} {h : Host β φ} {notices : Notices}
  {names : INodeNo → OsStr → Except Errno ResolvedEntry} {paths : List OsStr} {parents : List Str}
  {part : Str} {component : LookupComponent}

def World.Spelled (pf : Platform) (names : INodeNo → OsStr → Except Errno ResolvedEntry)
    (paths : List OsStr) (w : World β φ) : Prop := w.resolver.Spelled pf.caseFold names paths

/-- An effect, with the notices before it. -/
theorem triple_spelled {e : Effect} {Q : e.Res → Prop}
    (hperform : ∀ w : World β φ, w.Spelled pf names paths →
      Q (w.perform pf h e).1 ∧ (w.perform pf h e).2.Spelled pf names paths) :
    Triple (machine pf h notices) (World.Spelled pf names paths) (Prog.perform (S := effects) e)
      fun a w => Q a ∧ w.Spelled pf names paths := by
  intro w hw
  have hnotified : ∀ (ns : List NotifierCall) (w : World β φ), w.Spelled pf names paths →
      (ns.foldl (World.notify pf h) w).Spelled pf names paths := by
    intro ns
    induction ns with
    | nil => exact fun w hw => hw
    | cons n ns ih => exact fun w hw => ih _ (hw.within (notify_within pf.caseFold _ n _))
  exact hperform _ (hnotified (notices w.steps) w hw)

theorem triple_spelled_drain (req : Request) (o : DrainOp) :
    Triple (machine pf h notices) (World.Spelled pf names paths) (Routine.deliver req o)
      fun _ w => w.Spelled pf names paths := by
  refine Triple.consequence (triple_spelled (e := .deliver req o) (Q := fun _ => True)
    fun w hw => ⟨trivial, ?_⟩) (fun _ hw => hw) fun _ _ hw => hw.2
  have hresolver : (w.deliver pf h req o).resolver
      = (o.apply pf.caseFold (h.clock w.steps) w.resolver).2 := World.foldl_forget_resolver h req _ _
  exact (congrArg (PathResolver.Spelled pf.caseFold names paths) hresolver).mpr
    (PathResolver.Spelled.within hw (drain_within pf.caseFold _ o _))

/-- The answer for one of the spellings of a component. -/
def AnswersSpelling (cf : CaseFold) (names : INodeNo → OsStr → Except Errno ResolvedEntry)
    (paths : List OsStr) (parents : List Str) (part : Str) (component : LookupComponent)
    (answer : Except Errno ResolvedEntry) : Prop :=
  ∃ spelled, cf.toLowercase spelled = cf.toLowercase part ∧
    SpelledIn cf paths (parents.map cf.toLowercase) spelled ∧
      answer = names component.parent (.new spelled)

theorem lookupPathComponent_spelled (hnames : h.Names names) (req : Request)
    (hs : Spot pf.caseFold paths parents part component) :
    Triple (machine pf h notices) (World.Spelled pf names paths) (lookupPathComponent req component)
      fun a w => AnswersSpelling pf.caseFold names paths parents part component a ∧
        w.Spelled pf names paths := by
  have hanswers : ∀ a, a = names component.parent component.name →
      AnswersSpelling pf.caseFold names paths parents part component a := by
    rintro a rfl
    exact ⟨part, rfl, hs.spelled, by rw [hs.name]⟩
  refine Triple.bind (triple_spelled (e := .fs (.lookup req component.parent component.name))
    (Q := fun reply => lookupOutcome reply = names component.parent component.name)
    fun w hw => ⟨hnames req _ _ w.backend, hw⟩) fun reply => .assume fun hreply => ?_
  rcases reply with _ | ⟨err⟩ | ⟨payload⟩
  · exact (triple_spelled_drain req _).bind fun _ => .pure fun w hw => ⟨hanswers _ hreply, hw⟩
  · refine Triple.bind (Q := fun _ => World.Spelled pf names paths) ?_
      fun _ => .pure fun w hw => ⟨hanswers _ hreply, hw⟩
    unfold rememberNegativeLookup
    split_ifs with hmissing
    · refine Triple.bind (Q := fun _ => World.Spelled pf names paths) ?_
        fun _ => triple_spelled_drain req _
      refine Triple.consequence (triple_spelled (e := .table (.rememberNegative component.path
        component.parent component.parentGeneration component.name)) (Q := fun _ => True)
        fun w hw => ⟨trivial, ?_⟩) (fun _ hw => hw) fun _ _ hw => hw.2
      refine hs.recorded hw (e := .negative ⟨component.parent, component.parentGeneration,
        component.name, 0⟩) (hreply.symm.trans (by rw [hmissing]; rfl)) fun key e he => ?_
      refine (rememberNegative_lookup he).imp_right ?_
      rintro ⟨hkey, expires, rfl⟩
      exact ⟨hkey, rfl, rfl⟩
    · exact triple_spelled_drain req _
  · refine Triple.bind (triple_spelled (e := .table (.rememberPositive {
        path := component.path, parent := component.parent
        parentGeneration := component.parentGeneration, name := component.name
        attr := payload.attr, generation := payload.generation, ttl := payload.ttl }))
      (Q := fun entry => entry = (⟨payload.attr.ino, payload.generation⟩ : ResolvedEntry))
      fun w hw => ⟨rfl, ?_⟩) fun entry => .assume ?_
    · refine hs.recorded hw (e := .positive ⟨component.parent, component.parentGeneration,
        component.name, payload.attr.ino, payload.generation, 0, []⟩) hreply.symm fun key e he => ?_
      refine (rememberPositive_lookup he).imp_right ?_
      rintro ⟨hkey, expires, outstanding, rfl⟩
      exact ⟨hkey, rfl, rfl⟩
    · rintro rfl
      exact .pure fun w hw => ⟨hanswers _ hreply, hw⟩

theorem resolveComponent_spelled (hnames : h.Names names) (req : Request)
    (hs : Spot pf.caseFold paths parents part component) :
    Triple (machine pf h notices) (World.Spelled pf names paths) (resolveComponent req component)
      fun a w => AnswersSpelling pf.caseFold names paths parents part component a ∧
        w.Spelled pf names paths := by
  have hcached : Triple (machine pf h notices) (World.Spelled pf names paths)
      (cachedPathComponent req component.path component.parent component.parentGeneration)
      fun a w => (a = .ok none ∨ AnswersSpelling pf.caseFold names paths parents part component
        (a.bind fun served => served.elim (.error EIO) .ok)) ∧ w.Spelled pf names paths := by
    refine Triple.bind (triple_spelled (e := .table (.cached component.path component.parent
      component.parentGeneration)) (Q := fun cached => ∀ served, cached = some served →
        AnswersSpelling pf.caseFold names paths parents part component served)
      fun w hw => ⟨fun served => hs.cached_spelled hw _, ?_⟩) fun cached => .assume fun hserved => ?_
    · exact PathResolver.Spelled.within hw (cached_within pf.caseFold _ _ _ _ _)
    · rcases cached with _ | ⟨err⟩ | ⟨entry⟩
      · exact .pure fun w hw => ⟨.inl rfl, hw⟩
      · exact (triple_spelled_drain req _).bind fun _ => .pure fun w hw =>
          ⟨.inr (hserved _ rfl), hw⟩
      · exact .pure fun w hw => ⟨.inr (hserved _ rfl), hw⟩
  refine hcached.bind fun cached => .assume fun hserved => ?_
  rcases cached with err | _ | entry
  · exact .pure fun w hw => ⟨hserved.resolve_left (by simp), hw⟩
  · exact lookupPathComponent_spelled hnames req hs
  · exact .pure fun w hw => ⟨hserved.resolve_left (by simp), hw⟩

theorem walkComponents_spelled (hnames : h.Names names) (req : Request) {path : OsStr}
    (hpath : path ∈ paths) (parents : List Str) {components : List Str}
    (hcomponents : parents ++ components = normalizedComponents path) (current : ResolvedEntry) :
    Triple (machine pf h notices) (World.Spelled pf names paths)
      (walkComponents req (joinPath parents) current components)
      fun a w => (∃ spelled, SpelledAs pf.caseFold paths (parents.map pf.caseFold.toLowercase)
          components spelled ∧ a = spelledWalk names current spelled) ∧ w.Spelled pf names paths := by
  induction components generalizing parents current with
  | nil => exact .pure fun w hw => ⟨⟨[], trivial, rfl⟩, hw⟩
  | cons component rest ih =>
      have happend : parents ++ [component] ++ rest = normalizedComponents path := by
        rw [← hcomponents, List.append_assoc, List.singleton_append]
      have hall : ∀ p ∈ parents ++ [component], IsComponent p := fun p hp =>
        isComponent_normalizedComponents path p (happend ▸ List.mem_append_left rest hp)
      have hparents : ∀ p ∈ parents, IsComponent p := fun p hp =>
        hall p (List.mem_append_left _ hp)
      have hspot : Spot pf.caseFold paths parents component
          (walkComponent (joinPath parents) current component) :=
        ⟨by rw [walkComponent, childPathFromParent_joinPath hparents], rfl, hall,
          path, hpath, parents, rfl, rest, happend⟩
      refine (resolveComponent_spelled hnames req hspot).bind fun child => .assume ?_
      rintro ⟨head, hkey, hspelled, hanswer⟩
      have hplace : parents.map pf.caseFold.toLowercase ++ [pf.caseFold.toLowercase component]
          = (parents ++ [component]).map pf.caseFold.toLowercase := by
        rw [List.map_append, List.map_singleton]
      cases child with
      | error err =>
          refine .pure fun w hw => ⟨⟨head :: rest, ⟨⟨hkey, hspelled⟩, ?_⟩, ?_⟩, hw⟩
          · rw [hplace]
            exact spelledAs_self hpath _ happend
          · exact congrArg (fun answer : Except Errno ResolvedEntry =>
              answer.bind fun child => spelledWalk names child rest) hanswer
      | ok entry =>
          dsimp only
          rw [childPathFromParent_joinPath hparents]
          refine (ih (parents ++ [component]) happend entry).consequence (fun _ hw => hw) ?_
          rintro a w ⟨⟨tail, htail, ha⟩, hw⟩
          refine ⟨⟨head :: tail, ⟨⟨hkey, hspelled⟩, hplace ▸ htail⟩, ha.trans ?_⟩, hw⟩
          exact congrArg (fun answer : Except Errno ResolvedEntry =>
            answer.bind fun child => spelledWalk names child tail) hanswer

theorem resolvePathIno_spelled (hnames : h.Names names) (req : Request) {path : OsStr}
    (hpath : path ∈ paths) :
    Triple (machine pf h notices) (World.Spelled pf names paths) (resolvePathIno pf req path)
      fun a w => (∃ spelled, SpelledAs pf.caseFold paths [] (normalizedComponents path) spelled ∧
          a = resolvedAs names spelled) ∧ w.Spelled pf names paths := by
  unfold resolvePathIno
  split_ifs with hroot
  · rw [normalizePath_eq_root.mp hroot]
    exact .pure fun w hw => ⟨⟨[], trivial, rfl⟩, hw⟩
  · refine (triple_spelled_drain req _).bind fun _ => ?_
    refine (walkComponents_spelled hnames req hpath [] rfl _).bind fun walked => .assume ?_
    rintro ⟨spelled, hspelled, rfl⟩
    cases hwalk : spelledWalk names ⟨.ROOT, ⟨0⟩⟩ spelled with
    | error err => exact .pure fun w hw => ⟨⟨spelled, hspelled, by rw [resolvedAs, hwalk]; rfl⟩, hw⟩
    | ok entry => exact .pure fun w hw => ⟨⟨spelled, hspelled, by rw [resolvedAs, hwalk]; rfl⟩, hw⟩

end Walks

/-! ## Runs of path resolutions -/

section Runs
variable {β φ : Type} (pf : Platform) (h : Host β φ) (notices : Notices)

/-- Resolve paths one after the other. -/
def World.resolveEach (calls : List (Request × OsStr)) (w : World β φ) : World β φ :=
  calls.foldl (fun w c => ((resolvePathIno pf c.1 c.2).run (machine pf h notices) w).2) w

variable {pf h notices}

theorem World.resolveEach_spelled {names : INodeNo → OsStr → Except Errno ResolvedEntry}
    (hnames : h.Names names) {paths : List OsStr} (calls : List (Request × OsStr))
    (hcalls : ∀ c ∈ calls, c.2 ∈ paths) {w : World β φ} (hw : w.Spelled pf names paths) :
    (w.resolveEach pf h notices calls).Spelled pf names paths := by
  induction calls generalizing w with
  | nil => exact hw
  | cons c calls ih =>
      refine ih (fun c' hc' => hcalls c' (List.mem_cons_of_mem c hc')) ?_
      exact (resolvePathIno_spelled hnames c.1 (hcalls c List.mem_cons_self) w hw).2

theorem World.initial_spelled (names : INodeNo → OsStr → Except Errno ResolvedEntry)
    (paths : List OsStr) (ttl : Duration) (backend : β) (caller : φ) :
    (World.initial ttl backend caller).Spelled pf names paths := by
  intro place key e _ he
  cases he

/-- Resolve paths one after the other, as one routine. -/
def resolvePaths (pf : Platform) (calls : List (Request × OsStr)) : Routine Unit :=
  Prog.each (fun c => resolvePathIno pf c.1 c.2) calls

theorem World.attempt_resolvePaths {calls : List (Request × OsStr)} {w : World β φ}
    (hw : w.Lasts pf h notices (resolvePaths pf calls)) :
    w.attempt pf h notices (resolvePaths pf calls) = .ok ((), w.resolveEach pf h notices calls) :=
  (attempt_of_lasts hw).trans (congrArg Except.ok (Prog.run_each ..))

/-- Where every expiry is an instant, a resolution returns the walk with every component in a spelling
that was used for it so far, which is the walk as spelled when the file system answers these spellings
alike. -/
theorem resolve_walks_spelling_used {names : INodeNo → OsStr → Except Errno ResolvedEntry}
    (hnames : h.Names names) (ttl : Duration) (backend : β) (caller : φ)
    (before : List (Request × OsStr)) (req : Request) (path : OsStr)
    (hlasts : (World.initial ttl backend caller).Lasts pf h notices
      (resolvePaths pf before >>= fun _ => resolvePathIno pf req path)) :
    ∃ w w' result, (World.initial ttl backend caller).attempt pf h notices
        (resolvePaths pf before) = .ok ((), w) ∧
      w.attempt pf h notices (resolvePathIno pf req path) = .ok (result, w') ∧
      (∃ spelled, SpelledAs pf.caseFold (before.map Prod.snd ++ [path]) []
          (normalizedComponents path) spelled ∧ result = resolvedAs names spelled) ∧
      (AnsweredAlike pf.caseFold names (before.map Prod.snd ++ [path]) []
        (normalizedComponents path) → result = resolvedAs names (normalizedComponents path)) := by
  obtain ⟨hserved, hresolved⟩ := Prog.runMeets_bind.mp hlasts
  have hwhole : (resolvePaths pf before).run (machine pf h notices)
      (World.initial ttl backend caller) = ((), _) := Prog.run_each ..
  rw [hwhole] at hresolved
  have hbefore : ((World.initial ttl backend caller).resolveEach pf h notices before).Spelled pf
      names (before.map Prod.snd ++ [path]) :=
    World.resolveEach_spelled hnames before
      (fun c hc => List.mem_append_left _ (List.mem_map_of_mem hc))
      (World.initial_spelled names _ ttl backend caller)
  have hresolve : Triple (machine pf h notices) _ _ _ := resolvePathIno_spelled hnames req
    (List.mem_append_right (before.map Prod.snd) (List.mem_singleton_self path))
  obtain ⟨⟨spelled, hspelled, hresult⟩, -⟩ := hresolve _ hbefore
  refine ⟨_, _, _, World.attempt_resolvePaths hserved, World.attempt_of_lasts hresolved,
    ⟨spelled, hspelled, hresult⟩, fun halike => hresult.trans ?_⟩
  rw [resolvedAs, resolvedAs, hspelled.walk_eq halike]

end Runs

/-- The root has the file `A` and no file `a`. -/
def upperOnly (parent : INodeNo) (name : OsStr) : Except Errno ResolvedEntry :=
  if parent = .ROOT ∧ name = .new ['A'] then .ok ⟨⟨5⟩, ⟨1⟩⟩ else .error ENOENT

/-- Entries are valid for ten seconds. -/
def upperOnlyReply : (c : FsCall) → c.Reply
  | .lookup _ parent name =>
      (some ((upperOnly parent name).map fun entry =>
        ⟨.plain entry.ino .regularFile, .fromSecs 10, entry.generation⟩) : Reply ReplyEntryPayload)
  | c => c.unanswered

theorem upperOnly_names : (Host.stateless upperOnlyReply).Names upperOnly := by
  intro req parent name b
  change lookupOutcome (some ((upperOnly parent name).map fun entry =>
    (⟨.plain entry.ino .regularFile, .fromSecs 10, entry.generation⟩ : ReplyEntryPayload)))
      = upperOnly parent name
  cases upperOnly parent name <;> rfl

def pathUpperA : OsStr := .new ['\\', 'A']

def pathLowerA : OsStr := .new ['\\', 'a']

theorem resolve_walks_spelling_used_upper :
    ∃ w w' result, World.mounted.attempt .ascii (.stateless upperOnlyReply) undisturbed
        (resolvePaths .ascii [(⟨0, 0, 1⟩, pathUpperA)]) = .ok ((), w) ∧
      w.attempt .ascii (.stateless upperOnlyReply) undisturbed
        (resolvePathIno .ascii ⟨0, 0, 1⟩ pathUpperA) = .ok (result, w') ∧
      (∃ spelled, SpelledAs Platform.ascii.caseFold [pathUpperA, pathUpperA] []
          (normalizedComponents pathUpperA) spelled ∧ result = resolvedAs upperOnly spelled) ∧
      (AnsweredAlike Platform.ascii.caseFold upperOnly [pathUpperA, pathUpperA] []
        (normalizedComponents pathUpperA) →
          result = resolvedAs upperOnly (normalizedComponents pathUpperA)) :=
  resolve_walks_spelling_used upperOnly_names (.fromSecs 1) () () [(⟨0, 0, 1⟩, pathUpperA)]
    ⟨0, 0, 1⟩ pathUpperA (by decide)

/-- After `A` the name `a` is served from the cache, though the file system does not have it. -/
theorem other_spelling_is_served :
    ¬ ∀ (β φ : Type) (pf : Platform) (h : Host β φ) (notices : Notices)
      (names : INodeNo → OsStr → Except Errno ResolvedEntry), h.Names names →
      ∀ (ttl : Duration) (backend : β) (caller : φ) (before : List (Request × OsStr)) (req : Request)
        (path : OsStr),
        (World.initial ttl backend caller).Lasts pf h notices
            (resolvePaths pf before >>= fun _ => resolvePathIno pf req path) →
          ∃ w w', (World.initial ttl backend caller).attempt pf h notices
              (resolvePaths pf before) = .ok ((), w) ∧
            w.attempt pf h notices (resolvePathIno pf req path)
              = .ok (resolvedAs names (normalizedComponents path), w') := by
  intro hall
  have hlasts : World.mounted.Lasts .ascii (.stateless upperOnlyReply) undisturbed
      (resolvePaths .ascii [(⟨0, 0, 1⟩, pathUpperA)] >>= fun _ =>
        resolvePathIno .ascii ⟨0, 0, 1⟩ pathLowerA) := by decide
  obtain ⟨hbefore, hafter⟩ := Prog.runMeets_bind.mp hlasts
  obtain ⟨w, w', hserve, hresolve⟩ := hall Unit Unit .ascii (.stateless upperOnlyReply) undisturbed
    upperOnly upperOnly_names (.fromSecs 1) () () _ _ _ hlasts
  obtain rfl := congrArg Prod.snd
    (Except.ok.inj ((World.attempt_of_lasts hbefore).symm.trans hserve))
  have hwalk := congrArg Prod.fst (Except.ok.inj ((World.attempt_of_lasts hafter).symm.trans hresolve))
  have hserved : ((resolvePathIno .ascii ⟨0, 0, 1⟩ pathLowerA).run
      (machine .ascii (.stateless upperOnlyReply) undisturbed)
      ((resolvePaths .ascii [(⟨0, 0, 1⟩, pathUpperA)]).run
        (machine .ascii (.stateless upperOnlyReply) undisturbed) World.mounted).2).1 = .ok ⟨5⟩ := by rfl
  have hmissing : resolvedAs upperOnly (normalizedComponents pathLowerA) = .error ENOENT := by rfl
  cases hserved.symm.trans (hwalk.trans hmissing)

end Confuse
