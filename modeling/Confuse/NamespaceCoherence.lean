import Confuse.LastingReplies
import Confuse.MemoryBackend
import Confuse.NamespaceRoutes

/-!
# Namespace coherence

After any callbacks a path resolution returns what the walk of the current namespace returns, where
every expiry that is computed on the way is an instant. The resolver takes generation 0 for the parent
of a created or listed entry when it does not know the parent, so this needs that an inode which was in
use never comes back with generation 0.
-/

namespace Confuse

open Interaction PathResolver

theorem resolve_is_walk {β φ : Type} {pf : Platform} {h : Host β φ} {notices : Notices}
    {ns : β → Namespace} {used : β → INodeNo → Generation → Prop}
    (ht : Truthful pf.caseFold h ns used) (hz : ZeroIsFirst h used) (ttl : Duration) (backend : β)
    (caller : φ) (callbacks : List Callback) (req : Request) (path : OsStr)
    (hlasts : (World.initial ttl backend caller).Lasts pf h notices
      (Callback.serveEach pf callbacks >>= fun _ => resolvePathIno pf req path)) :
    ∃ w w', (World.initial ttl backend caller).attempt pf h notices
        (Callback.serveEach pf callbacks) = .ok ((), w) ∧
      w.attempt pf h notices (resolvePathIno pf req path)
        = .ok (resolved (ns w.backend) (keyOf pf.caseFold path), w') := by
  obtain ⟨hserved, hresolved⟩ := Prog.runMeets_bind.mp hlasts
  rw [World.run_serveEach] at hresolved
  have hcurrent : ((World.initial ttl backend caller).serve pf h notices callbacks).Current ns used :=
    World.serve_current ht hz callbacks (World.initial_current ns used ttl backend caller)
  have hwalk : ((resolvePathIno pf req path).run (machine pf h notices)
      ((World.initial ttl backend caller).serve pf h notices callbacks)).1 = _ :=
    (resolvePathIno_spec ht req path _ hcurrent).1
  exact ⟨_, _, World.attempt_serveEach hserved, World.attempt_returns hresolved hwalk⟩

def pathZz : U16CStr := ⟨[92, 122, 122], by simp⟩

def pathZzX : U16CStr := ⟨[92, 122, 122, 92, 120], by simp⟩

theorem pathA_nonzero : ∀ u ∈ ([92, 97] : List UInt16), u ≠ 0 := by simp

def pathA : U16CStr := ⟨[92, 97], pathA_nonzero⟩

def pathAX : U16CStr := ⟨[92, 97, 92, 120], by simp⟩

theorem starPattern_nonzero : ∀ u ∈ ([42] : List UInt16), u ≠ 0 := by simp

def starPattern : U16CStr := ⟨[42], starPattern_nonzero⟩

/-- A directory is made with an open handle, gets a file and is moved; the handle lists it under its
old name. File and directory are removed, and the old name is made again. -/
def moveAndMakeAgain : List Callback :=
  [.createFile pathZz 0 0 FILE_CREATE FILE_DIRECTORY_FILE (.unavailable 1),
    .createFile pathZzX 0 0 FILE_CREATE 0 (.unavailable 1),
    .moveFile pathZz pathA false { ino := ⟨5⟩, isDir := true },
    .findFilesWithPattern pathZz starPattern { ino := ⟨5⟩, isDir := true },
    .cleanup pathAX true { ino := ⟨6⟩ },
    .cleanup pathA true { ino := ⟨5⟩, isDir := true },
    .createFile pathZz 0 0 FILE_CREATE FILE_DIRECTORY_FILE (.unavailable 1)]

/-- The file system in memory, whose entries are valid for ten seconds. -/
abbrev tenSeconds (z : Bool) : Host (Memory Platform.ascii.caseFold z) Unit :=
  .memory _ z (.fromSecs 10)

/-- The adapter over the empty file system, with the pairs that it gives out. -/
abbrev emptyMemory (z : Bool) (supply : List (INodeNo × Generation)) :
    World (Memory Platform.ascii.caseFold z) Unit :=
  .initial (.fromSecs 1) (.empty _ z supply) ()

/-- Whatever the file system in memory reports is valid for the same time. -/
theorem memory_ttl {cf : CaseFold} {z : Bool} {ttl ttl' : Duration} {c : FsCall} {m : Memory cf z}
    {report : Report} (hreport : report ∈ c.reports (Memory.reply ttl c m).1)
    (httl : ttl' ∈ report.ttl?) : ttl' = ttl := by
  cases c with
  | lookup req parent name =>
      change report ∈ Reply.lookupReports parent name (m.lookupResult ttl parent name) at hreport
      unfold Memory.lookupResult at hreport
      split at hreport
      · obtain rfl : report = .absent parent name := List.mem_singleton.mp hreport
        cases httl
      · obtain rfl := List.mem_singleton.mp hreport
        exact (Option.some.inj httl).symm
  | getattr req ino fh =>
      obtain rfl := List.mem_singleton.mp hreport
      exact (Option.some.inj httl).symm
  | mkdir req parent name mode umask =>
      unfold Memory.reply FsCall.reports at hreport
      cases hadded : (m.addResult parent name true).1 with
      | error err => simp [hadded, Except.map, Reply.reads] at hreport
      | ok v =>
          obtain rfl := List.mem_singleton.mp (by simpa [hadded, Except.map, Reply.reads] using hreport)
          exact (Option.some.inj httl).symm
  | create req parent name mode umask flags =>
      unfold Memory.reply FsCall.reports at hreport
      cases hadded : (m.addResult parent name false).1 with
      | error err => simp [hadded, Except.map, Reply.reads] at hreport
      | ok v =>
          obtain rfl := List.mem_singleton.mp (by simpa [hadded, Except.map, Reply.reads] using hreport)
          exact (Option.some.inj httl).symm
  | readdirplus req ino fh offset =>
      obtain ⟨entry, hentry, rfl⟩ := List.mem_map.mp hreport
      obtain ⟨e, -, rfl⟩ := List.mem_map.mp hentry
      exact (Option.some.inj httl).symm
  | _ => cases hreport

/-- Over the file system in memory every run lasts. -/
theorem memory_lasting (cf : CaseFold) (z : Bool) {ttl negativeTtl : Duration}
    (httl : PathResolver.Lasts 0 ttl) (hnegative : PathResolver.Lasts 0 negativeTtl) :
    (Host.memory cf z ttl).Lasting negativeTtl where
  reported _ _ _ hreport _ httl' _ := memory_ttl hreport httl' ▸ httl
  negative _ := hnegative

theorem lasts_moveAndMakeAgain (z : Bool) (supply : List (INodeNo × Generation)) :
    (emptyMemory z supply).Lasts .ascii (tenSeconds z) undisturbed
      (Callback.serveEach .ascii moveAndMakeAgain >>= fun _ =>
        resolvePathIno .ascii ⟨0, 0, 1⟩ pathZzX.path) := by
  have hlasting : (tenSeconds z).Lasting (.fromSecs 1) := memory_lasting _ z (by decide) (by decide)
  have hfaithful : FaithfulRoutine (fun _ => False) (Callback.serveEach .ascii moveAndMakeAgain >>=
      fun _ => resolvePathIno .ascii ⟨0, 0, 1⟩ pathZzX.path) :=
    .bind (.each (Callback.faithful _ _) moveAndMakeAgain) fun _ => .resolvePathIno _ _ _
  exact FaithfulRoutine.lasts hlasting hfaithful (fun _ h => h.elim)
    (World.initial_negativeTtl hlasting _ _)

theorem resolve_is_walk_moveAndMakeAgain :
    ∃ w w', (emptyMemory false [(⟨5⟩, ⟨7⟩), (⟨6⟩, ⟨1⟩), (⟨5⟩, ⟨8⟩)]).attempt .ascii (tenSeconds false)
        undisturbed (Callback.serveEach .ascii moveAndMakeAgain) = .ok ((), w) ∧
      w.attempt .ascii (tenSeconds false) undisturbed
          (resolvePathIno .ascii ⟨0, 0, 1⟩ pathZzX.path)
        = .ok (resolved w.backend.names (keyOf Platform.ascii.caseFold pathZzX.path), w') :=
  resolve_is_walk (memory_truthful _ false _) (memory_zeroIsFirst _ _) _ _ () _ _ _
    (lasts_moveAndMakeAgain false _)

/-- With generation 0 given out again the listed entry is served below the new directory, which has
no entries. -/
theorem resolve_serves_stale_entry :
    ¬ ∀ (β φ : Type) (pf : Platform) (h : Host β φ) (notices : Notices) (ns : β → Namespace)
      (used : β → INodeNo → Generation → Prop), Truthful pf.caseFold h ns used →
      ∀ (ttl : Duration) (backend : β) (caller : φ) (callbacks : List Callback) (req : Request)
        (path : OsStr),
        (World.initial ttl backend caller).Lasts pf h notices
            (Callback.serveEach pf callbacks >>= fun _ => resolvePathIno pf req path) →
          ∃ w w', (World.initial ttl backend caller).attempt pf h notices
              (Callback.serveEach pf callbacks) = .ok ((), w) ∧
            w.attempt pf h notices (resolvePathIno pf req path)
              = .ok (resolved (ns w.backend) (keyOf pf.caseFold path), w') := by
  intro hall
  have hlasts := lasts_moveAndMakeAgain true [(⟨5⟩, ⟨7⟩), (⟨6⟩, ⟨1⟩), (⟨5⟩, ⟨0⟩)]
  obtain ⟨hbefore, hafter⟩ := Prog.runMeets_bind.mp hlasts
  obtain ⟨w, w', hserve, hresolve⟩ := hall _ _ .ascii (tenSeconds true) undisturbed Memory.names
    Memory.used (memory_truthful _ true _) (.fromSecs 1) _ () moveAndMakeAgain ⟨0, 0, 1⟩
    pathZzX.path hlasts
  rw [World.run_serveEach] at hafter
  obtain rfl := congrArg Prod.snd (Except.ok.inj ((World.attempt_serveEach hbefore).symm.trans hserve))
  have hwalk := congrArg Prod.fst (Except.ok.inj ((World.attempt_of_lasts hafter).symm.trans hresolve))
  have hserved : ((resolvePathIno .ascii ⟨0, 0, 1⟩ pathZzX.path).run
      (machine .ascii (tenSeconds true) undisturbed)
      ((emptyMemory true [(⟨5⟩, ⟨7⟩), (⟨6⟩, ⟨1⟩), (⟨5⟩, ⟨0⟩)]).serve .ascii (tenSeconds true)
        undisturbed moveAndMakeAgain)).1 = .ok ⟨6⟩ := by rfl
  cases hserved.symm.trans hwalk

end Confuse
