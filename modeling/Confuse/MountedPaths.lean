import Confuse.MountedListings
import Confuse.NamespaceRoutes
import Confuse.PanickingRuns
import Confuse.TruthfulMemFs
import Confuse.WideNames

/-!
# Paths through a mounted file system

The adapter resolves a path with its cache. With careful calls that use one spelling for each name,
the answer is what the names in the file system in memory lead to.
-/

namespace Confuse

open Interaction NameTree PathResolver

/-! ## The calls of a resolution -/

section Resolution
variable (req : Request)

theorem walkComponents_looksUp (currentPath : Str) (current : ResolvedEntry) (components : List Str) :
    (walkComponents req currentPath current components).Performs fun e : Effect => ∀ c, e = .fs c →
      ∃ parent part, part ∈ components ∧ c = .lookup req parent (.new part) := by
  induction components generalizing currentPath current with
  | nil => exact .pure _
  | cons part rest ih =>
      refine .bind ((resolveComponent_looksUp req _).mono fun e he c hc => ?_) fun found => ?_
      · exact ⟨_, part, List.mem_cons_self, he c hc⟩
      · cases found with
        | error err => exact .pure _
        | ok entry =>
            refine (ih _ entry).mono fun e he c hc => ?_
            obtain ⟨parent, part', hpart', heq⟩ := he c hc
            exact ⟨parent, part', List.mem_cons_of_mem _ hpart', heq⟩

theorem resolvePathIno_looksUp (pf : Platform) (path : OsStr) :
    (resolvePathIno pf req path).Performs fun e : Effect => ∀ c, e = .fs c →
      ∃ parent part, part ∈ normalizedComponents path ∧ c = .lookup req parent (.new part) := by
  unfold resolvePathIno
  split_ifs
  · exact .pure _
  · refine .bind (.perform fun c hc => Effect.noConfusion hc) fun _ =>
      .bind (walkComponents_looksUp req _ _ _) fun walked => ?_
    cases walked <;> exact .pure _

end Resolution

/-! ## Runs of proper calls -/

namespace MemFs
variable {cf : CaseFold} {spell : Str → OsStr} {clock : ℕ → SystemTime} {s : MemFs}
  {calls : List FsCall}

theorem run_of_careful (hsizes : ∀ c ∈ calls, c.panics = false)
    (hcareful : CarefulRun clock (calls.map .fs) (calm s))
    (hnames : ∀ c ∈ calls, ∀ name ∈ c.entryNames, InSpelling cf spell name) :
    (truthfulGuard cf spell).Run clock calls s := by
  induction calls generalizing s with
  | nil => trivial
  | cons c rest ih =>
      rw [List.forall_mem_cons] at hsizes hnames
      have hrun : ((MemFsCall.fs c).program.run (Prog.Machine.alone (machine clock)) (calm s)).2
          = calm ((MemFsCall.fs c).effect clock s) := run_effect clock s hsizes.1
      rw [List.map_cons, CarefulRun, hrun] at hcareful
      exact ⟨⟨hsizes.1, hcareful.1, hnames.1⟩, ih hsizes.2 hcareful.2 hnames.2⟩

/-- What the names lead to from the root. -/
def followed (children : Names) (path : List OsStr) : Except Errno INodeNo :=
  match walk (names children) rootPlace path with
  | some (ino, _) => .ok ⟨ino⟩
  | none => .error ENOENT

theorem resolved_keyed {children : Names} {cf : CaseFold} {spell : Str → OsStr} {path : OsStr}
    (hpath : ∀ part ∈ normalizedComponents path, InSpelling cf spell (.new part)) :
    resolved (keyed cf spell children) (keyOf cf path)
      = followed children ((normalizedComponents path).map .new) := by
  have hkeys : keyOf cf path = ((normalizedComponents path).map OsStr.new).map (nameKey cf) := by
    rw [List.map_map, keyOf]
    refine List.map_congr_left fun part _ => ?_
    rw [Function.comp_apply, nameKey, OsStr.toStringLossy_new]
  have hnames : ∀ name ∈ (normalizedComponents path).map OsStr.new, InSpelling cf spell name := by
    intro name hname
    obtain ⟨part, hpart, rfl⟩ := List.mem_map.mp hname
    exact hpath part hpart
  have hwalk : walk (keyed cf spell children) rootEntry
      (((normalizedComponents path).map OsStr.new).map (nameKey cf))
        = (walk (names children) rootPlace ((normalizedComponents path).map OsStr.new)).map
          fun v => (⟨v.1⟩, ⟨0⟩) := walk_keyed hnames ROOT_INO_RAW
  unfold resolved followed
  rw [hkeys, hwalk]
  cases walk (names children) rootPlace ((normalizedComponents path).map OsStr.new) <;> rfl

end MemFs

namespace Mount
open MemFs World
variable {φ : Type} {m : Mount φ} {spell : Str → OsStr}

/-- A resolution in a run that does not panic, after careful calls that use one spelling for each name:
it returns what the names in the file system lead to. -/
theorem mounted_resolve_is_walk (h : m.Fits)
    (hcareful : CarefulRun m.clock m.calls (calm (new m.now)))
    (hnames : ∀ c ∈ m.world.asked, ∀ name ∈ c.entryNames, InSpelling m.pf.caseFold spell name)
    (req : Request) {path : OsStr}
    (hpath : ∀ part ∈ normalizedComponents path, InSpelling m.pf.caseFold spell (.new part))
    (hlasts : m.start.Lasts m.pf m.host m.notices
      (Callback.serveEach m.pf m.callbacks >>= fun _ => resolvePathIno m.pf req path)) :
    m.start.attempt m.pf m.host m.notices (Callback.serveEach m.pf m.callbacks)
        = .ok ((), m.world) ∧
      ∃ w, m.world.attempt m.pf m.host m.notices (resolvePathIno m.pf req path)
        = .ok (followed m.world.backend.1.children ((normalizedComponents path).map .new), w) := by
  obtain ⟨⟨s, hbackend, hregular⟩, hworld⟩ := h.serve_guarded
    (run_of_careful h.asked_sizes hcareful hnames)
  have ht : Truthful m.pf.caseFold (m.guarded (truthfulGuard m.pf.caseFold spell))
      (namespaceOf m.pf.caseFold spell) Taken := truthful _ spell m.clock m.surroundings
  have hcurrent : m.world.Current (namespaceOf m.pf.caseFold spell) Taken := by
    rw [← hworld]
    exact World.serve_current ht (zeroIsFirst _ spell m.clock m.surroundings) m.callbacks
      (World.initial_current _ _ m.negativeTtl _ m.caller)
  -- The resolution makes lookups only, which change nothing.
  have halike := run_guarded (g := truthfulGuard m.pf.caseFold spell) hbackend hregular
    ((resolvePathIno_looksUp req m.pf path).mono fun e he c hc => by
      obtain ⟨parent, part, hpart, rfl⟩ := he c hc
      refine ⟨rfl, rfl, trivial, fun name hname => ?_⟩
      rw [List.mem_singleton.mp hname]
      exact hpath part hpart)
  have hwalk : ((resolvePathIno m.pf req path).run (Confuse.machine m.pf m.host m.notices) m.world).1
      = followed m.world.backend.1.children ((normalizedComponents path).map .new) := by
    rw [← halike]
    refine (resolvePathIno_spec ht req path m.world hcurrent).1.trans ?_
    rw [hbackend, namespaceOf_calm hregular]
    exact resolved_keyed hpath
  obtain ⟨hserved, hresolved⟩ := Prog.runMeets_bind.mp hlasts
  rw [World.run_serveEach] at hresolved
  exact ⟨World.attempt_serveEach hserved, _, World.attempt_returns hresolved hwalk⟩

end Mount

theorem asked_nestedMount : nestedMount.world.asked
    = [.mkdir (requestFromIds (.unavailable 1)) .ROOT (.new ['f']) (modeFromFileAttributes 0) 0,
      .create (requestFromIds (.unavailable 1)) ⟨2⟩ (.new ['g']) (modeFromFileAttributes 0) 0
        (accessMaskToOpenFlags 0)] := rfl

theorem carefulRun_nestedMount :
    MemFs.CarefulRun MemFs.stillClock nestedMount.calls (MemFs.calm (MemFs.new .UNIX_EPOCH)) := by
  rw [Mount.calls, asked_nestedMount]
  exact ⟨⟨⟨[], (), rfl⟩, _, rfl, rfl⟩, ⟨⟨[.new ['f']], (), rfl⟩, _, rfl, rfl⟩, trivial⟩

theorem inSpelling_letter {c : Char} (hspecial : isSpecial c = false)
    (hlower : CharFold.asciiLower c = c) :
    InSpelling Platform.ascii.caseFold .new (.new [c]) where
  component := by
    rw [OsStr.toStringLossy_new]
    unfold isSpecial at hspecial
    simp only [Bool.or_eq_false_iff, beq_eq_false_iff_ne, ne_eq] at hspecial
    obtain ⟨⟨hseparator, hcolon⟩, hdot⟩ := hspecial
    constructor <;> simp [hseparator, hcolon, hdot]
  spelled := by
    have hkey : nameKey Platform.ascii.caseFold (.new [c]) = [CharFold.asciiLower c] := by
      rw [nameKey, OsStr.toStringLossy_new]
      rfl
    rw [hkey, hlower]

theorem mounted_resolve_is_walk_nestedMount :
    nestedMount.start.attempt .ascii nestedMount.host undisturbed
        (Callback.serveEach .ascii nestedMount.callbacks) = .ok ((), nestedMount.world) ∧
      ∃ w, nestedMount.world.attempt .ascii nestedMount.host undisturbed
          (resolvePathIno .ascii ⟨0, 0, 1⟩ pathFG.path)
        = .ok (MemFs.followed nestedMount.world.backend.1.children [.new ['f'], .new ['g']], w) := by
  have hf : InSpelling Platform.ascii.caseFold .new (.new ['f']) := inSpelling_letter rfl rfl
  have hg : InSpelling Platform.ascii.caseFold .new (.new ['g']) := inSpelling_letter rfl rfl
  have hnames : ∀ c ∈ nestedMount.world.asked, ∀ name ∈ c.entryNames,
      InSpelling Platform.ascii.caseFold .new name := by
    rw [asked_nestedMount]
    intro c hc name hname
    rcases List.mem_pair.mp hc with rfl | rfl
    · rwa [List.mem_singleton.mp hname]
    · rwa [List.mem_singleton.mp hname]
  have hpath : ∀ part ∈ normalizedComponents pathFG.path,
      InSpelling Platform.ascii.caseFold .new (.new part) := by
    intro part hpart
    rcases List.mem_pair.mp (show part ∈ [['f'], ['g']] from hpart) with rfl | rfl
    · exact hf
    · exact hg
  exact Mount.mounted_resolve_is_walk fits_nestedMount carefulRun_nestedMount hnames ⟨0, 0, 1⟩ hpath
    (by decide)

end Confuse
