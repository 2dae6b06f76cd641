import Confuse.AgreeingHosts
import Confuse.MountedMemFs
import Confuse.OwnMutations

/-!
# The guarded file system in memory

Some things hold of the file system in memory only as long as its callers keep to rules, and as it has
numbers left. A guard is such a rule. The guarded file system stops to change anything at the first
call that breaks the rule, and until then a mount cannot tell it from the file system in memory.
-/

namespace Confuse

open Interaction

/-- The numbers that a call may take. -/
def FsCall.room (c : FsCall) : ℕ := if c.keepsAttributes then 0 else 1

namespace MemFs
variable {clock : ℕ → SystemTime} {s : MemFs} {room : ℕ} {c : FsCall} {calls : List FsCall}
  {b : MemFs × (MemFsLock → Bool)}

theorem effect_of_keeps (hc : c.keepsAttributes) : (MemFsCall.fs c).effect clock s = s := by
  cases c <;> first | rfl | cases hc

theorem Settled.mono {lost : Multiset UInt64} (h : Settled room lost s) {room' : ℕ}
    (hle : room' ≤ room) : Settled room' lost s :=
  ⟨h.sound.mono (Multiset.replicate_le_replicate _ |>.mpr hle), h.placed, h.balanced⟩

/-- What holds with so many numbers left, the calls that keep it, and what is told about others. -/
structure Guard where
  holds : ℕ → MemFs → Prop
  allows : FsCall → MemFs → Prop
  told : (c : FsCall) → MemFs × (MemFsLock → Bool) → c.Reply
  mono : ∀ {room room' s}, room' ≤ room → holds room s → holds room' s
  fits : ∀ {c s}, allows c s → c.panics = false
  new : ∀ now n, n + 2 < 2 ^ 64 → holds n (new now)
  step : ∀ {clock room c s}, holds (room + 1) s → allows c s →
    holds room ((MemFsCall.fs c).effect clock s)

namespace Guard
variable (g : Guard)

def Stands (room : ℕ) (b : MemFs × (MemFsLock → Bool)) : Prop := b = calm b.1 ∧ g.holds room b.1

open Classical in
variable (clock) in
noncomputable def reply (c : FsCall) (b : MemFs × (MemFsLock → Bool)) :
    c.Reply × (MemFs × (MemFsLock → Bool)) :=
  if g.Stands c.room b ∧ g.allows c b.1 then
    ((MemFsCall.fs c).answer clock b.1, calm ((MemFsCall.fs c).effect clock b.1))
  else (g.told c b, b)

variable {g}

theorem reply_served (h : g.holds c.room s) (hc : g.allows c s) :
    g.reply clock c (calm s)
      = ((MemFsCall.fs c).answer clock s, calm ((MemFsCall.fs c).effect clock s)) :=
  if_pos ⟨⟨rfl, h⟩, hc⟩

variable (g clock c b) in
/-- Either the call is served, or nothing changes. -/
theorem reply_cases :
    (∃ s, b = calm s ∧ g.holds c.room s ∧ g.allows c s ∧ g.reply clock c b
      = ((MemFsCall.fs c).answer clock s, calm ((MemFsCall.fs c).effect clock s))) ∨
    (¬ (g.Stands c.room b ∧ g.allows c b.1) ∧ g.reply clock c b = (g.told c b, b)) := by
  by_cases h : g.Stands c.room b ∧ g.allows c b.1
  · obtain ⟨⟨hcalm, hholds⟩, hallows⟩ := h
    refine .inl ⟨b.1, hcalm, hholds, hallows, ?_⟩
    rw [hcalm]
    exact reply_served hholds hallows
  · exact .inr ⟨h, if_neg h⟩

theorem next (h : g.holds (room + c.room) s) (hc : g.allows c s) :
    g.holds room ((MemFsCall.fs c).effect clock s) := by
  unfold FsCall.room at h
  split_ifs at h with hkeeps
  · rw [effect_of_keeps hkeeps]
    exact h
  · exact g.step h hc

/-! ## Runs -/

variable (g clock) in
/-- Every call is allowed where it is made. -/
def Run : List FsCall → MemFs → Prop
  | [], _ => True
  | c :: rest, s => g.allows c s ∧ Run rest ((MemFsCall.fs c).effect clock s)

/-- The guarded file system answers allowed calls alike. -/
theorem Run.alike {φ : Type} (h : Host Unit φ) (hrun : g.Run clock calls s)
    (hholds : g.holds (room + (calls.map FsCall.room).sum) s) :
    (h.memFs clock).AnswersAlike (g.reply clock) calls (calm s) ∧
      ∃ s', (h.memFs clock).after calls (calm s) = calm s' ∧ g.holds room s' := by
  induction calls generalizing s with
  | nil => exact ⟨trivial, s, rfl, hholds⟩
  | cons c rest ih =>
      rw [List.map_cons, List.sum_cons] at hholds
      have hreply : (h.memFs clock).reply c (calm s)
          = ((MemFsCall.fs c).answer clock s, calm ((MemFsCall.fs c).effect clock s)) :=
        MemFsCall.run_program (c := .fs c) (g.fits hrun.1)
      have hstep : g.holds (room + (rest.map FsCall.room).sum) ((MemFsCall.fs c).effect clock s) :=
        next (g.mono (by omega) hholds) hrun.1
      obtain ⟨halike, s', hafter, hs'⟩ := ih hrun.2 hstep
      rw [Host.AnswersAlike, Host.after, List.foldl_cons, hreply]
      refine ⟨⟨?_, halike⟩, s', hafter, hs'⟩
      exact reply_served (g.mono (by omega) hholds) hrun.1

theorem sum_room_le (calls : List FsCall) : (calls.map FsCall.room).sum ≤ calls.length := by
  induction calls with
  | nil => exact Nat.le_refl 0
  | cons c rest ih =>
      have hroom : c.room ≤ 1 := by
        unfold FsCall.room
        split_ifs <;> omega
      rw [List.map_cons, List.sum_cons, List.length_cons]
      omega

/-- Calls that change nothing are allowed where the first one is. -/
theorem run_of_keeps (hcalls : ∀ c ∈ calls, c.keepsAttributes = true ∧ g.allows c s) :
    g.Run clock calls s ∧ (calls.map FsCall.room).sum = 0 := by
  induction calls with
  | nil => exact ⟨trivial, rfl⟩
  | cons c rest ih =>
      rw [List.forall_mem_cons] at hcalls
      obtain ⟨hrun, hsum⟩ := ih hcalls.2
      refine ⟨⟨hcalls.1.2, ?_⟩, ?_⟩
      · rw [effect_of_keeps hcalls.1.1]
        exact hrun
      · rw [List.map_cons, List.sum_cons, hsum, FsCall.room, if_pos hcalls.1.1]

end Guard
end MemFs

/-! ## Mounts -/

namespace Mount
open MemFs World
variable {φ : Type} {m : Mount φ} {g : Guard}

variable (m g) in
noncomputable abbrev guarded : Host (MemFs × (MemFsLock → Bool)) φ :=
  m.host.answering (g.reply m.clock)

variable (m) in
def start : World (MemFs × (MemFsLock → Bool)) φ :=
  World.initial m.negativeTtl (calm (new m.now)) m.caller

variable (m) in
theorem forgets_nothing (req : Request) (ino : INodeNo) (n : ℕ) (b : MemFs × (MemFsLock → Bool)) :
    m.host.forget req ino n b = b := rfl

variable (m) in
theorem asks_serve : Asks m.host m.start m.world m.world.asked := by
  obtain ⟨calls, hcalls⟩ := Asks.serve m.pf m.notices m.forgets_nothing m.callbacks m.start
  have hasked : m.world.asked = calls := hcalls.asked
  rw [hasked]
  exact hcalls

/-- With allowed calls the guarded file system serves the callbacks alike. -/
theorem Fits.serve_guarded (h : m.Fits) (hrun : g.Run m.clock m.world.asked (new m.now)) :
    (∃ s, m.world.backend = calm s ∧ g.holds 0 s) ∧
      m.start.serve m.pf (m.guarded g) m.notices m.callbacks = m.world := by
  have hfew := h.few
  have hroom := Guard.sum_room_le m.world.asked
  have hnew : g.holds (0 + (m.world.asked.map FsCall.room).sum) (new m.now) :=
    g.new m.now _ (by omega)
  obtain ⟨halike, s, hafter, hholds⟩ := hrun.alike m.surroundings hnew
  constructor
  · exact ⟨s, m.asks_serve.backend.trans hafter, hholds⟩
  · exact serve_answering m.forgets_nothing m.asks_serve halike

/-- A routine whose calls change nothing runs alike. -/
theorem run_guarded {s : MemFs} (hbackend : m.world.backend = calm s) (hholds : g.holds 0 s) {α : Type}
    {p : Routine α} (hp : p.Performs fun e : Effect => ∀ c, e = .fs c →
      c.keepsAttributes = true ∧ g.allows c s) :
    p.run (Confuse.machine m.pf (m.guarded g) m.notices) m.world
      = p.run (Confuse.machine m.pf m.host m.notices) m.world := by
  obtain ⟨calls, hcalls⟩ := Asks.run m.pf m.notices m.forgets_nothing p m.world
  obtain ⟨hrun, hsum⟩ := Guard.run_of_keeps (hcalls.of_performs m.forgets_nothing hp)
  have hroom : g.holds (0 + (calls.map FsCall.room).sum) s := by
    rw [hsum]
    exact hholds
  apply run_answering m.forgets_nothing hcalls
  rw [hbackend]
  exact (hrun.alike m.surroundings hroom).1

end Mount
end Confuse
