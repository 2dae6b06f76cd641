import Confuse.Helpers
import Confuse.NotifierLedger
import Confuse.ResolverBound

/-!
# Event logs

A log is read in two ways. Counting along it gives the references granted by replies, recorded in the
resolver, drained from it and forgotten. Replaying it gives the resolver's state after each event.
The conservation law of the resolver relates the counts to the state, for every legal log.
-/

namespace Confuse

open Interaction

/-! ## Counting -/

/-- What `f` reads from a payload, when the reply carries one. -/
def Reply.reads {α γ : Type} (f : α → γ) : Reply α → List γ
  | some (.ok payload) => [f payload]
  | _ => []

/-- A listing grants a reference for each of its entries but the two dot names. -/
def ReplyDirectoryPlus.granted (reply : ReplyDirectoryPlus) : List INodeNo :=
  match reply.status with
  | some (.ok ()) =>
      (reply.entries.filter fun entry => !isDotName entry.name).map fun entry => entry.attr.ino
  | _ => []

/-- The inodes on which an answered call grants a lookup reference. -/
def FsCall.granted : (c : FsCall) → c.Reply → List INodeNo
  | .lookup .., reply => Reply.reads (fun payload : ReplyEntryPayload => payload.attr.ino) reply
  | .mkdir .., reply => Reply.reads (fun payload : ReplyEntryPayload => payload.attr.ino) reply
  | .create .., reply => Reply.reads (fun payload : ReplyCreatePayload => payload.attr.ino) reply
  | .readdirplus .., reply => ReplyDirectoryPlus.granted reply
  | _, _ => []

namespace Event

def granted : Event → INodeNo → ℕ
  | .call c reply, i => (c.granted reply).count i
  | _, _ => 0

def recorded : Event → INodeNo → ℕ
  | .table _ o _, i => if o.recordedIno = some i then 1 else 0
  | _, _ => 0

def drained : Event → INodeNo → ℕ
  | .drain _ _ forgets, i => tally forgets i
  | _, _ => 0

def forgotten : Event → INodeNo → ℕ
  | .forget _ ino nlookup, i => if ino = i then nlookup else 0
  | _, _ => 0

def isCall : Event → Bool
  | .call _ _ => true
  | _ => false

def isNotify : Event → Bool
  | .notify _ _ => true
  | _ => false

/-- The answer of the caller's fill callback. -/
def answer? : Event → Option Bool
  | .fillFindData _ accepted => some accepted
  | _ => none

end Event

/-- The answers of the fill callback along a log. -/
def answers (log : List Event) : List Bool := log.filterMap Event.answer?

@[simp] theorem answers_nil : answers [] = [] := rfl

@[simp] theorem answers_append (l l' : List Event) : answers (l ++ l') = answers l ++ answers l' :=
  List.filterMap_append

/-- The sum of a weight along a log. -/
def along {ι : Type} (f : Event → ι → ℕ) (log : List Event) (i : ι) : ℕ :=
  (log.map fun e => f e i).sum

section Along
variable {ι : Type} (f : Event → ι → ℕ)

@[simp] theorem along_nil (i : ι) : along f [] i = 0 := rfl

@[simp] theorem along_cons (e : Event) (log : List Event) (i : ι) :
    along f (e :: log) i = f e i + along f log i := by simp [along]

@[simp] theorem along_append (l l' : List Event) (i : ι) :
    along f (l ++ l') i = along f l i + along f l' i := by simp [along]

theorem along_le_of_prefix {m l : List Event} (h : m <+: l) (i : ι) :
    along f m i ≤ along f l i := by
  obtain ⟨rest, rfl⟩ := h
  rw [along_append]
  omega

theorem along_eq_zero {log : List Event} {i : ι} (h : ∀ e ∈ log, f e i = 0) :
    along f log i = 0 := by
  induction log with
  | nil => rfl
  | cons e log ih =>
      rw [along_cons, h e (by simp), ih fun e' he => h e' (by simp [he])]

end Along

open Event (granted recorded drained forgotten)

/-! ## Prefixes -/

/-- A prefix of two joined lists ends in the first or in the second. -/
theorem prefix_join {ε : Type} {m l l' : List ε} (h : m <+: l ++ l') :
    m <+: l ∨ ∃ k, m = l ++ k ∧ k <+: l' := by
  by_cases hlen : m.length ≤ l.length
  · exact .inl (List.prefix_of_prefix_length_le h (List.prefix_append l l') hlen)
  · obtain ⟨k, rfl⟩ := List.prefix_of_prefix_length_le (List.prefix_append l l') h (by omega)
    exact .inr ⟨k, rfl, (List.prefix_append_right_inj l).mp h⟩

theorem prefix_take_append {ε : Type} {l : List ε} {n : ℕ} {e : ε} (h : l[n]? = some e) :
    l.take n ++ [e] <+: l := by
  have htake := List.take_prefix (n + 1) l
  rwa [List.take_add_one, h] at htake

/-- Along every prefix `f` stays at or below `g`. -/
def Below {ι : Type} (f g : Event → ι → ℕ) (log : List Event) : Prop :=
  ∀ m, m <+: log → ∀ i, along f m i ≤ along g m i

/-- Whenever a call is made, `f` and `g` agree on what came before. -/
def AtCalls {ι : Type} (f g : Event → ι → ℕ) (log : List Event) : Prop :=
  ∀ m c reply, m ++ [.call c reply] <+: log → ∀ i, along f m i = along g m i

/-- `f` pays for `g`: it never runs ahead, and has caught up at every call and at the end. -/
structure Settles {ι : Type} (f g : Event → ι → ℕ) (log : List Event) : Prop where
  below : Below f g log
  atCalls : AtCalls f g log
  settled : ∀ i, along f log i = along g log i

section Prefixes
variable {ι : Type} {f g : Event → ι → ℕ}

theorem below_joins (f g : Event → ι → ℕ) : Prog.Joins (Below f g) where
  nil := by
    intro m hm i
    rw [List.prefix_nil.mp hm]
    rfl
  append := by
    intro l l' h h' m hm i
    rcases prefix_join hm with hm | ⟨k, rfl, hk⟩
    · exact h m hm i
    · have hl := h l List.prefix_rfl i
      have hk' := h' k hk i
      rw [along_append, along_append]
      omega

theorem AtCalls.nil : AtCalls f g [] := by
  intro m c reply hm
  simp at hm

/-- Agreement at the calls of a continuation needs agreement at the end of what comes before. -/
theorem Settles.append_atCalls {l l' : List Event} (h : Settles f g l) (h' : AtCalls f g l') :
    AtCalls f g (l ++ l') := by
  intro m c reply hm i
  rcases prefix_join hm with hm | ⟨k, heq, hk⟩
  · exact h.atCalls m c reply hm i
  · rcases List.eq_nil_or_concat k with rfl | ⟨k, e, rfl⟩
    · rw [List.append_nil] at heq
      exact h.atCalls m c reply (heq ▸ List.prefix_rfl) i
    · rw [List.concat_eq_append, ← List.append_assoc] at heq
      obtain ⟨rfl, he⟩ := List.append_inj' heq rfl
      have hk' := h' k c reply (by simpa [List.concat_eq_append, ← he] using hk) i
      have hl := h.settled i
      rw [along_append, along_append]
      omega

theorem settles_joins (f g : Event → ι → ℕ) : Prog.Joins (Settles f g) where
  nil := ⟨(below_joins f g).nil, .nil, fun _ => rfl⟩
  append h h' := ⟨(below_joins f g).append h.below h'.below, h.append_atCalls h'.atCalls,
    fun i => by rw [along_append, along_append, h.settled, h'.settled]⟩

/-- A log whose only call comes first has nothing to settle at its calls. -/
theorem atCalls_of_silent_tail {log : List Event} (h : ∀ e ∈ log.tail, e.isCall = false) :
    AtCalls f g log := by
  intro m c reply hm i
  cases m with
  | nil => rfl
  | cons e m =>
      obtain ⟨rest, rfl⟩ := hm
      exact absurd (h (.call c reply) (by simp)) (by simp [Event.isCall])

theorem below_of_tail {e : Event} {log : List Event} (hfirst : ∀ i, f e i = 0)
    (hsum : ∀ i, along f log i ≤ g e i) : Below f g (e :: log) := by
  intro m hm i
  rcases List.prefix_cons_iff.mp hm with rfl | ⟨t, rfl, ht⟩
  · exact Nat.zero_le _
  · have hle := along_le_of_prefix f ht i
    have hi := hsum i
    rw [along_cons, along_cons, hfirst]
    omega

/-- The first event incurs what the silent rest pays. -/
theorem settles_cons {e : Event} {log : List Event} (hsilent : ∀ e' ∈ log, e'.isCall = false)
    (hfirst : ∀ i, f e i = 0) (hrest : ∀ e' ∈ log, ∀ i, g e' i = 0)
    (hsum : ∀ i, along f log i = g e i) : Settles f g (e :: log) where
  below := below_of_tail hfirst fun i => (hsum i).le
  atCalls := atCalls_of_silent_tail hsilent
  settled i := by
    rw [along_cons, along_cons, hfirst, hsum, along_eq_zero g fun e' he => hrest e' he i,
      Nat.zero_add, Nat.add_zero]

theorem settles_of_zero {log : List Event}
    (h : ∀ e ∈ log, ∀ i, f e i = 0 ∧ g e i = 0) : Settles f g log := by
  have hzero : ∀ m, m <+: log → ∀ i, along f m i = 0 ∧ along g m i = 0 := fun m hm i =>
    ⟨along_eq_zero f fun e he => (h e (hm.subset he) i).1,
      along_eq_zero g fun e he => (h e (hm.subset he) i).2⟩
  refine ⟨fun m hm i => ?_, fun m c reply hm i => ?_, fun i => ?_⟩
  · rw [(hzero m hm i).1]
    exact Nat.zero_le _
  · obtain ⟨hf, hg⟩ := hzero m ((List.prefix_append _ _).trans hm) i
    rw [hf, hg]
  · obtain ⟨hf, hg⟩ := hzero log List.prefix_rfl i
    rw [hf, hg]

end Prefixes

/-! ## What an effect leaves behind -/

/-- The events of one effect. -/
def Effect.Leaves : (e : Effect) → e.Res → List Event → Prop
  | .fs c, reply, evs => evs = [.call c reply]
  | .table o, result, evs => ∃ now, evs = [.table now o result]
  | .deliver req o, _, evs => ∃ now forgets,
      evs = .drain now o forgets :: forgets.map fun f => .forget req f.1 f.2
  | .openState _, _, evs => evs = []
  | .fillFindData data, accepted, evs => evs = [.fillFindData data accepted]
  | .fillFindStreamData data, accepted, evs => evs = [.fillFindStreamData data accepted]

/-- The events of one effect with the notifications before it. -/
def Emits (e : Effect) (r : e.Res) (evs : List Event) : Prop :=
  ∃ notes own, (∀ n ∈ notes, Event.isNotify n) ∧ e.Leaves r own ∧ evs = notes ++ own

theorem Effect.Leaves.not_notify {e : Effect} {r : e.Res} {own : List Event}
    (h : e.Leaves r own) : ∀ e' ∈ own, e'.isNotify = false := by
  cases e with
  | fs c =>
      rw [show own = [.call c r] from h]
      simp [Event.isNotify]
  | table o =>
      obtain ⟨now, rfl⟩ := h
      simp [Event.isNotify]
  | deliver req o =>
      obtain ⟨now, forgets, rfl⟩ := h
      intro e' he'
      rcases List.mem_cons.mp he' with rfl | he'
      · rfl
      · obtain ⟨f, -, rfl⟩ := List.mem_map.mp he'
        rfl
  | openState o => simp [show own = [] from h]
  | fillFindData data =>
      rw [show own = [.fillFindData data r] from h]
      simp [Event.isNotify]
  | fillFindStreamData data =>
      rw [show own = [.fillFindStreamData data r] from h]
      simp [Event.isNotify]

theorem along_forgets (req : Request) (forgets : Forgets) (i : INodeNo) :
    along forgotten (forgets.map fun f => .forget req f.1 f.2) i = tally forgets i := by
  induction forgets with
  | nil => rfl
  | cons f forgets ih => simp only [List.map_cons, along_cons, ih, tally_cons, forgotten]

theorem notes_zero {notes : List Event} (h : ∀ n ∈ notes, n.isNotify) :
    ∀ n ∈ notes, n.isCall = false ∧
      ∀ i, granted n i = 0 ∧ recorded n i = 0 ∧ drained n i = 0 ∧ forgotten n i = 0 := by
  intro n hn
  have hnotify := h n hn
  cases n <;> simp_all [Event.isNotify, Event.isCall, granted, recorded, drained, forgotten]

theorem answers_notes {notes : List Event} (h : ∀ n ∈ notes, n.isNotify) : answers notes = [] := by
  refine List.filterMap_eq_nil_iff.mpr fun n hn => ?_
  have hnotify := h n hn
  cases n <;> simp_all [Event.isNotify, Event.answer?]

/-- What is drained is given back before the next call. -/
theorem every_settles_forgotten {α : Type} (p : Routine α) :
    p.EveryTrace Emits (Settles forgotten drained) := by
  have hjoins := settles_joins forgotten drained
  refine .of_perform hjoins (fun e r evs he => ?_) p
  obtain ⟨notes, own, hnotes, hown, rfl⟩ := he
  refine hjoins.append (settles_of_zero fun n hn i => ?_) ?_
  · obtain ⟨-, hzero⟩ := notes_zero hnotes n hn
    exact ⟨(hzero i).2.2.2, (hzero i).2.2.1⟩
  cases e with
  | fs c =>
      rw [show own = [.call c r] from hown]
      exact settles_of_zero (by simp [forgotten, drained])
  | table o =>
      obtain ⟨now, rfl⟩ := hown
      exact settles_of_zero (by simp [forgotten, drained])
  | deliver req o =>
      obtain ⟨now, forgets, rfl⟩ := hown
      refine settles_cons (fun e he => ?_) (fun i => rfl) (fun e he i => ?_) fun i =>
        along_forgets req forgets i
      · obtain ⟨f, -, rfl⟩ := List.mem_map.mp he
        rfl
      · obtain ⟨f, -, rfl⟩ := List.mem_map.mp he
        rfl
  | openState o =>
      rw [show own = [] from hown]
      exact hjoins.nil
  | fillFindData data =>
      rw [show own = [.fillFindData data r] from hown]
      exact settles_of_zero (by simp [forgotten, drained])
  | fillFindStreamData data =>
      rw [show own = [.fillFindStreamData data r] from hown]
      exact settles_of_zero (by simp [forgotten, drained])

/-! ## Replaying -/

namespace Event

/-- The resolver after an event. -/
def replay (cf : CaseFold) (r : PathResolver) : Event → PathResolver
  | .call _ _ | .forget _ _ _ | .fillFindData _ _ | .fillFindStreamData _ _ => r
  | .table now o _ => (o.apply cf now r).2
  | .drain now o _ => (o.apply cf now r).2
  | .notify now n => n.apply cf now r

/-- An event that can happen when the resolver is `r`. -/
def Legal (cf : CaseFold) (r : PathResolver) : Event → Prop
  | .table now o result => result = (o.apply cf now r).1
  | .drain now o forgets => forgets = (o.apply cf now r).1
  | _ => True

end Event

def replay (cf : CaseFold) (r : PathResolver) (log : List Event) : PathResolver :=
  log.foldl (Event.replay cf) r

def Legal (cf : CaseFold) : PathResolver → List Event → Prop
  | _, [] => True
  | r, e :: log => e.Legal cf r ∧ Legal cf (e.replay cf r) log

section Replay
variable {cf : CaseFold} {r : PathResolver}

@[simp] theorem replay_nil : replay cf r [] = r := rfl

@[simp] theorem replay_cons (e : Event) (log : List Event) :
    replay cf r (e :: log) = replay cf (e.replay cf r) log := rfl

@[simp] theorem replay_append (l l' : List Event) :
    replay cf r (l ++ l') = replay cf (replay cf r l) l' := List.foldl_append ..

theorem legal_append {l l' : List Event} :
    Legal cf r (l ++ l') ↔ Legal cf r l ∧ Legal cf (replay cf r l) l' := by
  induction l generalizing r with
  | nil => simp [Legal]
  | cons e l ih => simp [Legal, ih, and_assoc]

theorem Legal.of_prefix {m l : List Event} (h : Legal cf r l) (hm : m <+: l) : Legal cf r m := by
  obtain ⟨rest, rfl⟩ := hm
  exact (legal_append.mp h).1

theorem shaped_replay (hr : r.Shaped) (log : List Event) : (replay cf r log).Shaped := by
  induction log generalizing r with
  | nil => exact hr
  | cons e log ih =>
      refine ih ?_
      cases e with
      | call c reply => exact hr
      | forget req ino nlookup => exact hr
      | table now o result => exact hr.table cf now o
      | drain now o forgets => exact hr.drain cf now o
      | notify now n => exact hr.notify cf now n
      | fillFindData data accepted => exact hr
      | fillFindStreamData data accepted => exact hr

theorem Event.Legal.held_le {e : Event} (h : e.Legal cf r) (i : INodeNo) :
    e.drained i + (e.replay cf r).held i ≤ r.held i + e.recorded i := by
  cases e with
  | call c reply => simp [drained, Event.replay, recorded]
  | forget req ino nlookup => simp [drained, Event.replay, recorded]
  | table now o result =>
      simpa [drained, Event.replay, recorded] using PathResolver.table_sheds cf now o r i
  | drain now o forgets =>
      have hsheds := PathResolver.drain_sheds cf now o r i
      rw [← show forgets = (o.apply cf now r).1 from h] at hsheds
      simpa [drained, Event.replay, recorded] using hsheds
  | notify now n =>
      simpa [drained, Event.replay, recorded] using PathResolver.notify_sheds cf now n r i
  | fillFindData data accepted => simp [drained, Event.replay, recorded]
  | fillFindStreamData data accepted => simp [drained, Event.replay, recorded]

/-- What a legal log drains and leaves held was held before or recorded by it. -/
theorem Legal.drained_add_held_le {log : List Event} (h : Legal cf r log) (i : INodeNo) :
    along drained log i + (replay cf r log).held i ≤ r.held i + along recorded log i := by
  induction log generalizing r with
  | nil => simp
  | cons e log ih =>
      have hrest := ih h.2
      have hstep := h.1.held_le i
      simp only [along_cons, replay_cons]
      omega

theorem Event.Legal.balanced {e : Event} (_ : e.Legal cf r) (hb : r.Balanced)
    (hroom : ∀ i, r.held i + e.recorded i < 2 ^ 64) : (e.replay cf r).Balanced := by
  cases e with
  | call c reply => exact hb
  | forget req ino nlookup => exact hb
  | table now o result =>
      refine (PathResolver.table_spec cf now o hb fun ino hino => ?_).1
      simpa [recorded, hino] using hroom ino
  | drain now o forgets => exact (PathResolver.drain_spec cf now o hb).1
  | notify now n => exact PathResolver.notify_balanced cf now n hb
  | fillFindData data accepted => exact hb
  | fillFindStreamData data accepted => exact hb

/-- Below saturation a step that is no notification conserves references. -/
theorem Event.Legal.held_eq {e : Event} (h : e.Legal cf r) (hb : r.Balanced)
    (hroom : ∀ i, r.held i + e.recorded i < 2 ^ 64) (hnotify : e.isNotify = false) (i : INodeNo) :
    e.drained i + (e.replay cf r).held i = r.held i + e.recorded i := by
  cases e with
  | call c reply => simp [drained, Event.replay, recorded]
  | forget req ino nlookup => simp [drained, Event.replay, recorded]
  | table now o result =>
      have hspec := (PathResolver.table_spec cf now o hb fun ino hino => by
        simpa [recorded, hino] using hroom ino).2 i
      simpa [drained, Event.replay, recorded] using hspec
  | drain now o forgets =>
      have hspec := (PathResolver.drain_spec cf now o hb).2 i
      rw [← show forgets = (o.apply cf now r).1 from h] at hspec
      simpa [drained, Event.replay, recorded] using hspec.symm
  | notify now n => simp [Event.isNotify] at hnotify
  | fillFindData data accepted => simp [drained, Event.replay, recorded]
  | fillFindStreamData data accepted => simp [drained, Event.replay, recorded]

theorem Legal.balanced {log : List Event} (h : Legal cf r log) (hb : r.Balanced)
    (hroom : ∀ i, r.held i + along recorded log i < 2 ^ 64) : (replay cf r log).Balanced := by
  induction log generalizing r with
  | nil => exact hb
  | cons e log ih =>
      simp only [along_cons] at hroom
      refine ih h.2 (h.1.balanced hb fun i => ?_) fun i => ?_
      · have hi := hroom i
        omega
      · have hi := hroom i
        have hstep := h.1.held_le i
        omega

/-- Below saturation an undisturbed legal log conserves references. -/
theorem Legal.drained_add_held {log : List Event} (h : Legal cf r log) (hb : r.Balanced)
    (hroom : ∀ i, r.held i + along recorded log i < 2 ^ 64)
    (hquiet : ∀ e ∈ log, e.isNotify = false) (i : INodeNo) :
    along drained log i + (replay cf r log).held i = r.held i + along recorded log i := by
  induction log generalizing r with
  | nil => simp
  | cons e log ih =>
      simp only [along_cons] at hroom
      have he : ∀ i, r.held i + e.recorded i < 2 ^ 64 := fun i => by
        have hi := hroom i
        omega
      have hstep := h.1.held_eq hb he (hquiet e (by simp)) i
      have hrest := ih h.2 (h.1.balanced hb he)
        (fun i => by
          have hi := hroom i
          have hle := h.1.held_le i
          omega)
        fun e' he' => hquiet e' (by simp [he'])
      simp only [along_cons, replay_cons]
      omega

end Replay
end Confuse
