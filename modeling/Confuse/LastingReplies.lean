import Confuse.PanickingRuns
import Confuse.ReportedAnswers

/-!
# Replies that last

Whatever is remembered with a time to live was reported with it before. So no run panics over a file
system whose times to live, like the configured one of negative entries, end at an instant.
-/

namespace Confuse

open Interaction PathResolver

/-- The time to live that comes with a report. -/
def Report.ttl? : Report → Option Duration
  | .child _ _ _ ttl | .attr _ _ ttl => some ttl
  | .absent _ _ => none

variable {β φ : Type}

/-- Whenever the clock is read, every time to live that the file system reports ends at an instant, and
so does that of negative entries. -/
structure Host.Lasting (h : Host β φ) (negativeTtl : Duration) : Prop where
  reported : ∀ (c : FsCall) b, ∀ report ∈ c.reports (h.reply c b).1, ∀ ttl ∈ report.ttl?,
    ∀ n, PathResolver.Lasts (h.clock n) ttl
  negative : ∀ n, PathResolver.Lasts (h.clock n) negativeTtl

/-- A section lasts with what it repeats. -/
theorem TableOp.lasts_of_repeats {now : Instant} {negativeTtl : Option Duration} {o : TableOp}
    (hreport : ∀ report, o.repeats = some report → ∀ ttl ∈ report.ttl?, PathResolver.Lasts now ttl)
    (hnegative : ∀ ttl ∈ negativeTtl, now.representable ttl) : o.Lasts now negativeTtl := by
  cases o with
  | rememberPositive record => exact hreport _ rfl _ rfl
  | rememberCreated c => exact hreport _ rfl _ rfl
  | rememberNegative => exact hnegative
  | rememberAttr ino attr ttl => exact hreport _ rfl _ rfl
  | _ => trivial

namespace World
variable (pf : Platform) (h : Host β φ) (notices : Notices)

/-- Nothing changes the configured time to live. -/
theorem machine_negativeTtl (e : Effect) (w : World β φ) :
    (machine pf h notices e w).2.resolver.negativeTtl = w.resolver.negativeTtl := by
  rw [← foldl_notify_negativeTtl pf h (notices w.steps) w]
  cases e with
  | table o => exact apply_negativeTtl pf.caseFold _ (.table o) _
  | deliver req o =>
      exact (congrArg negativeTtl (foldl_forget_resolver h req _ _)).trans
        (apply_negativeTtl pf.caseFold _ (.drain o) _)
  | _ => rfl

end World

variable {pf : Platform} {h : Host β φ} {notices : Notices}

/-- What the file system reports in a run lasts. -/
theorem Host.Lasting.answered {negativeTtl : Duration} (hh : h.Lasting negativeTtl) {ev : Event}
    (hev : ev.AnsweredBy h) {report : Report} (hreport : report ∈ ev.reports) :
    ∀ ttl ∈ report.ttl?, ∀ n, PathResolver.Lasts (h.clock n) ttl := by
  cases ev with
  | call c reply =>
      obtain ⟨b, rfl⟩ := hev
      exact hh.reported c b report hreport
  | _ => cases hreport

/-- A routine that remembers what was reported computes no expiry that is not an instant. -/
theorem FaithfulRoutine.lasts {negativeTtl : Duration} (hh : h.Lasting negativeTtl) {α : Type}
    {p : Routine α} {known : Report → Prop} (hp : FaithfulRoutine known p)
    (hknown : ∀ report, known report → ∀ ttl ∈ report.ttl?, ∀ n, PathResolver.Lasts (h.clock n) ttl)
    {w : World β φ} (hw : ∀ ttl ∈ w.resolver.negativeTtl, ∀ n, (h.clock n).representable ttl) :
    w.Lasts pf h notices p := by
  induction p generalizing known w with
  | pure a => trivial
  | op e next ih =>
      set r := (machine pf h notices e w).1
      set w' := (machine pf h notices e w).2
      have hrest := World.newEvents_traces pf h notices (next r) w'
      refine ⟨?_, ?_⟩
      · cases e with
        | table o =>
            have hfaithful := hp _ _ ⟨r, [.table 0 o r], _, ⟨[], _, by simp, ⟨0, rfl⟩, rfl⟩, hrest, rfl⟩
            exact TableOp.lasts_of_repeats (fun report hreport ttl httl =>
              hknown report (hfaithful.1 report hreport) ttl httl _) fun ttl httl => hw ttl httl _
        | _ => trivial
      · have hevents : Emits e r (w.newEvents pf h notices (Prog.perform e)) :=
          Prog.traces_perform.mp (World.newEvents_traces pf h notices (Prog.perform e) w)
        have hnext : FaithfulRoutine (fun report => known report ∨
            ∃ ev ∈ w.newEvents pf h notices (Prog.perform e), report ∈ ev.reports) (next r) := by
          intro evs a ht
          exact (faithful_append.mp (hp _ _ ⟨r, _, evs, hevents, ht, rfl⟩)).2
        refine ih r hnext ?_ ?_
        · rintro report (hreport | ⟨ev, hev, hreport⟩)
          · exact hknown report hreport
          · exact hh.answered (World.newEvents_answered pf h notices (Prog.perform e) w ev hev) hreport
        · have hkept : w'.resolver.negativeTtl = w.resolver.negativeTtl :=
            World.machine_negativeTtl pf h notices e w
          rwa [hkept]

namespace World

/-- A mounted adapter has the configured time to live. -/
theorem initial_negativeTtl {negativeTtl : Duration} (hh : h.Lasting negativeTtl) (backend : β)
    (caller : φ) : ∀ ttl ∈ (initial negativeTtl backend caller).resolver.negativeTtl,
      ∀ n, (h.clock n).representable ttl := by
  intro ttl httl n
  change ttl ∈ (if negativeTtl.isZero then none else some negativeTtl) at httl
  split_ifs at httl with hzero
  · cases httl
  · obtain rfl := Option.mem_some.mp httl
    exact (hh.negative n).resolve_left hzero

end World

theorem FaithfulRoutine.each {ι : Type} {ρ : ι → Type} {f : (i : ι) → Routine (ρ i)}
    {known : Report → Prop} (hf : ∀ i, FaithfulRoutine known (f i)) (l : List ι) :
    FaithfulRoutine known (Prog.each f l) := by
  induction l with
  | nil => exact .pure ()
  | cons i l ih => exact bind (hf i) fun _ => ih

end Confuse
