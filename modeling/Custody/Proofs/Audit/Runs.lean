import Custody.Audit.Reports
import Custody.Proofs.Audit.Lifecycle
import Custody.Proofs.Turns

/-! Runs of a trail: any calls, in any order, while anything else may happen around it. Nothing is lost. -/
namespace Custody.Audit
open Act Archive

/-- What can be asked of a trail. A report of a common kind is logged like any other. -/
inductive Call where
  | start
  | log (r : Report)
  | enqueue (r : Report)
  | flush
  | cleanup (now : Option Timestamp)
  | stop

def Call.act : Call → Act Unit
  | start => Audit.start
  | log r => Audit.log r
  | enqueue r => Audit.enqueue r
  | flush => Audit.flush
  | cleanup now => do let _ ← Audit.cleanup now
  | stop => Audit.stop

theorem Call.comes (c : Call) (w : World) : Comes w none (c.act.after w) none := by
  cases c with
  | start => exact start_comes w
  | log r => exact log_comes r w
  | enqueue r => exact enqueue_comes r w
  | flush => exact (flush_leads w).toComes
  | stop => exact (stop_spec w).1
  | cleanup now =>
    have hafter : (act (.cleanup now)).after w = (Audit.cleanup now).after w := after_forget _ w
    rw [hafter]
    exact (cleanup_spec now w).1

def unused (c : Config.AuditSettings) (waits : Bool) (site : Site) (secrets : Secrets.Resolver) : World :=
  ⟨site, { config := c, waits }, secrets⟩

section Runs
variable {P : Archive → Prop} {c : Config.AuditSettings} {waits : Bool} {site : Site}
  {secrets : Secrets.Resolver}

/-- What every step keeps, and what happens around the trail keeps too, holds after all turns. -/
theorem run_keeps (step : ∀ {a b : Archive}, a.Step b → P a → P b) {turns : List (Turn Call)}
    (around : ∀ t ∈ turns, ∀ w : World, P (w.archive none) → P ((t.before w).archive none)) {w : World}
    (hw : P (w.archive none)) : P ((run Call.act turns w).archive none) := by
  refine run_induction (P := fun w => P (w.archive none)) Call.act (fun t ht w h => ?_) hw
  exact (t.call.comes (t.before w)).steps.keep step (around t ht w h)

theorem run_config (turns : List (Turn Call)) (w : World) : (run Call.act turns w).trail.config = w.trail.config :=
  run_keeps (P := fun a => a.trail.config = w.trail.config) (fun h ha => h.config.trans ha) (fun _ _ _ h => h) rfl

theorem run_waits (turns : List (Turn Call)) (w : World) : (run Call.act turns w).trail.waits = w.trail.waits :=
  run_keeps (P := fun a => a.trail.waits = w.trail.waits) (fun h ha => h.waits.trans ha) (fun _ _ _ h => h) rfl

theorem run_counted (turns : List (Turn Call)) :
    Counted ((run Call.act turns (unused c waits site secrets)).archive none) :=
  run_keeps Counted.step (fun _ _ _ h => h) rfl

theorem run_served (turns : List (Turn Call)) : Served ((run Call.act turns (unused c waits site secrets)).archive none) :=
  run_keeps Served.step (fun _ _ _ h => ⟨h.timer, h.file⟩) ⟨nofun, nofun⟩

theorem run_timely (turns : List (Turn Call)) : Timely ((run Call.act turns (unused c waits site secrets)).archive none) :=
  run_keeps Timely.step (fun _ _ _ h => h) fun e he => absurd he (List.not_mem_nil (a := e))

theorem run_complete (hc : c.maxBytes ≠ .error .overflow) (turns : List (Turn Call)) :
    Complete ((run Call.act turns (unused c waits site secrets)).archive none) :=
  run_keeps Complete.step (fun _ _ _ h => ⟨h.limited, h.timely, h.ends⟩)
    ⟨hc, fun e he => absurd he (List.not_mem_nil (a := e)), [], rfl, .nil⟩

theorem run_filed {turns : List (Turn Call)} (spares : ∀ t ∈ turns, t.Spares) :
    Filed ((run Call.act turns (unused c waits site secrets)).archive none) := by
  refine run_keeps Filed.step (fun t ht w h => ?_) ⟨nofun, .nil, nofun, fun _ _ => rfl, rfl, fun _ _ _ h => by cases h⟩
  have harchive : (t.before w).archive none = w.archive none := by
    rw [World.archive, World.archive, Turn.before, spares t ht w.site]
  rw [harchive]
  exact h

end Runs

/-- No entry is lost, doubled or moved: whatever is asked of a trail with a limit for its files, and in
whatever order, the entries that were ever queued are those that were written, those that were counted as
lost, and those that wait, in this order; a flush leaves none that wait; and unless others change the disk,
the files hold the lines that were written, whole, in the order in which the files were opened. -/
theorem nothing_is_lost {c : Config.AuditSettings} {limit : Nat} (hc : c.maxBytes = .ok limit) (waits : Bool)
    (site : Site) (secrets : Secrets.Resolver) (turns : List (Turn Call)) :
    let w := run Call.act turns (unused c waits site secrets)
    let h := w.trail.history
    (rejectionsIn h ≤ w.trail.dropped ∧ (queuedIn h).length =
      (linesIn h).length + w.trail.queue.length + (w.trail.dropped - rejectionsIn h)) ∧
    (∃ done, queuedIn h = done ++ w.trail.queue ∧ List.Forall₂ Deed.Ends done (endingsIn h)) ∧
    ((∀ t ∈ turns, t.Spares) →
      (openedIn h).Nodup ∧ (openedIn h).flatMap (linesTo · h) = linesIn h ∧
      ∀ l f, w.site.disk.node? l = some (.file f) → f.serial ∈ openedIn h →
        f.content = (linesTo f.serial h).flatMap lineBytes) ∧
    ∃ w', flush w = .ok () w' ∧ w'.trail.queue = [] := by
  intro w h
  have hcounted : w.trail.dropped = discardsIn h + rejectionsIn h := run_counted turns
  have hlimited : c.maxBytes ≠ .error .overflow := by
    rw [hc]
    nofun
  have hcomplete : Complete (w.archive none) := run_complete hlimited turns
  obtain ⟨done, hqueued, hends⟩ := hcomplete.ends
  refine ⟨⟨by omega, ?_⟩, ⟨done, hqueued, hends⟩, ?_, ?_⟩
  · have hlength : (queuedIn h).length = done.length + w.trail.queue.length := by
      rw [show queuedIn h = done ++ w.trail.queue from hqueued, List.length_append]
    have hdone : done.length = (linesIn h).length + discardsIn h :=
      hends.length_eq.trans (length_endingsIn h)
    omega
  · intro spares
    have hfiled : Filed (w.archive none) := run_filed spares
    exact ⟨hfiled.sorted.imp Nat.ne_of_lt, hfiled.order, hfiled.content⟩
  · rcases flush_cases w with ⟨w', hf, -, hq⟩ | ⟨f, w', -, -, hf, e, he, hj | hm⟩
    · exact ⟨w', hf, hq⟩
    · rw [(hcomplete.timely e he).json_error hj] at hf
      cases hf
    · rw [show w.trail.config = c from run_config turns _, hc] at hm
      cases hm

/-- Of two reports to a trail that opens itself, one names no event; the other two entries are written. -/
theorem nothing_is_lost_of_two_reports :
    let report : Report := .authentication (.text "ada") (.bool true) (.text "")
    let turns : List (Turn Call) := [⟨id, .log report⟩, ⟨id, .log { report with event := .text "tea" }⟩, ⟨id, .flush⟩]
    let w := run Call.act turns (unused {} true bareSite { config := {} })
    let h := w.trail.history
    (linesIn h).length = 2 ∧ rejectionsIn h = 1 ∧
      (queuedIn h).length = (linesIn h).length + w.trail.queue.length + (w.trail.dropped - rejectionsIn h) := by
  intro report turns w h
  have hlimit : ({} : Config.AuditSettings).maxBytes = .ok 104857600 := by decide +kernel
  exact ⟨by decide +kernel, by decide +kernel, (nothing_is_lost hlimit true bareSite { config := {} } turns).1.2⟩

end Custody.Audit
