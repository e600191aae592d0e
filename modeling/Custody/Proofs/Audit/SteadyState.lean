import Custody.Proofs.Audit.Runs

/-! When a running trail never fails its callers. -/
namespace Custody.Audit
open Act Archive

variable {c : Config.AuditSettings} {waits : Bool} {site : Site} {secrets : Secrets.Resolver} {w : World}

/-- A report that cannot be told is turned away and counted, but its failure goes on to the caller. -/
theorem log_untold (running : w.trail.phase = .running) {r : Report} (untold : ¬r.Told) :
    ∃ w', log r w = .error .badValue w' ∧ w'.trail = w.trail.reject := by
  have hspec := accept_spec r w
  rw [← log_of_ne_fresh r (by rw [running]; nofun)] at hspec
  generalize log r w = result at hspec
  cases hspec with
  | ignored idle => exact absurd running idle
  | queued now e w' _ made => exact absurd (told_of_entry made) untold
  | rejected w' _ told => exact absurd told untold
  | untold w' _ _ becomes => exact ⟨w', rfl, becomes.trail⟩

/-- A running trail takes just the reports whose event and action can be told. -/
theorem log_returns (running : w.trail.phase = .running) (r : Report) : (log r).Returns w ↔ r.Told := by
  refine ⟨fun h => by_contra fun untold => ?_, fun told => ?_⟩
  · obtain ⟨w', hlog, -⟩ := log_untold running untold
    exact not_returns_of_error hlog h
  · obtain ⟨w', h⟩ := accept_told told w
    exact returns_of_ok ((log_of_ne_fresh r (by rw [running]; nofun)).trans h)

/-- A running trail can be closed just when there is a limit for its files, or no number at all, and the end
of its timer can be waited for. -/
theorem stop_returns (running : w.trail.phase = .running) (served : Served (w.archive none))
    (timely : Timely (w.archive none)) :
    stop.Returns w ↔ w.trail.config.maxBytes ≠ .error .overflow ∧
      (w.trail.waits = true → waitFor w.trail.config.shutdownTimeout = .ok ()) := by
  obtain ⟨now, v, hrun, -, ht⟩ := stop_eq (Or.inr running)
  have hflush : flush.Returns v ↔ w.trail.config.maxBytes ≠ .error .overflow := by
    obtain ⟨line, hline⟩ := json_ownEntry now .shutdown "Audit trail shutting down"
    have hdated : ∀ e ∈ v.trail.queue, e.Dated := by
      intro e he
      rw [ht] at he
      rcases List.mem_append.1 he with he | he
      · exact timely e he
      · rw [List.mem_singleton.1 he]
        exact dated_of_entry (entry_ownReport now .shutdown "Audit trail shutting down")
    have hfile : (∀ limit, v.trail.config.maxBytes ≠ .ok limit) →
        v.trail.stream.isSome ∧ v.trail.current.isSome := by
      rw [ht]
      exact served.file running
    rw [flush_returns hfile (by rw [ht]; nofun) hdated, ht]
    constructor
    · intro h hm
      exact h hm _ (List.mem_append_right _ (List.mem_singleton.2 rfl)) line hline
    · intro h hm
      exact absurd hm h
  have hwait : Waitable v.trail ↔
      (w.trail.waits = true → waitFor w.trail.config.shutdownTimeout = .ok ()) := by
    obtain ⟨timer, htimer, timely⟩ := served.timer running
    rw [ht]
    constructor
    · intro h hw
      exact h timer htimer timely hw
    · intro h _ _ _ hw
      exact h hw
  have hclosing : v.trail.phase = .closing := by rw [ht]; rfl
  rw [← hflush, ← hwait]
  unfold Returns
  rw [hrun]
  rcases retire_cases hclosing with ⟨w', hf, hw, h, -⟩ | ⟨f, w', hnot, h, -⟩
  · exact iff_of_true (returns_of_ok h) ⟨hf, hw⟩
  · exact iff_of_false (not_returns_of_error h) hnot

/-- From 1970 on old files can be told from others just when the retention time is a number of days that does
not lead from 1970 out of the calendar. -/
theorem inCalendar_from_epoch (days : Int) :
    (∀ m : Moment, Moment.epochDay * microsPerDay ≤ m.micros → days ≤ maxDays ∧ InCalendar m days) ↔
      0 ≤ days ∧ days ≤ Moment.epochDay := by
  have hday : microsPerDay = 86400000000 := by decide
  have hepoch : Moment.epochDay = 719162 := rfl
  have hcount : Date.dayCount = 3652059 := by decide +kernel
  have counted : ∀ m : Moment, InCalendar m days ↔ 0 ≤ (m.micros : Int) - days * 86400000000 ∧
      (m.micros : Int) - days * 86400000000 < 315537897600000000 := by
    intro m
    unfold InCalendar
    rw [hday, hcount]
    omega
  rw [hday, hepoch]
  constructor
  · intro h
    have hfirst := (counted _).1 (h ⟨62135596800000000, by rw [hday, hcount]; decide⟩ (by dsimp only; omega)).2
    have hlast := (counted _).1 (h ⟨315537897599999999, by rw [hday, hcount]; decide⟩ (by dsimp only; omega)).2
    dsimp only at hfirst hlast
    omega
  · rintro ⟨hl, hu⟩ m hm
    have hlt : m.micros < 315537897600000000 := by
      have := m.micros_lt
      rwa [hday, hcount] at this
    have hmax : maxDays = 999999999 := rfl
    rw [counted]
    omega

/-- What a running trail owes callers who make reports of some kind: it takes every one of them, it can be flushed, it
can be rid of old files at any time from 1970 on, and it can be closed. After that nothing waits and no file is open,
and every entry that was ever queued has been written or is counted as lost. -/
structure Steady (kind : Report → Prop) (w : World) : Prop where
  logs : ∀ r, kind r → (log r).Returns w
  flushes : flush.Returns w
  cleans : ∀ (t : Timestamp) (m : Moment), t.toUtc = .ok m → Moment.epochDay * microsPerDay ≤ m.micros →
    (cleanup (some t)).Returns w
  stops : ∃ w', stop w = .ok () w' ∧ w'.trail.phase = .stopped ∧ w'.trail.stream = none ∧ w'.trail.queue = [] ∧
    List.Forall₂ Deed.Ends (queuedIn w'.trail.history) (endingsIn w'.trail.history) ∧
    w'.trail.dropped = discardsIn w'.trail.history + rejectionsIn w'.trail.history

/-- A closed trail has accounted for every entry. -/
theorem stop_accounts (running : w.trail.phase = .running) (counted : Counted (w.archive none))
    (complete : Complete (w.archive none)) (h : stop.Returns w) :
    ∃ w', stop w = .ok () w' ∧ w'.trail.phase = .stopped ∧ w'.trail.stream = none ∧ w'.trail.queue = [] ∧
      List.Forall₂ Deed.Ends (queuedIn w'.trail.history) (endingsIn w'.trail.history) ∧
      w'.trail.dropped = discardsIn w'.trail.history + rejectionsIn w'.trail.history := by
  obtain ⟨now, v, hrun, hv, ht⟩ := stop_eq (Or.inr running)
  have hclosing : v.trail.phase = .closing := by rw [ht]; rfl
  rcases retire_cases hclosing with ⟨w', -, -, hstop, hc, hp, hs, hq⟩ | ⟨f, w', -, hstop, -⟩
  · have hcomes := hv.trans hc
    have hcounted : Counted (w'.archive none) := hcomes.steps.keep Counted.step counted
    have hcomplete : Complete (w'.archive none) := hcomes.steps.keep Complete.step complete
    obtain ⟨done, hqueued, hends⟩ := hcomplete.ends
    have hdone : queuedIn w'.trail.history = done := by
      rw [show queuedIn w'.trail.history = done ++ w'.trail.queue from hqueued, hq, List.append_nil]
    refine ⟨w', hrun.trans hstop, hp, hs, hq, ?_, hcounted⟩
    rw [hdone]
    exact hends
  · exact absurd h (not_returns_of_error (hrun.trans hstop))

/-- A running trail never fails its callers just when the event and the action of what they report can be told, the
size of its files is not too large to be a number of bytes, the end of its timer can be waited for, and the retention
time does not lead from 1970 out of the calendar. -/
theorem steady_iff (kind : Report → Prop) (turns : List (Turn Call))
    (running : (run Call.act turns (unused c waits site secrets)).trail.phase = .running) :
    Steady kind (run Call.act turns (unused c waits site secrets)) ↔
      (∀ r, kind r → r.Told) ∧ c.maxBytes ≠ .error .overflow ∧
        (waits = true → waitFor c.shutdownTimeout = .ok ()) ∧ 0 ≤ c.retentionDays ∧
        c.retentionDays ≤ Moment.epochDay := by
  have hserved : Served ((run Call.act turns (unused c waits site secrets)).archive none) := run_served turns
  have htimely : Timely ((run Call.act turns (unused c waits site secrets)).archive none) := run_timely turns
  have hcounted : Counted ((run Call.act turns (unused c waits site secrets)).archive none) := run_counted turns
  have hconfig : (run Call.act turns (unused c waits site secrets)).trail.config = c := run_config turns _
  have hwaits : (run Call.act turns (unused c waits site secrets)).trail.waits = waits := run_waits turns _
  have hcomplete : c.maxBytes ≠ .error .overflow → Complete ((run Call.act turns (unused c waits site secrets)).archive none) :=
    fun hc => run_complete hc turns
  generalize run Call.act turns (unused c waits site secrets) = w at *
  have hclean : (∀ (t : Timestamp) (m : Moment), t.toUtc = .ok m → Moment.epochDay * microsPerDay ≤ m.micros →
      (cleanup (some t)).Returns w) ↔ 0 ≤ c.retentionDays ∧ c.retentionDays ≤ Moment.epochDay := by
    rw [← inCalendar_from_epoch, ← hconfig]
    constructor
    · intro h m hm
      have hutc : instantOf w (some ⟨m.micros, some 0⟩) = .ok m := toUtc_of_moment m
      exact (cleanup_returns hutc).1 (h _ m hutc hm)
    · intro h t m ht hm
      have hutc : instantOf w (some t) = .ok m := ht
      exact (cleanup_returns hutc).2 (h m hm)
  have hstop := stop_returns running hserved htimely
  rw [hconfig, hwaits] at hstop
  constructor
  · intro h
    obtain ⟨w', hw', -⟩ := h.stops
    obtain ⟨hlimited, hwait⟩ := hstop.1 (returns_of_ok hw')
    exact ⟨fun r hr => (log_returns running r).1 (h.logs r hr), hlimited, hwait, hclean.1 h.cleans⟩
  · rintro ⟨htold, hlimited, hwait, hdays⟩
    have hflush : flush.Returns w := by
      rw [flush_returns (hserved.file running) (by rw [running]; nofun) htimely]
      intro hm
      exact absurd (hconfig ▸ hm) hlimited
    have hstops := stop_accounts running hcounted (hcomplete hlimited) (hstop.2 ⟨hlimited, hwait⟩)
    exact ⟨fun r hr => (log_returns running r).2 (htold r hr), hflush, hclean.2 hdays, hstops⟩

/-- With the usual settings a trail is steady as soon as it runs, for all who name events and actions by texts. -/
theorem steady_when_started :
    let w := run Call.act [⟨id, .start⟩] (unused {} true bareSite { config := {} })
    let named (r : Report) : Prop := (∃ t, r.event = .text t) ∧ ∃ t, r.action = .text t
    w.trail.phase = .running ∧ (∀ r, named r → r.Told) ∧ Steady named w := by
  intro w named
  have running : (run Call.act [⟨id, .start⟩] (unused {} true bareSite { config := {} })).trail.phase = .running := by
    decide +kernel
  have told : ∀ r, named r → r.Told := by
    rintro r ⟨⟨event, hevent⟩, action, haction⟩
    exact ⟨hevent ▸ Value.hasText_text event, haction ▸ Value.hasText_text action⟩
  exact ⟨running, told, (steady_iff named [⟨id, .start⟩] running).2
    ⟨told, by decide +kernel, by decide +kernel, by decide, by decide⟩⟩

/-- With files of unlimited size a trail runs and takes reports, but it can neither be flushed nor closed: the
report that it takes off the queue is neither written nor counted as lost. And with the usual settings an event that is
an integer of too many digits is counted, but the report of it fails. -/
theorem not_steady_of_size_or_event :
    let report : Report := .authentication (.text "ada") (.bool true) (.text "")
    let vast := run Call.act [⟨id, .start⟩, ⟨id, .log report⟩] (unused { maxSize := 1.0 / 0.0 } true bareSite { config := {} })
    let usual := run Call.act [⟨id, .start⟩] (unused {} true bareSite { config := {} })
    let long : Report := { report with event := .int (Nat.pow 10 Text.maxIntegerDigits) }
    (vast.trail.phase = .running ∧ ¬Steady (fun r => r = report) vast ∧ ¬flush.Returns vast ∧ ¬stop.Returns vast ∧
      (flush.after vast).trail.queue = [] ∧ (flush.after vast).trail.dropped = 0 ∧
      linesIn (flush.after vast).trail.history = []) ∧
    usual.trail.phase = .running ∧ ¬Steady (fun r => r = long) usual ∧ ¬(log long).Returns usual ∧
      ((log long).after usual).trail.dropped = 1 := by
  intro report vast usual long
  have hflush : ¬flush.Returns vast := by decide +kernel
  have hsteady : ¬Steady (fun r => r = report) vast := fun h => hflush h.flushes
  have running : usual.trail.phase = .running := by decide +kernel
  have untold : ¬long.Told := by
    intro told
    have hlt := (Value.hasText_int _).1 told.event
    rw [Int.natAbs_natCast] at hlt
    exact Nat.lt_irrefl _ hlt
  have hlog : ¬(log long).Returns usual := fun h => untold ((log_returns running long).1 h)
  obtain ⟨w', hfails, htrail⟩ := log_untold running untold
  have hcounted : ((log long).after usual).trail.dropped = 1 := by
    have hnone : usual.trail.dropped = 0 := by decide +kernel
    rw [after_of_error hfails, htrail, ← Nat.zero_add 1, ← hnone]
    rfl
  exact ⟨⟨by decide +kernel, hsteady, hflush, by decide +kernel, by decide +kernel, by decide +kernel,
    by decide +kernel⟩, running, fun h => hlog (h.logs long rfl), hlog, hcounted⟩

end Custody.Audit
