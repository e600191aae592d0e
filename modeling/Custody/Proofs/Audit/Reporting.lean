import Custody.Audit.Reports
import Custody.Proofs.Audit.Lifecycle

/-! What a report adds to a trail: its entry, and before it at most the trail's own report that it has been
opened. -/
namespace Custody

/-- The entries that were ever put into the queue, the earliest first. -/
def World.queued (w : World) : List Audit.Entry := Audit.queuedIn w.trail.history

namespace Audit
open Act World

variable {w w' : World} {P Q : Entry → Prop}

theorem wordOf_named_event (e : Event) : wordOf (named e) = .ok e := by
  cases e <;> decide +kernel

private theorem wordOf_named_outcome (o : Outcome) : wordOf (named o) = .ok o := by
  cases o <;> decide +kernel

/-- A report in the words of the vocabularies, and without metadata. -/
structure Report.Words (r : Report) (event : Event) (action : Action) (outcome : Outcome) : Prop where
  event : r.event = named event
  action : r.action = named action
  result : r.result = named outcome
  metadata : r.metadata = .null

/-- Such a report makes an entry at any time. -/
theorem Report.Words.entry {r : Report} {event : Event} {action : Action} {outcome : Outcome}
    (h : r.Words event action outcome) (now : Moment) :
    r.entry now = .ok ⟨⟨now.micros, some 0⟩, event, action, outcome, r.details, r.user, r.resource, []⟩ := by
  rw [Report.entry, h.event, h.action, h.result, h.metadata, wordOf_named_event, wordOf_named_action,
    wordOf_named_outcome]
  rfl

theorem words_authentication (user details : Value) (success : Bool) :
    (Report.authentication user (.bool success) details).Words .authentication .login (.of success) :=
  ⟨rfl, rfl, rfl, rfl⟩

theorem Report.Words.told {r : Report} {event : Event} {action : Action} {outcome : Outcome}
    (h : r.Words event action outcome) : r.Told := by
  constructor
  · rw [h.event]
    exact Value.hasText_text _
  · rw [h.action]
    exact Value.hasText_text _

theorem words_encryption (action : Action) (resource : Subject) (success : Bool) :
    (Report.encryption (named action) resource (.bool success)).Words .encryption action (.of success) :=
  ⟨rfl, rfl, rfl, rfl⟩

theorem words_configurationChange (user resource details : Value) :
    (Report.configurationChange user resource details).Words .configuration .modify .success :=
  ⟨rfl, rfl, rfl, rfl⟩

/-- Nothing changes but what a trail changes: a running trail still runs, and all entries that are put into the
queue are of a certain kind. -/
structure Reports (P : Entry → Prop) (w w' : World) : Prop where
  becomes : ∃ t d, w.Becomes t d w'
  running : w.trail.phase = .running → w'.trail.phase = .running
  queued : ∃ es, w'.queued = w.queued ++ es ∧ ∀ e ∈ es, P e

theorem Reports.mono (h : Reports P w w') (hPQ : ∀ e, P e → Q e) : Reports Q w w' := by
  obtain ⟨es, hes, hall⟩ := h.queued
  exact ⟨h.becomes, h.running, es, hes, fun e he => hPQ e (hall e he)⟩

instance : IsPreorder World (Reports P) where
  refl w := ⟨⟨_, _, .refl w⟩, id, [], (List.append_nil _).symm, fun e he => absurd he List.not_mem_nil⟩
  trans w w' w'' h h' := by
    obtain ⟨t, d, hb⟩ := h.becomes
    obtain ⟨t', d', hb'⟩ := h'.becomes
    obtain ⟨es, hes, hall⟩ := h.queued
    obtain ⟨es', hes', hall'⟩ := h'.queued
    refine ⟨⟨t', d', hb.trans hb'⟩, h'.running ∘ h.running, es ++ es', ?_, ?_⟩
    · rw [hes', hes, List.append_assoc]
    · intro e he
      exact (List.mem_append.1 he).elim (hall e) (hall' e)

theorem queued_of_becomes {t : Trail} {d : Disk} (h : w.Becomes t d w') : w'.queued = queuedIn t.history := by
  rw [World.queued, h.trail]

theorem queuedIn_enter (e : Entry) (t : Trail) : queuedIn (t.enter e).history = queuedIn t.history ++ [e] := by
  have hnote : (t.enter e).history = t.history ++ [.queued e] := history_note rfl
  rw [hnote, queuedIn_concat]
  rfl

theorem queuedIn_begin (p : Path) (serial : Nat) (t : Trail) :
    queuedIn (t.begin p serial).history = queuedIn t.history := by
  have hnote : (t.begin p serial).history = t.history ++ [.opened p serial] := history_note rfl
  rw [hnote, queuedIn_concat]
  exact List.append_nil _

/-- The entry with which a trail reports that it has been opened. -/
def IsOpening (e : Entry) : Prop := ∃ now, e = ownEntry now .setUp "Audit trail started"

theorem reports_start : start.Keeps (Reports IsOpening) := by
  intro w
  by_cases fresh : w.trail.phase = .fresh
  · have notRunning : w.trail.phase ≠ .running := by
      rw [fresh]
      nofun
    have quiet : ∀ {t : Trail} {d : Disk} {v : World}, w.Becomes t d v → queuedIn t.history = w.queued →
        Reports IsOpening w v := by
      intro t d v hb ht
      refine ⟨⟨t, d, hb⟩, fun hr => absurd hr notRunning, [], ?_, fun e he => absurd he List.not_mem_nil⟩
      rw [queued_of_becomes hb, ht, List.append_nil]
    have hends := start_spec fresh
    generalize hr : start w = r at hends
    cases hends with
    | unnameable e d w' _ _ _ hb =>
      rw [after_of_error hr]
      exact quiet hb rfl
    | refused t d w' _ _ _ hb ht =>
      rw [after_of_error hr]
      rcases ht with ⟨rfl, -⟩ | ⟨rfl, -⟩ <;> exact quiet hb rfl
    | unlimited p l d timer f w' _ _ _ _ _ _ _ hb =>
      rw [after_of_error hr]
      exact quiet hb (queuedIn_begin p d.nextSerial w.trail)
    | opened p l d timer now limit w' _ _ _ _ _ _ _ _ hb =>
      rw [after_of_ok hr]
      refine ⟨⟨_, _, hb⟩, fun hr => absurd hr notRunning, [ownEntry now .setUp "Audit trail started"], ?_, ?_⟩
      · rw [queued_of_becomes hb, queuedIn_enter]
        exact congrArg (· ++ _) (queuedIn_begin p d.nextSerial w.trail)
      · intro e he
        exact ⟨now, List.mem_singleton.1 he⟩
  · rw [after_of_ok (start_of_ne fresh)]
    exact refl_of (Reports IsOpening) w

def Report.Makes (r : Report) (e : Entry) : Prop := ∃ now, r.entry now = .ok e

theorem reports_accept (r : Report) : (accept r).Keeps (Reports r.Makes) := by
  intro w
  -- What is turned away leaves the queue as it is.
  have turnedAway {w' : World} (hb : w.Becomes w.trail.reject w.site.disk w') : Reports r.Makes w w' := by
    refine ⟨⟨_, _, hb⟩, fun running => by rwa [hb.trail], [], ?_, fun e he => absurd he List.not_mem_nil⟩
    have hnote : w.trail.reject.history = w.trail.history ++ [.rejected] := history_note rfl
    rw [queued_of_becomes hb, hnote, queuedIn_concat]
    rfl
  have hspec := accept_spec r w
  unfold after
  generalize accept r w = result at hspec
  cases hspec with
  | ignored => exact refl_of (Reports r.Makes) w
  | queued now e w' _ made becomes =>
    refine ⟨⟨_, _, becomes⟩, fun running => by rwa [becomes.trail], [e], ?_, ?_⟩
    · rw [queued_of_becomes becomes, queuedIn_enter]
      rfl
    · intro e' he'
      exact List.mem_singleton.1 he' ▸ ⟨now, made⟩
  | rejected w' _ _ becomes => exact turnedAway becomes
  | untold w' _ _ becomes => exact turnedAway becomes

theorem reports_log {r : Report} (hown : ∀ e, IsOpening e → P e) (hmade : ∀ e, r.Makes e → P e) :
    (log r).Keeps (Reports P) := by
  intro w
  have hstart := (reports_start w).mono hown
  cases h : start w with
  | ok u w₁ =>
    rw [after_of_ok h] at hstart
    rw [after_log r h]
    exact trans_of (Reports P) hstart ((reports_accept r w₁).mono hmade)
  | error f w₁ =>
    rw [after_of_error h] at hstart
    rwa [after_of_error (log_of_error r h)]

/-- A report that can be told is taken, or the trail would have to be opened for it and cannot be. -/
theorem log_cases {r : Report} (told : r.Told) (w : World) :
    (∃ w', log r w = .ok () w') ∨
    (∃ f w', w.trail.phase = .fresh ∧ ¬start.Returns w ∧ log r w = .error f w' ∧ Reports IsOpening w w') := by
  have hstart := reports_start w
  cases h : start w with
  | ok u w₁ =>
    obtain ⟨w', h'⟩ := accept_told told w₁
    exact Or.inl ⟨w', (log_of_ok r h).trans h'⟩
  | error f w₁ =>
    rw [after_of_error h] at hstart
    have fresh : w.trail.phase = .fresh := by
      by_contra hne
      rw [start_of_ne hne] at h
      cases h
    exact Or.inr ⟨f, w₁, fresh, not_returns_of_error h, log_of_error r h, hstart⟩

/-- A trail takes what is reported to it: if it has never been opened, it can be. -/
def Listens (w : World) : Prop := w.trail.phase = .fresh → start.Returns w

theorem listens_of_running (running : w.trail.phase = .running) : Listens w := by
  intro fresh
  rw [running] at fresh
  cases fresh

theorem start_of_listens (h : Listens w) : ∃ v, start w = .ok () v ∧ v.trail.phase ≠ .fresh := by
  by_cases fresh : w.trail.phase = .fresh
  · obtain ⟨u, v, hstart⟩ := h fresh
    have hends := start_spec fresh
    rw [hstart] at hends
    cases hends with
    | opened p l d timer now limit _ _ _ _ _ _ _ _ _ hb =>
      refine ⟨v, hstart, ?_⟩
      rw [hb.trail]
      nofun
  · exact ⟨w, start_of_ne fresh, fresh⟩

theorem log_of_listens (h : Listens w) {r : Report} (told : r.Told) : ∃ w', log r w = .ok () w' := by
  obtain ⟨v, hstart, -⟩ := start_of_listens h
  obtain ⟨w', haccept⟩ := accept_told told v
  exact ⟨w', (log_of_ok r hstart).trans haccept⟩

/-- Such a trail has been opened after a report, whatever becomes of that. -/
theorem opened_of_listens (h : Listens w) (r : Report) : ((log r).after w).trail.phase ≠ .fresh := by
  obtain ⟨v, hstart, opened⟩ := start_of_listens h
  rwa [after_log r hstart, phase_accept]

/-- A running trail takes a report that makes an entry, and nothing else. -/
theorem log_running {r : Report} {event : Event} {action : Action} {outcome : Outcome}
    (running : w.trail.phase = .running) (words : r.Words event action outcome) :
    ∃ now e w', r.entry now = .ok e ∧ log r w = .ok () w' ∧ w.Becomes (w.trail.enter e) w.site.disk w' := by
  rw [log_of_ne_fresh r (by rw [running]; nofun), accept, get_bind, if_neg (by simp [running])]
  unfold enqueue
  rw [orElse, now_bind, words.entry, bind_of_ok (require_ok _ _), modifyTrail_bind, note_eq]
  exact ⟨_, _, _, words.entry w.site.clock.now, rfl,
    ((World.Becomes.refl w).clock w.site.clock.next).setTrail _⟩

end Audit

end Custody
