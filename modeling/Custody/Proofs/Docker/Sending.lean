import Custody.Docker.Registry
import Custody.Proofs.Audit.Reporting
import Custody.Proofs.Audit.Twins
import Custody.Proofs.Secrets.Lookup

/-! What is sent to a remote host, and what else that leaves in a world. -/
namespace Custody

def World.told (r : Record) (w : World) : World :=
  { w with site := { w.site with records := r :: w.site.records } }

def World.sending (command : Text) (w : World) : World :=
  { w with site := { w.site with sent := command :: w.site.sent } }

namespace Docker
open Act World

/-- A way to a remote host that fails only as the services of the machine do. -/
def FailsAsSystem (remote : Remote) : Prop :=
  ∀ sent command f, remote sent command = .error f → f.isSystem = true

variable {remote : Remote} {w w' w'' : World} {P Q : Audit.Entry → Prop} {command : Text}

theorem tell_eq (level : Level) (message : String) (fields : List (Text × Value)) (w : World) :
    tell level message fields w = .ok () (w.told ⟨level, .docker, message, fields⟩) := rfl

theorem execute_of_ok {r : Reply} (h : remote w.site.sent command = .ok r) :
    execute remote command w = .ok r (w.sending command) := by
  rw [execute, get_bind, modifySite_bind, h]
  rfl

theorem execute_of_error {f : Failure} (h : remote w.site.sent command = .error f) :
    execute remote command w = .error f (w.sending command) := by
  rw [execute, get_bind, modifySite_bind, h]
  rfl

/-- Whatever the host replies, the command has been sent. -/
theorem after_execute (remote : Remote) (command : Text) (w : World) :
    (execute remote command).after w = w.sending command := by
  cases h : remote w.site.sent command with
  | ok r => exact after_of_ok (execute_of_ok h)
  | error f => exact after_of_error (execute_of_error h)

theorem execute_eq_ok {r : Reply} (h : execute remote command w = .ok r w') :
    remote w.site.sent command = .ok r ∧ w' = w.sending command := by
  cases hr : remote w.site.sent command with
  | ok r' =>
    rw [execute_of_ok hr] at h
    cases h
    exact ⟨rfl, rfl⟩
  | error f =>
    rw [execute_of_error hr] at h
    cases h

/-- Work leaves the secrets and the environment alone, may send more commands, and puts only entries of a certain
kind into the queue. A trail that takes reports goes on to take them. -/
structure Works (P : Audit.Entry → Prop) (w w' : World) : Prop where
  secrets : w'.secrets = w.secrets
  environment : w'.site.environment = w.site.environment
  sent : w.site.sent <:+ w'.site.sent
  running : w.trail.phase = .running → w'.trail.phase = .running
  listens : Audit.Listens w → Audit.Listens w'
  queued : ∃ es, w'.queued = w.queued ++ es ∧ ∀ e ∈ es, P e

theorem Works.mono (h : Works P w w') (hPQ : ∀ e, P e → Q e) : Works Q w w' := by
  obtain ⟨es, hes, hall⟩ := h.queued
  exact { h with queued := ⟨es, hes, fun e he => hPQ e (hall e he)⟩ }

instance : IsPreorder World (Works P) where
  refl w := ⟨rfl, rfl, List.suffix_refl _, id, id, [], (List.append_nil _).symm, fun e he => absurd he List.not_mem_nil⟩
  trans w w' w'' h h' := by
    obtain ⟨es, hes, hall⟩ := h.queued
    obtain ⟨es', hes', hall'⟩ := h'.queued
    refine ⟨h'.secrets.trans h.secrets, h'.environment.trans h.environment, h.sent.trans h'.sent,
      h'.running ∘ h.running, h'.listens ∘ h.listens, es ++ es', ?_, ?_⟩
    · rw [hes', hes, List.append_assoc]
    · intro e he
      exact (List.mem_append.1 he).elim (hall e) (hall' e)

theorem Works.refl (w : World) : Works P w w := refl_of (Works P) w

theorem Works.trans (h : Works P w w') (h' : Works P w' w'') : Works P w w'' := trans_of (Works P) h h'

theorem works_traces (records : List Record) {sent : List Text} (h : w.site.sent <:+ sent) :
    Works P w { w with site := { w.site with records, sent } } := by
  have hlistens : Audit.Listens w → Audit.Listens { w with site := { w.site with records, sent } } := by
    intro hl fresh
    -- The traces have no part in whether a trail can be opened.
    have hT : Twins (fun _ _ => True) w { w with site := { w.site with records, sent } } :=
      ⟨records, sent, rfl, trivial⟩
    exact (Audit.agree_start (fun _ _ _ _ _ _ => trivial) hT).returns (hl fresh)
  exact ⟨rfl, rfl, h, id, hlistens, [], (List.append_nil _).symm, fun e he => absurd he List.not_mem_nil⟩

theorem works_told (r : Record) (w : World) : Works P w (w.told r) := works_traces _ (List.suffix_refl _)

theorem works_sending (command : Text) (w : World) : Works P w (w.sending command) :=
  works_traces _ (List.suffix_cons _ _)

theorem works_tell (level : Level) (message : String) (fields : List (Text × Value)) :
    (tell level message fields).Keeps (Works P) := fun w => works_told _ w

theorem works_execute (remote : Remote) (command : Text) : (execute remote command).Keeps (Works P) := by
  intro w
  rw [after_execute]
  exact works_sending command w

theorem works_executeAll (remote : Remote) (commands : List Text) :
    (executeAll remote commands).Keeps (Works P) := by
  induction commands with
  | nil => exact .pure ()
  | cons command rest ih => exact .bind (works_execute remote command) fun _ => ih

theorem works_of_reports (h : Audit.Reports P w w') (hlistens : Audit.Listens w → Audit.Listens w') :
    Works P w w' := by
  obtain ⟨t, d, hb⟩ := h.becomes
  exact ⟨hb.secrets, hb.environment, ⟨[], hb.sent.symm⟩, h.running, hlistens, h.queued⟩

theorem works_log {r : Audit.Report} (hown : ∀ e, Audit.IsOpening e → P e) (hmade : ∀ e, r.Makes e → P e) :
    (Audit.log r).Keeps (Works P) := by
  intro w
  refine works_of_reports (Audit.reports_log hown hmade w) fun h fresh => ?_
  exact absurd fresh (Audit.opened_of_listens h r)

theorem works_of_log {r : Audit.Report} (h : Audit.log r w = .ok () w') : Works (fun _ => True) w w' := by
  have hkeeps : (Audit.log r).Keeps (Works fun _ => True) := works_log (fun _ _ => trivial) fun _ _ => trivial
  rw [← after_of_ok h]
  exact hkeeps w

/-- What a running trail has taken by the end: a report in its words, and around it what the work before and after has
put there. -/
theorem queued_around {r : Audit.Report} {event : Audit.Event} {action : Audit.Action} {outcome : Audit.Outcome}
    {before told : World} (running : w.trail.phase = .running) (words : r.Words event action outcome)
    (works : Works P w before) (log : Audit.log r before = .ok () told) (later : Works P told w') :
    ∃ (now : Moment) (es es' : List Audit.Entry), w'.queued = w.queued ++ (es ++
      ⟨⟨now.micros, some 0⟩, event, action, outcome, r.details, r.user, r.resource, []⟩ :: es') ∧
      ∀ e ∈ es ++ es', P e := by
  obtain ⟨now, e, w₁, he, hlog, hb⟩ := Audit.log_running (works.running running) words
  obtain ⟨es, hes, hbefore⟩ := works.queued
  obtain ⟨es', hes', hlater⟩ := later.queued
  rw [words.entry, Except.ok.injEq] at he
  rw [log] at hlog
  cases hlog
  refine ⟨now, es, es', ?_, fun e he => (List.mem_append.1 he).elim (hbefore e) (hlater e)⟩
  rw [hes', Audit.queued_of_becomes hb, Audit.queuedIn_enter, ← World.queued, hes, ← he]
  simp only [List.append_assoc, List.singleton_append]

def Mute (w w' : World) : Prop := w'.site.sent = w.site.sent

instance : IsPreorder World Mute where
  refl _ := rfl
  trans _ _ _ h h' := h'.trans h

theorem mute_log (r : Audit.Report) : (Audit.log r).Keeps Mute := by
  intro w
  have hr : (Audit.log r).Keeps (Audit.Reports fun _ => True) :=
    Audit.reports_log (fun _ _ => trivial) fun _ _ => trivial
  obtain ⟨t, d, hb⟩ := (hr w).becomes
  exact hb.sent

/-- Commands that were sent one after the other: all answers say that they succeeded. -/
def Succeed (remote : Remote) : (sent commands : List Text) → Prop
  | _, [] => True
  | sent, command :: rest =>
    (∃ output, remote sent command = .ok ⟨true, output⟩) ∧ Succeed remote (command :: sent) rest

instance (answer : Except Failure Reply) : Decidable (∃ output, answer = .ok ⟨true, output⟩) :=
  match answer with
  | .ok ⟨true, output⟩ => isTrue ⟨output, rfl⟩
  | .ok ⟨false, _⟩ => isFalse fun ⟨_, h⟩ => nomatch h
  | .error _ => isFalse fun ⟨_, h⟩ => nomatch h

instance Succeed.decidable (remote : Remote) : ∀ sent commands, Decidable (Succeed remote sent commands)
  | _, [] => isTrue trivial
  | sent, command :: rest => @instDecidableAnd _ _ _ (Succeed.decidable remote (command :: sent) rest)

theorem executeAll_eq_ok {commands : List Text} (h : executeAll remote commands w = .ok () w') :
    w'.site.sent = commands.reverse ++ w.site.sent := by
  induction commands generalizing w with
  | nil =>
    cases h
    rfl
  | cons command rest ih =>
    obtain ⟨r, v, hfirst, hrest⟩ := of_bind_eq_ok h
    obtain ⟨-, rfl⟩ := execute_eq_ok hfirst
    rw [ih hrest, List.reverse_cons, List.append_assoc, List.singleton_append]
    rfl

private theorem isSystem_of_executeAll (hsystem : FailsAsSystem remote) {commands : List Text} {f : Failure}
    (h : executeAll remote commands w = .error f w') : f.isSystem = true := by
  induction commands generalizing w with
  | nil => cases h
  | cons command rest ih =>
    rw [executeAll] at h
    cases hr : remote w.site.sent command with
    | error e =>
      rw [bind_of_error (execute_of_error hr)] at h
      cases h
      exact hsystem _ _ _ hr
    | ok r =>
      rw [bind_of_ok (execute_of_ok hr)] at h
      exact ih h

theorem secure_spec (hsystem : FailsAsSystem remote) (w : World) :
    ∃ w', secure remote w = .ok () w' ∧ Works P w w' := by
  have hworks : (secure remote).Keeps (Works P) := .orElse (works_executeAll _ _) fun _ => works_tell _ _ _
  have hsecure := hworks w
  cases h : secure remote w with
  | ok u w' =>
    rw [after_of_ok h] at hsecure
    exact ⟨w', rfl, hsecure⟩
  | error f w' =>
    rw [secure] at h
    cases hall : executeAll remote _ w with
    | ok u w₁ =>
      rw [orElse_of_ok hall] at h
      cases h
    | error e w₁ =>
      rw [orElse_of_sort hall (isSystem_of_executeAll hsystem hall)] at h
      cases h

end Docker

end Custody
