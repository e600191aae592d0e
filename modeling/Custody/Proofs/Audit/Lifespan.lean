import Custody.Proofs.Audit.Reporting
import Custody.Proofs.Audit.Rotation
import Custody.Proofs.Audit.Routine

/-! The life of a trail: it reports its opening before, and its closing after all that is reported to it, and once it is
closed it does not touch a file any more except to remove old ones. -/
namespace Custody.Audit
open Act Archive World

section Authors
-- An entry does not tell who made it: anybody may report on the system. The call and the phase that it finds do.

/-- Who makes an entry: the trail itself, or somebody who reports to it. -/
inductive Author where
  | trail
  | reporter

def signed (a : Author) (es : List Entry) : List (Author × Entry) := es.map fun e => (a, e)

def added (a : Act Unit) (w : World) : List Entry := (a.after w).queued.drop w.queued.length

/-- What a call puts into the queue. It is the trail's own, but for what follows the opening when a report is logged. -/
def Call.entries (w : World) : Call → List (Author × Entry)
  | .log r =>
    signed .trail (added Audit.start w) ++
      signed .reporter ((added (Audit.log r) w).drop (added Audit.start w).length)
  | .enqueue r => signed .reporter (added (Audit.enqueue r) w)
  | c => signed .trail (added c.act w)

/-- What all calls of a run put into the queue. -/
def chronicle : List (Turn Call) → World → List (Author × Entry)
  | [], _ => []
  | t :: rest, w => t.call.entries (t.before w) ++ chronicle rest (t.take Call.act w)

variable {w w' : World} {a : Act Unit} {es : List Entry}

theorem map_snd_signed (author : Author) (es : List Entry) : (signed author es).map Prod.snd = es := by
  simp [signed, Function.comp_def]

theorem signed_append (author : Author) (es es' : List Entry) :
    signed author (es ++ es') = signed author es ++ signed author es' := List.map_append

theorem added_of_queued (h : (a.after w).queued = w.queued ++ es) : added a w = es := by
  rw [added, h, List.drop_left]

private theorem queued_prefix {h h' : Option Entry} (hc : Comes w h w' h') : w.queued <+: w'.queued :=
  hc.steps.history.filterMap _

theorem queued_after (c : Call) (w : World) : (c.act.after w).queued = w.queued ++ added c.act w := by
  have hprefix := queued_prefix (c.comes w)
  rw [List.prefix_iff_eq_append] at hprefix
  exact hprefix.symm

theorem accept_of_ne (r : Report) (h : w.trail.phase ≠ .running) : accept r w = .ok () w := by
  unfold accept
  rw [get_bind, if_pos h]
  rfl

/-- A report is added after what its opening adds, if the trail runs then. -/
theorem added_log (r : Report) (w : World) : ∃ es, added (log r) w = added start w ++ es ∧
    ((log r).after w).trail.phase = (start.after w).trail.phase ∧
    ((start.after w).trail.phase ≠ .running → es = []) := by
  have hstart : (start.after w).queued = w.queued ++ added start w := queued_after .start w
  cases h : start w with
  | error f v =>
    rw [after_of_error h] at hstart
    have hafter : (log r).after w = v := after_of_error (log_of_error r h)
    refine ⟨[], ?_, ?_, fun _ => rfl⟩
    · rw [List.append_nil]
      apply added_of_queued
      rwa [hafter]
    · rw [hafter, after_of_error h]
  | ok u v =>
    obtain ⟨es, hes, -⟩ := (reports_accept r v).queued
    rw [after_of_ok h] at hstart
    refine ⟨es, ?_, ?_, ?_⟩
    · apply added_of_queued
      rw [after_log r h, hes, hstart, List.append_assoc]
    · rw [after_log r h, after_of_ok h, phase_accept]
    · intro hphase
      rw [after_of_ok h] at hphase
      rw [after_of_ok (accept_of_ne r hphase)] at hes
      exact List.append_right_eq_self.1 hes.symm

theorem entries_log (r : Report) (w : World) : ∃ es, (Call.log r).entries w =
      signed .trail (added start w) ++ signed .reporter es ∧
    ((log r).after w).trail.phase = (start.after w).trail.phase ∧
    ((start.after w).trail.phase ≠ .running → es = []) := by
  obtain ⟨es, hadded, hrest⟩ := added_log r w
  refine ⟨es, ?_, hrest⟩
  rw [Call.entries, hadded, List.drop_left]

private theorem map_snd_entries (c : Call) (w : World) : (c.entries w).map Prod.snd = added c.act w := by
  cases c with
  | log r =>
    obtain ⟨es, hadded, -⟩ := added_log r w
    rw [Call.entries, hadded, List.drop_left, List.map_append, map_snd_signed, map_snd_signed]
    exact hadded.symm
  | _ => exact map_snd_signed _ _

/-- Everything that is in the queue at some time is in the chronicle, in the same order. -/
theorem queued_run (turns : List (Turn Call)) (w : World) :
    (run Call.act turns w).queued = w.queued ++ (chronicle turns w).map Prod.snd := by
  induction turns generalizing w with
  | nil => simp [run, chronicle]
  | cons t rest ih =>
    have htake : (t.take Call.act w).queued = w.queued ++ added t.call.act (t.before w) :=
      queued_after t.call (t.before w)
    have hrun : run Call.act (t :: rest) w = run Call.act rest (t.take Call.act w) := rfl
    rw [hrun, ih, htake, chronicle, List.map_append, map_snd_entries, List.append_assoc]

end Authors

section Mute
-- What writes the queue out and what ends the timer puts nothing into the queue.

def Mute (w w' : World) : Prop := w'.queued = w.queued

instance : IsPreorder World Mute where
  refl _ := rfl
  trans _ _ _ h h' := h'.trans h

theorem mute_of_becomes {w w' : World} {t : Trail} {d : Disk} (hb : w.Becomes t d w')
    (h : t.journal = w.trail.journal) : Mute w w' := by
  have hhistory : t.history = w.trail.history := congrArg List.reverse h
  rw [Mute, queued_of_becomes hb, hhistory, World.queued]

theorem mute_modifyTrail {f : Trail → Trail} (h : ∀ t, (f t).journal = t.journal) : (modifyTrail f).Keeps Mute :=
  fun w => mute_of_becomes ((World.Becomes.refl w).setTrail (f w.trail)) (h w.trail)

theorem mute_note {d : Deed} (h : queuedIn [d] = []) : (note d).Keeps Mute := by
  intro w
  have hnote : ((note d).after w).trail.history = w.trail.history ++ [d] := history_note rfl
  rw [Mute, World.queued, hnote, queuedIn_concat, h, List.append_nil]
  rfl

theorem mute_report (level : Level) (reporter : Reporter) (message : String) (fields : List (Text × Value)) :
    (report level reporter message fields).Keeps Mute :=
  (World.still_report level reporter message fields).mono fun h => mute_of_becomes h rfl

theorem mute_modifySite (f : Site → Site) : (modifySite f).Keeps Mute := fun _ => rfl

theorem mute_closeStream : closeStream.Keeps Mute := by
  intro w
  obtain ⟨w', h, hb⟩ := closeStream_spec w
  rw [after_of_ok h]
  exact mute_of_becomes hb rfl

theorem mute_rotate : rotate.Keeps Mute := by
  intro w
  rcases rotate_cases w with ⟨p, l, w', -, -, h, hb⟩ | ⟨e, w', h, -, -, hb⟩
  · rw [after_of_ok h, Mute, queued_of_becomes hb, history_note (t := w.trail) rfl, queuedIn_concat]
    exact List.append_nil _
  · rw [after_of_error h]
    exact mute_of_becomes hb rfl

theorem mute_appendLine (line : Text) (bytes : Bytes) : (appendLine line bytes).Keeps Mute := by
  refine .bind .get fun w => ?_
  cases w.trail.stream with
  | none => exact .throw _
  | some s =>
    dsimp only
    split
    · exact .bind (.throw _) fun _ => .bind (mute_modifySite _) fun _ => .bind (mute_modifyTrail fun _ => rfl) fun _ =>
        mute_note rfl
    · exact .bind (mute_modifySite _) fun _ => .bind (mute_modifyTrail fun _ => rfl) fun _ => mute_note rfl

theorem keptByWriting_mute : KeptByWriting Mute where
  report := mute_report
  adjust _ h := mute_modifyTrail fun t => (h t).2.2
  discarded _ := mute_note rfl
  closeStream := mute_closeStream
  rotate := mute_rotate
  appendLine := mute_appendLine

end Mute

section Passages

/-- What a call may put into the queue between the phase that it finds and the one that it leaves. -/
inductive Passes : Phase → List (Author × Entry) → Phase → Prop where
  | stays (p : Phase) : Passes p [] p
  | unnameable : Passes .fresh [] .opening
  | opened (now : Moment) (es : List Entry) :
      Passes .fresh (signed .trail [ownEntry now .setUp "Audit trail started"] ++ signed .reporter es) .running
  | logged (es : List Entry) : Passes .running (signed .reporter es) .running
  | never : Passes .fresh [] .stopped
  | closed (p q : Phase) (now : Moment) (from_ : p = .opening ∨ p = .running) (ended : q.Ended) :
      Passes p (signed .trail [ownEntry now .shutdown "Audit trail shutting down"]) q

variable {p q : Phase} {es more : List (Author × Entry)}

theorem Passes.ne_fresh (h : Passes p es q) (hp : p ≠ .fresh) : q ≠ .fresh := by
  cases h with
  | stays => exact hp
  | unnameable | opened | never => exact absurd rfl hp
  | logged => nofun
  | closed p q now from_ ended => rcases ended with rfl | rfl <;> nofun

theorem Passes.ended (h : Passes p es q) (hp : p.Ended) : q.Ended := by
  cases h with
  | stays => exact hp
  | unnameable | opened | logged | never => rcases hp with hp | hp <;> cases hp
  | closed p q now from_ ended => exact ended

/-- A trail that runs in the end may have taken reports on the way. -/
theorem Passes.report (h : Passes p es q) {logged : List Entry} (quiet : q ≠ .running → logged = []) :
    Passes p (es ++ signed .reporter logged) q := by
  by_cases running : q = .running
  · cases h with
    | stays =>
      rw [running]
      exact .logged logged
    | opened now before =>
      rw [List.append_assoc, ← signed_append]
      exact .opened now (before ++ logged)
    | logged before =>
      rw [← signed_append]
      exact .logged (before ++ logged)
    | unnameable | never => cases running
    | closed p q now from_ ended =>
      rw [running] at ended
      rcases ended with ended | ended <;> cases ended
  · rw [quiet running]
    exact (List.append_nil es).symm ▸ h

variable {w : World} {limit : Nat}

theorem passes_start (hm : w.trail.config.maxBytes = .ok limit) :
    Passes w.trail.phase (signed .trail (added start w)) (start.after w).trail.phase := by
  by_cases fresh : w.trail.phase = .fresh
  · have silent : ∀ {t : Trail} {d : Disk} {w' : World}, start.after w = w' → w.Becomes t d w' →
        t.journal = w.trail.journal → added start w = [] := by
      intro t d w' hafter hb hj
      have hmute : w'.queued = w.queued := mute_of_becomes hb hj
      apply added_of_queued
      rw [hafter, hmute, List.append_nil]
    have hends := start_spec fresh
    rw [fresh]
    generalize hr : start w = r at hends
    cases hends with
    | unnameable e d w' _ _ _ hb =>
      have hafter := after_of_error hr
      rw [silent hafter hb rfl, hafter, hb.trail]
      exact .unnameable
    | refused t d w' _ _ _ hb ht =>
      have hafter := after_of_error hr
      have hsame : t.journal = w.trail.journal ∧ t.phase = .fresh := by
        rcases ht with ⟨rfl, -⟩ | ⟨rfl, -⟩ <;> exact ⟨rfl, fresh⟩
      rw [silent hafter hb hsame.1, hafter, hb.trail, hsame.2]
      exact .stays _
    | unlimited p l d timer f w' _ _ _ _ _ _ hlimit =>
      rw [hm] at hlimit
      cases hlimit
    | opened p l d timer now limit' w' _ _ _ _ _ _ _ _ hb =>
      have hafter := after_of_ok hr
      have hadded : added start w = [ownEntry now .setUp "Audit trail started"] := by
        apply added_of_queued
        rw [hafter, queued_of_becomes hb, queuedIn_enter]
        exact congrArg (· ++ _) (queuedIn_begin p d.nextSerial w.trail)
      rw [hadded, hafter, hb.trail]
      exact .opened now []
  · have hafter : start.after w = w := after_of_ok (start_of_ne fresh)
    have hadded : added start w = [] := added_of_queued (by rw [hafter, List.append_nil])
    rw [hadded, hafter]
    exact .stays _

theorem passes_of_mute {a : Act Unit} (mute : Mute w (a.after w)) (phase : (a.after w).trail.phase = w.trail.phase) :
    Passes w.trail.phase (signed .trail (added a w)) (a.after w).trail.phase := by
  have hadded : added a w = [] := added_of_queued (by rw [mute, List.append_nil])
  rw [hadded, phase]
  exact .stays _

theorem passes_stop (w : World) :
    Passes w.trail.phase (signed .trail (added stop w)) (stop.after w).trail.phase := by
  have hclose : w.trail.phase = .opening ∨ w.trail.phase = .running →
      Passes w.trail.phase (signed .trail (added stop w)) (stop.after w).trail.phase := by
    intro hp
    obtain ⟨now, v, hrun, -, ht⟩ := stop_eq hp
    have hafter : stop.after w = retire.after v := by rw [after, after, hrun]
    have hqueued : v.queued = w.queued ++ [ownEntry now .shutdown "Audit trail shutting down"] := by
      rw [World.queued, ht]
      exact queuedIn_enter _ _
    have hadded : added stop w = [ownEntry now .shutdown "Audit trail shutting down"] := by
      apply added_of_queued
      rw [hafter, keptByWriting_mute.retire v, hqueued]
    rw [hadded]
    exact .closed _ _ now hp (stop_spec w).2
  cases hp : w.trail.phase with
  | fresh =>
    obtain ⟨w', h, hb⟩ := stop_of_fresh hp
    have hmute : w'.queued = w.queued := mute_of_becomes hb rfl
    have hadded : added stop w = [] := added_of_queued (by rw [after_of_ok h, hmute, List.append_nil])
    rw [hadded, after_of_ok h, hb.trail]
    exact .never
  | opening => exact hp ▸ hclose (Or.inl hp)
  | running => exact hp ▸ hclose (Or.inr hp)
  | closing =>
    have hafter : stop.after w = w := after_of_ok (stop_of_closed (Or.inl hp))
    exact hp ▸ passes_of_mute (by rw [hafter, Mute]) (by rw [hafter])
  | stopped =>
    have hafter : stop.after w = w := after_of_ok (stop_of_closed (Or.inr hp))
    exact hp ▸ passes_of_mute (by rw [hafter, Mute]) (by rw [hafter])

theorem Call.passes {c : Call} (own : ∀ r, c ≠ .enqueue r) (hm : w.trail.config.maxBytes = .ok limit) :
    Passes w.trail.phase (c.entries w) (c.act.after w).trail.phase := by
  cases c with
  | start => exact passes_start hm
  | log r =>
    obtain ⟨es, hentries, hphase, hquiet⟩ := entries_log r w
    rw [hentries]
    have hpasses := (passes_start hm).report hquiet
    rwa [← hphase] at hpasses
  | enqueue r => exact absurd rfl (own r)
  | flush => exact passes_of_mute (keptByWriting_mute.flush w) (flush_leads w).phase
  | cleanup now =>
    have htrail : ((act (.cleanup now)).after w).trail = w.trail := by
      have hafter : (act (.cleanup now)).after w = (Audit.cleanup now).after w := after_forget _ w
      rw [hafter, (cleanup_spec now w).2]
    exact passes_of_mute (by rw [Mute, World.queued, htrail, World.queued]) (by rw [htrail])
  | stop => exact passes_stop w

/-- The entries of a life from some phase on: the trail's report on its opening, if it is still to be opened, what is
reported to it, and its report on its closing, if it is still to be closed. -/
def Frames (p : Phase) (es : List (Author × Entry)) : Prop :=
  ∃ opening logged closing, es = signed .trail opening ++ signed .reporter logged ++ signed .trail closing ∧
    (opening = [] ∨ p = .fresh ∧ ∃ now, opening = [ownEntry now .setUp "Audit trail started"]) ∧
    (closing = [] ∨ ¬p.Ended ∧ ∃ now, closing = [ownEntry now .shutdown "Audit trail shutting down"]) ∧
    (logged ≠ [] → opening ≠ [] ∨ p = .running)

theorem not_ended_fresh : ¬Phase.fresh.Ended := by
  simp [Phase.Ended]

theorem frames_nil (p : Phase) : Frames p [] :=
  ⟨[], [], [], rfl, Or.inl rfl, Or.inl rfl, fun h => absurd rfl h⟩

private theorem frames_of_ended (hp : p.Ended) (h : Frames p es) : es = [] := by
  obtain ⟨opening, logged, closing, rfl, hopening, hclosing, hlogged⟩ := h
  have hnot : p ≠ .fresh ∧ p ≠ .running := by
    rcases hp with rfl | rfl <;> exact ⟨nofun, nofun⟩
  have hopening : opening = [] := hopening.resolve_right fun h => hnot.1 h.1
  have hclosing : closing = [] := hclosing.resolve_right fun h => h.1 hp
  have hlogged : logged = [] := by
    by_contra hne
    exact (hlogged hne).elim (fun h => h hopening) hnot.2
  rw [hopening, hlogged, hclosing]
  rfl

/-- A call puts its entries before those of the rest of the life. -/
theorem Passes.frames (h : Passes p es q) (hmore : Frames q more) : Frames p (es ++ more) := by
  cases h with
  | stays => exact hmore
  | unnameable =>
    obtain ⟨opening, logged, closing, hes, hopening, hclosing, hlogged⟩ := hmore
    have hopening : opening = [] := hopening.resolve_right fun h => nomatch h.1
    refine ⟨opening, logged, closing, hes, Or.inl hopening, ?_, ?_⟩
    · exact hclosing.imp id fun h => ⟨not_ended_fresh, h.2⟩
    · intro hne
      exact Or.inl ((hlogged hne).resolve_right nofun)
  | opened now before =>
    obtain ⟨opening, logged, closing, rfl, hopening, hclosing, -⟩ := hmore
    have hopening : opening = [] := hopening.resolve_right fun h => nomatch h.1
    refine ⟨[ownEntry now .setUp "Audit trail started"], before ++ logged, closing, ?_, Or.inr ⟨rfl, now, rfl⟩, ?_, ?_⟩
    · rw [hopening, signed_append]
      simp [signed]
    · exact hclosing.imp id fun h => ⟨not_ended_fresh, h.2⟩
    · exact fun _ => Or.inl (List.cons_ne_nil _ _)
  | logged before =>
    obtain ⟨opening, logged, closing, rfl, hopening, hclosing, -⟩ := hmore
    have hopening : opening = [] := hopening.resolve_right fun h => nomatch h.1
    refine ⟨[], before ++ logged, closing, ?_, Or.inl rfl, hclosing, fun _ => Or.inr rfl⟩
    rw [hopening, signed_append]
    simp [signed]
  | never =>
    rw [frames_of_ended (Or.inr rfl) hmore]
    exact frames_nil _
  | closed p q now from_ ended =>
    rw [frames_of_ended ended hmore]
    have hopen : ¬p.Ended := by
      rintro (hp | hp) <;> rw [hp] at from_ <;> rcases from_ with h | h <;> cases h
    exact ⟨[], [], [ownEntry now .shutdown "Audit trail shutting down"], rfl, Or.inl rfl, Or.inr ⟨hopen, now, rfl⟩,
      fun h => absurd rfl h⟩

section Runs
variable {turns : List (Turn Call)} (own : ∀ t ∈ turns, ∀ r, t.call ≠ .enqueue r)
include own

/-- What every passage keeps of the phase holds after all turns. -/
theorem phase_run {P : Phase → Prop} (keeps : ∀ {p q es}, Passes p es q → P p → P q)
    (hm : w.trail.config.maxBytes = .ok limit) (hw : P w.trail.phase) : P (run Call.act turns w).trail.phase := by
  have hkept : ∀ v, v = run Call.act turns w → v.trail.config.maxBytes = .ok limit ∧ P v.trail.phase := by
    rintro v rfl
    refine run_induction (P := fun v => v.trail.config.maxBytes = .ok limit ∧ P v.trail.phase) Call.act ?_ ⟨hm, hw⟩
    rintro t ht v ⟨hlimit, hphase⟩
    have hconfig : (t.take Call.act v).trail.config = v.trail.config := (t.call.comes (t.before v)).steps.config
    have hpasses := Call.passes (w := t.before v) (own t ht) hlimit
    exact ⟨hconfig ▸ hlimit, keeps hpasses hphase⟩
  exact (hkept _ rfl).2

theorem frames_run (hm : w.trail.config.maxBytes = .ok limit) : Frames w.trail.phase (chronicle turns w) := by
  induction turns generalizing w with
  | nil => exact frames_nil _
  | cons t rest ih =>
    have hconfig : (t.take Call.act w).trail.config = w.trail.config := (t.call.comes (t.before w)).steps.config
    have hpasses := Call.passes (w := t.before w) (own t List.mem_cons_self) hm
    have hrest := ih (fun u hu => own u (List.mem_cons_of_mem _ hu)) (w := t.take Call.act w) (hconfig ▸ hm)
    exact hpasses.frames hrest

end Runs

end Passages

section Idle
-- A trail that has not been opened, or that has been closed, has nothing in hand.

def Idle (t : Trail) : Prop := t.phase = .fresh ∨ t.phase = .stopped → t.queue = [] ∧ t.stream = none

variable {w : World}

theorem idle_of_phase {t : Trail} (hp : t.phase ≠ .fresh ∧ t.phase ≠ .stopped) : Idle t := by
  rintro (h | h)
  · exact absurd h hp.1
  · exact absurd h hp.2

theorem idle_start (h : Idle w.trail) : Idle (start.after w).trail := by
  by_cases fresh : w.trail.phase = .fresh
  · have hends := start_spec fresh
    generalize hr : start w = r at hends
    cases hends with
    | unnameable e d w' _ _ _ hb =>
      rw [after_of_error hr, hb.trail]
      exact idle_of_phase ⟨nofun, nofun⟩
    | refused t d w' _ _ _ hb ht =>
      rw [after_of_error hr, hb.trail]
      rcases ht with ⟨rfl, -⟩ | ⟨rfl, -⟩
      · exact fun hp => ⟨(h hp).1, rfl⟩
      · exact h
    | unlimited p l d timer f w' _ _ _ _ _ _ _ hb =>
      rw [after_of_error hr, hb.trail]
      exact idle_of_phase ⟨nofun, nofun⟩
    | opened p l d timer now limit w' _ _ _ _ _ _ _ _ hb =>
      rw [after_of_ok hr, hb.trail]
      exact idle_of_phase ⟨nofun, nofun⟩
  · rwa [after_of_ok (start_of_ne fresh)]

theorem idle_accept (r : Report) (h : Idle w.trail) : Idle ((accept r).after w).trail := by
  by_cases running : w.trail.phase = .running
  · apply idle_of_phase
    rw [phase_accept, running]
    exact ⟨nofun, nofun⟩
  · rwa [after_of_ok (accept_of_ne r running)]

theorem idle_log (r : Report) (h : Idle w.trail) : Idle ((log r).after w).trail := by
  have hstart := idle_start h
  cases hs : start w with
  | error f v =>
    rw [after_of_error hs] at hstart
    rwa [after_of_error (log_of_error r hs)]
  | ok u v =>
    rw [after_of_ok hs] at hstart
    rw [after_log r hs]
    exact idle_accept r hstart

/-- A closing that fails leaves the trail in the middle of it. -/
theorem phase_of_retire_error {f : Failure} {w' : World} (hp : w.trail.phase = .closing)
    (h : retire w = .error f w') : w'.trail.phase = .closing := by
  unfold retire at h
  rcases flush_cases w with ⟨w₁, h₁, l₁, -⟩ | ⟨f₁, w₁, h₁, l₁, -⟩
  · have p₁ : w₁.trail.phase = .closing := l₁.phase.trans hp
    rw [bind_of_ok h₁] at h
    rcases stopTimer_cases w₁ with ⟨w₂, -, h₂, b₂⟩ | ⟨f₂, w₂, -, h₂, b₂⟩
    · have p₂ : w₂.trail.phase = .closing := by rw [b₂.trail]; exact p₁
      rw [bind_of_ok h₂] at h
      rcases flush_cases w₂ with ⟨w₃, h₃, -⟩ | ⟨f₃, w₃, h₃, l₃, -⟩
      · obtain ⟨w₄, h₄, -⟩ := closeStream_spec w₃
        rw [bind_of_ok h₃, bind_of_ok h₄, modifyTrail_bind] at h
        cases h
      · rw [bind_of_error h₃] at h
        cases h
        exact l₃.phase.trans p₂
    · rw [bind_of_error h₂] at h
      cases h
      rw [b₂.trail]
      exact p₁
  · rw [bind_of_error h₁] at h
    cases h
    exact l₁.phase.trans hp

theorem idle_stop (h : Idle w.trail) : Idle (stop.after w).trail := by
  have hclose : w.trail.phase = .opening ∨ w.trail.phase = .running → Idle (stop.after w).trail := by
    intro hp
    obtain ⟨now, v, hrun, -, ht⟩ := stop_eq hp
    have hclosing : v.trail.phase = .closing := by rw [ht]; rfl
    rcases retire_cases hclosing with ⟨w', -, -, hretire, -, -, hstream, hqueue⟩ | ⟨f, w', -, hretire, -⟩
    · rw [after_of_ok (hrun.trans hretire)]
      exact fun _ => ⟨hqueue, hstream⟩
    · rw [after_of_error (hrun.trans hretire)]
      apply idle_of_phase
      rw [phase_of_retire_error hclosing hretire]
      exact ⟨nofun, nofun⟩
  cases hp : w.trail.phase with
  | fresh =>
    obtain ⟨w', hs, hb⟩ := stop_of_fresh hp
    rw [after_of_ok hs, hb.trail]
    exact fun _ => h (Or.inl hp)
  | opening => exact hclose (Or.inl hp)
  | running => exact hclose (Or.inr hp)
  | closing => rwa [after_of_ok (stop_of_closed (Or.inl hp))]
  | stopped => rwa [after_of_ok (stop_of_closed (Or.inr hp))]

theorem Call.idle {c : Call} (own : ∀ r, c ≠ .enqueue r) (h : Idle w.trail) : Idle (c.act.after w).trail := by
  cases c with
  | start => exact idle_start h
  | log r => exact idle_log r h
  | enqueue r => exact absurd rfl (own r)
  | flush =>
    intro hp
    have hphase : ((act .flush).after w).trail.phase = w.trail.phase := (flush_leads w).phase
    rw [hphase] at hp
    have hsame : ((act .flush).after w).trail = w.trail := trail_flush_of_empty (h hp).1
    rw [hsame]
    exact h hp
  | cleanup now =>
    have hafter : (act (.cleanup now)).after w = (Audit.cleanup now).after w := after_forget _ w
    rwa [hafter, (cleanup_spec now w).2]
  | stop => exact idle_stop h

theorem idle_run {turns : List (Turn Call)} (own : ∀ t ∈ turns, ∀ r, t.call ≠ .enqueue r) (h : Idle w.trail) :
    Idle (run Call.act turns w).trail :=
  run_induction (P := fun w => Idle w.trail) Call.act (fun t ht _ hw => Call.idle (own t ht) hw) h

end Idle

section Sealed
-- Once it is closed, a trail gives up what it still finds in the queue, and touches files to remove them only.

/-- A trail is closed for good. -/
structure Sealed (t : Trail) : Prop where
  phase : t.phase = .stopped
  stream : t.stream = none

/-- Of what was on the disk, something may have gone. -/
def Thins (w w' : World) : Prop :=
  ∀ l, w'.site.disk.node? l = w.site.disk.node? l ∨ w'.site.disk.node? l = none

instance : IsPreorder World Thins where
  refl _ _ := Or.inl rfl
  trans w w' w'' h h' l := by
    rcases h' l with h' | h'
    · rw [h']
      exact h l
    · exact Or.inr h'

theorem thins_of_disk {w w' : World} (h : w'.site.disk = w.site.disk) : Thins w w' :=
  fun l => Or.inl (by rw [h])

theorem thins_report (level : Level) (reporter : Reporter) (message : String) (fields : List (Text × Value)) :
    (report level reporter message fields).Keeps Thins :=
  (World.still_report level reporter message fields).mono fun h => thins_of_disk h.disk

theorem thins_removeFile (p : Path) : (removeFile p).Keeps Thins := by
  refine .bind .get fun w => ?_
  cases w.site.refusals.removals.lookup p.name with
  | some e => exact .throw _
  | none =>
    intro v
    rcases Disk.remove_cases p v.site.disk with ⟨l, f, -, -, h⟩ | ⟨e, -, h⟩
    · rw [after_of_ok (onDisk_ok h)]
      intro k
      rw [Disk.node?_keep]
      split
      · exact Or.inl rfl
      · exact Or.inr rfl
    · rw [after_of_error (onDisk_error h)]
      exact refl_of Thins v

theorem thins_removeIfOld (cutoff : Moment) (p : Path) : (removeIfOld cutoff p).Keeps Thins := by
  refine .bind .get fun w => .bind (.require _) fun n => ?_
  cases n with
  | directory mode => exact .pure _
  | file f =>
    dsimp only
    split
    · exact .pure _
    · exact .bind (thins_removeFile p) fun _ => .pure _

theorem thins_sweep (cutoff : Moment) (ps : List Path) : (sweep cutoff ps).Keeps Thins := by
  induction ps with
  | nil => exact .pure _
  | cons p rest ih =>
    refine .bind .get fun w => ?_
    split
    · exact ih
    · refine .bind (.orElse (thins_removeIfOld cutoff p) fun e => ?_) fun removed => ?_
      · split
        · exact .bind (thins_report _ _ _ _) fun _ => .pure _
        · exact .bind (.pure _) fun _ => .pure _
      · cases removed with
        | true => exact .bind (thins_report _ _ _ _) fun _ => .bind ih fun _ => .pure _
        | false => exact ih

theorem thins_cleanupFrom (now : Moment) : (cleanupFrom now).Keeps Thins := by
  have hfiles : logFiles.Keeps Thins := by
    intro w
    obtain ⟨ps, w', h, hb, -⟩ := logFiles_spec w
    rw [after_of_ok h]
    exact thins_of_disk hb.disk
  exact .bind .get fun w => .bind (.require _) fun cutoff => .bind hfiles fun ps => thins_sweep cutoff ps

theorem thins_cleanup (now : Option Timestamp) : (cleanup now).Keeps Thins := by
  cases now with
  | none =>
    have hnow : Act.now.Keeps Thins := fun w => thins_of_disk rfl
    exact .bind hnow fun m => thins_cleanupFrom m
  | some t => exact .bind (.require _) fun m => thins_cleanupFrom m

variable {w : World}

/-- The first entries of the queue are given up and counted, one by one. -/
theorem drain_of_stopped (n : Nat) (stopped : w.trail.phase = .stopped) :
    ∃ t w', drain n w = .ok () w' ∧ w.Becomes t w.site.disk w' ∧ t.phase = .stopped ∧ t.stream = w.trail.stream ∧
      t.queue = w.trail.queue.drop n ∧ t.dropped = w.trail.dropped + min n w.trail.queue.length := by
  induction n generalizing w with
  | zero => exact ⟨_, w, rfl, .refl w, stopped, rfl, rfl, by simp⟩
  | succ n ih =>
    unfold drain
    rw [get_bind]
    cases hq : w.trail.queue with
    | nil => exact ⟨_, w, rfl, .refl w, stopped, rfl, by simp [hq], by simp⟩
    | cons e rest =>
      dsimp only
      rw [modifyTrail_bind]
      have b₀ := (World.Becomes.refl w).setTrail { w.trail with queue := rest }
      generalize hv : ({ w with trail := { w.trail with queue := rest } } : World) = v at b₀
      have hphase : v.trail.phase = .stopped := by rw [b₀.trail]; exact stopped
      have hwrite : writeEntry e v = discard e "audit_entry_after_shutdown" v := by
        unfold writeEntry
        rw [get_bind, if_pos hphase]
      obtain ⟨w₁, h₁, b₁⟩ := discard_becomes e "audit_entry_after_shutdown" v
      have hstopped : w₁.trail.phase = .stopped := by rw [b₁.trail]; exact hphase
      obtain ⟨t, w', h', b', hp, hs, hqueue, hdropped⟩ := ih hstopped
      rw [b₁.trail] at hs hqueue hdropped
      rw [b₁.disk] at b'
      have hb := b₁.trans b'
      rw [b₀.disk] at hb
      refine ⟨t, w', (bind_of_ok (hwrite.trans h₁)).trans h', b₀.trans hb, hp, ?_, ?_, ?_⟩
      · rw [hs, Trail.drop, b₀.trail]
      · rw [hqueue, Trail.drop, b₀.trail, List.drop_succ_cons]
      · rw [hdropped, Trail.drop, b₀.trail, List.length_cons]
        dsimp only
        omega

theorem flush_of_sealed (h : Sealed w.trail) :
    ∃ t w', flush w = .ok () w' ∧ w.Becomes t w.site.disk w' ∧ Sealed t ∧ t.queue = [] ∧
      t.dropped = w.trail.dropped + w.trail.queue.length := by
  obtain ⟨t, w', hdrain, hb, hp, hs, hq, hd⟩ := drain_of_stopped w.trail.queue.length h.phase
  have hstream : t.stream = none := hs.trans h.stream
  refine ⟨t, w', ?_, hb, ⟨hp, hstream⟩, ?_, ?_⟩
  · unfold flush
    rw [get_bind, bind_of_ok hdrain, get_bind, hb.trail, hstream]
    rfl
  · rw [hq, List.drop_length]
  · rw [hd, Nat.min_self]

/-- A call to a sealed trail leaves it sealed. On the disk at most a cleanup changes anything, and it only removes. -/
theorem Call.sealed (c : Call) (h : Sealed w.trail) : Sealed (c.act.after w).trail ∧
    ∀ l, (c.act.after w).site.disk.node? l = w.site.disk.node? l ∨
      (∃ now, c = .cleanup now) ∧ (c.act.after w).site.disk.node? l = none := by
  have same : c.act w = .ok () w → Sealed (c.act.after w).trail ∧
      ∀ l, (c.act.after w).site.disk.node? l = w.site.disk.node? l ∨
        (∃ now, c = .cleanup now) ∧ (c.act.after w).site.disk.node? l = none := by
    intro hsame
    rw [after_of_ok hsame]
    exact ⟨h, fun l => Or.inl rfl⟩
  have ne_fresh : w.trail.phase ≠ .fresh := by rw [h.phase]; nofun
  have ne_running : w.trail.phase ≠ .running := by rw [h.phase]; nofun
  cases c with
  | start => exact same (start_of_ne ne_fresh)
  | stop => exact same (stop_of_closed (Or.inr h.phase))
  | log r => exact same ((log_of_ne_fresh r ne_fresh).trans (accept_of_ne r ne_running))
  | enqueue r =>
    rcases enqueue_cases r w with ⟨now, e, w', -, henqueue, hb⟩ | ⟨f, w', -, henqueue, hb⟩
    · rw [show (act (.enqueue r)).after w = w' from after_of_ok henqueue, hb.trail, hb.disk]
      exact ⟨⟨h.phase, h.stream⟩, fun l => Or.inl rfl⟩
    · rw [show (act (.enqueue r)).after w = w' from after_of_error henqueue, hb.trail, hb.disk]
      exact ⟨h, fun l => Or.inl rfl⟩
  | flush =>
    obtain ⟨t, w', hflush, hb, hsealed, -⟩ := flush_of_sealed h
    rw [show (act .flush).after w = w' from after_of_ok hflush, hb.trail, hb.disk]
    exact ⟨hsealed, fun l => Or.inl rfl⟩
  | cleanup now =>
    have hafter : (act (.cleanup now)).after w = (Audit.cleanup now).after w := after_forget _ w
    rw [hafter]
    constructor
    · rwa [(cleanup_spec now w).2]
    · intro l
      exact (thins_cleanup now w l).imp id fun hgone => ⟨⟨now, rfl⟩, hgone⟩

theorem sealed_run (turns : List (Turn Call)) (h : Sealed w.trail) : Sealed (run Call.act turns w).trail :=
  run_induction (P := fun w => Sealed w.trail) Call.act (fun t _ v hv => (t.call.sealed (w := t.before v) hv).1) h

/-- In a turn nothing happens to the disk, or a cleanup removes something. -/
def Spared (t : Turn Call) (w : World) : Prop :=
  ∀ l, (t.take Call.act w).site.disk.node? l = (t.before w).site.disk.node? l ∨
    (∃ now, t.call = .cleanup now) ∧ (t.take Call.act w).site.disk.node? l = none

theorem spared_run (turns : List (Turn Call)) (h : Sealed w.trail) : Each Call.act Spared turns w := by
  induction turns generalizing w with
  | nil => trivial
  | cons t rest ih =>
    have hturn := t.call.sealed (w := t.before w) h
    exact ⟨hturn.2, ih hturn.1⟩

end Sealed

section Settled
-- What has been done once is not done again.

variable {w : World}

private theorem ne_fresh_of_started (h : start.Returns w) : (start.after w).trail.phase ≠ .fresh := by
  obtain ⟨⟨⟩, w', hstart⟩ := h
  rw [after_of_ok hstart]
  by_cases fresh : w.trail.phase = .fresh
  · have hends := start_spec fresh
    rw [hstart] at hends
    cases hends with
    | opened p l d timer now limit _ _ _ _ _ _ _ _ _ hb =>
      rw [hb.trail]
      nofun
  · rw [start_of_ne fresh] at hstart
    cases hstart
    exact fresh

private theorem not_fresh_of_ended {p : Phase} (h : p.Ended) : p ≠ .fresh := by
  rintro rfl
  exact not_ended_fresh h

variable {turns : List (Turn Call)} {limit : Nat}

/-- After an opening or a closing that returned there is nothing to open, and after a closing nothing to close. -/
theorem settled_run (own : ∀ t ∈ turns, ∀ r, t.call ≠ .enqueue r) (hm : w.trail.config.maxBytes = .ok limit)
    {earlier later : List (Turn Call)} {t : Turn Call} (split : turns = earlier ++ t :: later)
    (returned : t.call.act.Returns (t.before (run Call.act earlier w))) (v : World)
    (hv : v.trail = (run Call.act turns w).trail) :
    (t.call = .start ∨ t.call = .stop → start v = .ok () v) ∧ (t.call = .stop → stop v = .ok () v) := by
  generalize hu : t.take Call.act (run Call.act earlier w) = u
  have hlast : run Call.act turns w = run Call.act later u := by
    rw [split, run_append, ← hu]
    rfl
  have hlimit : u.trail.config.maxBytes = .ok limit := by
    have hconfig : u.trail.config = w.trail.config := by
      rw [← hu]
      exact ((t.call.comes (t.before (run Call.act earlier w))).steps.config).trans (run_config earlier w)
    rw [hconfig, hm]
  have hown : ∀ t ∈ later, ∀ r, t.call ≠ .enqueue r := by
    intro t' ht'
    exact own t' (by rw [split]; simp [ht'])
  have hended : t.call = .stop → u.trail.phase.Ended := by
    intro hstop
    rw [← hu, Turn.take, hstop]
    exact (stop_spec _).2
  constructor
  · intro hcall
    apply start_of_ne
    rw [hv, hlast]
    refine phase_run (P := (· ≠ .fresh)) hown Passes.ne_fresh hlimit ?_
    rcases hcall with hstart | hstop
    · rw [hstart] at returned
      rw [← hu, Turn.take, hstart]
      exact ne_fresh_of_started returned
    · exact not_fresh_of_ended (hended hstop)
  · intro hstop
    apply stop_of_closed
    rw [hv, hlast]
    exact phase_run hown Passes.ended hlimit (hended hstop)

end Settled

/-- A trail has one life. Once it is closed, it stays so without an open file, whatever is asked of it; the disk then
changes at most by what a cleanup removes; and a flush counts as lost what is in the queue. Everything that was ever
queued is its report on its opening, what was reported to it, and its report on its closing, in this order and
each report on itself at most once. And what has been opened or closed before is left as it is. -/
theorem lives_once {c : Config.AuditSettings} {limit : Nat} (hc : c.maxBytes = .ok limit) (waits : Bool)
    (site : Site) (secrets : Secrets.Resolver) {turns : List (Turn Call)}
    (own : ∀ t ∈ turns, ∀ r, t.call ≠ .enqueue r) :
    let first := unused c waits site secrets
    let w := run Call.act turns first
    (w.trail.phase = .stopped → w.trail.stream = none ∧ ∀ more : List (Turn Call),
      let v := run Call.act more w
      v.trail.phase = .stopped ∧ v.trail.stream = none ∧ Each Call.act Spared more w ∧
      ∃ v', flush v = .ok () v' ∧ v'.trail.queue = [] ∧
        v'.trail.dropped = v.trail.dropped + v.trail.queue.length) ∧
    ((chronicle turns first).map Prod.snd = w.queued ∧ ∃ opening logged closing,
      chronicle turns first = signed .trail opening ++ signed .reporter logged ++ signed .trail closing ∧
      (opening = [] ∨ ∃ now, opening = [ownEntry now .setUp "Audit trail started"]) ∧
      (closing = [] ∨ ∃ now, closing = [ownEntry now .shutdown "Audit trail shutting down"]) ∧
      (logged ≠ [] → opening ≠ [])) ∧
    ∀ earlier t later, turns = earlier ++ t :: later → t.call.act.Returns (t.before (run Call.act earlier first)) →
      ∀ s : Site, let v : World := { w with site := s }
        (t.call = .start ∨ t.call = .stop → start v = .ok () v) ∧ (t.call = .stop → stop v = .ok () v) := by
  intro first w
  have hm : first.trail.config.maxBytes = .ok limit := hc
  refine ⟨fun stopped => ?_, ⟨?_, ?_⟩, fun earlier t later split returned s => ?_⟩
  · have hidle : Idle w.trail := idle_run own fun _ => ⟨rfl, rfl⟩
    have hsealed : Sealed w.trail := ⟨stopped, (hidle (Or.inr stopped)).2⟩
    refine ⟨hsealed.stream, fun more => ?_⟩
    intro v
    have hlater : Sealed v.trail := sealed_run more hsealed
    obtain ⟨t, v', hflush, hb, -, hqueue, hdropped⟩ := flush_of_sealed hlater
    refine ⟨hlater.phase, hlater.stream, spared_run more hsealed, v', hflush, ?_, ?_⟩
    · rw [hb.trail, hqueue]
    · rw [hb.trail, hdropped]
  · have hqueued := queued_run turns first
    exact hqueued.symm
  · obtain ⟨opening, logged, closing, hes, hopening, hclosing, hlogged⟩ := frames_run own hm
    refine ⟨opening, logged, closing, hes, ?_, ?_, ?_⟩
    · exact hopening.imp id fun h => h.2
    · exact hclosing.imp id fun h => h.2
    · intro hne
      exact (hlogged hne).resolve_right nofun
  · exact settled_run own hm split returned _ rfl

/-- A trail that opens itself for a report, is closed, and is then asked for more. -/
theorem lives_once_of_report :
    let report : Report := .authentication (.text "ada") (.bool true) (.text "")
    let turns : List (Turn Call) := [⟨id, .log report⟩, ⟨id, .flush⟩, ⟨id, .stop⟩, ⟨id, .log report⟩, ⟨id, .cleanup none⟩]
    let first := unused {} true bareSite { config := {} }
    let w := run Call.act turns first
    (∀ t ∈ turns, ∀ r, t.call ≠ .enqueue r) ∧ w.trail.phase = .stopped ∧ (chronicle turns first).length = 3 ∧
      (∃ opening logged closing,
        chronicle turns first = signed .trail opening ++ signed .reporter logged ++ signed .trail closing) ∧
      ∀ more, (run Call.act more w).trail.stream = none := by
  intro report turns first w
  have hlimit : ({} : Config.AuditSettings).maxBytes = .ok 104857600 := by decide +kernel
  have own : ∀ t ∈ turns, ∀ r, t.call ≠ .enqueue r := by
    intro t ht r
    simp only [turns, List.mem_cons, List.not_mem_nil, or_false] at ht
    rcases ht with rfl | rfl | rfl | rfl | rfl <;> nofun
  have stopped : w.trail.phase = .stopped := by decide +kernel
  obtain ⟨hsealed, ⟨-, opening, logged, closing, hes, -⟩, -⟩ :=
    lives_once hlimit true bareSite { config := {} } own
  refine ⟨own, stopped, by decide +kernel, ⟨opening, logged, closing, hes⟩, fun more => ?_⟩
  exact ((hsealed stopped).2 more).2.1

end Custody.Audit
