import Custody.Proofs.Audit.Filling
import Custody.Proofs.Audit.Runs

/-! When a trail begins its next file: whatever happens to it, its files are packed with the lines that it has written. -/
namespace Custody.Audit
open Act Archive

/-- Unless an entry is lost on the way, files that were packed are packed afterwards. Once a trail is closed nothing
is lost any more for want of a file. -/
structure Packs (limit : Nat) (w w' : World) : Prop where
  orderly : Orderly limit w → Orderly limit w' ∨ w.trail.phase ≠ .stopped ∧ Loses w'.trail
  history : w.trail.history <+: w'.trail.history
  stopped : w.trail.phase = .stopped → w'.trail.phase = .stopped

private theorem loses_of_prefix {t t' : Trail} (h : Loses t) (history : t.history <+: t'.history) :
    Loses t' := by
  obtain ⟨earlier, e, later, line, hh, hj, hopened⟩ := h
  obtain ⟨more, hmore⟩ := history
  exact ⟨earlier, e, later ++ more, line, by rw [← hmore, hh, List.append_assoc, List.cons_append], hj, hopened⟩

instance (limit : Nat) : IsPreorder World (Packs limit) where
  refl _ := ⟨Or.inl, List.prefix_refl _, id⟩
  trans w w' w'' h h' := by
    refine ⟨fun ho => ?_, h.history.trans h'.history, h'.stopped ∘ h.stopped⟩
    rcases h.orderly ho with ho' | ⟨hphase, hloses⟩
    · rcases h'.orderly ho' with ho'' | ⟨hphase, hloses⟩
      · exact Or.inl ho''
      · exact Or.inr ⟨fun hs => hphase (h.stopped hs), hloses⟩
    · exact Or.inr ⟨hphase, loses_of_prefix hloses h'.history⟩

theorem Archive.Step.history {a b : Archive} (h : a.Step b) : a.trail.history <+: b.trail.history := by
  cases h with
  | opened | queued | rejected | wrote | discarded =>
    exact ⟨[_], (history_note rfl).symm⟩
  | _ => exact List.prefix_refl _

theorem Archive.Steps.history {a b : Archive} (h : a.Steps b) : a.trail.history <+: b.trail.history :=
  h.keep (P := fun c => a.trail.history <+: c.trail.history) (fun hs hc => hc.trans hs.history) (List.prefix_refl _)

section Acts
variable {limit : Nat} {w w' : World} {t : Trail}

/-- A trail that rests keeps its files packed, whatever happens to the disk step by step. -/
theorem packs_of_comes (hc : Comes w none w' none) (rests : w.trail.Rests w'.trail) : Packs limit w w' where
  orderly h := Or.inl ⟨(congrArg Config.AuditSettings.maxBytes rests.config).trans h.limited,
    hc.steps.keep Filed.step h.filed, h.packed.rest rests⟩
  history := hc.steps.history
  stopped := rests.phase

theorem packs_of_rests (hb : w.Becomes t w.site.disk w') (rests : w.trail.Rests t) : Packs limit w w' := by
  refine ⟨fun h => Or.inl ⟨?_, ?_, ?_⟩, ?_, ?_⟩
  · rw [hb.trail, rests.config]
    exact h.limited
  · rw [hb.archive]
    exact filed_of_rests h.filed rests
  · rw [hb.trail]
    exact h.packed.rest rests
  · rw [hb.trail]
    rcases rests.journal with hj | ⟨deed, -, hj⟩
    · exact ⟨[], by rw [Trail.history, Trail.history, hj, List.append_nil]⟩
    · rw [history_note hj]
      exact List.prefix_append _ _
  · rw [hb.trail]
    exact rests.phase

theorem packs_of_still (h : w.Still w') : Packs limit w w' :=
  packs_of_rests h ⟨rfl, rfl, Or.inl rfl, Or.inl rfl, id⟩

theorem packs_enqueue (r : Report) : (enqueue r).Keeps (Packs limit) := by
  intro w
  rcases enqueue_cases r w with ⟨now, e, w', -, h, hb⟩ | ⟨f, w', -, h, hb⟩
  · rw [after_of_ok h]
    exact packs_of_rests hb (rests_enter _ e)
  · rw [after_of_error h]
    exact packs_of_still hb

theorem packs_modifyTrail {f : Trail → Trail} (h : ∀ t : Trail, t.Rests (f t)) :
    (modifyTrail f).Keeps (Packs limit) := by
  intro w
  have hb := (World.Becomes.refl w).setTrail (f w.trail)
  exact packs_of_rests hb (h w.trail)

theorem packs_note {deed : Deed} (silent : deed.Silent) : (note deed).Keeps (Packs limit) :=
  packs_modifyTrail fun _ => ⟨rfl, rfl, Or.inr ⟨deed, silent, rfl⟩, Or.inl rfl, id⟩

theorem packs_report (level : Level) (reporter : Reporter) (message : String) (fields : List (Text × Value)) :
    (report level reporter message fields).Keeps (Packs limit) :=
  (World.still_report level reporter message fields).mono packs_of_still

theorem packs_accept (r : Report) : (accept r).Keeps (Packs limit) := by
  refine .bind .get fun w => ?_
  split
  · exact .pure _
  · refine .orElse (packs_enqueue r) fun _ => .bind (packs_modifyTrail ?_) fun _ => .bind (packs_note ?_) fun _ =>
      .bind (.require _) fun _ => .bind (.require _) fun _ => packs_report _ _ _ _
    · exact fun _ => ⟨rfl, rfl, Or.inl rfl, Or.inl rfl, id⟩
    · exact ⟨rfl, rfl, fun _ => rfl⟩

theorem discard_becomes (e : Entry) (message : String) (w : World) :
    ∃ w', discard e message w = .ok () w' ∧ w.Becomes (w.trail.drop e) w.site.disk w' := by
  unfold discard
  rw [modifyTrail_bind, bind_of_ok (note_eq _ _)]
  exact ((World.Becomes.refl w).setTrail (w.trail.drop e)).report .warning .audit message (wordsOf e)

theorem packs_discard (e : Entry) (message : String) : (discard e message).Keeps (Packs limit) := by
  intro w
  obtain ⟨w', h, hb⟩ := discard_becomes e message w
  rw [after_of_ok h]
  exact packs_of_rests hb (rests_drop _ e)

/-- An entry with a line goes where there is room for it, or it is lost when the next file cannot be opened. -/
theorem writeLine_orderly {e : Entry} {line : Text} (hj : e.json = .ok line) (running : w.trail.phase ≠ .stopped)
    (orderly : Orderly limit w) :
    (∃ w', writeLine line w = .ok () w' ∧ Orderly limit w') ∨
    (∃ f w', writeLine line w = .error f w' ∧ isLoss f = true ∧ w.Becomes w.trail.shut w.site.disk w') := by
  have hm := orderly.limited
  have next : needsRotation (lineBytes line).length w = .ok true w →
      (openedIn w.trail.history ≠ [] → Exceeds limit (Files.pack limit (linesIn w.trail.history)).current line) →
      (∃ w', writeLine line w = .ok () w' ∧ Orderly limit w') ∨
      (∃ f w', writeLine line w = .error f w' ∧ isLoss f = true ∧ w.Becomes w.trail.shut w.site.disk w') := by
    intro hneeds hfull
    rcases writeLine_of_full hj hneeds with ⟨p, l, w', hl, hn, h, hb⟩ | hlost
    · refine Or.inl ⟨w', h, ⟨?_, ?_, ?_⟩⟩
      · rw [hb.trail]
        exact hm
      · rw [hb.archive]
        have hstream : (w.trail.begin p w.site.disk.nextSerial).stream = some ⟨w.site.disk.nextSerial, false⟩ := rfl
        exact (orderly.filed.opened p l).wrote hstream line
      · rw [hb.trail]
        exact orderly.packed.begin_fill orderly.filed p hfull
    · exact Or.inr hlost
  cases orderly.packed with
  | unopened opened current stream =>
    exact next (needsRotation_of_none stream _) fun h => absurd opened h
  | opened files current stream =>
    obtain ⟨serial, hs⟩ := stream running
    obtain ⟨file, hc, hsize⟩ := Option.map_eq_some_iff.1 current
    have hneeds := needsRotation_eq hm hs hc (length_lineBytes_pos line)
    by_cases full : Exceeds limit (Files.pack limit (linesIn w.trail.history)).current line
    · have hfull : 0 < file.size ∧ limit < file.size + (lineBytes line).length := hsize ▸ full
      rw [decide_eq_true hfull] at hneeds
      exact next hneeds fun _ => full
    · have hroom : ¬(0 < file.size ∧ limit < file.size + (lineBytes line).length) := hsize ▸ full
      obtain ⟨w', h, hb⟩ := writeLine_of_room hj hm hs hc hroom
      refine Or.inl ⟨w', h, ⟨?_, ?_, ?_⟩⟩
      · rw [hb.trail]
        exact hm
      · rw [hb.archive]
        exact orderly.filed.wrote hs line
      · rw [hb.trail]
        exact Packed.fill orderly.filed hs files current full

theorem packs_writeEntry (e : Entry) : (writeEntry e).Keeps (Packs limit) := by
  intro w
  have hleads : Leads w (some e) ((writeEntry e).after w) none := by
    rcases writeEntry_cases e w with ⟨w', h, hl, -⟩ | ⟨f, w', h, hl, -⟩
    · rwa [after_of_ok h]
    · rwa [after_of_error h]
  refine ⟨fun orderly => ?_, hleads.steps.history, fun h => hleads.phase.trans h⟩
  -- A closed trail discards whatever comes, and that is no loss for want of a file.
  by_cases stopped : w.trail.phase = .stopped
  · have hrun : writeEntry e w = discard e "audit_entry_after_shutdown" w := by
      unfold writeEntry
      rw [get_bind, if_pos stopped]
    rw [after, hrun]
    exact (packs_discard e _ w).orderly orderly
  have hrun : writeEntry e w = orElse (do writeLine (← require e.json)) isLoss
      (fun _ => discard e "audit_write_failed") w := by
    unfold writeEntry
    rw [get_bind, if_neg stopped]
  cases hj : e.json with
  | error f =>
    have hfails : (do writeLine (← require e.json) : Act Unit) w = .error f w := by
      rw [hj]
      exact bind_of_error (require_error _ _)
    cases hf : isLoss f with
    | false =>
      rw [after_of_error (hrun.trans (orElse_of_not_sort hfails hf))]
      exact Or.inl orderly
    | true =>
      rw [after, hrun.trans (orElse_of_sort hfails hf)]
      exact (packs_discard e _ w).orderly orderly
  | ok line =>
    have hwrites : (do writeLine (← require e.json) : Act Unit) w = writeLine line w := by
      rw [hj]
      exact bind_of_ok (require_ok _ _)
    rcases writeLine_orderly hj stopped orderly with ⟨w₁, h₁, ho⟩ | ⟨f, w₁, h₁, hf, hb⟩
    · rw [after_of_ok (hrun.trans (orElse_of_ok (hwrites.trans h₁)))]
      exact Or.inl ho
    · obtain ⟨w', h', hb'⟩ := discard_becomes e "audit_write_failed" w₁
      rw [after_of_ok (hrun.trans ((orElse_of_sort (hwrites.trans h₁) hf).trans h'))]
      rw [hb.trail, hb.disk] at hb'
      have hlost := hb.trans hb'
      cases orderly.packed with
      | unopened opened current stream =>
        have rests : w.trail.Rests (w.trail.shut.drop e) :=
          ⟨rfl, rfl, Or.inr ⟨.discarded e, ⟨rfl, rfl, fun _ => rfl⟩, rfl⟩, Or.inl stream.symm, id⟩
        exact (packs_of_rests hlost rests).orderly orderly
      | opened files =>
        have hhistory : w'.trail.history = w.trail.history ++ .discarded e :: [] := by
          rw [hlost.trail]
          exact history_note rfl
        exact Or.inr ⟨stopped, w.trail.history, e, [], line, hhistory, hj, opened_ne_nil files⟩

theorem packs_drain (n : Nat) : (drain n).Keeps (Packs limit) := by
  induction n with
  | zero => exact .pure _
  | succ n ih =>
    refine .bind .get fun w => ?_
    cases w.trail.queue with
    | nil => exact .pure _
    | cons e rest =>
      refine .bind (packs_modifyTrail ?_) fun _ => .bind (packs_writeEntry e) fun _ => ih
      exact fun _ => ⟨rfl, rfl, Or.inl rfl, Or.inl rfl, id⟩

theorem packs_flush : flush.Keeps (Packs limit) := by
  refine .bind .get fun w => .bind (packs_drain _) fun _ => .bind .get fun v => ?_
  split
  · exact packs_report _ _ _ _
  · exact .pure _

theorem packs_stopTimer : stopTimer.Keeps (Packs limit) := by
  have rests : ∀ t : Trail, t.Rests t.timeless := fun _ => ⟨rfl, rfl, Or.inl rfl, Or.inl rfl, id⟩
  intro w
  rcases stopTimer_cases w with ⟨w', -, h, hb⟩ | ⟨f, w', -, h, hb⟩
  · rw [after_of_ok h]
    exact packs_of_rests hb (rests _)
  · rw [after_of_error h]
    exact packs_of_rests hb (rests _)

theorem packs_retire : retire.Keeps (Packs limit) := by
  refine .bind packs_flush fun _ => .bind packs_stopTimer fun _ => .bind packs_flush fun _ => ?_
  intro w
  obtain ⟨w₁, h₁, b₁⟩ := closeStream_spec w
  obtain ⟨w', h', b'⟩ := (b₁.setTrail (w.trail.shut.turn .stopped)).report .info .audit "audit_shutdown_complete" []
  have hrun : (do
      closeStream
      modifyTrail fun t => { t with phase := .stopped }
      report .info .audit "audit_shutdown_complete" [] : Act Unit) w = .ok () w' := by
    rw [bind_of_ok h₁, modifyTrail_bind, b₁.trail]
    exact h'
  rw [after_of_ok hrun]
  exact packs_of_rests b' ⟨rfl, rfl, Or.inl rfl, Or.inr ⟨rfl, rfl⟩, fun _ => rfl⟩

theorem packs_stop : stop.Keeps (Packs limit) := by
  intro w
  have hclose : w.trail.phase = .opening ∨ w.trail.phase = .running → Packs limit w (stop.after w) := by
    intro hp
    obtain ⟨now, v, hrun, hv, ht⟩ := stop_eq hp
    have hopen : w.trail.phase ≠ .stopped := by
      rcases hp with hp | hp <;> rw [hp] <;> nofun
    have rests : w.trail.Rests v.trail := by
      rw [ht]
      exact ⟨rfl, rfl, Or.inr ⟨.queued _, ⟨rfl, rfl, fun _ => rfl⟩, rfl⟩, Or.inl rfl, fun h => absurd h hopen⟩
    have hafter : stop.after w = retire.after v := by rw [after, after, hrun]
    rw [hafter]
    exact trans_of (Packs limit) (packs_of_comes hv rests) (packs_retire v)
  cases hp : w.trail.phase with
  | fresh =>
    obtain ⟨w', h, hb⟩ := stop_of_fresh hp
    rw [after_of_ok h]
    exact packs_of_rests hb ⟨rfl, rfl, Or.inl rfl, Or.inl rfl, fun _ => rfl⟩
  | opening => exact hclose (Or.inl hp)
  | running => exact hclose (Or.inr hp)
  | closing =>
    rw [after_of_ok (stop_of_closed (Or.inl hp))]
    exact refl_of (Packs limit) w
  | stopped =>
    rw [after_of_ok (stop_of_closed (Or.inr hp))]
    exact refl_of (Packs limit) w

theorem packs_cleanup (now : Option Timestamp) : (cleanup now).Keeps (Packs limit) := by
  intro w
  obtain ⟨hcomes, htrail⟩ := cleanup_spec now w
  exact packs_of_comes hcomes (by rw [htrail]; exact ⟨rfl, rfl, Or.inl rfl, Or.inl rfl, id⟩)

/-- A trail begins its first file when it is opened, if it has not begun one before. -/
theorem packs_start (unused : w.trail.phase = .fresh → openedIn w.trail.history = []) :
    Packs limit w (Audit.start.after w) := by
  by_cases fresh : w.trail.phase = .fresh
  · have hcomes := start_comes w
    have hopen : w.trail.phase ≠ .stopped := by rw [fresh]; nofun
    refine ⟨fun orderly => Or.inl ⟨?_, hcomes.steps.keep Filed.step orderly.filed, ?_⟩, hcomes.steps.history,
      fun h => absurd h hopen⟩
    · exact (congrArg Config.AuditSettings.maxBytes hcomes.steps.config).trans orderly.limited
    · have hstream : w.trail.stream = none := by
        cases orderly.packed with
        | unopened opened current stream => exact stream
        | opened files => exact absurd (unused fresh) (opened_ne_nil files)
      have hends := start_spec fresh
      generalize hr : Audit.start w = r at hends
      cases hends with
      | unnameable e d w' _ _ _ hb =>
        rw [after_of_error hr, hb.trail]
        exact orderly.packed.rest ⟨rfl, rfl, Or.inl rfl, Or.inl rfl, fun h => absurd h hopen⟩
      | refused t d w' _ _ _ hb ht =>
        rw [after_of_error hr, hb.trail]
        rcases ht with ⟨rfl, -⟩ | ⟨rfl, -⟩
        · exact orderly.packed.rest ⟨rfl, rfl, Or.inl rfl, Or.inl hstream.symm, id⟩
        · exact orderly.packed
      | unlimited p l d timer f w' _ _ _ _ _ _ hm =>
        rw [orderly.limited] at hm
        cases hm
      | opened p l d timer now limit' w' _ _ _ hd _ _ _ _ hb =>
        have hprepared : Filed ⟨w.trail, d, none⟩ := Filed.step (Step.prepared d hd) orderly.filed
        have hfirst : Packed limit (w.trail.begin p d.nextSerial) := Packed.begin hprepared (unused fresh) p
        rw [after_of_ok hr, hb.trail]
        exact hfirst.rest ⟨rfl, rfl, Or.inr ⟨.queued _, ⟨rfl, rfl, fun _ => rfl⟩, rfl⟩, Or.inl rfl,
          fun h => absurd h hopen⟩
  · rw [after_of_ok (start_of_ne fresh)]
    exact refl_of (Packs limit) w

theorem packs_log (r : Report) (unused : w.trail.phase = .fresh → openedIn w.trail.history = []) :
    Packs limit w ((log r).after w) := by
  have hstart : Packs limit w (Audit.start.after w) := packs_start unused
  cases h : Audit.start w with
  | ok u w₁ =>
    rw [after_of_ok h] at hstart
    rw [after_log r h]
    exact trans_of (Packs limit) hstart (packs_accept r w₁)
  | error f w₁ =>
    rw [after_of_error h] at hstart
    rwa [after_of_error (log_of_error r h)]

end Acts

/-- Others leave the files of a trail as they are: each is one that was there before. -/
structure Undisturbed (w : World) (site : Site) : Prop where
  serial : w.site.disk.nextSerial ≤ site.disk.nextSerial
  files : ∀ l f, site.disk.node? l = some (.file f) → f.serial ∈ openedIn w.trail.history →
    ∃ k, w.site.disk.node? k = some (.file f)

theorem undisturbed_refl (w : World) : Undisturbed w w.site := ⟨Nat.le_refl _, fun l _ h _ => ⟨l, h⟩⟩

def Call.opens : Call → Bool
  | start | log _ => true
  | _ => false

/-- A turn in which all goes well: others leave the files of the trail alone; no entry is lost for want of a file; and a
trail that is opened has not written anything before. -/
structure Smooth (t : Turn Call) (w : World) : Prop where
  alone : Undisturbed w (t.meanwhile w.site)
  spared : w.trail.phase ≠ .stopped → ¬Loses (t.take Call.act w).trail
  unused : t.call.opens = true → w.trail.phase = .fresh → openedIn w.trail.history = []

/-- A trail that has not been opened has not written anything and has nothing to write. -/
def Untouched (t : Trail) : Prop := t.phase = .fresh → openedIn t.history = [] ∧ t.queue = []

section Untouched
variable {w : World}

theorem untouched_start (h : Untouched w.trail) : Untouched (Audit.start.after w).trail := by
  by_cases fresh : w.trail.phase = .fresh
  · have hends := start_spec fresh
    generalize hr : Audit.start w = r at hends
    cases hends with
    | unnameable e d w' _ _ _ hb =>
      rw [after_of_error hr, hb.trail]
      exact nofun
    | refused t d w' _ _ _ hb ht =>
      rw [after_of_error hr, hb.trail]
      rcases ht with ⟨rfl, -⟩ | ⟨rfl, -⟩ <;> exact h
    | unlimited p l d timer f w' _ _ _ _ _ _ _ hb =>
      rw [after_of_error hr, hb.trail]
      exact nofun
    | opened p l d timer now limit w' _ _ _ _ _ _ _ _ hb =>
      rw [after_of_ok hr, hb.trail]
      exact nofun
  · rw [after_of_ok (start_of_ne fresh)]
    exact h

private theorem untouched_log (r : Report) (h : Untouched w.trail) : Untouched ((log r).after w).trail := by
  have hstart := untouched_start h
  cases hs : Audit.start w with
  | error f w₁ =>
    rw [after_of_error hs] at hstart
    rwa [after_of_error (log_of_error r hs)]
  | ok u w₁ =>
    have opened : w₁.trail.phase ≠ .fresh := by
      by_cases fresh : w.trail.phase = .fresh
      · have hends := start_spec fresh
        rw [hs] at hends
        cases hends with
        | opened _ _ _ _ _ _ _ _ _ _ _ _ _ _ _ hb =>
          rw [hb.trail]
          nofun
      · rw [start_of_ne fresh] at hs
        cases hs
        exact fresh
    rw [after_log r hs]
    intro hp
    rw [phase_accept] at hp
    exact absurd hp opened

theorem trail_flush_of_empty (hq : w.trail.queue = []) : (flush.after w).trail = w.trail := by
  let check : Act Unit := do
    if (← get).trail.stream.any (·.closed) then report .warning .audit "audit_flush_failed" []
  have hrun : flush w = check w := by
    unfold flush
    rw [get_bind, hq]
    rfl
  have hstill : check.Keeps World.Still := by
    refine .bind .get fun v => ?_
    split
    · exact World.still_report _ _ _ _
    · exact .pure _
  rw [after, hrun]
  exact (hstill w).trail

theorem Call.untouched {c : Call} (own : ∀ r, c ≠ .enqueue r) (h : Untouched w.trail) :
    Untouched (c.act.after w).trail := by
  cases c with
  | start => exact untouched_start h
  | log r => exact untouched_log r h
  | enqueue r => exact absurd rfl (own r)
  | flush =>
    intro hp
    have fresh : w.trail.phase = .fresh := (flush_leads w).phase.symm.trans hp
    have hsame : ((act .flush).after w).trail = w.trail := trail_flush_of_empty (h fresh).2
    rw [hsame]
    exact h fresh
  | cleanup now =>
    have hafter : (act (.cleanup now)).after w = (Audit.cleanup now).after w := after_forget _ w
    rw [hafter, (cleanup_spec now w).2]
    exact h
  | stop =>
    intro hp
    have hended : ((act .stop).after w).trail.phase.Ended := (stop_spec w).2
    rcases hended with hended | hended <;> rw [hp] at hended <;> cases hended

/-- Unless reports are queued for it behind its back, a trail has not written anything before it is opened. -/
theorem smooth_of_own {turns : List (Turn Call)} (own : ∀ t ∈ turns, ∀ r, t.call ≠ .enqueue r)
    (h : Untouched w.trail) (calm : Each Call.act (fun t w => Undisturbed w (t.meanwhile w.site) ∧
      (w.trail.phase ≠ .stopped → ¬Loses (t.take Call.act w).trail)) turns w) : Each Call.act Smooth turns w := by
  induction turns generalizing w with
  | nil => trivial
  | cons t rest ih =>
    obtain ⟨⟨alone, spared⟩, hrest⟩ := calm
    have hown := own t List.mem_cons_self
    have hnext : Untouched (t.take Call.act w).trail := Call.untouched hown (w := t.before w) h
    exact ⟨⟨alone, spared, fun _ fresh => (h fresh).1⟩, ih (fun u hu => own u (List.mem_cons_of_mem _ hu)) hnext hrest⟩

end Untouched

section Runs
variable {limit : Nat} {w : World} {c : Config.AuditSettings} {waits : Bool} {site : Site} {secrets : Secrets.Resolver}

theorem filed_before {t : Turn Call} (filed : Filed (w.archive none)) (alone : Undisturbed w (t.meanwhile w.site)) :
    Filed ((t.before w).archive none) := by
  obtain ⟨stream, sorted, used, placed, order, content⟩ := filed
  refine ⟨stream, sorted, ?_, placed, order, ?_⟩
  · exact fun s hs => Nat.lt_of_lt_of_le (used s hs) alone.serial
  · intro l f hf hs
    obtain ⟨k, hk⟩ := alone.files l f hf hs
    exact content k f hk hs

theorem Orderly.before {t : Turn Call} (orderly : Orderly limit w) (alone : Undisturbed w (t.meanwhile w.site)) :
    Orderly limit (t.before w) :=
  ⟨orderly.limited, filed_before orderly.filed alone, orderly.packed⟩

theorem Call.packs (c : Call) (unused : c.opens = true → w.trail.phase = .fresh → openedIn w.trail.history = []) :
    Packs limit w (c.act.after w) := by
  cases c with
  | start => exact packs_start (unused rfl)
  | log r => exact packs_log r (unused rfl)
  | enqueue r => exact packs_enqueue r w
  | flush => exact packs_flush w
  | cleanup now => exact Keeps.bind (packs_cleanup now) (fun _ => .pure _) w
  | stop => exact packs_stop w

theorem Orderly.take {t : Turn Call} (orderly : Orderly limit w) (smooth : Smooth t w) :
    Orderly limit (t.take Call.act w) := by
  have hpacks : Packs limit (t.before w) (t.take Call.act w) := t.call.packs smooth.unused
  rcases hpacks.orderly (orderly.before smooth.alone) with h | ⟨hphase, hloses⟩
  · exact h
  · exact absurd hloses (smooth.spared hphase)

theorem filed_unused : Filed ((unused c waits site secrets).archive none) :=
  ⟨nofun, .nil, nofun, fun _ _ => rfl, rfl, fun _ _ _ h => by cases h⟩

theorem orderly_unused (hc : c.maxBytes = .ok limit) :
    Orderly limit (unused c waits site secrets) where
  limited := hc
  filed := filed_unused
  packed := .unopened rfl rfl rfl

theorem orderly_run {turns : List (Turn Call)} (orderly : Orderly limit w)
    (smooth : Each Call.act Smooth turns w) :
    Orderly limit (run Call.act turns w) :=
  run_each Call.act (fun _ _ smooth orderly => orderly.take smooth) smooth orderly

end Runs

/-- The files of a trail are its lines packed one after the other: a file is followed by the next one just before a line
for which it has no room. Each keeps to the limit or holds a single line, none is sealed empty, and the size that the
trail counts is the size of the current file. -/
theorem files_are_packed {c : Config.AuditSettings} {limit : Nat} (hc : c.maxBytes = .ok limit) (waits : Bool)
    (site : Site) (secrets : Secrets.Resolver) (turns : List (Turn Call))
    (smooth : Each Call.act Smooth turns (unused c waits site secrets)) :
    let w := run Call.act turns (unused c waits site secrets)
    let h := w.trail.history
    (filesIn h).flatten = linesIn h ∧
    (openedIn h = [] ∨ filesIn h = (Files.pack limit (linesIn h)).all) ∧
    (∀ file ∈ filesIn h, bytesOf file ≤ limit ∨ ∃ line, file = [line]) ∧
    (∀ file ∈ (filesIn h).dropLast, file ≠ []) ∧
    w.trail.current.map LogFile.size = (filesIn h).getLast?.map bytesOf ∧
    (∀ l f, w.site.disk.node? l = some (.file f) → f.serial ∈ openedIn h →
      f.content.length = bytesOf (linesTo f.serial h)) := by
  intro w h
  have horderly : Orderly limit w := orderly_run (orderly_unused hc) smooth
  have hdisk : ∀ l f, w.site.disk.node? l = some (.file f) → f.serial ∈ openedIn h →
      f.content.length = bytesOf (linesTo f.serial h) := fun l f hf hs =>
    congrArg List.length (horderly.filed.content l f hf hs)
  cases horderly.packed with
  | unopened opened current stream =>
    have hnone : filesIn h = [] := by rw [filesIn, opened]; rfl
    have hlines : linesIn h = [] := by
      have horder : (openedIn h).flatMap (linesTo · h) = linesIn h := horderly.filed.order
      rw [← horder, opened]
      rfl
    rw [hnone, hlines]
    exact ⟨rfl, Or.inl opened, fun _ hfile => absurd hfile List.not_mem_nil,
      fun _ hfile => absurd hfile List.not_mem_nil, by rw [current]; rfl, hdisk⟩
  | opened files current stream =>
    rw [show filesIn h = _ from files]
    refine ⟨Files.flatten_pack limit _, Or.inr rfl, Files.bytesOf_le_of_mem_all limit _, ?_, ?_, hdisk⟩
    · rw [Files.all, List.dropLast_concat]
      exact Files.ne_nil_of_mem_full limit _
    · rw [Files.all, List.getLast?_concat]
      exact current

/-- Under a limit of about two hundred bytes the second of two entries needs a file of its own. -/
theorem files_are_packed_of_two_reports :
    let c : Config.AuditSettings := { maxSize := 0.0002 }
    let report : Report := .authentication (.text "ada") (.bool true) (.text "")
    let turns : List (Turn Call) := [⟨id, .start⟩, ⟨id, .log report⟩, ⟨id, .flush⟩]
    let w := run Call.act turns (unused c true bareSite { config := {} })
    let h := w.trail.history
    c.maxBytes = .ok 209 ∧ Each Call.act Smooth turns (unused c true bareSite { config := {} }) ∧
      (filesIn h).length = 2 ∧ filesIn h = (Files.pack 209 (linesIn h)).all := by
  intro c report turns w h
  have hlimit : c.maxBytes = .ok 209 := by decide +kernel
  have spared : ∀ {t : Trail}, discardsIn t.history = 0 → ¬Loses t := fun h0 hl => not_loses_of_discardsIn h0 hl
  have own : ∀ t ∈ turns, ∀ r, t.call ≠ .enqueue r := by
    intro t ht r
    simp only [turns, List.mem_cons, List.not_mem_nil, or_false] at ht
    rcases ht with rfl | rfl | rfl <;> nofun
  have smooth : Each Call.act Smooth turns (unused c true bareSite { config := {} }) :=
    smooth_of_own own (fun _ => ⟨rfl, rfl⟩)
      ⟨⟨undisturbed_refl _, fun _ => spared (by decide +kernel)⟩,
        ⟨undisturbed_refl _, fun _ => spared (by decide +kernel)⟩,
        ⟨undisturbed_refl _, fun _ => spared (by decide +kernel)⟩, trivial⟩
  have hopened : openedIn h ≠ [] := by decide +kernel
  have hpacked := (files_are_packed hlimit true bareSite { config := {} } turns smooth).2.1
  exact ⟨hlimit, smooth, by decide +kernel, hpacked.resolve_left hopened⟩

/-- What has been written before the trail is opened does not share a file with what is written afterwards. -/
theorem not_packed_when_written_before :
    let c : Config.AuditSettings := { dir := Path.ofText "." }
    let report : Report := .authentication (.text "ada") (.bool true) (.text "")
    let turns : List (Turn Call) := [⟨id, .enqueue report⟩, ⟨id, .flush⟩, ⟨id, .start⟩, ⟨id, .flush⟩]
    let w := run Call.act turns (unused c true bareSite { config := {} })
    let h := w.trail.history
    c.maxBytes = .ok 104857600 ∧ discardsIn h = 0 ∧ (filesIn h).length = 2 ∧
      (Files.pack 104857600 (linesIn h)).all.length = 1 := by
  decide +kernel

end Custody.Audit
