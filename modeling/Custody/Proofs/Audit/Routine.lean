import Custody.Proofs.Audit.Lifecycle

/-! What every act of a trail keeps as soon as the strokes of which it is made keep it. -/
namespace Custody.Audit
open Act

/-- The strokes of which the writing of entries and the end of a trail are made keep a relation. -/
structure KeptByWriting (R : World → World → Prop) : Prop where
  report : ∀ level reporter message fields, (report level reporter message fields).Keeps R
  adjust : ∀ f : Trail → Trail, (∀ t, (f t).config = t.config ∧ (f t).stream = t.stream ∧ (f t).journal = t.journal) →
    (modifyTrail f).Keeps R
  discarded : ∀ e, (note (.discarded e)).Keeps R
  closeStream : closeStream.Keeps R
  rotate : rotate.Keeps R
  appendLine : ∀ line bytes, (appendLine line bytes).Keeps R

/-- So do the strokes of which the opening of a trail and the taking of reports are made. -/
structure KeptByService (R : World → World → Prop) : Prop extends KeptByWriting R where
  prepareDirectory : prepareDirectory.Keeps R
  enqueue : ∀ r, (enqueue r).Keeps R
  rejected : (note .rejected).Keeps R

variable {R : World → World → Prop} [IsPreorder World R]

theorem keeps_needsRotation (n : Nat) : (needsRotation n).Keeps R := by
  intro w
  rcases needsRotation_cases n w with ⟨f, -, -, -, h⟩ | ⟨h, -⟩ | ⟨h, -⟩
  · rw [after_of_error h]
    exact refl_of R w
  · rw [after_of_ok h]
    exact refl_of R w
  · rw [after_of_ok h]
    exact refl_of R w

namespace KeptByWriting
variable (h : KeptByWriting R)
include h

theorem writeLine (line : Text) : (writeLine line).Keeps R := by
  unfold Audit.writeLine
  split
  · exact .throw _
  · refine .bind (keeps_needsRotation _) fun full => ?_
    cases full with
    | true => exact .bind h.rotate fun _ => h.appendLine _ _
    | false => exact h.appendLine _ _

theorem discard (e : Entry) (message : String) : (discard e message).Keeps R := by
  refine .bind (h.adjust _ ?_) fun _ => .bind (h.discarded e) fun _ => h.report _ _ _ _
  exact fun _ => ⟨rfl, rfl, rfl⟩

theorem writeEntry (e : Entry) : (writeEntry e).Keeps R := by
  refine .bind .get fun w => ?_
  split
  · exact h.discard _ _
  · exact .orElse (.bind (.require _) fun _ => h.writeLine _) fun _ => h.discard _ _

theorem drain (n : Nat) : (drain n).Keeps R := by
  induction n with
  | zero => exact .pure _
  | succ n ih =>
    refine .bind .get fun w => ?_
    cases w.trail.queue with
    | nil => exact .pure _
    | cons e rest =>
      refine .bind (h.adjust _ ?_) fun _ => .bind (h.writeEntry e) fun _ => ih
      exact fun _ => ⟨rfl, rfl, rfl⟩

theorem flush : flush.Keeps R := by
  refine .bind .get fun w => .bind (h.drain _) fun _ => .bind .get fun v => ?_
  split
  · exact h.report _ _ _ _
  · exact .pure _

theorem stopTimer : stopTimer.Keeps R := by
  refine .bind .get fun w => .bind (h.adjust _ ?_) fun _ => ?_
  · exact fun _ => ⟨rfl, rfl, rfl⟩
  · cases w.trail.timer with
    | none => exact .pure _
    | some timer =>
      dsimp only
      split
      · exact h.report _ _ _ _
      · split
        · exact .require _
        · exact .pure _

theorem retire : retire.Keeps R := by
  refine .bind h.flush fun _ => .bind h.stopTimer fun _ => .bind h.flush fun _ => .bind h.closeStream fun _ =>
    .bind (h.adjust _ ?_) fun _ => h.report _ _ _ _
  exact fun _ => ⟨rfl, rfl, rfl⟩

end KeptByWriting

namespace KeptByService
variable (h : KeptByService R)
include h

theorem serve : serve.Keeps R := by
  refine .bind .get fun _ => .bind (h.adjust _ ?_) fun _ => .bind (.require _) fun _ => .bind (.require _) fun _ =>
    .bind (h.report _ _ _ _) fun _ => h.enqueue _
  exact fun _ => ⟨rfl, rfl, rfl⟩

theorem giveUp : giveUp.Keeps R := by
  refine .bind (h.adjust _ ?_) fun _ => .bind .get fun _ => .bind (h.report _ _ _ _) fun _ => .throw _
  exact fun _ => ⟨rfl, rfl, rfl⟩

theorem start : start.Keeps R := by
  refine .bind .get fun w => ?_
  split
  · exact .pure _
  · refine .bind (h.adjust _ ?_) fun _ =>
      .bind (.orElse (.bind h.prepareDirectory fun _ => h.rotate) fun _ => h.giveUp) fun _ => h.serve
    exact fun _ => ⟨rfl, rfl, rfl⟩

theorem stop : stop.Keeps R := by
  have close : (do
      Audit.enqueue (ownReport .shutdown "Audit trail shutting down")
      modifyTrail fun t => { t with phase := .closing }
      Audit.retire : Act Unit).Keeps R := by
    refine .bind (h.enqueue _) fun _ => .bind (h.adjust _ ?_) fun _ => h.retire
    exact fun _ => ⟨rfl, rfl, rfl⟩
  refine .bind .get fun w => ?_
  cases w.trail.phase with
  | closing => exact .pure _
  | stopped => exact .pure _
  | fresh => exact h.adjust _ fun _ => ⟨rfl, rfl, rfl⟩
  | opening => exact close
  | running => exact close

theorem accept (r : Report) : (accept r).Keeps R := by
  refine .bind .get fun w => ?_
  split
  · exact .pure _
  · refine .orElse (h.enqueue r) fun _ => .bind (h.adjust _ ?_) fun _ => .bind h.rejected fun _ =>
      .bind (.require _) fun _ => .bind (.require _) fun _ => h.report _ _ _ _
    exact fun _ => ⟨rfl, rfl, rfl⟩

theorem log (r : Report) : (log r).Keeps R := by
  refine .bind .get fun w => ?_
  dsimp only
  split
  · exact .bind h.start fun _ => h.accept r
  · exact h.accept r

end KeptByService

end Custody.Audit
