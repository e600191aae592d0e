import Custody.Audit.Lifecycle
import Custody.Proofs.Twins

/-! A trail takes reports alike, whatever has been reported and sent before. -/
namespace Custody.Audit
open Act World

variable {P : Traces → Traces → Prop}

theorem agree_note (d : Deed) : Agree (Twins P) (note d) (note d) := agree_modifyTrail _

theorem agree_prepareDirectory : Agree (Twins P) prepareDirectory prepareDirectory := by
  refine agree_get fun v w hT => ?_
  obtain ⟨records, sent, rfl, -⟩ := hT
  exact .bind (agree_onDisk _) fun _ => agree_onDisk _

theorem agree_openFile (p : Path) : Agree (Twins P) (openFile p) (openFile p) := by
  refine agree_get fun v w hT => ?_
  obtain ⟨records, sent, rfl, -⟩ := hT
  dsimp only
  cases v.site.refusals.openings with
  | nil => exact agree_onDisk _
  | cons refusal rest =>
    have hused : Agree (Twins P)
        (modifySite fun s => { s with refusals := { s.refusals with openings := rest } })
        (modifySite fun s => { s with refusals := { s.refusals with openings := rest } }) := by
      rintro v w ⟨records, sent, rfl, hP⟩
      exact .ok () ⟨records, sent, rfl, hP⟩
    refine .bind hused fun _ => ?_
    cases refusal with
    | some e => exact .throw _
    | none => exact agree_onDisk _

section Reporting
variable (hP : Reportable P)
include hP

theorem agree_closeStream : Agree (Twins P) closeStream closeStream := by
  refine agree_get fun v w hT => ?_
  obtain ⟨records, sent, rfl, -⟩ := hT
  dsimp only
  cases v.trail.stream with
  | none => exact .pure ()
  | some s =>
    refine .bind (agree_modifyTrail _) fun _ => ?_
    split
    · exact agree_report hP _ _ _ _
    · exact .pure ()

theorem agree_rotate : Agree (Twins P) rotate rotate := by
  refine .bind (agree_closeStream hP) fun _ => .bind agree_now fun opened => agree_get fun v w hT => ?_
  obtain ⟨records, sent, rfl, -⟩ := hT
  refine .bind (.require _) fun p => .bind (agree_openFile p) fun serial => agree_get fun v w hT => ?_
  obtain ⟨records, sent, rfl, -⟩ := hT
  exact .bind (agree_modifyTrail _) fun _ => .bind (agree_note _) fun _ => agree_report hP _ _ _ _

theorem agree_giveUp : Agree (Twins P) giveUp giveUp := by
  refine .bind (agree_modifyTrail _) fun _ => agree_get fun v w hT => ?_
  obtain ⟨records, sent, rfl, -⟩ := hT
  exact .bind (agree_report hP _ _ _ _) fun _ => .throw _

omit hP in
theorem agree_enqueue (r : Report) : Agree (Twins P) (enqueue r) (enqueue r) :=
  .bind agree_now fun _ => .bind (.require _) fun _ => .bind (agree_modifyTrail _) fun _ => agree_note _

theorem agree_serve : Agree (Twins P) serve serve := by
  refine agree_get fun v w hT => ?_
  obtain ⟨records, sent, rfl, -⟩ := hT
  exact .bind (agree_modifyTrail _) fun _ => .bind (.require _) fun _ => .bind (.require _) fun _ =>
    .bind (agree_report hP _ _ _ _) fun _ => agree_enqueue _

theorem agree_start : Agree (Twins P) start start := by
  refine agree_get fun v w hT => ?_
  obtain ⟨records, sent, rfl, -⟩ := hT
  dsimp only
  split
  · exact .pure ()
  · have hstorage : Agree (Twins P) (do prepareDirectory; rotate) (do prepareDirectory; rotate) :=
      .bind agree_prepareDirectory fun _ => agree_rotate hP
    exact .bind (agree_modifyTrail _) fun _ => .bind (.orElse hstorage fun _ => agree_giveUp hP) fun _ =>
      agree_serve hP

theorem agree_accept (r : Report) : Agree (Twins P) (accept r) (accept r) := by
  refine agree_get fun v w hT => ?_
  obtain ⟨records, sent, rfl, -⟩ := hT
  dsimp only
  split
  · exact .pure ()
  · exact .orElse (agree_enqueue r) fun _ => .bind (agree_modifyTrail _) fun _ => .bind (agree_note _) fun _ =>
      .bind (.require _) fun _ => .bind (.require _) fun _ => agree_report hP _ _ _ _

theorem agree_log (r : Report) : Agree (Twins P) (log r) (log r) := by
  refine agree_get fun v w hT => ?_
  obtain ⟨records, sent, rfl, -⟩ := hT
  dsimp only
  split
  · exact .bind (agree_start hP) fun _ => agree_accept hP r
  · exact agree_accept hP r

end Reporting

end Custody.Audit
