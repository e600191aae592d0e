import Custody.Proofs.Audit.Runs

/-! When the opening of a trail leaves nothing half done. -/
namespace Custody.Audit
open Act

variable {w w' : World}

/-- A trail that has been opened runs. The file that it writes to is new and empty, and its queue has gained the
report of the opening. -/
structure Begun (w w' : World) : Prop where
  phase : w'.trail.phase = .running
  file : ∃ p l f, w.site.disk.node? l = none ∧ w'.site.disk.locate p = .ok l ∧
    w'.site.disk.node? l = some (.file f) ∧ f.content = [] ∧
    w'.trail.stream = some ⟨f.serial, false⟩ ∧ w'.trail.current = some ⟨p, 0⟩
  queue : ∃ now, w'.trail.queue = w.trail.queue ++ [ownEntry now .setUp "Audit trail started"]

/-- A trail whose opening has been undone has no open file and the queue that it had, and is opened again by the
next report. -/
structure Undone (w w' : World) : Prop where
  phase : w'.trail.phase = .fresh
  stream : w'.trail.stream = none
  queue : w'.trail.queue = w.trail.queue
  again : ∀ r, log r w' = (do start; accept r : Act Unit) w'

/-- The opening succeeds as a whole, or fails as a failure of the storage and is undone. -/
def AllOrNothing (w : World) : Prop :=
  (∃ w', start w = .ok () w' ∧ Begun w w') ∨
    (∃ w', start w = .error (.auditStorage w.trail.config.dir.text) w' ∧ Undone w w')

/-- A trail is never left half open. -/
theorem AllOrNothing.phase (h : AllOrNothing w) : (start.after w).trail.phase ≠ .opening := by
  rcases h with ⟨w', h, hb⟩ | ⟨w', h, hu⟩
  · rw [after_of_ok h, hb.phase]
    nofun
  · rw [after_of_error h, hu.phase]
    nofun

/-- A trail never runs without a word about its opening. -/
theorem AllOrNothing.queue (h : AllOrNothing w) (running : (start.after w).trail.phase = .running) :
    (start.after w).trail.queue ≠ [] := by
  rcases h with ⟨w', h, hb⟩ | ⟨w', h, hu⟩
  · obtain ⟨now, hq⟩ := hb.queue
    rw [after_of_ok h, hq]
    exact List.append_ne_nil_of_right_ne_nil _ (List.cons_ne_nil _ _)
  · rw [after_of_error h, hu.phase] at running
    cases running

end Custody.Audit
