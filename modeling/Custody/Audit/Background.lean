import Custody.Audit.Lifecycle
import Custody.Schedule.Loop

/-! The duties of a running trail, driven by the clock of its timer. -/
namespace Custody.Audit
open Act

def Duty.act : Duty → Act Unit
  | .flush => Audit.flush
  | .cleanup => do let _ ← Audit.cleanup none

/-- Duties take no time, and their failures are reported. -/
def duties : Schedule.Work Float Duty World where
  run d w := match d.act w with
    | .ok _ w => ⟨w, 0, false, false⟩
    | .error _ w => ⟨w, 0, false, true⟩
  report name w := { w with site := { w.site with
    records := ⟨.error, .audit, "audit_task_failed", [Value.field "task" (.text name)]⟩ :: w.site.records } }

/-- Lets time pass on the timer's clock. The result is the tasks with their next runs, if there is a
timer. -/
def tick (passes : Nat) (seconds : Float) : Act (Option (List (Schedule.Task Float Duty))) := fun w =>
  match w.trail.timer with
  | none => .ok none w
  | some timer =>
    let now := w.site.uptime
    let (tasks, r) := Schedule.loopUntil duties passes (now + seconds) timer.tasks
      ⟨now, now, false, [], w⟩
    let w := r.state
    .ok (some tasks) { w with
      site := { w.site with uptime := r.now }
      trail := { w.trail with timer := w.trail.timer.map fun t => { t with tasks } } }

end Custody.Audit
