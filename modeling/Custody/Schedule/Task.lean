import Custody.Text.CodePoint

/-! Periodic tasks: each has an interval and the time of its next run. -/
namespace Custody.Schedule

/-- A job that is due every `interval`, at `next` for the next time. -/
structure Task (T J : Type) where
  name : Text
  interval : T
  next : T
  job : J
deriving Repr

variable {T J : Type} [Add T] [LT T] [DecidableLT T]

/-- A task that is first due after a delay, or after one interval. -/
def Task.start (now : T) (name : Text) (interval : T) (delay : Option T) (job : J) : Task T J :=
  { name, interval, job, next := now + delay.getD interval }

/-- The task after a run in a pass that began at `start`. It keeps its rate, unless it has fallen behind. -/
def Task.advance (start : T) (t : Task T J) : Task T J :=
  let next := t.next + t.interval
  { t with next := if next < start then start + t.interval else next }

def earliest? : List (Task T J) → Option T
  | [] => none
  | t :: rest => some (rest.foldl (fun least u => if u.next < least then u.next else least) t.next)

end Custody.Schedule
