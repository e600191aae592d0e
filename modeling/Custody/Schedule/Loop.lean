import Custody.Schedule.Task

/-! The loop that runs periodic tasks, on a clock that moves only by what is done. -/
namespace Custody.Schedule

/-- What can be seen of the loop. -/
inductive Event (T : Type) where
  | run (name : Text) (now : T)
  | wait (time : Option T)
  | bound (now : T)
deriving DecidableEq, Repr

/-- What a job did: the state it left, the time it took, and whether it asked to stop or failed. -/
structure Effect (T σ : Type) where
  state : σ
  cost : T
  stops : Bool
  fails : Bool

/-- How jobs run, and how the failure of a task is reported. -/
structure Work (T J σ : Type) where
  run : J → σ → Effect T σ
  report : Text → σ → σ

/-- The clock of a loop, the time up to which it may wait, its stop flag, and what has been seen of it,
the latest first. -/
structure Run (T σ : Type) where
  now : T
  bound : T
  stopped : Bool
  seen : List (Event T)
  state : σ

variable {T J σ : Type} [Add T] [Sub T] [LT T] [DecidableLT T] [OfNat T 0]

/-- Waits for a time. Without a time, or when it would lead past the bound, the loop is told to stop. -/
def Run.wait (time : Option T) (r : Run T σ) : Run T σ :=
  let r := { r with seen := .wait time :: r.seen }
  let late : Run T σ := { r with now := if r.now < r.bound then r.bound else r.now, stopped := true }
  match time with
  | none => late
  | some t => if r.bound < r.now + t then late else { r with now := r.now + t }

/-- Runs one job. A failure is reported and goes no further. -/
def Run.fire (w : Work T J σ) (t : Task T J) (r : Run T σ) : Run T σ :=
  let e := w.run t.job r.state
  { r with
    seen := .run t.name r.now :: r.seen
    now := r.now + e.cost
    stopped := r.stopped || e.stops
    state := if e.fails then w.report t.name e.state else e.state }

/-- One pass: every task that was due when it began, in order. -/
def pass (w : Work T J σ) (start : T) : List (Task T J) → Run T σ → List (Task T J) × Run T σ
  | [], r => ([], r)
  | t :: rest, r =>
    if start < t.next then
      let (rest, r) := pass w start rest r
      (t :: rest, r)
    else
      let (rest, r) := pass w start rest (r.fire w t)
      (t.advance start :: rest, r)

/-- Passes and waits until the loop is told to stop. Without tasks there is one wait without end. -/
def loop (w : Work T J σ) : (passes : Nat) → List (Task T J) → Run T σ → List (Task T J) × Run T σ
  | 0, ts, r => (ts, r)
  | n + 1, ts, r =>
    if r.stopped then (ts, r)
    else
      let (ts, r) := pass w r.now ts r
      match earliest? ts with
      | none => (ts, r.wait none)
      | some first =>
        let time := first - r.now
        loop w n ts (r.wait (some (if 0 < time then time else 0)))

def loopUntil (w : Work T J σ) (passes : Nat) (bound : T) (ts : List (Task T J)) (r : Run T σ) :
    List (Task T J) × Run T σ :=
  let (ts, r) := loop w passes ts { r with bound, stopped := false }
  (ts, { r with seen := .bound r.now :: r.seen })

def loops (w : Work T J σ) (passes : Nat) : (bounds : List T) → List (Task T J) → Run T σ →
    List (Task T J) × Run T σ
  | [], ts, r => (ts, r)
  | b :: rest, ts, r =>
    let (ts, r) := loopUntil w passes b ts r
    loops w passes rest ts r

/-- A job of known cost, which may fail and may ask to stop. -/
structure Job (T : Type) where
  cost : T
  fails : Bool
  stops : Bool
deriving Repr

/-- Jobs that change nothing but the clock. -/
def clockwork : Work T (Job T) Unit where
  run j _ := { state := (), cost := j.cost, stops := j.stops, fails := j.fails }
  report _ _ := ()

end Custody.Schedule
