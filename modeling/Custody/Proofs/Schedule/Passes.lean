import Custody.Schedule.Loop
import Mathlib.Data.List.Basic

/-! The loop pass by pass: what one pass does, and the passes of a whole run, however many it may make. -/
namespace Custody.Schedule

/-- The tasks and the run of a loop between two passes. -/
structure Stage (T J σ : Type) where
  tasks : List (Task T J)
  run : Run T σ

section Due
variable {T J : Type} [LT T] [DecidableLT T]

def Task.isDue (start : T) (t : Task T J) : Bool := !decide (start < t.next)

theorem Task.isDue_iff {start : T} {t : Task T J} : t.isDue start = true ↔ ¬start < t.next := by
  rw [Task.isDue, Bool.not_eq_true', decide_eq_false_iff_not]

end Due

section Pass
variable {T J σ : Type} [Add T] [LT T] [DecidableLT T] {start : T}

def Task.after (start : T) (t : Task T J) : Task T J := if t.isDue start then t.advance start else t

theorem Task.after_of_due {t : Task T J} (h : t.isDue start = true) : t.after start = t.advance start := if_pos h

theorem Task.after_of_not_due {t : Task T J} (h : t.isDue start = false) : t.after start = t :=
  if_neg (by rw [h]; exact Bool.false_ne_true)

/-- A pass runs the tasks that are due when it begins, each once and in order, and moves these on. -/
theorem pass_eq (w : Work T J σ) (start : T) (ts : List (Task T J)) (r : Run T σ) :
    pass w start ts r =
      (ts.map (Task.after start), (ts.filter (Task.isDue start)).foldl (fun r t => r.fire w t) r) := by
  induction ts generalizing r with
  | nil => rfl
  | cons t ts ih =>
    rw [pass]
    by_cases h : start < t.next
    · have hdue : t.isDue start = false := by rw [Task.isDue, decide_eq_true h]; rfl
      rw [if_pos h, ih, List.map_cons, List.filter_cons, hdue, Task.after_of_not_due hdue]
      rfl
    · have hdue : t.isDue start = true := Task.isDue_iff.2 h
      rw [if_neg h, ih, List.map_cons, List.filter_cons, hdue, Task.after_of_due hdue]
      rfl

end Pass

section Turns
variable {T J σ : Type} [Add T] [Sub T] [LT T] [DecidableLT T] [OfNat T 0] {w : Work T J σ}

namespace Stage

/-- The time at which the next pass begins. -/
def start (s : Stage T J σ) : T := s.run.now

def due (s : Stage T J σ) : List (Task T J) := s.tasks.filter (Task.isDue s.start)

/-- The stage when the tasks that are due have run. -/
def served (w : Work T J σ) (s : Stage T J σ) : Stage T J σ :=
  ⟨s.tasks.map (Task.after s.start), s.due.foldl (fun r t => r.fire w t) s.run⟩

/-- How long to wait for the next task, if there are tasks. -/
def pause (s : Stage T J σ) : Option T :=
  (earliest? s.tasks).map fun first => if 0 < first - s.run.now then first - s.run.now else 0

/-- The stage after one pass and the wait behind it. -/
def turn (w : Work T J σ) (s : Stage T J σ) : Stage T J σ :=
  ⟨(s.served w).tasks, (s.served w).run.wait (s.served w).pause⟩

def upTo (bound : T) (s : Stage T J σ) : Stage T J σ := ⟨s.tasks, { s.run with bound, stopped := false }⟩

def noted (s : Stage T J σ) : Stage T J σ := ⟨s.tasks, { s.run with seen := .bound s.run.now :: s.run.seen }⟩

end Stage

theorem loop_of_stopped {s : Stage T J σ} (h : s.run.stopped = true) (n : Nat) :
    loop w n s.tasks s.run = (s.tasks, s.run) := by
  cases n with
  | zero => rfl
  | succ n => exact if_pos h

/-- A loop that is not stopped goes on from the stage after its first turn. Without tasks that turn stops it. -/
theorem loop_succ {s : Stage T J σ} (h : s.run.stopped = false) (n : Nat) :
    loop w (n + 1) s.tasks s.run = loop w n (s.turn w).tasks (s.turn w).run := by
  have hpass : pass w s.run.now s.tasks s.run = ((s.served w).tasks, (s.served w).run) := pass_eq w _ _ _
  rw [loop, if_neg (by rw [h]; exact Bool.false_ne_true), hpass]
  dsimp only
  cases hfirst : earliest? (s.served w).tasks with
  | none =>
    have hpause : (s.served w).pause = none := by rw [Stage.pause, hfirst]; rfl
    have hstopped : (s.turn w).run.stopped = true := by rw [Stage.turn, hpause]; rfl
    rw [loop_of_stopped hstopped, Stage.turn, hpause]
  | some first =>
    have hpause : (s.served w).pause =
        some (if 0 < first - (s.served w).run.now then first - (s.served w).run.now else 0) := by
      rw [Stage.pause, hfirst]
      rfl
    rw [Stage.turn, hpause]

/-- A loop from its first stage to its last, with the stages at which its passes begin. -/
inductive Lasts (w : Work T J σ) : Stage T J σ → List (Stage T J σ) → Stage T J σ → Prop
  | stopped {s : Stage T J σ} (h : s.run.stopped = true) : Lasts w s [] s
  | turn {s s' : Stage T J σ} {passes : List (Stage T J σ)} (h : s.run.stopped = false)
      (rest : Lasts w (s.turn w) passes s') : Lasts w s (s :: passes) s'

/-- One loop after the other, each with its bound, and the stages at which their passes begin. -/
inductive Rounds (w : Work T J σ) : List T → Stage T J σ → List (Stage T J σ) → Stage T J σ → Prop
  | nil {s : Stage T J σ} : Rounds w [] s [] s
  | cons {bound : T} {bounds : List T} {s s' s'' : Stage T J σ} {passes later : List (Stage T J σ)}
      (first : Lasts w (s.upTo bound) passes s') (rest : Rounds w bounds s'.noted later s'') :
      Rounds w (bound :: bounds) s (passes ++ later) s''

section Ends
variable {s s' : Stage T J σ} {passes : List (Stage T J σ)}

/-- A loop that makes a number of passes is the same with every larger number. -/
theorem Lasts.loop_eq (h : Lasts w s passes s') {n : Nat} (hn : passes.length ≤ n) :
    loop w n s.tasks s.run = (s'.tasks, s'.run) := by
  induction h generalizing n with
  | stopped hstopped => exact loop_of_stopped hstopped n
  | turn hgoing _ ih =>
    cases n with
    | zero => exact absurd hn (Nat.not_succ_le_zero _)
    | succ n => exact (loop_succ hgoing n).trans (ih (Nat.le_of_succ_le_succ hn))

theorem Lasts.is_stopped (h : Lasts w s passes s') : s'.run.stopped = true := by
  induction h with
  | stopped hstopped => exact hstopped
  | turn _ _ ih => exact ih

theorem Rounds.loops_eq {bounds : List T} (h : Rounds w bounds s passes s') {n : Nat} (hn : passes.length ≤ n) :
    loops w n bounds s.tasks s.run = (s'.tasks, s'.run) := by
  induction h with
  | nil => rfl
  | cons first _ ih =>
    rw [List.length_append] at hn
    rw [loops, loopUntil]
    have hloop := first.loop_eq (Nat.le_trans (Nat.le_add_right _ _) hn)
    dsimp only [Stage.upTo] at hloop
    rw [hloop]
    exact ih (Nat.le_trans (Nat.le_add_left _ _) hn)

end Ends

end Turns

section Jobs
variable {T J J' σ : Type} [Add T] [Sub T] [LT T] [DecidableLT T] [OfNat T 0]

def Task.map (f : J → J') (t : Task T J) : Task T J' := ⟨t.name, t.interval, t.next, f t.job⟩

def Stage.map (f : J → J') (s : Stage T J σ) : Stage T J' σ := ⟨s.tasks.map (Task.map f), s.run⟩

omit [Sub T] [OfNat T 0] in
theorem Task.after_map (f : J → J') (start : T) (t : Task T J) : (t.map f).after start = (t.after start).map f := by
  by_cases h : t.isDue start = true
  · rw [Task.after_of_due h]
    exact Task.after_of_due h
  · rw [Task.after_of_not_due (Bool.eq_false_iff.2 h)]
    exact Task.after_of_not_due (Bool.eq_false_iff.2 h)

omit [Add T] [Sub T] [OfNat T 0] in
private theorem earliest?_map (f : J → J') (ts : List (Task T J)) :
    earliest? (ts.map (Task.map f)) = earliest? ts := by
  cases ts with
  | nil => rfl
  | cons t ts =>
    rw [List.map_cons, earliest?, earliest?, List.foldl_map]
    rfl

variable {w : Work T J σ} {w' : Work T J' σ} {f : J → J'}

theorem Stage.turn_map (hfire : ∀ (t : Task T J) (r : Run T σ), r.fire w' (t.map f) = r.fire w t) (s : Stage T J σ) :
    (s.map f).turn w' = (s.turn w).map f := by
  have htasks : ((s.map f).served w').tasks = (s.served w).tasks.map (Task.map f) := by
    rw [Stage.served, Stage.served, Stage.map, List.map_map, List.map_map]
    exact List.map_congr_left fun t _ => Task.after_map f _ t
  have hdue : (s.map f).due = s.due.map (Task.map f) := List.filter_map
  have hrun : ((s.map f).served w').run = (s.served w).run := by
    rw [Stage.served, Stage.served, hdue, List.foldl_map]
    simp only [hfire]
    rfl
  have hpause : ((s.map f).served w').pause = (s.served w).pause := by
    rw [Stage.pause, Stage.pause, htasks, hrun, earliest?_map]
  rw [Stage.turn, hpause, htasks, hrun]
  rfl

/-- Only what jobs do to the run shows in a loop. -/
theorem loop_map (hfire : ∀ (t : Task T J) (r : Run T σ), r.fire w' (t.map f) = r.fire w t) (n : Nat) (s : Stage T J σ) :
    loop w' n (s.tasks.map (Task.map f)) s.run =
      ((loop w n s.tasks s.run).1.map (Task.map f), (loop w n s.tasks s.run).2) := by
  induction n generalizing s with
  | zero => rfl
  | succ n ih =>
    cases hstopped : s.run.stopped with
    | true =>
      rw [loop_of_stopped hstopped]
      exact loop_of_stopped (s := s.map f) hstopped _
    | false =>
      have hturn : loop w' (n + 1) (s.map f).tasks (s.map f).run =
          loop w' n ((s.map f).turn w').tasks ((s.map f).turn w').run :=
        loop_succ (s := s.map f) hstopped n
      rw [Stage.turn_map hfire] at hturn
      rw [loop_succ hstopped]
      exact hturn.trans (ih (s.turn w))

theorem loops_map (hfire : ∀ (t : Task T J) (r : Run T σ), r.fire w' (t.map f) = r.fire w t) (n : Nat) (bounds : List T)
    (ts : List (Task T J)) (r : Run T σ) :
    loops w' n bounds (ts.map (Task.map f)) r =
      ((loops w n bounds ts r).1.map (Task.map f), (loops w n bounds ts r).2) := by
  induction bounds generalizing ts r with
  | nil => rfl
  | cons bound bounds ih =>
    have hloop := loop_map hfire n ⟨ts, { r with bound, stopped := false }⟩
    rw [loops, loops, loopUntil, loopUntil]
    dsimp only at hloop ⊢
    rw [hloop]
    exact ih _ _

end Jobs

section Trace

def Event.isRun {T : Type} : Event T → Bool
  | .run _ _ => true
  | .wait _ => false
  | .bound _ => false

/-- The runs that have been seen, the earliest first. -/
def Run.runs {T σ : Type} (r : Run T σ) : List (Event T) := r.seen.reverse.filter Event.isRun

theorem Run.runs_of_seen {T σ : Type} {r r' : Run T σ} {e : Event T} (h : r'.seen = e :: r.seen) :
    r'.runs = r.runs ++ [e].filter Event.isRun := by
  rw [Run.runs, h, List.reverse_cons, List.filter_append]
  rfl

variable {T : Type} [Add T]

/-- The runs of tasks that run one after the other, each when the one before it has taken its time. -/
def runsFrom : T → List (Task T (Job T)) → List (Event T)
  | _, [] => []
  | now, t :: rest => .run t.name now :: runsFrom (now + t.job.cost) rest

theorem runs_foldl_fire [Sub T] [LT T] [DecidableLT T] [OfNat T 0] (ts : List (Task T (Job T))) (r : Run T Unit) :
    (ts.foldl (fun r t => r.fire clockwork t) r).runs = r.runs ++ runsFrom r.now ts := by
  induction ts generalizing r with
  | nil => exact (List.append_nil _).symm
  | cons t ts ih =>
    have hfire : (r.fire clockwork t).runs = r.runs ++ [.run t.name r.now] :=
      Run.runs_of_seen (r := r) (e := .run t.name r.now) rfl
    rw [List.foldl_cons, ih, hfire, List.append_assoc]
    rfl

theorem Run.seen_wait {σ : Type} [LT T] [DecidableLT T] (r : Run T σ) (time : Option T) : (r.wait time).seen = .wait time :: r.seen := by
  cases time with
  | none => rfl
  | some t =>
    rw [Run.wait]
    dsimp only
    split <;> rfl

variable [Sub T] [LT T] [DecidableLT T] [OfNat T 0]

/-- The runs of the next pass. -/
def Stage.runs (s : Stage T (Job T) Unit) : List (Event T) := runsFrom s.start s.due

theorem Stage.runs_turn (s : Stage T (Job T) Unit) : (s.turn clockwork).run.runs = s.run.runs ++ s.runs := by
  have hwait : (s.turn clockwork).run.runs = (s.served clockwork).run.runs := by
    have hseen := Run.runs_of_seen (Run.seen_wait (s.served clockwork).run (s.served clockwork).pause)
    exact hseen.trans (List.append_nil _)
  rw [hwait]
  exact runs_foldl_fire s.due s.run

variable {s s' : Stage T (Job T) Unit} {passes : List (Stage T (Job T) Unit)}

theorem Lasts.runs (h : Lasts clockwork s passes s') : s'.run.runs = s.run.runs ++ passes.flatMap Stage.runs := by
  induction h with
  | stopped => exact (List.append_nil _).symm
  | turn _ _ ih => rw [ih, Stage.runs_turn, List.flatMap_cons, List.append_assoc]

/-- The runs that are seen are those of the passes, one after the other. -/
theorem Rounds.runs {bounds : List T} (h : Rounds clockwork bounds s passes s') :
    s'.run.runs = s.run.runs ++ passes.flatMap Stage.runs := by
  induction h with
  | nil => exact (List.append_nil _).symm
  | @cons _ _ _ s' _ _ _ first _ ih =>
    have hnoted : s'.noted.run.runs = s'.run.runs := (Run.runs_of_seen rfl).trans (List.append_nil _)
    rw [ih, hnoted, first.runs, List.flatMap_append, List.append_assoc]
    rfl

end Trace

end Custody.Schedule
