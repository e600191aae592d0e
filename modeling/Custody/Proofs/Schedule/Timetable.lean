import Custody.Proofs.Schedule.Pace
import Mathlib.Data.List.FinRange

/-! Tasks whose jobs take no time run on the dot: what a schedule shows of them is a timetable, which only depends on what
was registered and on the last bound. -/
namespace Custody.Schedule

section Plans

/-- A plan whose job takes no time and never asks to stop. -/
structure Plan.Instant (p : Plan) : Prop where
  interval : 0 < p.interval
  delay : ∀ d ∈ p.delay, 0 ≤ d
  cost : p.job.cost = 0
  stops : p.job.stops = false

/-- The times of a plan that is registered at a time: the first after its delay, or after one interval, and the others
one interval apart. -/
def Plan.instant (start : ℚ) (p : Plan) (k : ℕ) : ℚ := start + p.delay.getD p.interval + k * p.interval

/-- Earlier, or at the same time and registered before. -/
def Precedes {n : ℕ} (a b : ℚ × Fin n) : Prop := a.1 < b.1 ∨ a.1 = b.1 ∧ a.2 < b.2

/-- All times of some plans up to the last bound, in order. -/
structure Timetable (plans : List Plan) (start : ℚ) (last : Option ℚ) (runs : List (ℚ × Fin plans.length)) : Prop where
  complete : ∀ time i, (time, i) ∈ runs ↔ (∃ k, time = (plans.get i).instant start k) ∧ ∃ u ∈ last, time ≤ u
  ordered : runs.Pairwise Precedes

def event (plans : List Plan) (r : ℚ × Fin plans.length) : Event ℚ := .run (plans.get r.2).name r.1

variable {p : Plan} {start : ℚ}

theorem Plan.Instant.start_le (h : p.Instant) (k : ℕ) : start ≤ p.instant start k := by
  have hfirst : 0 ≤ p.delay.getD p.interval := by
    cases hdelay : p.delay with
    | none => exact le_of_lt h.interval
    | some d => exact h.delay d hdelay
  have hmore : 0 ≤ k * p.interval := mul_nonneg (Nat.cast_nonneg k) (le_of_lt h.interval)
  rw [Plan.instant]
  linarith

theorem Plan.Instant.instant_le_iff (h : p.Instant) {j k : ℕ} : p.instant start j ≤ p.instant start k ↔ j ≤ k := by
  rw [Plan.instant, Plan.instant, add_le_add_iff_left, mul_le_mul_iff_left₀ h.interval, Nat.cast_le]

/-- There is only one timetable. -/
theorem Timetable.unique {plans : List Plan} {last : Option ℚ} {runs runs' : List (ℚ × Fin plans.length)}
    (h : Timetable plans start last runs) (h' : Timetable plans start last runs') : runs = runs' := by
  have hasymm : ∀ a b : ℚ × Fin plans.length, Precedes a b → ¬Precedes b a := by
    rintro a b (hab | ⟨htime, hab⟩) (hba | ⟨htime', hba⟩)
    · exact lt_asymm hab hba
    · exact absurd hab (htime' ▸ lt_irrefl _)
    · exact absurd hba (htime ▸ lt_irrefl _)
    · exact lt_asymm hab hba
  have hnodup : ∀ {l : List (ℚ × Fin plans.length)}, l.Pairwise Precedes → l.Nodup := by
    intro l hl
    refine hl.imp ?_
    rintro a b hab rfl
    exact hasymm a a hab hab
  have hperm : runs.Perm runs' := by
    rw [List.perm_ext_iff_of_nodup (hnodup h.ordered) (hnodup h'.ordered)]
    rintro ⟨time, i⟩
    rw [h.complete, h'.complete]
  exact hperm.eq_of_pairwise (fun a b _ _ hab hba => absurd hba (hasymm a b hab)) h.ordered h'.ordered

end Plans

section Awaiting

/-- A task that has run at all times of its plan up to a time, and waits for the next of them. -/
structure Plan.Awaits (start now : ℚ) (p : Plan) (t : Task ℚ (Job ℚ)) : Prop where
  kind : t.kind = (p.task start).kind
  next : ∃ k, t.next = p.instant start k ∧ ∀ j, p.instant start j ≤ now ↔ j < k

variable {start now later : ℚ} {p : Plan} {t : Task ℚ (Job ℚ)}

namespace Plan.Awaits

theorem lt_next (h : p.Awaits start now t) : now < t.next := by
  obtain ⟨k, hk, hall⟩ := h.next
  rw [hk]
  exact not_le.1 fun hle => lt_irrefl k ((hall k).1 hle)

/-- Before its next time nothing changes for a task. -/
theorem wait (h : p.Awaits start now t) (hp : p.Instant) (hlater : now ≤ later) (hnext : later < t.next) :
    p.Awaits start later t := by
  obtain ⟨k, hk, hall⟩ := h.next
  refine ⟨h.kind, k, hk, fun j => ⟨fun hj => ?_, fun hj => ((hall j).2 hj).trans hlater⟩⟩
  by_contra hkj
  have hle : p.instant start k ≤ p.instant start j := hp.instant_le_iff.2 (not_lt.1 hkj)
  rw [hk] at hnext
  exact absurd (hle.trans hj) (not_le.2 hnext)

/-- A task for which it is not too late has its next time, after a pass, at the first time of its plan behind the pass. -/
theorem after (h : p.Awaits start now t) (hp : p.Instant) (hlater : now ≤ later) (hnext : later ≤ t.next) :
    p.Awaits start later (t.after later) := by
  cases hdue : t.isDue later with
  | false =>
    rw [Task.after_of_not_due hdue]
    exact h.wait hp hlater (not_le.1 fun hle => Bool.eq_false_iff.1 hdue (Task.isDue_iff_le.2 hle))
  | true =>
    have hsame : t.next = later := le_antisymm (Task.isDue_iff_le.1 hdue) hnext
    obtain ⟨k, hk, -⟩ := h.next
    have hinterval : t.interval = p.interval := congrArg (fun k : Text × ℚ × Job ℚ => k.2.1) h.kind
    have hadvance : (t.advance later).next = p.instant start (k + 1) := by
      have hpos := hp.interval
      rw [Task.advance]
      dsimp only
      rw [hinterval, if_neg (by linarith), hk, Plan.instant, Plan.instant]
      push_cast
      ring
    rw [Task.after_of_due hdue]
    refine ⟨h.kind, k + 1, hadvance, fun j => ?_⟩
    rw [← hsame, hk, hp.instant_le_iff, Nat.lt_succ_iff]

/-- The times of a plan up to a pass are those up to the pass before, and that of the pass if the task is due there. -/
theorem complete (h : p.Awaits start now t) (hp : p.Instant) (hlater : now ≤ later) (hnext : later ≤ t.next) (time : ℚ) :
    (∃ k, time = p.instant start k) ∧ time ≤ later ↔
      ((∃ k, time = p.instant start k) ∧ time ≤ now) ∨ time = later ∧ t.isDue later = true := by
  obtain ⟨k, hk, hall⟩ := h.next
  rw [Task.isDue_iff_le]
  constructor
  · rintro ⟨⟨j, rfl⟩, hle⟩
    by_cases hj : j < k
    · exact Or.inl ⟨⟨j, rfl⟩, (hall j).2 hj⟩
    · have hkj : t.next ≤ p.instant start j := hk ▸ hp.instant_le_iff.2 (not_lt.1 hj)
      exact Or.inr ⟨le_antisymm hle (hnext.trans hkj), hkj.trans hle⟩
  · rintro (⟨htime, hle⟩ | ⟨rfl, hdue⟩)
    · exact ⟨htime, hle.trans hlater⟩
    · exact ⟨⟨k, hk ▸ le_antisymm hnext hdue⟩, le_refl _⟩

end Plan.Awaits

variable {plans : List Plan} {runs : List (ℚ × Fin plans.length)} {task : Fin plans.length → Task ℚ (Job ℚ)}

/-- A pass adds to the timetable the tasks that are due in it. -/
theorem Timetable.pass (h : Timetable plans start (some now) runs) (instant : ∀ i, (plans.get i).Instant)
    (awaits : ∀ i, (plans.get i).Awaits start now (task i)) (hlater : now ≤ later) (hnext : ∀ i, later ≤ (task i).next) :
    Timetable plans start (some later)
      (runs ++ ((List.finRange plans.length).filter fun i => (task i).isDue later).map fun i => (later, i)) := by
  constructor
  · intro time i
    have hiff := (awaits i).complete (instant i) hlater (hnext i) time
    simp only [List.mem_append, h.complete, List.mem_map, List.mem_filter, List.mem_finRange, true_and, Prod.mk.injEq,
      Option.mem_some_iff, exists_eq_left'] at hiff ⊢
    rw [hiff]
    constructor
    · rintro (hbefore | ⟨j, hdue, rfl, rfl⟩)
      · exact Or.inl hbefore
      · exact Or.inr ⟨rfl, hdue⟩
    · rintro (hbefore | ⟨rfl, hdue⟩)
      · exact Or.inl hbefore
      · exact Or.inr ⟨i, hdue, rfl, rfl⟩
  · rw [List.pairwise_append, List.pairwise_map]
    refine ⟨h.ordered, ?_, ?_⟩
    · exact ((List.pairwise_lt_finRange _).sublist List.filter_sublist).imp fun hij => Or.inr ⟨rfl, hij⟩
    · rintro ⟨time, i⟩ ha b hb
      obtain ⟨j, hj, rfl⟩ := List.mem_map.1 hb
      obtain ⟨-, u, hu, hle⟩ := (h.complete time i).1 ha
      obtain rfl := Option.some.inj hu
      have hdue : (task j).next ≤ later := Task.isDue_iff_le.1 (List.mem_filter.1 hj).2
      exact Or.inl (hle.trans_lt ((awaits j).lt_next.trans_le hdue))

end Awaiting

section Punctuality
variable {plans : List Plan} {start now : ℚ} {s s' : Stage ℚ (Job ℚ) Unit} {runs : List (ℚ × Fin plans.length)}

/-- Jobs that take no time and do not ask to stop leave the clock and the stop flag as they are. -/
theorem foldl_fire_instant (ts : List (Task ℚ (Job ℚ))) (r : Run ℚ Unit)
    (h : ∀ t ∈ ts, t.job.cost = 0 ∧ t.job.stops = false) :
    (ts.foldl (fun r t => r.fire clockwork t) r).now = r.now ∧
      (ts.foldl (fun r t => r.fire clockwork t) r).stopped = r.stopped := by
  induction ts generalizing r with
  | nil => exact ⟨rfl, rfl⟩
  | cons t ts ih =>
    obtain ⟨hcost, hstops⟩ := h t List.mem_cons_self
    obtain ⟨hnow, hstopped⟩ := ih (r.fire clockwork t) fun u hu => h u (List.mem_cons_of_mem t hu)
    have hfire : (r.fire clockwork t).now = r.now + t.job.cost ∧
        (r.fire clockwork t).stopped = (r.stopped || t.job.stops) := ⟨rfl, rfl⟩
    rw [hcost, hstops, add_zero, Bool.or_false] at hfire
    exact ⟨hnow.trans hfire.1, hstopped.trans hfire.2⟩

theorem runsFrom_instant (time : ℚ) (ts : List (Task ℚ (Job ℚ))) (h : ∀ t ∈ ts, t.job.cost = 0) :
    runsFrom time ts = ts.map fun t => .run t.name time := by
  induction ts with
  | nil => rfl
  | cons t ts ih =>
    rw [runsFrom, h t List.mem_cons_self, add_zero, ih fun u hu => h u (List.mem_cons_of_mem t hu), List.map_cons]

/-- When a pass takes no time and leaves nothing due, the wait behind it goes on to the first time at which a task is due,
and to the bound if that is earlier, where the loop is stopped. -/
theorem Stage.clock_turn {J σ : Type} {w : Work ℚ J σ} {s : Stage ℚ J σ} (hnow : (s.served w).run.now = s.start)
    (hgoing : (s.served w).run.stopped = false) (inTime : s.start ≤ s.run.bound)
    (hnext : ∀ t ∈ (s.turn w).tasks, s.start < t.next) :
    s.start ≤ (s.turn w).start ∧ (s.turn w).start ≤ s.run.bound ∧
      (∀ t ∈ (s.turn w).tasks, (s.turn w).start ≤ t.next) ∧
      ((s.turn w).run.stopped = true →
        (s.turn w).start = s.run.bound ∧ ∀ t ∈ (s.turn w).tasks, (s.turn w).start < t.next) := by
  have hmax : ∀ t ∈ (s.turn w).tasks, max s.start t.next = t.next := fun t ht => max_eq_right (le_of_lt (hnext t ht))
  rcases s.turn_cases w with ⟨-, hclock, hlate⟩ | ⟨hstopped, hbound, ⟨t, ht, hclock⟩, hfirst⟩
  · rw [hnow, max_eq_right inTime] at hclock
    have hstart : (s.turn w).start = s.run.bound := hclock
    have hbehind : ∀ t ∈ (s.turn w).tasks, s.run.bound < t.next := by
      intro t ht
      have h := hlate t ht
      rwa [hnow, hmax t ht] at h
    rw [hstart]
    exact ⟨inTime, le_refl _, fun t ht => le_of_lt (hbehind t ht), fun _ => ⟨rfl, hbehind⟩⟩
  · rw [hnow, hmax t ht] at hclock
    have hstart : (s.turn w).start = t.next := hclock
    rw [hstopped, hgoing]
    refine ⟨hstart ▸ le_of_lt (hnext t ht), hbound, fun u hu => ?_, fun h => Bool.noConfusion h⟩
    have h := hfirst u hu
    rwa [hnow, hmax u hu] at h

/-- A stage in which everything has run that is due up to a time, nothing is late, and which is only stopped at its
bound. -/
structure OnTime (plans : List Plan) (start now : ℚ) (s : Stage ℚ (Job ℚ) Unit) (runs : List (ℚ × Fin plans.length)) :
    Prop where
  timetable : Timetable plans start (some now) runs
  seen : s.run.runs = runs.map (event plans)
  reached : now ≤ s.start
  inTime : s.start ≤ s.run.bound
  ended : s.run.stopped = true → s.start = s.run.bound
  tasks : ∃ task : Fin plans.length → Task ℚ (Job ℚ), s.tasks = (List.finRange plans.length).map task ∧
    ∀ i, (plans.get i).Awaits start now (task i) ∧ s.start ≤ (task i).next ∧
      (s.run.stopped = true → s.start < (task i).next)

/-- A turn runs what is due on the dot. -/
theorem OnTime.turn (h : OnTime plans start now s runs) (instant : ∀ i, (plans.get i).Instant)
    (hgoing : s.run.stopped = false) : ∃ runs', OnTime plans start s.start (s.turn clockwork) runs' := by
  obtain ⟨task, htasks, htask⟩ := h.tasks
  have hjob : ∀ t ∈ s.due, t.job.cost = 0 ∧ t.job.stops = false := by
    intro t ht
    obtain ⟨i, -, rfl⟩ := List.mem_map.1 (htasks ▸ List.mem_of_mem_filter ht)
    have hkind : (task i).job = (plans.get i).job := congrArg (fun k : Text × ℚ × Job ℚ => k.2.2) (htask i).1.kind
    rw [hkind]
    exact ⟨(instant i).cost, (instant i).stops⟩
  obtain ⟨hnow, hstopped⟩ := foldl_fire_instant s.due s.run hjob
  have hserved : (s.turn clockwork).tasks = (List.finRange plans.length).map fun i => (task i).after s.start := by
    rw [Stage.turn, Stage.served, htasks, List.map_map]
    rfl
  have hawaits : ∀ i, (plans.get i).Awaits start s.start ((task i).after s.start) :=
    fun i => (htask i).1.after (instant i) h.reached (htask i).2.1
  have hmem : ∀ i, (task i).after s.start ∈ (s.turn clockwork).tasks := by
    intro i
    rw [hserved]
    exact List.mem_map_of_mem (List.mem_finRange i)
  have hruns : s.runs = (((List.finRange plans.length).filter fun i => (task i).isDue s.start).map
      fun i => (s.start, i)).map (event plans) := by
    rw [Stage.runs, runsFrom_instant _ _ fun t ht => (hjob t ht).1, Stage.due, htasks, List.filter_map, List.map_map,
      List.map_map]
    refine List.map_congr_left fun i _ => ?_
    have hname : (task i).name = (plans.get i).name := congrArg Prod.fst (htask i).1.kind
    rw [Function.comp_apply, hname]
    rfl
  have hnext : ∀ t ∈ (s.turn clockwork).tasks, s.start < t.next := by
    intro t ht
    obtain ⟨i, -, rfl⟩ := List.mem_map.1 (hserved ▸ ht)
    exact (hawaits i).lt_next
  obtain ⟨hreached, hbound, hready, hended⟩ := Stage.clock_turn hnow (hstopped.trans hgoing) h.inTime hnext
  refine ⟨_, ⟨h.timetable.pass instant (fun i => (htask i).1) h.reached fun i => (htask i).2.1, ?_, hreached, ?_, ?_,
    _, hserved, fun i => ⟨hawaits i, hready _ (hmem i), fun hstop => (hended hstop).2 _ (hmem i)⟩⟩⟩
  · rw [Stage.runs_turn, h.seen, hruns, List.map_append]
  · rw [Stage.bound_turn]
    exact hbound
  · rw [Stage.bound_turn]
    exact fun hstop => (hended hstop).1

/-- A loop that begins on time ends on time, at its bound. -/
theorem OnTime.lasts {passes : List (Stage ℚ (Job ℚ) Unit)} (lasts : Lasts clockwork s passes s')
    (h : OnTime plans start now s runs) (instant : ∀ i, (plans.get i).Instant) :
    s'.run.bound = s.run.bound ∧ ∃ now' runs', OnTime plans start now' s' runs' := by
  induction lasts generalizing now runs with
  | stopped => exact ⟨rfl, now, runs, h⟩
  | @turn s _ _ hgoing _ ih =>
    obtain ⟨runs', hturn⟩ := h.turn instant hgoing
    rw [← s.bound_turn (w := clockwork)]
    exact ih hturn

/-- At a bound everything has run that is due up to the bound. -/
theorem OnTime.round {passes : List (Stage ℚ (Job ℚ) Unit)} {bound : ℚ}
    (lasts : Lasts clockwork (s.upTo bound) passes s') (h : OnTime plans start now s runs)
    (instant : ∀ i, (plans.get i).Instant) (hbound : s.start ≤ bound) :
    s'.start = bound ∧ ∃ runs', OnTime plans start bound s'.noted runs' := by
  obtain ⟨task, htasks, htask⟩ := h.tasks
  have hbegun : OnTime plans start now (s.upTo bound) runs :=
    ⟨h.timetable, h.seen, h.reached, hbound, fun hstop => Bool.noConfusion hstop, task, htasks,
      fun i => ⟨(htask i).1, (htask i).2.1, fun hstop => Bool.noConfusion hstop⟩⟩
  obtain ⟨hsame, now', runs', hend⟩ := hbegun.lasts lasts instant
  have hstart : s'.start = bound := (hend.ended lasts.is_stopped).trans hsame
  obtain ⟨task', htasks', htask'⟩ := hend.tasks
  have hbehind : ∀ i, bound < (task' i).next := fun i => hstart ▸ (htask' i).2.2 lasts.is_stopped
  have hreached : now' ≤ bound := hstart ▸ hend.reached
  refine ⟨hstart, runs', ⟨?_, ?_, ge_of_eq hstart, ?_, fun _ => ?_, task', htasks', fun i => ?_⟩⟩
  · have htable := hend.timetable.pass instant (fun i => (htask' i).1) hreached fun i => le_of_lt (hbehind i)
    have hnone : ((List.finRange plans.length).filter fun i => (task' i).isDue bound) = [] := by
      rw [List.filter_eq_nil_iff]
      exact fun i _ hdue => absurd (Task.isDue_iff_le.1 hdue) (not_le.2 (hbehind i))
    rwa [hnone, List.map_nil, List.append_nil] at htable
  · have hnoted : s'.noted.run.runs = s'.run.runs := (Run.runs_of_seen rfl).trans (List.append_nil _)
    rw [hnoted, hend.seen]
  · exact hend.inTime
  · exact hend.ended lasts.is_stopped
  · exact ⟨(htask' i).1.wait (instant i) hreached (hbehind i), (htask' i).2.1, (htask' i).2.2⟩

theorem OnTime.rounds {bounds : List ℚ} {passes : List (Stage ℚ (Job ℚ) Unit)}
    (rounds : Rounds clockwork bounds s passes s') (h : OnTime plans start now s runs)
    (instant : ∀ i, (plans.get i).Instant) (sorted : bounds.Pairwise (· ≤ ·)) (hbounds : ∀ b ∈ bounds, s.start ≤ b) :
    ∃ runs', OnTime plans start (bounds.getLast?.getD now) s' runs' := by
  induction rounds generalizing now runs with
  | nil => exact ⟨runs, h⟩
  | @cons bound bounds s s' s'' _ _ first _ ih =>
    obtain ⟨hstart, runs', hround⟩ := h.round first instant (hbounds bound List.mem_cons_self)
    obtain ⟨hfirst, hrest⟩ := List.pairwise_cons.1 sorted
    have hlater : ∀ b ∈ bounds, s'.noted.start ≤ b := fun b hb => (le_of_eq hstart).trans (hfirst b hb)
    obtain ⟨runs'', hend⟩ := ih hround hrest hlater
    rw [List.getLast?_cons, Option.getD_some]
    exact ⟨runs'', hend⟩

/-- Before any time of any plan a stage with registered tasks is on time. -/
theorem onTime_registered (start : ℚ) (instant : ∀ i, (plans.get i).Instant) :
    OnTime plans start (start - 1) (Stage.registered start plans) [] := by
  have hnever : ∀ i k, ¬(plans.get i).instant start k ≤ start - 1 := by
    intro i k hle
    have hstart : start ≤ (plans.get i).instant start k := (instant i).start_le k
    linarith
  have hnext : ∀ i, ((plans.get i).task start).next = (plans.get i).instant start 0 := by
    intro i
    rw [Plan.instant, Nat.cast_zero, zero_mul, add_zero]
    rfl
  refine ⟨⟨fun time i => ?_, List.Pairwise.nil⟩, rfl, (sub_lt_self start one_pos).le, le_refl start,
    fun hstop => Bool.noConfusion hstop, fun i => (plans.get i).task start, ?_, fun i => ⟨⟨rfl, 0, hnext i, fun j => ?_⟩, ?_,
    fun hstop => Bool.noConfusion hstop⟩⟩
  · refine ⟨fun hmem => absurd hmem List.not_mem_nil, ?_⟩
    rintro ⟨⟨k, rfl⟩, u, hu, hle⟩
    obtain rfl := Option.some.inj hu
    exact absurd hle (hnever i k)
  · have hall : (List.finRange plans.length).map plans.get = plans := List.map_get_finRange plans
    rw [Stage.registered, ← Function.comp_def, ← List.map_map, hall]
  · exact ⟨fun hle => absurd hle (hnever i j), fun hj => absurd hj (Nat.not_lt_zero j)⟩
  · rw [hnext]
    exact (instant i).start_le 0

/-- What is seen of the loops is the timetable up to their last bound. -/
theorem runs_eq_timetable (start : ℚ) (instant : ∀ i, (plans.get i).Instant) {bounds : List ℚ}
    (sorted : bounds.Pairwise (· ≤ ·)) (hbounds : ∀ b ∈ bounds, start ≤ b) :
    let s := Stage.registered start plans
    ∃ runs, Timetable plans start bounds.getLast? runs ∧
      ∃ n, ∀ m, n ≤ m → (loops clockwork m bounds s.tasks s.run).2.runs = runs.map (event plans) := by
  intro s
  cases hlast : bounds.getLast? with
  | none =>
    obtain rfl := List.getLast?_eq_none_iff.1 hlast
    refine ⟨[], ⟨fun time i => ?_, List.Pairwise.nil⟩, 0, fun _ _ => rfl⟩
    refine ⟨fun hmem => absurd hmem List.not_mem_nil, ?_⟩
    rintro ⟨-, u, hu, -⟩
    cases hu
  | some u =>
    have hpos : ∀ t ∈ s.tasks, 0 < t.interval := by
      intro t ht
      obtain ⟨p, hp, rfl⟩ := List.mem_map.1 ht
      obtain ⟨i, rfl⟩ := List.get_of_mem hp
      exact (instant i).interval
    obtain ⟨passes, s', hrounds⟩ := exists_rounds (w := clockwork) bounds hpos
    obtain ⟨runs, hend⟩ := (onTime_registered start instant).rounds hrounds instant sorted hbounds
    rw [hlast, Option.getD_some] at hend
    refine ⟨runs, hend.timetable, passes.length, fun m hm => ?_⟩
    rw [hrounds.loops_eq hm]
    exact hend.seen

end Punctuality

/-- Tasks with positive intervals whose jobs take no time and do not ask to stop, in exact time, and bounds in order from
the start on. What is seen are all times of the tasks up to the last bound, ordered by time and registration. It is the
same for all such bounds with the same last one. -/
theorem is_punctual {plans : List Plan} (instant : ∀ p ∈ plans, p.Instant) (start : ℚ) {bounds : List ℚ}
    (sorted : bounds.Pairwise (· ≤ ·)) (hbounds : ∀ b ∈ bounds, start ≤ b) :
    let s := Stage.registered start plans
    ∃ runs, Timetable plans start bounds.getLast? runs ∧
      ∀ bounds' : List ℚ, bounds'.Pairwise (· ≤ ·) → (∀ b ∈ bounds', start ≤ b) → bounds'.getLast? = bounds.getLast? →
        ∃ n, ∀ m, n ≤ m → (loops clockwork m bounds' s.tasks s.run).2.runs = runs.map (event plans) := by
  intro s
  have hinstant : ∀ i, (plans.get i).Instant := fun i => instant _ (List.get_mem plans i)
  obtain ⟨runs, htable, -⟩ := runs_eq_timetable start hinstant sorted hbounds
  refine ⟨runs, htable, fun bounds' sorted' hbounds' hlast => ?_⟩
  obtain ⟨runs', htable', hseen⟩ := runs_eq_timetable start hinstant sorted' hbounds'
  obtain rfl : runs = runs' := htable.unique (hlast ▸ htable')
  exact hseen

/-- Two tasks, one of them due at once, that meet every six units of time. -/
def instantPlans : List Plan := [⟨"flush", 2, none, ⟨0, false, false⟩⟩, ⟨"sweep", 3, some 0, ⟨0, true, false⟩⟩]

theorem is_punctual_of_two_tasks :
    let s := Stage.registered 1 instantPlans
    (∀ p ∈ instantPlans, p.Instant) ∧ [2, 2, 7].Pairwise (fun a b : ℚ => a ≤ b) ∧ (∀ b ∈ [2, 2, 7], (1 : ℚ) ≤ b) ∧
    ∃ runs, Timetable instantPlans 1 (some 7) runs ∧
      ∃ n, ∀ m, n ≤ m → (loops clockwork m [2, 2, 7] s.tasks s.run).2.runs = runs.map (event instantPlans) ∧
        (loops clockwork m [7] s.tasks s.run).2.runs = runs.map (event instantPlans) := by
  intro s
  have hinstant : ∀ p ∈ instantPlans, p.Instant := by
    intro p hp
    simp only [instantPlans, List.mem_cons, List.not_mem_nil, or_false] at hp
    rcases hp with rfl | rfl
    · exact ⟨by norm_num, fun d hd => absurd hd (by simp), rfl, rfl⟩
    · exact ⟨by norm_num, fun d hd => le_of_eq (Option.some.inj hd), rfl, rfl⟩
  have hsorted : [2, 2, 7].Pairwise (fun a b : ℚ => a ≤ b) := by norm_num
  have hbounds : ∀ b ∈ [2, 2, 7], (1 : ℚ) ≤ b := by norm_num
  obtain ⟨runs, htable, hcuts⟩ := is_punctual hinstant 1 hsorted hbounds
  obtain ⟨n, hn⟩ := hcuts [2, 2, 7] hsorted hbounds rfl
  obtain ⟨n', hn'⟩ := hcuts [7] (List.pairwise_singleton _ _) (by norm_num) rfl
  exact ⟨hinstant, hsorted, hbounds, runs, htable, max n n',
    fun m hm => ⟨hn m ((le_max_left _ _).trans hm), hn' m ((le_max_right _ _).trans hm)⟩⟩

/-- At seven both are due, and run in the order in which they are registered. -/
example :
    let s := Stage.registered 1 instantPlans
    (loops clockwork 6 [2, 2, 7] s.tasks s.run).2.runs =
      [.run "sweep" 1, .run "flush" 3, .run "sweep" 4, .run "flush" 5, .run "flush" 7, .run "sweep" 7] := by
  decide +kernel

end Custody.Schedule
