import Custody.Proofs.Schedule.Passes
import Mathlib.Algebra.Order.BigOperators.Group.List
import Mathlib.Data.Rat.Floor
import Mathlib.Tactic.FieldSimp
import Mathlib.Tactic.Linarith

/-! A schedule keeps its pace, in exact time: every loop ends, no task runs before its time, and however late the passes
are, no task runs much more often in a span of time than its interval allows. -/
namespace Custody.Schedule

section Advance
variable {J : Type} {t : Task ℚ J} {start : ℚ}

theorem Task.isDue_iff_le : t.isDue start = true ↔ t.next ≤ start := Task.isDue_iff.trans not_lt

theorem Task.start_le_advance (hpos : 0 < t.interval) : start ≤ (t.advance start).next := by
  rw [Task.advance]
  dsimp only
  split
  · linarith
  · next h => exact not_lt.1 h

theorem Task.next_add_le_advance (hdue : t.next ≤ start) : t.next + t.interval ≤ (t.advance start).next := by
  rw [Task.advance]
  dsimp only
  split
  · linarith
  · exact le_refl _

theorem Task.next_le_after (hpos : 0 < t.interval) : t.next ≤ (t.after start).next := by
  cases hdue : t.isDue start with
  | true =>
    rw [Task.after_of_due hdue]
    have h := Task.next_add_le_advance (Task.isDue_iff_le.1 hdue)
    linarith
  | false => rw [Task.after_of_not_due hdue]

/-- What a pass leaves as it is in a task. -/
def Task.kind (t : Task ℚ J) : Text × ℚ × J := (t.name, t.interval, t.job)

theorem Task.kind_after (t : Task ℚ J) (start : ℚ) : (t.after start).kind = t.kind := by
  rw [Task.after]
  split <;> rfl

theorem Task.interval_after (t : Task ℚ J) (start : ℚ) : (t.after start).interval = t.interval :=
  congrArg (fun k : Text × ℚ × J => k.2.1) (t.kind_after start)

end Advance

section Turn
variable {J σ : Type} {w : Work ℚ J σ}

theorem bound_foldl_fire (w : Work ℚ J σ) (ts : List (Task ℚ J)) (r : Run ℚ σ) :
    (ts.foldl (fun r t => r.fire w t) r).bound = r.bound := by
  induction ts generalizing r with
  | nil => rfl
  | cons t ts ih => exact ih (r.fire w t)

private theorem foldl_least (ts : List (Task ℚ J)) (least : ℚ) :
    let m := ts.foldl (fun least u => if u.next < least then u.next else least) least
    (m = least ∨ ∃ t ∈ ts, t.next = m) ∧ m ≤ least ∧ ∀ t ∈ ts, m ≤ t.next := by
  induction ts generalizing least with
  | nil => exact ⟨Or.inl rfl, le_refl _, fun t ht => absurd ht List.not_mem_nil⟩
  | cons t ts ih =>
    rw [List.foldl_cons]
    obtain ⟨hmem, hle, hall⟩ := ih (if t.next < least then t.next else least)
    have hmin : (if t.next < least then t.next else least) ≤ least ∧
        (if t.next < least then t.next else least) ≤ t.next := by
      split
      · next h => exact ⟨le_of_lt h, le_refl _⟩
      · next h => exact ⟨le_refl _, not_lt.1 h⟩
    refine ⟨?_, hle.trans hmin.1, List.forall_mem_cons.2 ⟨hle.trans hmin.2, hall⟩⟩
    rcases hmem with hmem | ⟨u, hu, hnext⟩
    · by_cases h : t.next < least
      · rw [if_pos h] at hmem ⊢
        exact Or.inr ⟨t, List.mem_cons_self, hmem.symm⟩
      · rw [if_neg h] at hmem ⊢
        exact Or.inl hmem
    · exact Or.inr ⟨u, List.mem_cons_of_mem t hu, hnext⟩

private theorem earliest?_eq_some {ts : List (Task ℚ J)} {first : ℚ} (h : earliest? ts = some first) :
    (∃ t ∈ ts, t.next = first) ∧ ∀ t ∈ ts, first ≤ t.next := by
  cases ts with
  | nil => cases h
  | cons t ts =>
    obtain ⟨hmem, hle, hall⟩ := foldl_least ts t.next
    obtain rfl := Option.some.inj h
    refine ⟨?_, List.forall_mem_cons.2 ⟨hle, hall⟩⟩
    rcases hmem with hmem | ⟨u, hu, hnext⟩
    · exact ⟨t, List.mem_cons_self, hmem.symm⟩
    · exact ⟨u, List.mem_cons_of_mem t hu, hnext⟩

private theorem add_pause (now first : ℚ) :
    now + (if 0 < first - now then first - now else 0) = max now first := by
  split
  · next h => rw [max_eq_right (by linarith)]; ring
  · next h => rw [max_eq_left (by linarith), add_zero]

/-- How the wait behind a pass ends: at the bound, which stops the loop, if no task is due before; else at the time of
the first task, or at once if that is past. -/
theorem Stage.turn_cases (w : Work ℚ J σ) (s : Stage ℚ J σ) :
    ((s.turn w).run.stopped = true ∧ (s.turn w).run.now = max (s.served w).run.now s.run.bound ∧
      ∀ t ∈ (s.turn w).tasks, s.run.bound < max (s.served w).run.now t.next) ∨
    ((s.turn w).run.stopped = (s.served w).run.stopped ∧ (s.turn w).run.now ≤ s.run.bound ∧
      (∃ t ∈ (s.turn w).tasks, (s.turn w).run.now = max (s.served w).run.now t.next) ∧
      ∀ t ∈ (s.turn w).tasks, (s.turn w).run.now ≤ max (s.served w).run.now t.next) := by
  have hbound : (s.served w).run.bound = s.run.bound := bound_foldl_fire w s.due s.run
  have hlate : (if (s.served w).run.now < (s.served w).run.bound then (s.served w).run.bound
      else (s.served w).run.now) = max (s.served w).run.now s.run.bound := by
    rw [← hbound]
    split
    · next h => exact (max_eq_right (le_of_lt h)).symm
    · next h => exact (max_eq_left (not_lt.1 h)).symm
  cases hfirst : earliest? (s.served w).tasks with
  | none =>
    have hpause : (s.served w).pause = none := by rw [Stage.pause, hfirst]; rfl
    have htasks : (s.served w).tasks = [] := by
      cases htasks : (s.served w).tasks with
      | nil => rfl
      | cons t ts => rw [htasks] at hfirst; cases hfirst
    left
    rw [Stage.turn, hpause, htasks]
    exact ⟨rfl, hlate, fun t ht => absurd ht List.not_mem_nil⟩
  | some first =>
    obtain ⟨⟨t, ht, hnext⟩, hall⟩ := earliest?_eq_some hfirst
    have hpause : (s.served w).pause =
        some (if 0 < first - (s.served w).run.now then first - (s.served w).run.now else 0) := by
      rw [Stage.pause, hfirst]
      rfl
    rw [Stage.turn, hpause, Run.wait]
    dsimp only
    rw [add_pause, hbound]
    by_cases h : s.run.bound < max (s.served w).run.now first
    · left
      rw [if_pos h, ← hbound]
      refine ⟨rfl, hbound ▸ hlate, fun u hu => ?_⟩
      rw [hbound]
      exact lt_of_lt_of_le h (max_le_max (le_refl _) (hall u hu))
    · right
      rw [if_neg h]
      exact ⟨rfl, not_lt.1 h, ⟨t, ht, by rw [hnext]⟩, fun u hu => max_le_max (le_refl _) (hall u hu)⟩

theorem Stage.bound_turn (s : Stage ℚ J σ) : (s.turn w).run.bound = s.run.bound := by
  have hwait : ∀ (r : Run ℚ σ) (time : Option ℚ), (r.wait time).bound = r.bound := by
    intro r time
    cases time with
    | none => rfl
    | some t =>
      rw [Run.wait]
      dsimp only
      split <;> rfl
  exact (hwait _ _).trans (bound_foldl_fire w s.due s.run)

theorem Stage.kinds_turn (s : Stage ℚ J σ) : (s.turn w).tasks.map Task.kind = s.tasks.map Task.kind := by
  rw [Stage.turn, Stage.served, List.map_map]
  exact List.map_congr_left fun t _ => t.kind_after s.start

end Turn

section Ends
variable {J σ : Type} {w : Work ℚ J σ}

/-- How often a task can run up to a bound. -/
def Task.left (bound : ℚ) (t : Task ℚ J) : ℕ :=
  if t.next ≤ bound then ⌊(bound - t.next) / t.interval⌋₊ + 1 else 0

theorem Task.left_after_lt {t : Task ℚ J} {start bound : ℚ} (hpos : 0 < t.interval) (hdue : t.next ≤ start)
    (hbound : t.next ≤ bound) : (t.after start).left bound < t.left bound := by
  have hnext := Task.next_add_le_advance hdue
  rw [Task.after_of_due (Task.isDue_iff_le.2 hdue), Task.left, Task.left, if_pos hbound]
  have hinterval : (t.advance start).interval = t.interval := rfl
  split
  · next h =>
    have hone : 1 ≤ (bound - t.next) / t.interval := by
      rw [le_div_iff₀ hpos]
      linarith
    have hstep : (bound - (t.advance start).next) / t.interval ≤ (bound - t.next) / t.interval - 1 := by
      rw [div_le_iff₀ hpos, sub_mul, div_mul_cancel₀ _ (ne_of_gt hpos)]
      linarith
    have hfloor : ⌊(bound - (t.advance start).next) / t.interval⌋₊ ≤ ⌊(bound - t.next) / t.interval⌋₊ - 1 := by
      rw [← Nat.floor_sub_one]
      exact Nat.floor_le_floor hstep
    have hpositive : 1 ≤ ⌊(bound - t.next) / t.interval⌋₊ := (Nat.one_le_floor_iff _).2 hone
    rw [hinterval]
    omega
  · exact Nat.succ_pos _

theorem Task.left_after_le {t : Task ℚ J} (hpos : 0 < t.interval) (start bound : ℚ) :
    (t.after start).left bound ≤ t.left bound := by
  cases hdue : t.isDue start with
  | false => rw [Task.after_of_not_due hdue]
  | true =>
    by_cases hbound : t.next ≤ bound
    · exact le_of_lt (Task.left_after_lt hpos (Task.isDue_iff_le.1 hdue) hbound)
    · have hnext : t.next ≤ (t.after start).next := Task.next_le_after hpos
      rw [Task.left, if_neg fun h => hbound (hnext.trans h)]
      exact Nat.zero_le _

/-- How many runs there can be before a loop reaches its bound. -/
def Stage.left (s : Stage ℚ J σ) : ℕ := (s.tasks.map (Task.left s.run.bound)).sum

theorem Stage.left_turn_lt {s : Stage ℚ J σ} (hpos : ∀ t ∈ s.tasks, 0 < t.interval)
    (hready : ∃ t ∈ s.tasks, t.next ≤ s.start) (hbound : s.start ≤ s.run.bound) : (s.turn w).left < s.left := by
  obtain ⟨t, ht, hdue⟩ := hready
  rw [Stage.left, Stage.left, Stage.bound_turn, Stage.turn, Stage.served, List.map_map]
  refine List.sum_lt_sum _ _ (fun u hu => Task.left_after_le (hpos u hu) _ _) ⟨t, ht, ?_⟩
  exact Task.left_after_lt (hpos t ht) hdue (hdue.trans hbound)

/-- A turn stops the loop, or there is a task that is due in time behind it. -/
theorem Stage.ready_turn (s : Stage ℚ J σ) : (s.turn w).run.stopped = true ∨
    (∃ t ∈ (s.turn w).tasks, t.next ≤ (s.turn w).start) ∧ (s.turn w).start ≤ (s.turn w).run.bound := by
  rw [Stage.bound_turn]
  rcases s.turn_cases w with ⟨hstopped, -⟩ | ⟨-, hbound, ⟨t, ht, hnow⟩, -⟩
  · exact Or.inl hstopped
  · exact Or.inr ⟨⟨t, ht, (le_max_right _ _).trans (ge_of_eq hnow)⟩, hbound⟩

theorem pos_of_kinds {ts ts' : List (Task ℚ J)} (h : ts'.map Task.kind = ts.map Task.kind)
    (hpos : ∀ t ∈ ts, 0 < t.interval) : ∀ t ∈ ts', 0 < t.interval := by
  intro t ht
  obtain ⟨u, hu, hkind⟩ := List.mem_map.1 (h ▸ List.mem_map_of_mem (f := Task.kind) ht)
  have hinterval : u.interval = t.interval := congrArg (fun k : Text × ℚ × J => k.2.1) hkind
  exact hinterval ▸ hpos u hu

/-- The measure of a loop is the number of runs that are left to it: every pass in which a task is due takes one away. -/
theorem exists_lasts_of_ready (n : ℕ) {s : Stage ℚ J σ} (hpos : ∀ t ∈ s.tasks, 0 < t.interval)
    (hready : ∃ t ∈ s.tasks, t.next ≤ s.start) (hbound : s.start ≤ s.run.bound) (hn : s.left ≤ n) :
    ∃ passes s', Lasts w s passes s' := by
  induction n generalizing s with
  | zero =>
    have hless : (s.turn w).left < s.left := Stage.left_turn_lt hpos hready hbound
    omega
  | succ n ih =>
    cases hstopped : s.run.stopped with
    | true => exact ⟨[], s, .stopped hstopped⟩
    | false =>
      have hless : (s.turn w).left < s.left := Stage.left_turn_lt hpos hready hbound
      rcases s.ready_turn (w := w) with hend | ⟨hready', hbound'⟩
      · exact ⟨[s], s.turn w, .turn hstopped (.stopped hend)⟩
      · obtain ⟨passes, s', h⟩ := ih (pos_of_kinds s.kinds_turn hpos) hready' hbound' (by omega)
        exact ⟨s :: passes, s', .turn hstopped h⟩

/-- Every loop ends. -/
theorem exists_lasts {s : Stage ℚ J σ} (hpos : ∀ t ∈ s.tasks, 0 < t.interval) : ∃ passes s', Lasts w s passes s' := by
  cases hstopped : s.run.stopped with
  | true => exact ⟨[], s, .stopped hstopped⟩
  | false =>
    rcases s.ready_turn (w := w) with hend | ⟨hready, hbound⟩
    · exact ⟨[s], s.turn w, .turn hstopped (.stopped hend)⟩
    · obtain ⟨passes, s', h⟩ := exists_lasts_of_ready _ (pos_of_kinds s.kinds_turn hpos) hready hbound (le_refl _)
      exact ⟨s :: passes, s', .turn hstopped h⟩

variable {s s' : Stage ℚ J σ} {passes : List (Stage ℚ J σ)}

theorem Lasts.kinds (h : Lasts w s passes s') :
    (∀ p ∈ passes, p.tasks.map Task.kind = s.tasks.map Task.kind) ∧ s'.tasks.map Task.kind = s.tasks.map Task.kind := by
  induction h with
  | stopped => exact ⟨fun p hp => absurd hp List.not_mem_nil, rfl⟩
  | turn _ _ ih =>
    rw [Stage.kinds_turn] at ih
    exact ⟨List.forall_mem_cons.2 ⟨rfl, ih.1⟩, ih.2⟩

theorem Rounds.kinds {bounds : List ℚ} (h : Rounds w bounds s passes s') :
    (∀ p ∈ passes, p.tasks.map Task.kind = s.tasks.map Task.kind) ∧ s'.tasks.map Task.kind = s.tasks.map Task.kind := by
  induction h with
  | nil => exact ⟨fun p hp => absurd hp List.not_mem_nil, rfl⟩
  | cons first _ ih =>
    have hsame : (Stage.noted _).tasks.map Task.kind = (Stage.upTo _ _).tasks.map Task.kind := first.kinds.2
    rw [hsame] at ih
    exact ⟨List.forall_mem_append.2 ⟨first.kinds.1, ih.1⟩, ih.2⟩

theorem exists_rounds (bounds : List ℚ) (hpos : ∀ t ∈ s.tasks, 0 < t.interval) :
    ∃ passes s', Rounds w bounds s passes s' := by
  induction bounds generalizing s with
  | nil => exact ⟨[], s, .nil⟩
  | cons bound bounds ih =>
    obtain ⟨passes, s', first⟩ := exists_lasts (w := w) (s := s.upTo bound) hpos
    obtain ⟨later, s'', rest⟩ := ih (s := s'.noted) (pos_of_kinds first.kinds.2 hpos)
    exact ⟨passes ++ later, s'', .cons first rest⟩

end Ends

section Windows
variable {J σ : Type} {w : Work ℚ J σ} {a length : ℚ}

/-- A bound for the runs of a task in the passes that begin in a span of time from `a` on. A first run may be long overdue;
after it the next run is not due before `a`, and every run moves it on by an interval at least. -/
def Task.room (a length : ℚ) (t : Task ℚ J) : ℚ :=
  if t.next < a then length / t.interval + 2 else max 0 ((a + length - t.next) / t.interval + 1)

theorem Task.room_nonneg {t : Task ℚ J} (hpos : 0 < t.interval) (hlength : 0 ≤ length) : 0 ≤ t.room a length := by
  have hspan : 0 ≤ length / t.interval := div_nonneg hlength (le_of_lt hpos)
  rw [Task.room]
  split
  · linarith
  · exact le_max_left _ _

theorem Task.room_of_le {t : Task ℚ J} (hpos : 0 < t.interval) {next : ℚ} (ha : a ≤ next)
    (hnext : next ≤ t.next) : t.room a length ≤ max 0 ((a + length - next) / t.interval + 1) := by
  rw [Task.room, if_neg (not_lt.2 (ha.trans hnext))]
  refine max_le_max (le_refl 0) (add_le_add_left ?_ 1)
  exact (div_le_div_iff_of_pos_right hpos).2 (by linarith)

theorem Task.room_le {t : Task ℚ J} (hpos : 0 < t.interval) (hlength : 0 ≤ length) :
    t.room a length ≤ length / t.interval + 2 := by
  have hspan : 0 ≤ length / t.interval := div_nonneg hlength (le_of_lt hpos)
  by_cases h : t.next < a
  · rw [Task.room, if_pos h]
  · refine (Task.room_of_le hpos (le_refl a) (not_lt.1 h)).trans (max_le (by linarith) ?_)
    rw [add_sub_cancel_left]
    linarith

/-- A later next run leaves no more room. -/
theorem Task.room_after_le {t : Task ℚ J} (hpos : 0 < t.interval) (hlength : 0 ≤ length) (start : ℚ) :
    (t.after start).room a length ≤ t.room a length := by
  have hpos' : 0 < (t.after start).interval := (t.interval_after start).symm ▸ hpos
  by_cases h : t.next < a
  · rw [Task.room.eq_def a length t, if_pos h, ← t.interval_after start]
    exact Task.room_le hpos' hlength
  · rw [Task.room.eq_def a length t, if_neg h, ← t.interval_after start]
    exact Task.room_of_le hpos' (not_lt.1 h) (Task.next_le_after hpos)

/-- A run in the span takes one away from the room. -/
theorem Task.room_after_add_one {t : Task ℚ J} {start : ℚ} (hpos : 0 < t.interval) (hlength : 0 ≤ length)
    (hdue : t.next ≤ start) (ha : a ≤ start) (hend : start ≤ a + length) :
    (t.after start).room a length + 1 ≤ t.room a length := by
  have hinterval : (t.after start).interval = t.interval := t.interval_after start
  have hpos' : 0 < (t.after start).interval := hinterval.symm ▸ hpos
  have hafter : t.after start = t.advance start := Task.after_of_due (Task.isDue_iff_le.2 hdue)
  have hspan : 0 ≤ length / t.interval := div_nonneg hlength (le_of_lt hpos)
  by_cases h : t.next < a
  · have hstart : start ≤ (t.after start).next := hafter ▸ Task.start_le_advance hpos
    have hroom : (t.after start).room a length ≤ max 0 ((a + length - a) / (t.after start).interval + 1) :=
      Task.room_of_le hpos' (le_refl a) (ha.trans hstart)
    rw [hinterval, add_sub_cancel_left, max_eq_right (by linarith)] at hroom
    rw [Task.room.eq_def a length t, if_pos h]
    linarith
  · have hnext : t.next + t.interval ≤ (t.after start).next := hafter ▸ Task.next_add_le_advance hdue
    have hroom : (t.after start).room a length ≤
        max 0 ((a + length - (t.next + t.interval)) / (t.after start).interval + 1) :=
      Task.room_of_le hpos' (by linarith) hnext
    have hrest : 0 ≤ (a + length - t.next) / t.interval := div_nonneg (by linarith) (le_of_lt hpos)
    have hstep : (a + length - (t.next + t.interval)) / t.interval + 1 = (a + length - t.next) / t.interval := by
      field_simp
      ring
    rw [hinterval, hstep, max_eq_right hrest] at hroom
    rw [Task.room.eq_def a length t, if_neg h, max_eq_right (by linarith)]
    linarith

namespace Stage

/-- Whether the task with a number runs in the next pass. -/
def runsTask (i : ℕ) (s : Stage ℚ J σ) : Bool := s.tasks[i]?.any (Task.isDue s.start)

def runsTaskIn (a length : ℚ) (i : ℕ) (s : Stage ℚ J σ) : Bool :=
  s.runsTask i && decide (a ≤ s.start) && decide (s.start ≤ a + length)

private theorem getElem?_turn {s : Stage ℚ J σ} {i : ℕ} {t : Task ℚ J} (ht : s.tasks[i]? = some t) :
    (s.turn w).tasks[i]? = some (t.after s.start) := by
  rw [turn, served, List.getElem?_map, ht]
  rfl

/-- What one pass does to the room of a task. -/
theorem room_turn {s : Stage ℚ J σ} {i : ℕ} {t : Task ℚ J} (ht : s.tasks[i]? = some t) (hpos : 0 < t.interval)
    (hlength : 0 ≤ length) :
    (if s.runsTaskIn a length i then 1 else 0) + (t.after s.start).room a length ≤ t.room a length := by
  split
  · next h =>
    simp only [runsTaskIn, runsTask, ht, Option.any_some, Bool.and_eq_true, decide_eq_true_eq] at h
    rw [add_comm]
    exact Task.room_after_add_one hpos hlength (Task.isDue_iff_le.1 h.1.1) h.1.2 h.2
  · rw [zero_add]
    exact Task.room_after_le hpos hlength s.start

end Stage

variable {s s' : Stage ℚ J σ} {passes : List (Stage ℚ J σ)} {i : ℕ} {t : Task ℚ J}

/-- What a loop does to the room of a task: the runs in the span have taken it away. -/
theorem Lasts.room (h : Lasts w s passes s') (ht : s.tasks[i]? = some t) (hpos : 0 < t.interval) (hlength : 0 ≤ length) :
    ∃ t', s'.tasks[i]? = some t' ∧ t'.interval = t.interval ∧
      (passes.countP (Stage.runsTaskIn a length i) : ℚ) + t'.room a length ≤ t.room a length := by
  induction h generalizing t with
  | stopped => exact ⟨t, ht, rfl, by simp⟩
  | @turn s _ passes _ _ ih =>
    have hpos' : 0 < (t.after s.start).interval := (t.interval_after s.start).symm ▸ hpos
    obtain ⟨t', ht', hinterval, hroom⟩ := ih (Stage.getElem?_turn ht) hpos'
    refine ⟨t', ht', hinterval.trans (t.interval_after s.start), ?_⟩
    have hstep := Stage.room_turn (a := a) ht hpos hlength
    rw [List.countP_cons]
    push_cast
    linarith

theorem Rounds.room {bounds : List ℚ} (h : Rounds w bounds s passes s') (ht : s.tasks[i]? = some t) (hpos : 0 < t.interval)
    (hlength : 0 ≤ length) :
    ∃ t', s'.tasks[i]? = some t' ∧ t'.interval = t.interval ∧
      (passes.countP (Stage.runsTaskIn a length i) : ℚ) + t'.room a length ≤ t.room a length := by
  induction h generalizing t with
  | nil => exact ⟨t, ht, rfl, by simp⟩
  | cons first _ ih =>
    obtain ⟨t', ht', hinterval, hroom⟩ := first.room (a := a) (t := t) ht hpos hlength
    obtain ⟨t'', ht'', hinterval', hroom'⟩ := ih (t := t') ht' (hinterval.symm ▸ hpos)
    refine ⟨t'', ht'', hinterval'.trans hinterval, ?_⟩
    rw [List.countP_append]
    push_cast
    linarith

/-- However late the passes are, a task runs at most twice more in a span of time than its interval fits in there. -/
theorem Rounds.countP_le {bounds : List ℚ} (h : Rounds w bounds s passes s') (ht : s.tasks[i]? = some t)
    (hpos : 0 < t.interval) (hlength : 0 ≤ length) :
    (passes.countP (Stage.runsTaskIn a length i) : ℚ) ≤ length / t.interval + 2 := by
  obtain ⟨t', -, hinterval, hroom⟩ := h.room (a := a) ht hpos hlength
  have hrest : 0 ≤ t'.room a length := Task.room_nonneg (hinterval.symm ▸ hpos) hlength
  have hall : t.room a length ≤ length / t.interval + 2 := Task.room_le hpos hlength
  linarith

end Windows

section Plans

/-- What is given of a task when it is registered. -/
structure Plan where
  name : Text
  interval : ℚ
  delay : Option ℚ
  job : Job ℚ

def Plan.task (start : ℚ) (p : Plan) : Task ℚ (Job ℚ) := Task.start start p.name p.interval p.delay p.job

/-- The stage at a time when tasks have been registered and no loop has run. -/
def Stage.registered (start : ℚ) (plans : List Plan) : Stage ℚ (Job ℚ) Unit :=
  ⟨plans.map (Plan.task start), ⟨start, start, false, [], ()⟩⟩

def Job.tame (j : Job ℚ) : Job ℚ := { j with fails := false }

def Plan.tame (p : Plan) : Plan := { p with job := p.job.tame }

private theorem task_tame (start : ℚ) (p : Plan) : p.tame.task start = (p.task start).map Job.tame := rfl

/-- A failure goes no further than the task that fails. -/
theorem fire_tame (t : Task ℚ (Job ℚ)) (r : Run ℚ Unit) : r.fire clockwork (t.map Job.tame) = r.fire clockwork t := rfl

/-- Plans that are the same but for their failures show the same and leave the same times. -/
theorem loops_of_tame {plans plans' : List Plan} (h : plans'.map Plan.tame = plans.map Plan.tame) (start : ℚ) (n : ℕ)
    (bounds : List ℚ) :
    let s := Stage.registered start plans
    let s' := Stage.registered start plans'
    (loops clockwork n bounds s'.tasks s'.run).2 = (loops clockwork n bounds s.tasks s.run).2 ∧
    (loops clockwork n bounds s'.tasks s'.run).1.map Task.next = (loops clockwork n bounds s.tasks s.run).1.map Task.next := by
  intro s s'
  have htasks : s'.tasks.map (Task.map Job.tame) = s.tasks.map (Task.map Job.tame) := by
    have hmap := congrArg (List.map (Plan.task start)) h
    simp only [List.map_map, Function.comp_def, task_tame] at hmap
    simp only [s, s', Stage.registered, List.map_map, Function.comp_def]
    exact hmap
  have hloops : loops clockwork n bounds (s.tasks.map (Task.map Job.tame)) s.run =
      ((loops clockwork n bounds s.tasks s.run).1.map (Task.map Job.tame), (loops clockwork n bounds s.tasks s.run).2) :=
    loops_map fire_tame n bounds s.tasks s.run
  rw [← htasks, loops_map fire_tame] at hloops
  obtain ⟨hnext, hrun⟩ := Prod.mk.inj hloops
  refine ⟨hrun, ?_⟩
  have hnext' := congrArg (List.map Task.next) hnext
  rw [List.map_map, List.map_map] at hnext'
  exact hnext'

end Plans

/-- Tasks with positive intervals, in exact time. However much time their jobs take, whatever fails or asks to stop, and
whatever the bounds: every loop ends after some number of passes, and any larger number of them allowed is the same. What
is seen of it are the runs of the passes, one after the other. In each of them the tasks that are due when it begins run,
and only these, each once and in the order in which they are registered. In a span of time no task runs in more of the
passes that begin there than twice and once for every interval. Failures do not show. -/
theorem keeps_pace {plans : List Plan} (positive : ∀ p ∈ plans, 0 < p.interval) (start : ℚ) (bounds : List ℚ) :
    let s := Stage.registered start plans
    (∃ passes s', Rounds clockwork bounds s passes s' ∧
      (∀ n, passes.length ≤ n → loops clockwork n bounds s.tasks s.run = (s'.tasks, s'.run)) ∧
      s'.run.runs = passes.flatMap (fun p => runsFrom p.start p.due) ∧
      (∀ p ∈ passes, p.tasks.map Task.kind = s.tasks.map Task.kind ∧
        p.due = p.tasks.filter (fun t => decide (t.next ≤ p.start))) ∧
      ∀ i plan a length, plans[i]? = some plan → 0 ≤ length →
        (passes.countP (Stage.runsTaskIn a length i) : ℚ) ≤ length / plan.interval + 2) ∧
    ∀ plans', plans'.map Plan.tame = plans.map Plan.tame → ∀ n,
      let s' := Stage.registered start plans'
      (loops clockwork n bounds s'.tasks s'.run).2 = (loops clockwork n bounds s.tasks s.run).2 ∧
      (loops clockwork n bounds s'.tasks s'.run).1.map Task.next =
        (loops clockwork n bounds s.tasks s.run).1.map Task.next := by
  intro s
  have hpos : ∀ t ∈ s.tasks, 0 < t.interval := by
    intro t ht
    obtain ⟨p, hp, rfl⟩ := List.mem_map.1 ht
    exact positive p hp
  obtain ⟨passes, s', hrounds⟩ := exists_rounds (w := clockwork) bounds hpos
  refine ⟨⟨passes, s', hrounds, fun n hn => hrounds.loops_eq hn, hrounds.runs, fun p hp => ?_,
    fun i plan a length hplan hlength => ?_⟩, fun plans' h n => loops_of_tame h start n bounds⟩
  · refine ⟨hrounds.kinds.1 p hp, List.filter_congr fun t _ => ?_⟩
    rw [Bool.eq_iff_iff, Task.isDue_iff_le, decide_eq_true_iff]
  · have ht : (plans.map (Plan.task start))[i]? = some (plan.task start) := by
      rw [List.getElem?_map, hplan]
      rfl
    have hinterval : (plan.task start).interval = plan.interval := rfl
    rw [← hinterval]
    exact hrounds.countP_le ht (hpos _ (List.mem_of_getElem? ht)) hlength

/-- A task that is due at once and takes longer than its interval, and one that fails and asks to stop. -/
def latePlans : List Plan := [⟨"late", 1, some 0, ⟨5 / 2, false, false⟩⟩, ⟨"stop", 3, none, ⟨0, true, true⟩⟩]

theorem keeps_pace_of_late_task :
    let s := Stage.registered 0 latePlans
    (∀ p ∈ latePlans, 0 < p.interval) ∧
    ∃ passes s', Rounds clockwork [2, 8] s passes s' ∧
      s'.run.runs = passes.flatMap (fun p => runsFrom p.start p.due) ∧
      (passes.countP (Stage.runsTaskIn 0 3 0) : ℚ) ≤ 5 := by
  intro s
  have hpos : ∀ p ∈ latePlans, 0 < p.interval := by
    intro p hp
    simp only [latePlans, List.mem_cons, List.not_mem_nil, or_false] at hp
    rcases hp with rfl | rfl <;> norm_num
  obtain ⟨⟨passes, s', hrounds, -, hruns, -, hcount⟩, -⟩ := keeps_pace hpos 0 [2, 8]
  refine ⟨hpos, passes, s', hrounds, hruns, ?_⟩
  refine (hcount 0 _ 0 3 rfl (by norm_num)).trans ?_
  norm_num

/-- The late task runs whenever it can. The other one is due at three, runs in the pass that begins at five, when the
late task has run there, and ends the loop. -/
example :
    let s := Stage.registered 0 latePlans
    (loops clockwork 5 [8] s.tasks s.run).2.runs =
      [.run "late" 0, .run "late" (5 / 2), .run "late" 5, .run "stop" (15 / 2)] := by
  decide +kernel

end Custody.Schedule
