import Custody.Proofs.Act

/-! Runs of a system: calls in any order, while anything else may happen around it. -/
namespace Custody

/-- A call, and what happens around the system before it. -/
structure Turn (C : Type) where
  meanwhile : Site → Site
  call : C

variable {C : Type}

/-- What happens before the call leaves the disk alone. -/
def Turn.Spares (t : Turn C) : Prop := ∀ s, (t.meanwhile s).disk = s.disk

/-- The world in which a call is made. -/
def Turn.before (t : Turn C) (w : World) : World := { w with site := t.meanwhile w.site }

variable (act : C → Act Unit)

/-- The world after a turn. A failure of the call goes no further. -/
def Turn.take (t : Turn C) (w : World) : World := (act t.call).after (t.before w)

def run (turns : List (Turn C)) (w : World) : World := turns.foldl (fun w t => t.take act w) w

theorem run_append (turns more : List (Turn C)) (w : World) :
    run act (turns ++ more) w = run act more (run act turns w) := List.foldl_append

/-- What every turn keeps holds after all of them. -/
theorem run_induction {P : World → Prop} {turns : List (Turn C)}
    (step : ∀ t ∈ turns, ∀ w, P w → P (t.take act w)) {w : World} (hw : P w) : P (run act turns w) := by
  induction turns generalizing w with
  | nil => exact hw
  | cons t rest ih => exact ih (fun u hu => step u (List.mem_cons_of_mem _ hu)) (step t List.mem_cons_self w hw)

/-- Something holds of every turn of a run and of the world that the turn finds. -/
def Each (P : Turn C → World → Prop) : List (Turn C) → World → Prop
  | [], _ => True
  | t :: rest, w => P t w ∧ Each P rest (t.take act w)

theorem Each.imp {P Q : Turn C → World → Prop} (h : ∀ t w, P t w → Q t w) {turns : List (Turn C)} {w : World}
    (each : Each act P turns w) : Each act Q turns w := by
  induction turns generalizing w with
  | nil => trivial
  | cons t rest ih => exact ⟨h t w each.1, ih each.2⟩

/-- What every turn keeps, if something holds of it and of the world that it finds, holds after all of them. -/
theorem run_each {P : World → Prop} {Q : Turn C → World → Prop} (step : ∀ t w, Q t w → P w → P (t.take act w))
    {turns : List (Turn C)} {w : World} (each : Each act Q turns w) (hw : P w) : P (run act turns w) := by
  induction turns generalizing w with
  | nil => exact hw
  | cons t rest ih => exact ih each.2 (step t w each.1 hw)

/-- A machine with nothing on its disk but a working directory, and with a clock that stands still. -/
def bareSite : Site where
  disk := .empty "work" 0
  environment := ⟨false, []⟩
  clock := (default : Moment)
  uptime := 0.0
  entropy := default
  records := []
  sent := []
  refusals := {}

end Custody
