import Custody.World
import Mathlib.Order.Defs.Unbundled

/-! How acts run, and how a world is told apart from the one it came from. -/
namespace Custody
open Audit (Trail)

namespace Failure
variable {α β : Type}

@[simp]
theorem isSystem_system (e : SystemError) : (Failure.system e).isSystem = true := by
  cases e <;> rfl

theorem bind_eq_ok {ε : Type} {x : Except ε α} {f : α → Except ε β} {r : β} :
    (x >>= f) = .ok r ↔ ∃ a, x = .ok a ∧ f a = .ok r := by
  cases x with
  | error e => exact ⟨nofun, fun ⟨_, h, _⟩ => nomatch h⟩
  | ok a => exact ⟨fun h => ⟨a, rfl, h⟩, fun ⟨_, h, hf⟩ => Except.ok.inj h ▸ hf⟩

theorem bind_eq_error {x : Except Failure α} {f : α → Except Failure β} {e : Failure} :
    (x >>= f) = .error e ↔ x = .error e ∨ ∃ a, x = .ok a ∧ f a = .error e := by
  cases x with
  | error e' =>
    have hb : (Except.error e' >>= f) = .error e' := rfl
    rw [hb, Except.error.injEq, Except.error.injEq]
    exact ⟨Or.inl, fun h => h.elim id fun ⟨_, h, _⟩ => nomatch h⟩
  | ok a =>
    exact ⟨fun h => Or.inr ⟨a, rfl, h⟩, fun h => h.elim nofun fun ⟨_, h, hf⟩ => Except.ok.inj h ▸ hf⟩

theorem map_eq_error {x : Except Failure α} {f : α → β} {e : Failure} : x.map f = .error e ↔ x = .error e := by
  cases x with
  | error e' => rw [Except.map, Except.error.injEq, Except.error.injEq]
  | ok a => exact ⟨nofun, nofun⟩

end Failure

namespace Act
variable {α β : Type}

/-- The world after an act, whether it failed or not. -/
def after (a : Act α) (w : World) : World :=
  match a w with
  | .ok _ w' => w'
  | .error _ w' => w'

/-- What an act gives, or how it fails. -/
def result (a : Act α) (w : World) : Except Failure α :=
  match a w with
  | .ok x _ => .ok x
  | .error e _ => .error e

/-- An act returns in a world if it does not fail there. -/
def Returns (a : Act α) (w : World) : Prop := ∃ x w', a w = .ok x w'

theorem after_of_ok {a : Act α} {w w' : World} {x : α} (h : a w = .ok x w') : a.after w = w' := by
  rw [after, h]

theorem after_of_error {a : Act α} {w w' : World} {e : Failure} (h : a w = .error e w') :
    a.after w = w' := by
  rw [after, h]

theorem result_of_ok {a : Act α} {w w' : World} {x : α} (h : a w = .ok x w') : a.result w = .ok x := by
  rw [result, h]

theorem result_of_error {a : Act α} {w w' : World} {e : Failure} (h : a w = .error e w') :
    a.result w = .error e := by
  rw [result, h]

theorem result_eq_ok {a : Act α} {w : World} {x : α} : a.result w = .ok x ↔ ∃ w', a w = .ok x w' := by
  unfold result
  constructor
  · intro h
    split at h
    · next y w' hy => exact ⟨w', Except.ok.inj h ▸ hy⟩
    · cases h
  · rintro ⟨w', h⟩
    rw [h]

theorem returns_of_ok {a : Act α} {w w' : World} {x : α} (h : a w = .ok x w') : a.Returns w := ⟨x, w', h⟩

theorem not_returns_of_error {a : Act α} {w w' : World} {e : Failure} (h : a w = .error e w') :
    ¬a.Returns w := by
  rintro ⟨x, v, hx⟩
  rw [h] at hx
  cases hx

instance (a : Act α) (w : World) : Decidable (a.Returns w) :=
  match h : a w with
  | .ok _ _ => isTrue (returns_of_ok h)
  | .error _ _ => isFalse (not_returns_of_error h)

theorem bind_of_ok {ε σ : Type} {a : EStateM ε σ α} {f : α → EStateM ε σ β} {s s' : σ} {x : α}
    (h : a s = .ok x s') : (a >>= f) s = f x s' := by
  change EStateM.run a s = _ at h
  change EStateM.run (a >>= f) s = f x s'
  rw [EStateM.run_bind, h]
  rfl

theorem bind_of_error {ε σ : Type} {a : EStateM ε σ α} {f : α → EStateM ε σ β} {s s' : σ} {e : ε}
    (h : a s = .error e s') : (a >>= f) s = .error e s' := by
  change EStateM.run a s = _ at h
  change EStateM.run (a >>= f) s = .error e s'
  rw [EStateM.run_bind, h]

theorem after_bind_of_ok {a : Act α} {f : α → Act β} {w w' : World} {x : α} (h : a w = .ok x w') :
    (a >>= f).after w = (f x).after w' := by
  unfold after
  rw [bind_of_ok h]

/-- Two acts in a row return only if both do. -/
theorem of_bind_eq_ok {ε σ : Type} {a : EStateM ε σ α} {f : α → EStateM ε σ β} {s s' : σ} {y : β}
    (h : (a >>= f) s = .ok y s') : ∃ x t, a s = .ok x t ∧ f x t = .ok y s' := by
  cases ha : a s with
  | ok x t =>
    rw [bind_of_ok ha] at h
    exact ⟨x, t, rfl, h⟩
  | error e t =>
    rw [bind_of_error ha] at h
    cases h

/-- What is made of the result of an act leaves the world after it as it is. -/
theorem after_map (f : α → β) (a : Act α) (w : World) : (do return f (← a) : Act β).after w = a.after w := by
  cases h : a w with
  | ok x w' =>
    have hrun : (do return f (← a) : Act β) w = .ok (f x) w' := bind_of_ok h
    rw [after_of_ok h, after_of_ok hrun]
  | error e w' =>
    have hrun : (do return f (← a) : Act β) w = .error e w' := bind_of_error h
    rw [after_of_error h, after_of_error hrun]

theorem after_forget (a : Act α) (w : World) : (do let _ ← a : Act Unit).after w = a.after w :=
  after_map (fun _ => ()) a w

theorem result_map (f : α → β) (a : Act α) (w : World) :
    (do return f (← a) : Act β).result w = (a.result w).map f := by
  cases h : a w with
  | ok x w' =>
    have hrun : (do return f (← a) : Act β) w = .ok (f x) w' := bind_of_ok h
    rw [result_of_ok h, result_of_ok hrun]
    rfl
  | error e w' =>
    have hrun : (do return f (← a) : Act β) w = .error e w' := bind_of_error h
    rw [result_of_error h, result_of_error hrun]
    rfl

theorem get_bind {ε σ : Type} (f : σ → EStateM ε σ β) (s : σ) :
    ((get : EStateM ε σ σ) >>= f) s = f s s := rfl

theorem modifyTrail_bind (g : Trail → Trail) (f : Unit → Act β) (w : World) :
    (modifyTrail g >>= f) w = f () { w with trail := g w.trail } := rfl

theorem modifySite_bind (g : Site → Site) (f : Unit → Act β) (w : World) :
    (modifySite g >>= f) w = f () { w with site := g w.site } := rfl

theorem now_bind (f : Moment → Act β) (w : World) :
    (now >>= f) w = f w.site.clock.now { w with site := { w.site with clock := w.site.clock.next } } := rfl

theorem after_now_bind (f : Moment → Act β) (w : World) : (now >>= f).after w =
    (f w.site.clock.now).after { w with site := { w.site with clock := w.site.clock.next } } := rfl

theorem onDisk_ok {op : DiskAct α} {w : World} {x : α} {d : Disk} (h : op w.site.disk = .ok x d) :
    onDisk op w = .ok x { w with site := { w.site with disk := d } } := by
  rw [onDisk, h]

theorem onDisk_error {op : DiskAct α} {w : World} {e : Failure} {d : Disk} (h : op w.site.disk = .error e d) :
    onDisk op w = .error e { w with site := { w.site with disk := d } } := by
  rw [onDisk, h]

theorem require_ok (x : α) (w : World) : require (.ok x) w = .ok x w := rfl

theorem require_error (e : Failure) (w : World) : (require (.error e) : Act α) w = .error e w := rfl

theorem orElse_of_ok {a : Act α} {sort : Failure → Bool} {b : Failure → Act α} {w w' : World} {x : α}
    (h : a w = .ok x w') : orElse a sort b w = .ok x w' := by
  rw [orElse, h]

theorem orElse_of_sort {a : Act α} {sort : Failure → Bool} {b : Failure → Act α} {w w' : World}
    {e : Failure} (h : a w = .error e w') (he : sort e = true) : orElse a sort b w = b e w' := by
  rw [orElse, h]
  exact if_pos he

theorem orElse_of_not_sort {a : Act α} {sort : Failure → Bool} {b : Failure → Act α} {w w' : World}
    {e : Failure} (h : a w = .error e w') (he : sort e = false) : orElse a sort b w = .error e w' := by
  rw [orElse, h]
  exact if_neg (by simp [he])

/-- An act keeps a relation if the world after it, whether it failed or not, is related to the one before. -/
def Keeps (R : World → World → Prop) (a : Act α) : Prop := ∀ w, R w (a.after w)

namespace Keeps
variable {R S : World → World → Prop} {a : Act α}

theorem mono (ha : Keeps R a) (h : ∀ {w w'}, R w w' → S w w') : Keeps S a := fun w => h (ha w)

theorem modifyTrail {g : Trail → Trail} (h : ∀ w : World, R w { w with trail := g w.trail }) :
    Keeps R (modifyTrail g) := h

theorem modifySite {g : Site → Site} (h : ∀ w : World, R w { w with site := g w.site }) : Keeps R (modifySite g) := h

section Preorder
variable [IsPreorder World R]

protected theorem pure (x : α) : Keeps R (pure x : Act α) := fun w => refl_of R w

protected theorem throw (e : Failure) : Keeps R (throw e : Act α) := fun w => refl_of R w

protected theorem get : Keeps R (get : Act World) := fun w => refl_of R w

protected theorem require (r : Except Failure α) : Keeps R (require r) := by
  cases r with
  | ok x => exact .pure x
  | error e => exact .throw e

/-- What keeps a relation keeps it behind any act. -/
theorem after_bind {f : α → Act β} (hf : ∀ x, Keeps R (f x)) (a : Act α) (w : World) :
    R (a.after w) ((a >>= f).after w) := by
  cases h : a w with
  | error e w' =>
    rw [after_of_error h, after_of_error (bind_of_error h)]
    exact refl_of R w'
  | ok x w' =>
    rw [after_of_ok h, after_bind_of_ok h]
    exact hf x w'

theorem after_orElse {b : Failure → Act α} (hb : ∀ e, Keeps R (b e)) (a : Act α) (sort : Failure → Bool) (w : World) :
    R (a.after w) ((orElse a sort b).after w) := by
  cases h : a w with
  | ok x w' =>
    rw [after_of_ok h, after_of_ok (orElse_of_ok h)]
    exact refl_of R w'
  | error e w' =>
    rw [after_of_error h]
    cases hs : sort e with
    | false =>
      rw [after_of_error (orElse_of_not_sort h hs)]
      exact refl_of R w'
    | true =>
      have hthen : (orElse a sort b).after w = (b e).after w' := by
        unfold after
        rw [orElse_of_sort h hs]
      rw [hthen]
      exact hb e w'

protected theorem bind (ha : Keeps R a) {f : α → Act β} (hf : ∀ x, Keeps R (f x)) : Keeps R (a >>= f) :=
  fun w => trans_of R (ha w) (after_bind hf a w)

protected theorem orElse (ha : Keeps R a) {sort : Failure → Bool} {b : Failure → Act α}
    (hb : ∀ e, Keeps R (b e)) : Keeps R (orElse a sort b) :=
  fun w => trans_of R (ha w) (after_orElse hb a sort w)

end Preorder

end Keeps

end Act

namespace World

/-- A later world has a given trail and disk. Between the two, things may have been reported, the clock
may have been read, and attempts to open a file may have been used up; nothing else differs. -/
def Becomes (w : World) (t : Trail) (d : Disk) (w' : World) : Prop :=
  ∃ (clock : Clock) (records : List Record) (refusals : Refusals),
    w' = { w with trail := t, site := { w.site with disk := d, clock, records, refusals } }

namespace Becomes
variable {w w' w'' : World} {t t' : Trail} {d d' : Disk}

theorem refl (w : World) : w.Becomes w.trail w.site.disk w := ⟨_, _, _, rfl⟩

theorem trail (h : w.Becomes t d w') : w'.trail = t := by
  obtain ⟨_, _, _, rfl⟩ := h
  rfl

theorem disk (h : w.Becomes t d w') : w'.site.disk = d := by
  obtain ⟨_, _, _, rfl⟩ := h
  rfl

theorem secrets (h : w.Becomes t d w') : w'.secrets = w.secrets := by
  obtain ⟨_, _, _, rfl⟩ := h
  rfl

theorem environment (h : w.Becomes t d w') : w'.site.environment = w.site.environment := by
  obtain ⟨_, _, _, rfl⟩ := h
  rfl

theorem sent (h : w.Becomes t d w') : w'.site.sent = w.site.sent := by
  obtain ⟨_, _, _, rfl⟩ := h
  rfl

theorem trans (h : w.Becomes t d w') (h' : w'.Becomes t' d' w'') : w.Becomes t' d' w'' := by
  obtain ⟨_, _, _, rfl⟩ := h
  obtain ⟨c, r, f, rfl⟩ := h'
  exact ⟨c, r, f, rfl⟩

theorem clock (h : w.Becomes t d w') (c : Clock) :
    w.Becomes t d { w' with site := { w'.site with clock := c } } := by
  obtain ⟨_, r, f, rfl⟩ := h
  exact ⟨c, r, f, rfl⟩

theorem refusals (h : w.Becomes t d w') (f : Refusals) :
    w.Becomes t d { w' with site := { w'.site with refusals := f } } := by
  obtain ⟨c, r, _, rfl⟩ := h
  exact ⟨c, r, f, rfl⟩

theorem setTrail (h : w.Becomes t d w') (t' : Trail) : w.Becomes t' d { w' with trail := t' } := by
  obtain ⟨c, r, f, rfl⟩ := h
  exact ⟨c, r, f, rfl⟩

theorem setDisk (h : w.Becomes t d w') (d' : Disk) :
    w.Becomes t d' { w' with site := { w'.site with disk := d' } } := by
  obtain ⟨c, r, f, rfl⟩ := h
  exact ⟨c, r, f, rfl⟩

/-- Reporting changes neither the trail nor the disk. -/
theorem report (h : w.Becomes t d w') (level : Level) (reporter : Reporter) (message : String)
    (fields : List (Text × Value)) :
    ∃ v, Act.report level reporter message fields w' = .ok () v ∧ w.Becomes t d v := by
  obtain ⟨c, r, f, rfl⟩ := h
  exact ⟨_, rfl, c, _, f, rfl⟩

end Becomes

/-- Nothing but the disk and what was reported sets a later world apart. -/
def Tidied (w : World) (d : Disk) (w' : World) : Prop :=
  ∃ records, w' = { w with site := { w.site with disk := d, records } }

namespace Tidied
variable {w w' w'' : World} {d d' : Disk}

theorem refl (w : World) : w.Tidied w.site.disk w := ⟨_, rfl⟩

theorem trans (h : w.Tidied d w') (h' : w'.Tidied d' w'') : w.Tidied d' w'' := by
  obtain ⟨_, rfl⟩ := h
  obtain ⟨r, rfl⟩ := h'
  exact ⟨r, rfl⟩

theorem trail (h : w.Tidied d w') : w'.trail = w.trail := by
  obtain ⟨_, rfl⟩ := h
  rfl

theorem disk (h : w.Tidied d w') : w'.site.disk = d := by
  obtain ⟨_, rfl⟩ := h
  rfl

theorem refusals (h : w.Tidied d w') : w'.site.refusals = w.site.refusals := by
  obtain ⟨_, rfl⟩ := h
  rfl

theorem report (h : w.Tidied d w') (level : Level) (reporter : Reporter) (message : String)
    (fields : List (Text × Value)) :
    ∃ v, Act.report level reporter message fields w' = .ok () v ∧ w.Tidied d v := by
  obtain ⟨r, rfl⟩ := h
  exact ⟨_, rfl, _, rfl⟩

theorem clock (h : w.Tidied d w') : w'.site.clock = w.site.clock := by
  obtain ⟨_, rfl⟩ := h
  rfl

theorem becomes (h : w.Tidied d w') : w.Becomes w.trail d w' := by
  obtain ⟨r, rfl⟩ := h
  exact ⟨_, r, _, rfl⟩

end Tidied

/-- The clock has not been read in between. -/
def SameClock (w w' : World) : Prop := w'.site.clock = w.site.clock

instance : IsPreorder World SameClock where
  refl _ := rfl
  trans _ _ _ h h' := Eq.trans h' h

theorem sameClock_onDisk {α : Type} (op : DiskAct α) : (Act.onDisk op).Keeps SameClock := by
  intro w
  cases h : op w.site.disk with
  | ok x d => rw [Act.after_of_ok (Act.onDisk_ok h)]; rfl
  | error e d => rw [Act.after_of_error (Act.onDisk_error h)]; rfl

/-- Nothing but reports, the clock and the refusals of the machine sets a later world apart. -/
def Still (w w' : World) : Prop := w.Becomes w.trail w.site.disk w'

instance : IsPreorder World Still where
  refl := Becomes.refl
  trans w w' w'' h h' := by
    unfold Still at h'
    rw [h.trail, h.disk] at h'
    exact h.trans h'

theorem still_report (level : Level) (reporter : Reporter) (message : String) (fields : List (Text × Value)) :
    (Act.report level reporter message fields).Keeps Still := by
  intro w
  obtain ⟨w', h, hb⟩ := (Becomes.refl w).report level reporter message fields
  rw [Act.after_of_ok h]
  exact hb

end World

end Custody
