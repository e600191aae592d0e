import Custody.Proofs.Act

/-! Two runs side by side: acts that end alike in worlds that differ only in what has been reported and sent. -/
namespace Custody
open Audit (Trail)

namespace Act
variable {α β : Type}

/-- Two runs end alike: with the same value or the same failure, and in related worlds. -/
inductive Alike (R : World → World → Prop) :
    EStateM.Result Failure World α → EStateM.Result Failure World α → Prop where
  | ok (x : α) {v w : World} (h : R v w) : Alike R (.ok x v) (.ok x w)
  | error (e : Failure) {v w : World} (h : R v w) : Alike R (.error e v) (.error e w)

/-- Two acts agree if they end alike wherever they begin in related worlds. -/
def Agree (R : World → World → Prop) (a b : Act α) : Prop := ∀ ⦃v w⦄, R v w → Alike R (a v) (b w)

section
variable {R : World → World → Prop} {a b : Act α} {v w : World}

theorem Alike.bind (h : Alike R (a v) (b w)) {f g : α → Act β} (hf : ∀ x, Agree R (f x) (g x)) :
    Alike R ((a >>= f) v) ((b >>= g) w) := by
  generalize hr : a v = r at h
  generalize hs : b w = s at h
  cases h with
  | ok x hR =>
    rw [bind_of_ok hr, bind_of_ok hs]
    exact hf x hR
  | error e hR =>
    rw [bind_of_error hr, bind_of_error hs]
    exact .error e hR

theorem Alike.orElse (h : Alike R (a v) (b w)) {sort : Failure → Bool} {f g : Failure → Act α}
    (hf : ∀ e, Agree R (f e) (g e)) : Alike R (orElse a sort f v) (orElse b sort g w) := by
  generalize hr : a v = r at h
  generalize hs : b w = s at h
  cases h with
  | ok x hR =>
    rw [orElse_of_ok hr, orElse_of_ok hs]
    exact .ok x hR
  | error e hR =>
    cases he : sort e with
    | true =>
      rw [orElse_of_sort hr he, orElse_of_sort hs he]
      exact hf e hR
    | false =>
      rw [orElse_of_not_sort hr he, orElse_of_not_sort hs he]
      exact .error e hR

theorem Alike.result_eq (h : Alike R (a v) (b w)) : b.result w = a.result v := by
  rw [result, result]
  generalize a v = r at h ⊢
  generalize b w = s at h ⊢
  cases h <;> rfl

theorem Alike.after (h : Alike R (a v) (b w)) : R (a.after v) (b.after w) := by
  rw [Act.after, Act.after]
  generalize a v = r at h ⊢
  generalize b w = s at h ⊢
  cases h with
  | ok x hR => exact hR
  | error e hR => exact hR

theorem Alike.returns (h : Alike R (a v) (b w)) (returns : a.Returns v) : b.Returns w := by
  obtain ⟨x, v', hr⟩ := returns
  rw [hr] at h
  generalize hs : b w = s at h
  cases h with
  | ok x hR => exact returns_of_ok hs

namespace Agree

protected theorem bind (h : Agree R a b) {f g : α → Act β} (hf : ∀ x, Agree R (f x) (g x)) :
    Agree R (a >>= f) (b >>= g) := fun _ _ hR => (h hR).bind hf

protected theorem orElse (h : Agree R a b) {sort : Failure → Bool} {f g : Failure → Act α}
    (hf : ∀ e, Agree R (f e) (g e)) : Agree R (orElse a sort f) (orElse b sort g) := fun _ _ hR => (h hR).orElse hf

protected theorem pure (x : α) : Agree R (pure x) (pure x) := fun _ _ hR => .ok x hR

protected theorem throw (e : Failure) : Agree R (throw e : Act α) (throw e) := fun _ _ hR => .error e hR

protected theorem require (r : Except Failure α) : Agree R (require r) (require r) := by
  cases r with
  | ok x => exact .pure x
  | error e => exact .throw e

end Agree

end

end Act

/-- What a world keeps of its past for others: its reports, and the commands that were sent. -/
abbrev Traces := List Record × List Text

/-- Two worlds that differ in nothing but their traces, and these are related. -/
def World.Twins (P : Traces → Traces → Prop) (v w : World) : Prop :=
  ∃ records sent, w = { v with site := { v.site with records, sent } } ∧
    P (v.site.records, v.site.sent) (records, sent)

/-- A relation of traces that holds on when the same thing is reported on both sides. -/
def Reportable (P : Traces → Traces → Prop) : Prop :=
  ∀ r a b s t, P (a, s) (b, t) → P (r :: a, s) (r :: b, t)

namespace Act
open World
variable {α : Type} {P : Traces → Traces → Prop}

theorem agree_get {f g : World → Act α} (h : ∀ v w, Twins P v w → Agree (Twins P) (f v) (g w)) :
    Agree (Twins P) (get >>= f) (get >>= g) := fun v w hT => h v w hT hT

theorem agree_modifyTrail (f : Trail → Trail) : Agree (Twins P) (modifyTrail f) (modifyTrail f) := by
  rintro v w ⟨records, sent, rfl, hP⟩
  exact .ok () ⟨records, sent, rfl, hP⟩

theorem agree_now : Agree (Twins P) now now := by
  rintro v w ⟨records, sent, rfl, hP⟩
  exact .ok v.site.clock.now ⟨records, sent, rfl, hP⟩

theorem agree_onDisk (op : DiskAct α) : Agree (Twins P) (onDisk op) (onDisk op) := by
  rintro v w ⟨records, sent, rfl, hP⟩
  rw [onDisk, onDisk]
  dsimp only
  cases op v.site.disk with
  | ok x d => exact .ok x ⟨records, sent, rfl, hP⟩
  | error e d => exact .error e ⟨records, sent, rfl, hP⟩

theorem agree_report (hP : Reportable P) (level : Level) (reporter : Reporter) (message : String)
    (fields : List (Text × Value)) :
    Agree (Twins P) (report level reporter message fields) (report level reporter message fields) := by
  rintro v w ⟨records, sent, rfl, h⟩
  exact .ok () ⟨⟨level, reporter, message, fields⟩ :: records, sent, rfl, hP _ _ _ _ _ h⟩

end Act

end Custody
