import Custody.Proofs.Act
import Custody.Secrets.Lookup

/-! Lookups and loads: what they leave alone. -/
namespace Custody.Secrets
open Act World

theorem still_readFile : readFile.Keeps Still := by
  unfold readFile
  refine .bind .get fun w => ?_
  cases w.secrets.config.secretsFile with
  | none => exact .pure _
  | some p =>
    refine .bind (.require _) fun present => ?_
    cases present with
    | false => exact .bind (still_report _ _ _ _) fun _ => .pure _
    | true =>
      rw [if_pos rfl]
      split
      · exact .bind (still_report _ _ _ _) fun _ => .pure _
      · split
        · exact .bind (still_report _ _ _ _) fun _ => .pure _
        · exact .throw _

/-- A load ends with other secrets, or fails before it has changed any. -/
theorem load_cases (w : World) :
    (∃ s w', load w = .ok () w' ∧ s.loaded = true ∧ w'.trail = w.trail ∧ w'.site.disk = w.site.disk ∧
      w'.secrets = s) ∨
    (∃ f w', load w = .error f w' ∧ w.Still w') := by
  have hstill := still_readFile w
  unfold load
  rw [get_bind]
  cases h : readFile w with
  | ok file w₁ =>
    rw [after_of_ok h] at hstill
    exact Or.inl ⟨_, _, bind_of_ok h, rfl, hstill.trail, hstill.disk, rfl⟩
  | error f w₁ =>
    rw [after_of_error h] at hstill
    exact Or.inr ⟨f, w₁, bind_of_error h, hstill⟩

section Lookups
variable {R : World → World → Prop} [IsPreorder World R]

theorem keeps_lookup (key : Text) : (lookup key).Keeps R := .bind .get fun _ => .require _

theorem keeps_get? (key : Text) : (get? key).Keeps R := .bind (keeps_lookup key) fun _ => .pure _

theorem keeps_demand (key : Text) : (demand key).Keeps R := by
  refine .bind (keeps_get? key) fun found => ?_
  cases found with
  | none => exact .throw _
  | some v => exact .pure v

theorem keeps_missing (keys : List Text) : (missing keys).Keeps R := by
  induction keys with
  | nil => exact .pure _
  | cons key rest ih => exact .bind (keeps_get? key) fun _ => .bind ih fun _ => .pure _

theorem keeps_validate (keys : List Text) : (validate keys).Keeps R := by
  refine .bind (keeps_missing keys) fun names => ?_
  cases names with
  | nil => exact .pure _
  | cons name rest => exact .throw _

theorem keeps_masterKey : masterKey.Keeps R := .bind .get fun _ => keeps_demand _

section Ciphers
variable {key : Text} (hlog : ∀ (action : Audit.Action) (success : Bool),
  (Audit.log (.encryption (Audit.named action) (.ofText key) (.bool success))).Keeps R)
include hlog

/-- Nothing that a report to the trail keeps is changed by what is audited. -/
theorem keeps_audited (action : Audit.Action) (r : Except Failure Text) : (audited action key r).Keeps R := by
  have hcipher : ∀ success, (auditCipher action key success).Keeps R := by
    intro success
    refine .bind .get fun w => ?_
    split
    · exact hlog _ _
    · exact .pure _
  exact .bind (.orElse (.require r) fun e => .bind (hcipher false) fun _ => .throw e) fun t =>
    .bind (hcipher true) fun _ => .pure t

theorem keeps_decryptValue (value : Text) : (decryptValue value key).Keeps R :=
  .bind .get fun _ => .bind keeps_masterKey fun _ => keeps_audited hlog _ _

theorem keeps_encryptValue (plain : Text) : (encryptValue plain key).Keeps R :=
  .bind keeps_masterKey fun _ => .bind .get fun _ => .bind (keeps_audited hlog _ _) fun _ => .pure _

theorem keeps_resolve (hreport : ∀ level reporter message fields, (report level reporter message fields).Keeps R)
    (configured : Option Text) : (resolve key configured).Keeps R := by
  refine .bind (keeps_lookup key) fun found => ?_
  cases found with
  | some found => exact .pure _
  | none =>
    dsimp only
    split
    · exact .throw _
    · refine .bind (.bind .get fun _ => .pure _) fun encrypted => ?_
      split
      · exact .bind (keeps_decryptValue hlog _) fun _ => .pure _
      · exact .bind (hreport _ _ _ _) fun _ => .pure _

end Ciphers

end Lookups

end Custody.Secrets
