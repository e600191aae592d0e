import Custody.Proofs.Audit.Reporting
import Custody.Proofs.Secrets.Precedence
import Custody.Proofs.Turns

/-! Every encryption and decryption is on record, whether it is done or refused. -/
namespace Custody

namespace Vault

theorem encrypt_eq_error {e : Entropy} {plain passphrase : Text} {f : Failure}
    (h : encrypt e plain passphrase = .error f) : f.isSecurity = true := by
  unfold encrypt at h
  split at h
  · cases h
    rfl
  rcases Failure.bind_eq_error.1 h with hcheck | ⟨_, -, h⟩
  · unfold checkPassphrase at hcheck
    split_ifs at hcheck <;> cases hcheck <;> rfl
  · split at h
    · cases h
    · cases h
      rfl

/-- Only a well-formed payload gets as far as a pass phrase that has no encoding. -/
theorem decrypt_eq_surrogate {payload passphrase : Text} : decrypt payload passphrase = .error .surrogate ↔
    (∃ p, Payload.parse payload = .ok p) ∧ passphrase.isScalar = false := by
  unfold decrypt
  by_cases hempty : passphrase = []
  · rw [if_pos hempty, hempty]
    refine iff_of_false (fun h => ?_) fun h => ?_
    · cases h
    · cases h.2
  rw [if_neg hempty]
  cases hp : Payload.parse payload with
  | error e => simp
  | ok p =>
    cases hscalar : passphrase.isScalar with
    | false => simp [Utf8.encode?, hscalar]
    | true =>
      rw [Utf8.encode?_of_isScalar hscalar]
      refine iff_of_false (fun h => ?_) fun h => ?_
      · dsimp only at h
        split at h
        · cases h
        · split at h <;> cases h
      · cases h.2

end Vault

namespace Secrets
open Act World

/-- What is done with the cipher under the master key. -/
inductive Operation where
  | encrypt (plain : Text)
  | decrypt (value : Text)

namespace Operation

def action : Operation → Audit.Action
  | encrypt _ => .encrypt
  | decrypt _ => .decrypt

def act (key : Text) : Operation → Act Text
  | encrypt plain => encryptValue plain key
  | decrypt value => decryptValue value key

/-- What the cipher makes of an operation under a pass phrase. -/
def outcome (passphrase : Text) (w : World) : Operation → Except Failure Text
  | encrypt plain => Vault.encrypt w.site.entropy plain passphrase
  | decrypt value =>
    Vault.decrypt ((Text.dropPrefix? w.secrets.config.encryptedPrefix value).getD value) passphrase

end Operation

/-- An entry that tells of an operation on a key, and how it ended. -/
structure Tells (action : Audit.Action) (key : Text) (outcome : Audit.Outcome) (e : Audit.Entry) : Prop where
  event : e.event = .encryption
  action : e.action = action
  resource : e.resource = .text key
  result : e.result = outcome

/-- An operation is on record: it returns, or it is refused for reasons of security, and in either case the only thing
that happens to the trail is that it takes one entry, which tells of it. -/
inductive Recorded (action : Audit.Action) (key : Text) (w : World) : EStateM.Result Failure World Text → Prop where
  | returned (t : Text) (e : Audit.Entry) (w' : World) (tells : Tells action key .success e)
      (trail : w'.trail = w.trail.enter e) : Recorded action key w (.ok t w')
  | refused (f : Failure) (e : Audit.Entry) (w' : World) (security : f.isSecurity = true)
      (tells : Tells action key .failure e) (trail : w'.trail = w.trail.enter e) : Recorded action key w (.error f w')

/-- With the master key at hand an operation is on record. Without it that is what the operation fails for, and the
trail stays as it is. -/
structure Accountable (op : Operation) (key : Text) (w : World) : Prop where
  recorded : ∀ passphrase, masterKey.result w = .ok passphrase → Recorded op.action key w (op.act key w)
  missing : ∀ f, masterKey.result w = .error f →
    ∃ w', op.act key w = .error (.missingSecrets [w.secrets.config.masterKeyVar]) w' ∧ w'.trail = w.trail

variable {w : World} {key passphrase : Text} {op : Operation}

private theorem auditCipher_running (audited : w.secrets.audited = true) (running : w.trail.phase = .running)
    (action : Audit.Action) (key : Text) (success : Bool) :
    ∃ e w', auditCipher action key success w = .ok () w' ∧ Tells action key (.of success) e ∧
      w'.trail = w.trail.enter e := by
  obtain ⟨now, e, w', he, h, hb⟩ :=
    Audit.log_running running (Audit.words_encryption action (.ofText key) success)
  rw [(Audit.words_encryption action (.ofText key) success).entry] at he
  rw [auditCipher, get_bind, if_pos audited]
  refine ⟨e, w', h, ?_, hb.trail⟩
  cases he
  constructor <;> rfl

theorem audited_recorded (audited : w.secrets.audited = true) (running : w.trail.phase = .running)
    (action : Audit.Action) (key : Text) {r : Except Failure Text} (h : ∀ f, r = .error f → f.isSecurity = true) :
    Recorded action key w (Secrets.audited action key r w) := by
  unfold Secrets.audited
  cases r with
  | ok t =>
    obtain ⟨e, w', hcipher, htells, htrail⟩ := auditCipher_running audited running action key true
    rw [bind_of_ok (orElse_of_ok (require_ok t w)), bind_of_ok hcipher]
    exact .returned t e w' htells htrail
  | error f =>
    obtain ⟨e, w', hcipher, htells, htrail⟩ := auditCipher_running audited running action key false
    have hrefused : (auditCipher action key false >>= fun _ => throw f : Act Text) w = .error f w' :=
      bind_of_ok hcipher
    rw [bind_of_error ((orElse_of_sort (require_error f w) (h f rfl)).trans hrefused)]
    exact .refused f e w' (h f rfl) htells htrail

/-- A failure of any other kind goes past the trail. -/
theorem audited_escaped {f : Failure} (h : f.isSecurity = false) (action : Audit.Action) (key : Text) (w : World) :
    audited action key (.error f) w = .error f w := by
  unfold audited
  apply bind_of_error
  exact orElse_of_not_sort (require_error f w) h

/-- An operation runs the cipher under the master key, and audits it. -/
theorem act_of_masterKey (h : masterKey w = .ok passphrase w) (op : Operation) (key : Text) :
    ∃ finish : Text → Text, op.act key w =
      (do return finish (← audited op.action key (op.outcome passphrase w)) : Act Text) w := by
  cases op with
  | encrypt plain =>
    refine ⟨(w.secrets.config.encryptedPrefix ++ ·), ?_⟩
    rw [Operation.act, encryptValue, bind_of_ok h, get_bind]
    rfl
  | decrypt value =>
    refine ⟨id, ?_⟩
    rw [Operation.act, decryptValue, get_bind, bind_of_ok h]
    exact (congrFun (bind_pure _) w).symm

theorem act_of_no_masterKey {f : Failure} (h : masterKey w = .error f w) (op : Operation) (key : Text) :
    op.act key w = .error f w := by
  cases op with
  | encrypt plain => exact bind_of_error h
  | decrypt value =>
    rw [Operation.act, decryptValue, get_bind]
    exact bind_of_error h

/-- Looking up the master key leaves the world as it is. -/
theorem masterKey_of_result (h : masterKey.result w = .ok passphrase) : masterKey w = .ok passphrase w := by
  obtain ⟨w', hw⟩ := result_eq_ok.1 h
  rcases demand_cases w.secrets.config.masterKeyVar w with ⟨v, hv⟩ | ⟨f, hf⟩
  · have hsame : masterKey w = .ok v w := hv
    rw [hsame] at hw ⊢
    cases hw
    rfl
  · have hsame : masterKey w = .error f w := hf
    rw [hsame] at hw
    cases hw

theorem Recorded.map {action : Audit.Action} {a : Act Text} (h : Recorded action key w (a w)) (finish : Text → Text) :
    Recorded action key w ((do return finish (← a) : Act Text) w) := by
  generalize hr : a w = r at h
  cases h with
  | returned t e w' htells htrail =>
    rw [bind_of_ok hr]
    exact .returned (finish t) e w' htells htrail
  | refused f e w' hsecurity htells htrail =>
    rw [bind_of_error hr]
    exact .refused f e w' hsecurity htells htrail

/-- An operation whose cipher gets as far as to encode a pass phrase that has no encoding: a decryption. -/
theorem outcome_not_security {f : Failure} (h : op.outcome passphrase w = .error f) (hf : f.isSecurity = false) :
    f = .surrogate ∧ ∃ value, op = .decrypt value := by
  cases op with
  | encrypt plain =>
    rw [Vault.encrypt_eq_error h] at hf
    cases hf
  | decrypt value =>
    rcases Vault.decrypt_eq_error h with rfl | hs
    · exact ⟨rfl, value, rfl⟩
    · rw [hs] at hf
      cases hf

/-- What the master key has to be for a decryption to be on record: if the value holds a payload, it has an encoding. -/
def Encodable (op : Operation) (w : World) : Prop :=
  ∀ value passphrase p, op = .decrypt value → masterKey.result w = .ok passphrase →
    Payload.parse ((Text.dropPrefix? w.secrets.config.encryptedPrefix value).getD value) = .ok p →
    passphrase.isScalar = true

section Running
variable (audited : w.secrets.audited = true) (running : w.trail.phase = .running)

include audited running in
theorem recorded_of_encodable (hkey : masterKey w = .ok passphrase w) (h : Encodable op w) (key : Text) :
    Recorded op.action key w (op.act key w) := by
  obtain ⟨finish, hact⟩ := act_of_masterKey hkey op key
  rw [hact]
  apply Recorded.map
  apply audited_recorded audited running
  intro f hf
  by_contra hnot
  obtain ⟨rfl, value, rfl⟩ := outcome_not_security hf (Bool.eq_false_iff.2 hnot)
  obtain ⟨⟨p, hp⟩, hscalar⟩ := Vault.decrypt_eq_surrogate.1 hf
  rw [h value passphrase p rfl (result_of_ok hkey) hp] at hscalar
  cases hscalar

theorem encodable_of_recorded (h : ∀ passphrase, masterKey.result w = .ok passphrase →
    Recorded op.action key w (op.act key w)) : Encodable op w := by
  rintro value passphrase p rfl hkey hp
  by_contra hnot
  have hfails : Operation.outcome passphrase w (.decrypt value) = .error .surrogate :=
    Vault.decrypt_eq_surrogate.2 ⟨⟨p, hp⟩, Bool.eq_false_iff.2 hnot⟩
  have hrecorded := h passphrase hkey
  obtain ⟨finish, hact⟩ := act_of_masterKey (masterKey_of_result hkey) (.decrypt value) key
  rw [hact, hfails, bind_of_error (audited_escaped rfl _ key w)] at hrecorded
  cases hrecorded with
  | refused f e w' hsecurity => cases hsecurity

/-- Without the master key the operation ends in the failure of its lookup, which is the right one if the environment
can be asked for it. -/
theorem missing_of_admits (h : w.site.environment.Admits w.secrets.config.masterKeyVar) {f : Failure}
    (hf : masterKey.result w = .error f) (op : Operation) (key : Text) :
    op.act key w = .error (.missingSecrets [w.secrets.config.masterKeyVar]) w := by
  apply act_of_no_masterKey
  cases hv : (sources w).value? w.secrets.config.masterKeyVar with
  | none => exact demand_of_none h hv
  | some found =>
    have hkey : masterKey w = .ok found.1 w := demand_of_some h hv
    rw [result_of_ok hkey] at hf
    cases hf

theorem admits_of_missing (h : Accountable op key w) :
    w.site.environment.Admits w.secrets.config.masterKeyVar := by
  by_contra hnot
  have hkey : masterKey w = .error .surrogate w := demand_of_not_admits hnot
  obtain ⟨w', hact, -⟩ := h.missing .surrogate (result_of_error hkey)
  rw [act_of_no_masterKey hkey] at hact
  cases hact

include audited running in
/-- Every operation is accounted for, as long as the environment can be asked for the master key and a decryption does not
get a pass phrase that has no encoding. -/
theorem accountable_iff (op : Operation) (key : Text) : Accountable op key w ↔
    w.site.environment.Admits w.secrets.config.masterKeyVar ∧ Encodable op w := by
  constructor
  · intro h
    exact ⟨admits_of_missing h, encodable_of_recorded h.recorded⟩
  · rintro ⟨hadmits, hencodable⟩
    constructor
    · intro passphrase hkey
      exact recorded_of_encodable audited running (masterKey_of_result hkey) hencodable key
    · intro f hf
      exact ⟨w, missing_of_admits hadmits hf op key, rfl⟩

end Running

/-- With a master key the processes' environment can be asked for, both operations are on record. -/
theorem accountable_of_key :
    let w := Audit.start.after ⟨{ bareSite with environment := ⟨true, [("MAIL_FACTORY_MASTER_KEY", "correct horse")]⟩ },
      { config := {} }, { config := {}, audited := true }⟩
    w.secrets.audited = true ∧ w.trail.phase = .running ∧ Accountable (.encrypt "swordfish") "db" w ∧
      Accountable (.decrypt "encrypted:x") "db" w := by
  intro w
  have audited : w.secrets.audited = true := by decide +kernel
  have running : w.trail.phase = .running := by decide +kernel
  have hadmits : w.site.environment.Admits w.secrets.config.masterKeyVar := fun _ => by decide +kernel
  have hkey : masterKey.result w = .ok "correct horse" := by decide +kernel
  have hscalar : Text.isScalar "correct horse" = true := by decide +kernel
  have hencodable (op : Operation) : Encodable op w := by
    intro value passphrase p hop hpassphrase hp
    rw [hkey] at hpassphrase
    cases hpassphrase
    exact hscalar
  refine ⟨audited, running, ?_, ?_⟩
  · apply (accountable_iff audited running _ _).2
    exact ⟨hadmits, hencodable _⟩
  · apply (accountable_iff audited running _ _).2
    exact ⟨hadmits, hencodable _⟩

/-- Two operations that are not accounted for: a decryption under a pass phrase without an encoding, which an escape in
the file of secrets can write, and one where the name of the master key has none and the processes' environment is asked
for it. -/
theorem unaccountable :
    let lone : Text := [⟨0xD800, by decide⟩]
    let payload : Text := "AAECAwQFBgcICQoLDA0ODw==:AAECAwQFBgcICQoL:F3GoGxCTSuMxpRdE5CddtrYPwpFYP/pBfw=="
    let file : Properties := [("MAIL_FACTORY_MASTER_KEY", "correct horse" ++ lone)]
    let keyed := Audit.start.after ⟨{ bareSite with environment := ⟨true, []⟩ },
      { config := {} }, { config := {}, audited := true, file, loaded := true }⟩
    let nameless := Audit.start.after ⟨{ bareSite with environment := ⟨true, []⟩ },
      { config := {} }, { config := { masterKeyVar := lone }, audited := true }⟩
    Properties.parse "MAIL_FACTORY_MASTER_KEY=correct horse\\ud800" = .ok file ∧
      keyed.trail.phase = .running ∧ ¬Accountable (.decrypt ("encrypted:" ++ payload)) "db" keyed ∧
      nameless.trail.phase = .running ∧ ¬Accountable (.decrypt "encrypted:x") "db" nameless := by
  intro lone payload file keyed nameless
  have hparse : (Payload.parse payload).toBool = true := by decide +kernel
  refine ⟨by decide +kernel, by decide +kernel, ?_, by decide +kernel, ?_⟩
  · intro h
    have hkey : masterKey.result keyed = .ok ("correct horse" ++ lone) := by decide +kernel
    have hvalue : (Text.dropPrefix? keyed.secrets.config.encryptedPrefix ("encrypted:" ++ payload)).getD
        ("encrypted:" ++ payload) = payload := by decide +kernel
    have hscalar : Text.isScalar ("correct horse" ++ lone) = false := by decide +kernel
    cases hp : Payload.parse payload with
    | error e =>
      rw [hp] at hparse
      cases hparse
    | ok p =>
      have hencoded := encodable_of_recorded h.recorded _ _ p rfl hkey ((congrArg Payload.parse hvalue).trans hp)
      rw [hscalar] at hencoded
      cases hencoded
  · intro h
    have hname : ¬nameless.site.environment.Admits nameless.secrets.config.masterKeyVar := by
      intro hadmits
      have hprocess : nameless.site.environment.ofProcess = true := by decide +kernel
      have hencodable := hadmits hprocess
      revert hencodable
      decide +kernel
    exact hname (admits_of_missing h)

end Secrets

end Custody
