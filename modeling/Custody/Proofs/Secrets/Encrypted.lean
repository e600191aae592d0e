import Custody.Proofs.Secrets.Precedence

/-! Encrypted values: what is encrypted under the master key comes back wherever the master key is at hand. -/
namespace Custody.Secrets
open Act World Environment

variable {w : World} {plain passphrase value : Text}

/-- A source has the master key. -/
def Found (passphrase : Text) (w : World) : Prop :=
  ∃ source, (sources w).value? w.secrets.config.masterKeyVar = some (passphrase, source)

theorem masterKey_of_found (h : Found passphrase w)
    (hadmits : w.site.environment.Admits w.secrets.config.masterKeyVar) : masterKey w = .ok passphrase w := by
  obtain ⟨source, hsome⟩ := h
  exact demand_of_some hadmits hsome

/-- A value stands for a text under a pass phrase: it is marked as encrypted, and wherever the pass phrase is the master
key it is decrypted to the text, also for every key that no source has, just when the environment can be asked for the
names and the trail takes the report. -/
structure StandsFor (config : Config.SecretsSettings) (passphrase value plain : Text) : Prop where
  marked : isEncrypted config.encryptedPrefix (some value) = true
  decrypts : ∀ (w : World) (name : Text), w.secrets.config = config → Found passphrase w →
    ((decryptValue value name).result w = .ok plain ↔ w.site.environment.Admits config.masterKeyVar ∧ Heard w)
  resolves : ∀ (w : World) (key : Text), w.secrets.config = config → Found passphrase w →
    (sources w).value? key = none →
      ((resolve key (some value)).result w = .ok ⟨key, plain, .encryptedConfig⟩ ↔
        w.site.environment.Admits key ∧ w.site.environment.Admits config.masterKeyVar ∧ Heard w)

/-- What is decrypted with the master key that has been found. -/
theorem decryptValue_eq_ok (hfound : Found passphrase w) {name : Text} :
    (decryptValue value name).result w = .ok plain ↔
      Vault.decrypt ((Text.dropPrefix? w.secrets.config.encryptedPrefix value).getD value) passphrase = .ok plain ∧
        w.site.environment.Admits w.secrets.config.masterKeyVar ∧ Heard w := by
  by_cases hmaster : w.site.environment.Admits w.secrets.config.masterKeyVar
  · have hrun : decryptValue value name w = audited .decrypt name (Vault.decrypt
        ((Text.dropPrefix? w.secrets.config.encryptedPrefix value).getD value) passphrase) w := by
      rw [decryptValue, get_bind]
      exact bind_of_ok (masterKey_of_found hfound hmaster)
    rw [result, hrun, and_iff_right hmaster]
    exact audited_eq_ok
  · have hfails : decryptValue value name w = .error .surrogate w := by
      rw [decryptValue, get_bind]
      exact bind_of_error (demand_of_not_admits hmaster)
    rw [result_of_error hfails]
    refine iff_of_false (fun h => ?_) fun h => hmaster h.2.1
    cases h

/-- The lead text before a payload is taken away again, whatever it is. -/
theorem standsFor_of_decrypt {config : Config.SecretsSettings} {payload : Text} (hne : payload ≠ [])
    (h : Vault.decrypt payload passphrase = .ok plain) :
    StandsFor config passphrase (config.encryptedPrefix ++ payload) plain := by
  have hmarked : isEncrypted config.encryptedPrefix (some (config.encryptedPrefix ++ payload)) = true :=
    isEncrypted_some.2 ⟨List.append_ne_nil_of_right_ne_nil _ hne, List.prefix_append _ _⟩
  have hdecrypts : ∀ (w : World) (name : Text), w.secrets.config = config → Found passphrase w →
      ((decryptValue (config.encryptedPrefix ++ payload) name).result w = .ok plain ↔
        w.site.environment.Admits config.masterKeyVar ∧ Heard w) := by
    rintro w name rfl hfound
    rw [decryptValue_eq_ok hfound, Text.dropPrefix?_eq_some.2 rfl, Option.getD_some, and_iff_right h]
  refine ⟨hmarked, hdecrypts, ?_⟩
  rintro w key rfl hfound hnone
  by_cases hkey : w.site.environment.Admits key
  · have hrun := resolve_of_marked hkey hnone hmarked
    rw [← hdecrypts w key rfl hfound, and_iff_right hkey, result, hrun, ← result, result_map]
    cases (decryptValue (w.secrets.config.encryptedPrefix ++ payload) key).result w with
    | error f => exact iff_of_false (fun h => by cases h) fun h => by cases h
    | ok t => simp [Except.map]
  · have hfails : resolve key (some (w.secrets.config.encryptedPrefix ++ payload)) w = .error .surrogate w :=
      bind_of_error (lookup_of_not_admits hkey)
    rw [result_of_error hfails]
    refine iff_of_false (fun h => ?_) fun h => hkey h.1
    cases h

/-- A text without surrogates can be encrypted just when the master key can be asked for and the trail takes the report,
and the value stands for the text. -/
theorem encryptValue_iff (sized : w.site.entropy.WellSized) (hne : plain ≠ []) (hplain : plain.isScalar = true)
    (usable : Vault.Usable passphrase) (hfound : Found passphrase w) (name : Text) :
    (∃ value w', encryptValue plain name w = .ok value w' ∧ StandsFor w.secrets.config passphrase value plain) ↔
      w.site.environment.Admits w.secrets.config.masterKeyVar ∧ Heard w := by
  by_cases hmaster : w.site.environment.Admits w.secrets.config.masterKeyVar
  · obtain ⟨payload, hencrypt, hdecrypt⟩ := Vault.decrypt_encrypt sized usable hne hplain
    have hpayload : payload ≠ [] := by
      rintro rfl
      rw [Vault.decrypt, if_neg usable.ne_nil] at hdecrypt
      cases hdecrypt
    have hrun : encryptValue plain name w = (do
        return w.secrets.config.encryptedPrefix ++ (← audited .encrypt name (.ok payload)) : Act Text) w := by
      rw [encryptValue, bind_of_ok (masterKey_of_found hfound hmaster), get_bind, hencrypt]
    rw [and_iff_right hmaster]
    constructor
    · rintro ⟨value, w', h, -⟩
      by_contra hnot
      obtain ⟨f, w₁, hfails⟩ := audited_of_not_heard hnot .encrypt name (.ok payload)
      rw [hrun, bind_of_error hfails] at h
      cases h
    · intro heard
      obtain ⟨w', haudited⟩ := result_eq_ok.1 (audited_eq_ok.2 ⟨rfl, heard⟩ :
        (audited .encrypt name (.ok payload)).result w = .ok payload)
      exact ⟨_, w', hrun.trans (bind_of_ok haudited), standsFor_of_decrypt hpayload hdecrypt⟩
  · have hfails : encryptValue plain name w = .error .surrogate w := bind_of_error (demand_of_not_admits hmaster)
    refine iff_of_false ?_ fun h => hmaster h.1
    rintro ⟨value, w', h, -⟩
    rw [hfails] at h
    cases h

/-- Loading changes neither the random bytes nor the settings of the secrets. -/
theorem load_keeps {w' : World} (h : load w = .ok () w') : w'.site.entropy = w.site.entropy ∧
    w'.secrets.config = w.secrets.config ∧ w'.secrets.audited = w.secrets.audited := by
  have hstill := still_readFile w
  unfold load at h
  rw [get_bind] at h
  cases hr : readFile w with
  | error f w₁ =>
    rw [bind_of_error hr] at h
    cases h
  | ok file w₁ =>
    rw [after_of_ok hr] at hstill
    rw [bind_of_ok hr] at h
    cases h
    obtain ⟨_, _, _, rfl⟩ := hstill
    exact ⟨rfl, rfl, rfl⟩

end Custody.Secrets
