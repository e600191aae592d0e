import Custody.Proofs.Docker.Confinement
import Custody.Proofs.Secrets.Encrypted

/-! A password on its way: it is encrypted, found again among the credentials, and sent to the remote host. -/
namespace Custody.Docker
open Act World Secrets Shell

variable {remote : Remote} {c d : Credentials} {w w' : World} {p plain passphrase username registry : Text}

def AlwaysSucceeds (remote : Remote) : Prop := ∀ sent command, ∃ output, remote sent command = .ok ⟨true, output⟩

theorem AlwaysSucceeds.failsAsSystem (h : AlwaysSucceeds remote) : FailsAsSystem remote := by
  intro sent command f hf
  obtain ⟨output, hok⟩ := h sent command
  rw [hok] at hf
  cases hf

/-- Credentials log in with a password: the answer is yes, and the shell of the remote host reads the first command as
one that feeds this password to the login. -/
def LogsIn (remote : Remote) (c : Credentials) (password : Text) (w : World) : Prop :=
  ∃ w' later command, login remote c w = .ok true w' ∧ w'.site.sent = later ++ command :: w.site.sent ∧
    read? command = some (pipeline [["printf", "%s\\n", password],
      ["docker", "login", "-u", c.username, "--password-stdin", c.registry]])

private theorem sent_of_login (hsystem : FailsAsSystem remote) (h : login remote c w = .ok true w') :
    ∃ p later, c.clear w = .ok p ∧ w'.site.sent = later ++ loginCommand c.username p c.registry :: w.site.sent := by
  have hends := login_ends hsystem c w
  rw [h] at hends
  cases hends with
  | audited _ details before told _ reason works log later accepted refused =>
    obtain ⟨p, ⟨hclear, -⟩, hsent⟩ := accepted rfl
    obtain ⟨rest, hrest⟩ := hsent.trans ((works_of_log log).sent.trans later.sent)
    exact ⟨p, rest, hclear, hrest.symm⟩

theorem logsIn_iff (hremote : AlwaysSucceeds remote) (hl : Audit.Listens w) (name : isUsername c.username = true)
    (registry : c.registry ≠ []) (ne : p ≠ []) : LogsIn remote c p w ↔ c.clear w = .ok p := by
  constructor
  · rintro ⟨w', later, command, h, hsent, hread⟩
    obtain ⟨q, later', hclear, hsent'⟩ := sent_of_login hremote.failsAsSystem h
    -- Both are the command that was sent first after those before the login.
    have hcommand : command = loginCommand c.username q c.registry := by
      have hsame := hsent.symm.trans hsent'
      exact (List.cons.inj (List.append_inj_right' hsame rfl)).1
    rw [hcommand, read_loginCommand, Option.some.injEq] at hread
    have hword : some (Token.word q) = some (Token.word p) := congrArg (fun tokens : List Token => tokens[2]?) hread
    cases hword
    exact hclear
  · intro hclear
    have hends := login_ends hremote.failsAsSystem c w
    generalize hr : login remote c w = r at hends
    cases hends with
    | silent w' _ reason _ =>
      rw [hclear] at reason
      exact absurd reason (by simp [registry, ne])
    | escaped f w' reason _ =>
      have hsurrogate := (reason hl).2
      rw [hclear] at hsurrogate
      cases hsurrogate
    | audited answer details before told w' reason works log later accepted refused =>
      cases answer with
      | false => exact absurd ⟨hclear, hremote _ _⟩ (refused rfl hl name registry p)
      | true =>
        obtain ⟨q, later', hq, hsent⟩ := sent_of_login hremote.failsAsSystem hr
        rw [hclear] at hq
        cases hq
        exact ⟨w', later', _, hr, hsent, read_loginCommand _ _ _⟩

/-- What is decrypted is shorter than it was, so a password that is marked as encrypted never stands for itself. -/
theorem clear_eq_self_iff : c.clear w = .ok c.password ↔
    isEncrypted w.secrets.config.encryptedPrefix (some c.password) = false := by
  refine ⟨fun hclear => ?_, clear_of_not_marked⟩
  by_contra hmarked
  rw [Bool.not_eq_false] at hmarked
  obtain ⟨payload, hpayload⟩ := (isEncrypted_some.1 hmarked).2
  rw [Credentials.clear, if_pos hmarked] at hclear
  split at hclear
  · rw [Sources.decryption] at hclear
    split at hclear
    · cases hclear
    · have hshorter := Vault.length_lt_of_decrypt hclear
      rw [← hpayload, Text.dropPrefix?_eq_some.2 rfl, Option.getD_some, List.length_append] at hshorter
      omega
  · cases hclear

theorem marked_of_encryptValue {value name : Text} (h : encryptValue plain name w = .ok value w') :
    isEncrypted w.secrets.config.encryptedPrefix (some value) = true := by
  rcases demand_cases w.secrets.config.masterKeyVar w with ⟨passphrase, hkey⟩ | ⟨f, hkey⟩
  · rw [encryptValue, bind_of_ok (a := masterKey) hkey, get_bind] at h
    obtain ⟨payload, v, haudited, hreturn⟩ := of_bind_eq_ok h
    cases hreturn
    have hpayload := Vault.encrypt_ne_nil (audited_eq_ok.1 (result_of_ok haudited)).1
    exact isEncrypted_some.2 ⟨List.append_ne_nil_of_right_ne_nil _ hpayload, List.prefix_append _ _⟩
  · rw [encryptValue, bind_of_error (a := masterKey) hkey] at h
    cases h

theorem encrypted_of_marked (h : isEncrypted w.secrets.config.encryptedPrefix (some c.password) = true) :
    c.encrypted w = .ok c w := by
  rw [Credentials.encrypted, bind_of_ok (looksEncrypted_eq w _), if_pos h]
  rfl

theorem encrypted_of_not_marked (h : isEncrypted w.secrets.config.encryptedPrefix (some c.password) = false) :
    c.encrypted w = (do return { c with password := ← encryptValue c.password "docker.password" } : Act Credentials) w := by
  rw [Credentials.encrypted, bind_of_ok (looksEncrypted_eq w _), if_neg (by simp [h])]

/-- What has been encrypted is left as it is, as long as encrypted passwords are told apart in the same way. -/
theorem encrypted_idempotent (h : c.encrypted w = .ok d w') {v : World}
    (hv : v.secrets.config.encryptedPrefix = w.secrets.config.encryptedPrefix) : d.encrypted v = .ok d v := by
  refine encrypted_of_marked ?_
  rw [hv]
  cases hmarked : isEncrypted w.secrets.config.encryptedPrefix (some c.password) with
  | true =>
    rw [encrypted_of_marked hmarked] at h
    cases h
    exact hmarked
  | false =>
    rw [encrypted_of_not_marked hmarked] at h
    obtain ⟨value, v, hvalue, hreturn⟩ := of_bind_eq_ok h
    cases hreturn
    exact marked_of_encryptValue hvalue

/-- Everything is at hand to decrypt: a master key, and a trail that takes the reports. No source has credentials of its
own. -/
structure Keyed (w : World) (passphrase : Text) : Prop where
  key : masterKey.result w = .ok passphrase
  listens : Audit.Listens w
  username : (sources w).value? "docker.username" = none
  password : (sources w).value? "docker.password" = none

theorem found_of_masterKey (h : masterKey.result w = .ok passphrase) :
    w.site.environment.Admits w.secrets.config.masterKeyVar ∧ Found passphrase w := by
  by_cases hadmits : w.site.environment.Admits w.secrets.config.masterKeyVar
  · refine ⟨hadmits, ?_⟩
    cases hv : (sources w).value? w.secrets.config.masterKeyVar with
    | none =>
      have hfails : masterKey w = .error (.missingSecrets [w.secrets.config.masterKeyVar]) w := demand_of_none hadmits hv
      rw [result_of_error hfails] at h
      cases h
    | some found =>
      have hkey : masterKey w = .ok found.1 w := demand_of_some hadmits hv
      rw [result_of_ok hkey] at h
      cases h
      exact ⟨found.2, hv⟩
  · have hfails : masterKey w = .error .surrogate w := demand_of_not_admits hadmits
    rw [result_of_error hfails] at h
    cases h

theorem Keyed.of_works (keyed : Keyed w passphrase) (h : Works Aside w w') : Keyed w' passphrase := by
  have hsources : sources w' = sources w := by rw [sources, sources, h.secrets, h.environment]
  obtain ⟨hadmits, source, hfound⟩ := found_of_masterKey keyed.key
  have hkey : masterKey w' = .ok passphrase w' := by
    refine masterKey_of_found ⟨source, ?_⟩ ?_
    · rw [hsources, h.secrets]
      exact hfound
    · rw [h.secrets, h.environment]
      exact hadmits
  exact ⟨result_of_ok hkey, h.listens keyed.listens, hsources ▸ keyed.username, hsources ▸ keyed.password⟩

theorem admits_of_isEncodable {e : Environment} {key : Text} (h : Environment.isEncodable key = true) :
    e.Admits key := fun _ => h

/-- Where no source has credentials of its own, they are those of the configuration. -/
theorem credentials_of_configured {value : Text} (huser : (sources w).value? "docker.username" = none)
    (hpassword : (sources w).value? "docker.password" = none) (name : username ≠ []) (ne : value ≠ []) :
    credentials (some username) (some value) registry w = (do
      let found ← resolve "docker.password" (some value)
      return some ⟨username, found.value, registry⟩ : Act (Option Credentials)) w := by
  have hasks : w.site.environment.Admits "docker.username" ∧ w.site.environment.Admits "docker.password" :=
    ⟨admits_of_isEncodable (by decide), admits_of_isEncodable (by decide)⟩
  have hname := get?_eq hasks.1
  have hsecret := get?_eq hasks.2
  rw [huser] at hname
  rw [hpassword] at hsecret
  have husername : (Option.or none (some username)).filter (· ≠ []) = some username := by simp [Option.filter, name]
  have hconfigured : (some value).filter (· ≠ []) = some value := by simp [Option.filter, ne]
  rw [credentials, bind_of_ok hname, Option.map_none, husername]
  dsimp only
  rw [bind_of_ok hsecret, Option.map_none]
  dsimp only
  rw [hconfigured]

section Halves
variable {value : Text} (keyed : Keyed w passphrase)
include keyed

theorem encryptValue_of_keyed (sized : w.site.entropy.WellSized) (usable : Vault.Usable passphrase) (ne : plain ≠ [])
    (scalar : plain.isScalar = true) (name : Text) :
    ∃ value w', encryptValue plain name w = .ok value w' ∧ StandsFor w.secrets.config passphrase value plain ∧
      Works Aside w w' := by
  obtain ⟨hadmits, hfound⟩ := found_of_masterKey keyed.key
  obtain ⟨value, w', h, hstands⟩ := (encryptValue_iff sized ne scalar usable hfound name).2
    ⟨hadmits, heard_of_listens keyed.listens⟩
  have hworks : Works Aside w ((encryptValue plain name).after w) :=
    keeps_encryptValue (fun _ _ => works_encryption _ _ _) plain w
  rw [after_of_ok h] at hworks
  exact ⟨value, w', h, hstands, hworks⟩

private theorem clear_of_standsFor (hstands : StandsFor w.secrets.config passphrase value plain)
    (hc : c.password = value) :
    c.clear w = .ok plain := by
  obtain ⟨hadmits, hfound⟩ := found_of_masterKey keyed.key
  have heard := heard_of_listens keyed.listens
  rw [← decryptValue_clear (hc ▸ hstands.marked) heard, hc]
  exact (hstands.decrypts w "docker.password" rfl hfound).2 ⟨hadmits, heard⟩

/-- Credentials of the configuration have the password that a value stands for. -/
theorem credentials_of_standsFor (hstands : StandsFor w.secrets.config passphrase value plain) (ne : username ≠ [])
    (registry : Text) : ∃ w', credentials (some username) (some value) registry w =
      .ok (some ⟨username, plain, registry⟩) w' ∧ Works Aside w w' := by
  obtain ⟨hadmits, hfound⟩ := found_of_masterKey keyed.key
  obtain ⟨w', hresolve⟩ := result_eq_ok.1 ((hstands.resolves w "docker.password" rfl hfound keyed.password).2
    ⟨admits_of_isEncodable (by decide), hadmits, heard_of_listens keyed.listens⟩)
  have hworks : Works Aside w ((resolve "docker.password" (some value)).after w) :=
    keeps_resolve (fun _ _ => works_encryption _ _ _) (fun _ _ _ _ => works_told _) (some value) w
  rw [after_of_ok hresolve] at hworks
  have hvalue : value ≠ [] := (isEncrypted_some.1 hstands.marked).1
  rw [credentials_of_configured keyed.username keyed.password ne hvalue]
  exact ⟨w', bind_of_ok hresolve, hworks⟩

end Halves

/-- The password that was encrypted is the one that logs in, whether its encryption comes back through the configuration
or is given to the login as it is, just when it is not itself marked as encrypted. To encrypt again changes nothing. -/
theorem encrypted_password_logs_in (keyed : Keyed w passphrase) (sized : w.site.entropy.WellSized)
    (usable : Vault.Usable passphrase) (hremote : AlwaysSucceeds remote) (name : isUsername username = true)
    (hregistry : registry ≠ []) (ne : plain ≠ []) (scalar : plain.isScalar = true) :
    (∀ key, ∃ value w₁ w₂, encryptValue plain key w = .ok value w₁ ∧
      credentials (some username) (some value) registry w₁ = .ok (some ⟨username, plain, registry⟩) w₂ ∧
      (LogsIn remote ⟨username, plain, registry⟩ plain w₂ ↔ ¬w.secrets.config.encryptedPrefix <+: plain)) ∧
    (∃ c w₁, Credentials.encrypted ⟨username, plain, registry⟩ w = .ok c w₁ ∧
      (LogsIn remote c plain w₁ ↔ ¬w.secrets.config.encryptedPrefix <+: plain)) ∧
    ∀ (c d : Credentials) (u u' v : World), c.encrypted u = .ok d u' →
      v.secrets.config.encryptedPrefix = u.secrets.config.encryptedPrefix → d.encrypted v = .ok d v := by
  have hunmarked : isEncrypted w.secrets.config.encryptedPrefix (some plain) = false ↔
      ¬w.secrets.config.encryptedPrefix <+: plain := by
    rw [Bool.eq_false_iff, Ne, isEncrypted_some, and_iff_right ne]
  have hitself {v : World} (hworks : Works Aside w v) : LogsIn remote ⟨username, plain, registry⟩ plain v ↔
      ¬w.secrets.config.encryptedPrefix <+: plain := by
    have hclear := clear_eq_self_iff (c := ⟨username, plain, registry⟩) (w := v)
    rw [hworks.secrets] at hclear
    exact (logsIn_iff hremote (hworks.listens keyed.listens) name hregistry ne).trans (hclear.trans hunmarked)
  refine ⟨fun key => ?_, ?_, fun c d u u' v h hv => encrypted_idempotent h hv⟩
  · obtain ⟨value, w₁, hvalue, hstands, hworks⟩ := encryptValue_of_keyed keyed sized usable ne scalar key
    have husername : username ≠ [] := by
      rintro rfl
      cases name
    obtain ⟨w₂, hcredentials, hworks'⟩ := credentials_of_standsFor (keyed.of_works hworks)
      (hworks.secrets ▸ hstands) husername registry
    exact ⟨value, w₁, w₂, hvalue, hcredentials, hitself (hworks.trans hworks')⟩
  · cases hmarked : isEncrypted w.secrets.config.encryptedPrefix (some plain) with
    | true => exact ⟨_, w, encrypted_of_marked hmarked, hitself (.refl w)⟩
    | false =>
      obtain ⟨value, w₁, hvalue, hstands, hworks⟩ := encryptValue_of_keyed keyed sized usable ne scalar "docker.password"
      have hkeyed := keyed.of_works hworks
      let c : Credentials := ⟨username, value, registry⟩
      have hclear : c.clear w₁ = .ok plain := clear_of_standsFor hkeyed (hworks.secrets ▸ hstands) rfl
      refine ⟨c, w₁, (encrypted_of_not_marked hmarked).trans (bind_of_ok hvalue), ?_⟩
      rw [logsIn_iff hremote hkeyed.listens name hregistry ne]
      exact iff_of_true hclear (hunmarked.1 hmarked)

def keyedSite : Site :=
  { bareSite with
    environment := ⟨false, [("MAIL_FACTORY_MASTER_KEY", "correct horse")]⟩
    entropy := ⟨List.replicate 16 0, List.replicate 12 0⟩ }

theorem swordfish_logs_in :
    let w : World := ⟨keyedSite, { config := {} }, { config := {} }⟩
    let remote : Remote := fun _ _ => .ok ⟨true, []⟩
    ∃ value w₁ w₂, encryptValue "swordfish" "config" w = .ok value w₁ ∧
      credentials (some "bob") (some value) defaultRegistry w₁ = .ok (some ⟨"bob", "swordfish", defaultRegistry⟩) w₂ ∧
      LogsIn remote ⟨"bob", "swordfish", defaultRegistry⟩ "swordfish" w₂ := by
  intro w remote
  have keyed : Keyed w "correct horse" :=
    ⟨by decide +kernel, fun _ => by decide +kernel, by decide +kernel, by decide +kernel⟩
  have sized : w.site.entropy.WellSized := ⟨rfl, rfl⟩
  have usable : Vault.Usable "correct horse" := ⟨by decide +kernel, by decide +kernel⟩
  have hremote : AlwaysSucceeds remote := fun _ _ => ⟨[], rfl⟩
  have name : isUsername "bob" = true := by decide +kernel
  have hregistry : defaultRegistry ≠ [] := by decide +kernel
  have ne : ("swordfish" : Text) ≠ [] := by decide +kernel
  have scalar : Text.isScalar "swordfish" = true := by decide +kernel
  have hunmarked : ¬encryptedPrefix <+: ("swordfish" : Text) := by decide +kernel
  obtain ⟨hconfigured, -⟩ := encrypted_password_logs_in keyed sized usable hremote name hregistry ne scalar
  obtain ⟨value, w₁, w₂, hvalue, hcredentials, hlogsIn⟩ := hconfigured "config"
  exact ⟨value, w₁, w₂, hvalue, hcredentials, hlogsIn.2 hunmarked⟩

/-- A password that is itself marked as encrypted is left as it is and does not log in; and one that is not can be
encrypted only where the trail takes the report on it. -/
theorem marked_password_does_not_log_in :
    let w : World := ⟨keyedSite, { config := {} }, { config := {} }⟩
    let refusing : World := ⟨{ keyedSite with refusals := { openings := [some .permission] } }, { config := {} },
      { config := {}, audited := true }⟩
    let remote : Remote := fun _ _ => .ok ⟨true, []⟩
    let c : Credentials := ⟨"bob", "encrypted:abc", defaultRegistry⟩
    Vault.Usable "correct horse" ∧ Keyed w "correct horse" ∧ isUsername c.username = true ∧
      c.encrypted w = .ok c w ∧ ¬LogsIn remote c c.password w ∧
      (Credentials.encrypted ⟨"bob", "swordfish", defaultRegistry⟩).result refusing =
        .error (.auditStorage "logs/audit") := by
  intro w refusing remote c
  have keyed : Keyed w "correct horse" :=
    ⟨by decide +kernel, fun _ => by decide +kernel, by decide +kernel, by decide +kernel⟩
  have hanswer : (login remote c).result w = .ok false := by decide +kernel
  refine ⟨⟨by decide +kernel, by decide +kernel⟩, keyed, by decide +kernel, encrypted_of_marked (by decide +kernel), ?_,
    by decide +kernel⟩
  rintro ⟨w', later, command, h, -⟩
  rw [result_of_ok h] at hanswer
  cases hanswer

end Custody.Docker
