import Custody.Proofs.Docker.Sending
import Custody.Proofs.Secrets.Precedence
import Custody.Proofs.Turns

/-! How a login ends, and what the trail is told of it. -/
namespace Custody.Docker
open Act World Secrets

instance (e : Environment) (name : Text) : Decidable (e.Admits name) := inferInstanceAs (Decidable (_ → _))

/-- The password of credentials in the clear, if a trail has nothing against it. -/
def Credentials.clear (c : Credentials) (w : World) : Except Failure Text :=
  if isEncrypted w.secrets.config.encryptedPrefix (some c.password) then
    if w.site.environment.Admits w.secrets.config.masterKeyVar then
      (sources w).decryption w.secrets.config c.password
    else .error .surrogate
  else .ok c.password

def isLogin (e : Audit.Entry) : Bool := e.event = .authentication && e.action = .login

/-- The entries that say nothing about a login. -/
def Aside (e : Audit.Entry) : Prop := isLogin e = false

variable {remote : Remote} {c : Credentials} {w w' : World}

theorem aside_of_isOpening {e : Audit.Entry} (h : Audit.IsOpening e) : Aside e := by
  obtain ⟨now, rfl⟩ := h
  rfl

theorem works_encryption (action : Audit.Action) (resource : Audit.Subject) (success : Bool) :
    (Audit.log (.encryption (Audit.named action) resource (.bool success))).Keeps (Works Aside) := by
  refine works_log (fun _ => aside_of_isOpening) ?_
  rintro e ⟨now, he⟩
  rw [(Audit.words_encryption action resource success).entry] at he
  cases he
  rfl

theorem clear_of_not_marked (h : isEncrypted w.secrets.config.encryptedPrefix (some c.password) = false) :
    c.clear w = .ok c.password := by
  rw [Credentials.clear, if_neg (by simp [h])]

private theorem decryption_eq_error {s : Sources} {config : Config.SecretsSettings} {value : Text}
    {f : Failure}
    (h : s.decryption config value = .error f) : f = .surrogate ∨ f.isSecurity = true := by
  unfold Sources.decryption at h
  split at h
  · cases h
    exact Or.inr rfl
  · exact Vault.decrypt_eq_error h

/-- Whatever keeps a password from being clear goes no further than the login, unless a text has no encoding. -/
theorem clear_eq_error {f : Failure} (h : c.clear w = .error f) : f = .surrogate ∨ isLoginFailure f = true := by
  unfold Credentials.clear at h
  split at h
  · split at h
    · rcases decryption_eq_error h with hf | hf
      · exact Or.inl hf
      · exact Or.inr (by rw [isLoginFailure, hf, Bool.or_true])
    · cases h
      exact Or.inl rfl
  · cases h

theorem heard_of_listens (h : Audit.Listens w) : Heard w := fun _ => h

/-- Nothing is decrypted without the report on it. -/
theorem heard_of_decryptValue {value key : Text} (h : (decryptValue value key).Returns w) : Heard w := by
  by_contra hnot
  obtain ⟨t, w', h⟩ := h
  rw [decryptValue, get_bind] at h
  rcases demand_cases w.secrets.config.masterKeyVar w with ⟨passphrase, hkey⟩ | ⟨f, hkey⟩
  · obtain ⟨f, w₁, hfails⟩ := audited_of_not_heard hnot .decrypt key (Vault.decrypt
      ((Text.dropPrefix? w.secrets.config.encryptedPrefix value).getD value) passphrase)
    rw [bind_of_ok (a := masterKey) hkey, hfails] at h
    cases h
  · rw [bind_of_error (a := masterKey) hkey] at h
    cases h

theorem decryptValue_clear (h : isEncrypted w.secrets.config.encryptedPrefix (some c.password) = true)
    (heard : Heard w) : (decryptValue c.password "docker.password").result w = c.clear w := by
  rw [Credentials.clear, if_pos h]
  by_cases hmaster : w.site.environment.Admits w.secrets.config.masterKeyVar
  · rw [if_pos hmaster, decryptValue_result hmaster heard]
  · have hfails : decryptValue c.password "docker.password" w = .error .surrogate w := by
      rw [decryptValue, get_bind]
      exact bind_of_error (demand_of_not_admits hmaster)
    rw [if_neg hmaster, result_of_error hfails]

theorem clearPassword_cases (c : Credentials) (w : World) :
    (∃ p w', clearPassword c w = .ok p w' ∧ c.clear w = .ok p ∧ Mute w w' ∧ Works Aside w w') ∨
    (∃ f w', clearPassword c w = .error f w' ∧ (Audit.Listens w → c.clear w = .error f) ∧ Mute w w' ∧
      Works Aside w w') := by
  rw [clearPassword, bind_of_ok (looksEncrypted_eq w _)]
  cases hmarked : isEncrypted w.secrets.config.encryptedPrefix (some c.password) with
  | false => exact Or.inl ⟨_, _, rfl, clear_of_not_marked hmarked, rfl, works_told _ w⟩
  | true =>
    have hworks : Works Aside w ((decryptValue c.password "docker.password").after w) :=
      keeps_decryptValue (fun _ _ => works_encryption _ _ _) c.password w
    have hmute : Mute w ((decryptValue c.password "docker.password").after w) :=
      keeps_decryptValue (fun _ _ => mute_log _) c.password w
    rw [if_pos rfl]
    cases h : decryptValue c.password "docker.password" w with
    | ok p w' =>
      have hclear := decryptValue_clear hmarked (heard_of_decryptValue (returns_of_ok h))
      rw [result_of_ok h] at hclear
      rw [after_of_ok h] at hworks hmute
      exact Or.inl ⟨p, w', rfl, hclear.symm, hmute, hworks⟩
    | error f w' =>
      rw [after_of_error h] at hworks hmute
      refine Or.inr ⟨f, w', rfl, fun hl => ?_, hmute, hworks⟩
      rw [← decryptValue_clear hmarked (heard_of_listens hl), result_of_error h]

/-- The remote host lets these credentials in. -/
def Accepted (remote : Remote) (c : Credentials) (w : World) (p : Text) : Prop :=
  c.clear w = .ok p ∧ ∃ output, remote w.site.sent (loginCommand c.username p c.registry) = .ok ⟨true, output⟩

inductive Attempted (remote : Remote) (c : Credentials) (w : World) : EStateM.Result Failure World (Option Reply) → Prop where
  | empty (w' : World) (clear : c.clear w = .ok []) (works : Works Aside w w') : Attempted remote c w (.ok none w')
  | replied (p : Text) (r : Reply) (w' : World) (ne : p ≠ []) (clear : c.clear w = .ok p)
      (reply : remote w.site.sent (loginCommand c.username p c.registry) = .ok r)
      (sent : w'.site.sent = loginCommand c.username p c.registry :: w.site.sent) (works : Works Aside w w') :
      Attempted remote c w (.ok (some r) w')
  | failed (f : Failure) (w' : World) (sort : isLoginFailure f = true)
      (clear : Audit.Listens w → c.clear w ≠ .ok [] ∧ c.clear w ≠ .error .surrogate)
      (refused : Audit.Listens w → ∀ p, ¬Accepted remote c w p) (works : Works Aside w w') :
      Attempted remote c w (.error f w')
  | escaped (f : Failure) (w' : World) (sort : isLoginFailure f = false)
      (clear : Audit.Listens w → c.clear w = .error .surrogate) (works : Works Aside w w') :
      Attempted remote c w (.error f w')

private theorem attempted_of_clear (hsystem : FailsAsSystem remote) {p : Text} (ne : p ≠ [])
    (clear : c.clear w = .ok p)
    (mute : Mute w w') (works : Works Aside w w') : Attempted remote c w
      ((do return some (← execute remote (loginCommand c.username p c.registry)) : Act (Option Reply)) w') := by
  have hworks := works.trans (works_sending (loginCommand c.username p c.registry) w')
  cases hr : remote w.site.sent (loginCommand c.username p c.registry) with
  | ok r =>
    have hsent : (w'.sending (loginCommand c.username p c.registry)).site.sent =
      loginCommand c.username p c.registry :: w.site.sent := congrArg _ mute
    rw [bind_of_ok (execute_of_ok (mute.symm ▸ hr : remote w'.site.sent _ = .ok r))]
    exact .replied p r _ ne clear hr hsent hworks
  | error f =>
    rw [bind_of_error (execute_of_error (mute.symm ▸ hr : remote w'.site.sent _ = .error f))]
    refine .failed f _ ?_ ?_ ?_ hworks
    · rw [isLoginFailure, hsystem _ _ _ hr, Bool.true_or]
    · intro _
      rw [clear]
      exact ⟨fun h => ne (Except.ok.inj h), nofun⟩
    · rintro _ q ⟨hq, output, haccepted⟩
      rw [clear] at hq
      cases hq
      rw [hr] at haccepted
      cases haccepted

theorem attempt_ends (hsystem : FailsAsSystem remote) (c : Credentials) (w : World) :
    Attempted remote c w (attempt remote c w) := by
  rw [attempt]
  rcases clearPassword_cases c w with ⟨p, w₁, h, hclear, hmute, hworks⟩ | ⟨f, w₁, h, hclear, -, hworks⟩
  · rw [bind_of_ok h]
    by_cases hp : p = []
    · rw [if_pos hp]
      exact .empty _ (hp ▸ hclear) (hworks.trans (works_told _ w₁))
    · rw [if_neg hp]
      exact attempted_of_clear hsystem hp hclear hmute hworks
  · rw [bind_of_error h]
    cases hf : isLoginFailure f with
    | true =>
      refine .failed f w₁ hf ?_ ?_ hworks
      · intro hl
        rw [hclear hl]
        refine ⟨nofun, fun h => ?_⟩
        cases h
        cases hf
      · rintro hl p ⟨hp, -⟩
        rw [hclear hl] at hp
        cases hp
    | false =>
      -- Of what may go wrong with a password, only a text without an encoding is not held back.
      refine .escaped f w₁ hf (fun hl => ?_) hworks
      rcases clear_eq_error (hclear hl) with rfl | htrue
      · exact hclear hl
      · rw [hf] at htrue
        cases htrue

theorem auditLogin_cases (username : Text) (success : Bool) (details : Text) (w : World) :
    (∃ w', auditLogin username success details w = .ok () w') ∨
    (∃ f w', ¬Audit.Listens w ∧ auditLogin username success details w = .error f w' ∧ Works Aside w w') := by
  rcases Audit.log_cases (Audit.words_authentication (.text username) (.text details) success).told w with
    ⟨w', h⟩ | ⟨f, w', fresh, hstart, h, hr⟩
  · exact Or.inl ⟨w', h⟩
  · have hnot : ¬Audit.Listens w := fun hl => hstart (hl fresh)
    have hworks := works_of_reports (hr.mono fun _ => aside_of_isOpening) fun hl => absurd hl hnot
    exact Or.inr ⟨f, w', hnot, h, hworks⟩

/-- The ends of a login: the trail is told nothing, something fails that a login does not hold back, or the trail is told
how the login ended. -/
inductive Ended (remote : Remote) (c : Credentials) (w : World) : EStateM.Result Failure World Bool → Prop where
  | silent (w' : World) (name : isUsername c.username = true) (reason : c.registry = [] ∨ c.clear w = .ok [])
      (works : Works Aside w w') : Ended remote c w (.ok false w')
  | escaped (f : Failure) (w' : World)
      (reason : Audit.Listens w → isUsername c.username = true ∧ c.clear w = .error .surrogate)
      (works : Works Aside w w') : Ended remote c w (.error f w')
  | audited (answer : Bool) (details : Text) (before told w' : World)
      (reason : Audit.Listens w → isUsername c.username = true →
        c.registry ≠ [] ∧ c.clear w ≠ .ok [] ∧ c.clear w ≠ .error .surrogate)
      (works : Works Aside w before) (log : auditLogin c.username answer details before = .ok () told)
      (later : Works Aside told w')
      (accepted : answer = true → ∃ p, Accepted remote c w p ∧
        loginCommand c.username p c.registry :: w.site.sent <:+ before.site.sent)
      (refused : answer = false → Audit.Listens w → isUsername c.username = true → c.registry ≠ [] →
        ∀ p, ¬Accepted remote c w p) : Ended remote c w (.ok answer w')

theorem Ended.unheard {v v' : World} {f : Failure} (works : Works Aside w v) (hnot : ¬Audit.Listens v)
    (fails : Works Aside v v') : Ended remote c w (.error f v') :=
  -- A trail that never was open and cannot be opened has taken no report from the start.
  .escaped f v' (fun hl => absurd (works.listens hl) hnot) (works.trans fails)

private theorem conclude_ends (hsystem : FailsAsSystem remote) {p : Text} {r : Reply} (ne : p ≠ [])
    (registry : c.registry ≠ [])
    (clear : c.clear w = .ok p) (reply : remote w.site.sent (loginCommand c.username p c.registry) = .ok r)
    (sent : w'.site.sent = loginCommand c.username p c.registry :: w.site.sent) (works : Works Aside w w') :
    Ended remote c w (conclude remote c r w') := by
  have hreason : c.registry ≠ [] ∧ c.clear w ≠ .ok [] ∧ c.clear w ≠ .error .surrogate := by
    rw [clear]
    exact ⟨registry, fun h => ne (Except.ok.inj h), nofun⟩
  have hworks (record : Record) : Works Aside w (w'.told record) := works.trans (works_told record w')
  unfold conclude
  cases hs : r.success with
  | false =>
    rw [if_pos (show (!false) = true from rfl), bind_of_ok (tell_eq _ _ _ _)]
    have hrefused : ∀ q, ¬Accepted remote c w q := by
      rintro q ⟨hq, output, haccepted⟩
      rw [clear] at hq
      cases hq
      rw [reply] at haccepted
      cases haccepted
      cases hs
    rcases auditLogin_cases c.username false "Docker registry authentication failed" (w'.told _) with
      ⟨w₁, h⟩ | ⟨f, w₁, hnot, h, hfails⟩
    · rw [bind_of_ok h]
      exact .audited false _ _ w₁ _ (fun _ _ => hreason) (hworks _) h (.refl w₁) nofun
        fun _ _ _ _ => hrefused
    · rw [bind_of_error h]
      exact .unheard (hworks _) hnot hfails
  | true =>
    rw [if_neg (by simp), bind_of_ok (tell_eq _ _ _ _)]
    rcases auditLogin_cases c.username true ("Docker registry authentication to " ++ c.registry) (w'.told _) with
      ⟨w₁, h⟩ | ⟨f, w₁, hnot, h, hfails⟩
    · obtain ⟨w₂, hsecure, hlater⟩ := secure_spec (P := Aside) hsystem w₁
      rw [bind_of_ok h, bind_of_ok hsecure]
      refine .audited true _ _ w₁ w₂ (fun _ _ => hreason) (hworks _) h hlater (fun _ => ⟨p, ⟨clear, r.output, ?_⟩, ?_⟩) nofun
      · rw [reply, ← hs]
      · exact sent ▸ List.suffix_rfl
    · rw [bind_of_error h]
      exact .unheard (hworks _) hnot hfails

theorem Ended.of_told (record : Record) {r : EStateM.Result Failure World Bool}
    (h : Ended remote c (w.told record) r) : Ended remote c w r := by
  have hworks {v : World} (h : Works Aside (w.told record) v) : Works Aside w v := (works_told record w).trans h
  have hlistens : Audit.Listens w → Audit.Listens (w.told record) := (works_told (P := Aside) record w).listens
  cases h with
  | silent w' name reason works => exact .silent w' name reason (hworks works)
  | escaped f w' reason works => exact .escaped f w' (fun hl => reason (hlistens hl)) (hworks works)
  | audited answer details before told w' reason works log later accepted refused =>
    exact .audited answer details before told w' (fun hl => reason (hlistens hl)) (hworks works) log later accepted
      fun ha hl => refused ha (hlistens hl)

theorem login_ends (hsystem : FailsAsSystem remote) (c : Credentials) (w : World) :
    Ended remote c w (login remote c w) := by
  unfold login
  rw [bind_of_ok (tell_eq _ _ _ _)]
  -- Whatever has been reported before has no part in how a login ends.
  refine Ended.of_told ⟨.info, .docker, "docker_login_started",
    [userField c.username, Value.field "registry" (.text c.registry)]⟩ ?_
  generalize w.told ⟨.info, .docker, "docker_login_started",
    [userField c.username, Value.field "registry" (.text c.registry)]⟩ = w
  have hworks {v : World} (record : Record) (h : Works Aside w v) : Works Aside w (v.told record) :=
    h.trans (works_told record v)
  by_cases hname : isUsername c.username = true
  · rw [if_neg (by simp [hname])]
    by_cases hregistry : c.registry = []
    · rw [if_pos hregistry]
      exact .silent _ hname (Or.inl hregistry) (hworks _ (.refl w))
    · rw [if_neg hregistry]
      have hattempt := attempt_ends hsystem c w
      generalize ha : attempt remote c w = a at hattempt
      cases hattempt with
      | empty w' clear works =>
        have hreply : reply? remote c w = .ok none w' := orElse_of_ok ha
        rw [bind_of_ok hreply]
        exact .silent w' hname (Or.inr clear) works
      | replied p r w' ne clear reply sent works =>
        have hreply : reply? remote c w = .ok (some r) w' := orElse_of_ok ha
        rw [bind_of_ok hreply]
        exact conclude_ends hsystem ne hregistry clear reply sent works
      | escaped f w' sort clear works =>
        have hreply : reply? remote c w = .error f w' := orElse_of_not_sort ha sort
        rw [bind_of_error hreply]
        exact .escaped f w' (fun hl => ⟨hname, clear hl⟩) works
      | failed f w' sort clear refused works =>
        have htold (record : Record) := hworks record works
        rcases auditLogin_cases c.username false ("Docker login error: " ++ f.kind.label) (w'.told _) with
          ⟨w₁, h⟩ | ⟨e, w₁, hnot, h, hfails⟩
        · have hreply : reply? remote c w = .ok none w₁ :=
            (orElse_of_sort ha sort).trans ((bind_of_ok (tell_eq _ _ _ _)).trans (bind_of_ok h))
          rw [bind_of_ok hreply]
          exact .audited false _ _ w₁ _ (fun hl _ => ⟨hregistry, clear hl⟩) (htold _) h (.refl w₁) nofun
            fun _ hl _ _ => refused hl
        · have hreply : reply? remote c w = .error e w₁ :=
            (orElse_of_sort ha sort).trans ((bind_of_ok (tell_eq _ _ _ _)).trans (bind_of_error h))
          rw [bind_of_error hreply]
          exact .unheard (htold _) hnot hfails
  · rw [if_pos (by simp [hname]), bind_of_ok (tell_eq _ _ _ _)]
    have htold (record : Record) := hworks record (.refl w)
    rcases auditLogin_cases c.username false "Invalid username" (w.told _) with ⟨w₁, h⟩ | ⟨e, w₁, hnot, h, hfails⟩
    · rw [bind_of_ok h]
      exact .audited false _ _ w₁ _ (fun _ h => absurd h hname) (htold _) h (.refl w₁) nofun
        fun _ _ h => absurd h hname
    · rw [bind_of_error h]
      exact .unheard (htold _) hnot hfails

/-- A login is on record if it answers, and of what it adds to the trail exactly one entry is about a login: one with
the name of the user and the answer. -/
def OnRecord (remote : Remote) (c : Credentials) (w : World) : Prop :=
  ∃ answer w' es e, login remote c w = .ok answer w' ∧ w'.queued = w.queued ++ es ∧ es.filter isLogin = [e] ∧
    e.user = .text c.username ∧ e.result = .of answer

theorem filter_of_aside {es : List Audit.Entry} (h : ∀ e ∈ es, Aside e) : es.filter isLogin = [] :=
  List.filter_eq_nil_iff.2 fun e he => by rw [h e he]; simp

private theorem filter_around {es es' : List Audit.Entry} {e : Audit.Entry} (h : ∀ e ∈ es ++ es', Aside e)
    (he : isLogin e = true) : (es ++ e :: es').filter isLogin = [e] := by
  have hbefore := filter_of_aside fun e he => h e (List.mem_append_left es' he)
  have hlater := filter_of_aside fun e he => h e (List.mem_append_right es he)
  rw [List.filter_append, hbefore, List.filter_cons_of_pos he, hlater, List.nil_append]

section Running
variable (hsystem : FailsAsSystem remote) (running : w.trail.phase = .running)
include hsystem running

private theorem onRecord_of (h : isUsername c.username = true →
    c.registry ≠ [] ∧ c.clear w ≠ .ok [] ∧ c.clear w ≠ .error .surrogate) : OnRecord remote c w := by
  have hends := login_ends hsystem c w
  generalize hr : login remote c w = r at hends
  cases hends with
  | silent w' name reason works =>
    obtain ⟨hregistry, hempty, -⟩ := h name
    exact absurd reason (not_or.2 ⟨hregistry, hempty⟩)
  | escaped f w' reason works =>
    obtain ⟨name, hsurrogate⟩ := reason (Audit.listens_of_running running)
    exact absurd hsurrogate (h name).2.2
  | audited answer details before told w' reason works log later accepted refused =>
    obtain ⟨now, es, es', hqueued, haside⟩ := queued_around running
      (Audit.words_authentication (.text c.username) (.text details) answer) works log later
    exact ⟨answer, w', _, _, hr, hqueued, filter_around haside rfl, rfl, rfl⟩

theorem reason_of_onRecord (h : OnRecord remote c w) (name : isUsername c.username = true) :
    c.registry ≠ [] ∧ c.clear w ≠ .ok [] ∧ c.clear w ≠ .error .surrogate := by
  obtain ⟨answer, w', es, e, hr, hes, hone, -, -⟩ := h
  have hends := login_ends hsystem c w
  rw [hr] at hends
  cases hends with
  | silent _ _ reason works =>
    obtain ⟨es', hes', haside⟩ := works.queued
    have hsame : es = es' := List.append_cancel_left (hes.symm.trans hes')
    rw [hsame, filter_of_aside haside] at hone
    cases hone
  | audited _ details before told _ reason => exact reason (Audit.listens_of_running running) name

/-- A login on a running trail is on record, unless the name would do and there is no registry, no password, or no
encoding for what would decrypt it. -/
theorem login_on_record_iff : OnRecord remote c w ↔ (isUsername c.username = true →
    c.registry ≠ [] ∧ c.clear w ≠ .ok [] ∧ c.clear w ≠ .error .surrogate) :=
  ⟨reason_of_onRecord hsystem running, onRecord_of hsystem running⟩

end Running

theorem login_on_record_of_accepted :
    let w := Audit.start.after ⟨bareSite, { config := {} }, { config := {} }⟩
    let remote : Remote := fun _ _ => .ok ⟨true, []⟩
    FailsAsSystem remote ∧ w.trail.phase = .running ∧ OnRecord remote ⟨"bob", "long-enough-pw", defaultRegistry⟩ w := by
  intro w remote
  have hsystem : FailsAsSystem remote := fun _ _ _ h => nomatch h
  have running : w.trail.phase = .running := by decide +kernel
  refine ⟨hsystem, running, (login_on_record_iff hsystem running).2 fun _ => ?_⟩
  decide +kernel

/-- Three logins that are not on record: without a registry, without a password, and with one that is to be decrypted
under a pass phrase without an encoding, which an escape in the file of secrets can write. -/
theorem logins_off_record :
    let lone : Text := [⟨0xD800, by omega⟩]
    let file : Properties := [("MAIL_FACTORY_MASTER_KEY", "correct horse" ++ lone)]
    let payload : Text := "AAECAwQFBgcICQoLDA0ODw==:AAECAwQFBgcICQoL:F3GoGxCTSuMxpRdE5CddtrYPwpFYP/pBfw=="
    let w := Audit.start.after ⟨bareSite, { config := {} }, { config := {}, file, loaded := true }⟩
    let remote : Remote := fun _ _ => .ok ⟨true, []⟩
    Properties.parse "MAIL_FACTORY_MASTER_KEY=correct horse\\ud800" = .ok file ∧
      FailsAsSystem remote ∧ w.trail.phase = .running ∧ ¬OnRecord remote ⟨"bob", "long-enough-pw", []⟩ w ∧
      ¬OnRecord remote ⟨"bob", [], defaultRegistry⟩ w ∧
      ¬OnRecord remote ⟨"bob", "encrypted:" ++ payload, defaultRegistry⟩ w := by
  intro lone file payload w remote
  have hsystem : FailsAsSystem remote := fun _ _ _ h => nomatch h
  have running : w.trail.phase = .running := by decide +kernel
  have hname : isUsername "bob" = true := by decide +kernel
  have hempty : Credentials.clear ⟨"bob", [], defaultRegistry⟩ w = .ok [] := by decide +kernel
  have hsurrogate : Credentials.clear ⟨"bob", "encrypted:" ++ payload, defaultRegistry⟩ w = .error .surrogate := by
    decide +kernel
  refine ⟨by decide +kernel, hsystem, running, fun h => ?_, fun h => ?_, fun h => ?_⟩
  · exact (reason_of_onRecord hsystem running h hname).1 rfl
  · exact (reason_of_onRecord hsystem running h hname).2.1 hempty
  · exact (reason_of_onRecord hsystem running h hname).2.2 hsurrogate

end Custody.Docker
