import Custody.Proofs.Audit.Runs
import Custody.Proofs.Secrets.Precedence

/-! Sessions: secrets are looked up while the environment and the file change, and are loaded and forgotten. -/
namespace Custody.Secrets
open Act World Environment

/-- What can be asked of a resolver and of the trail that it reports to. -/
inductive Call where
  | load
  | clear
  | get (key : Text)
  | demand (key : Text)
  | validate (keys : List Text)
  | masterKey
  | resolve (key : Text) (configured : Option Text)
  | decrypt (value key : Text)
  | encrypt (plain key : Text)
  | trail (c : Audit.Call)

def Call.act : Call → Act Unit
  | load => Secrets.load
  | clear => Secrets.clear
  | get key => do let _ ← Secrets.get? key
  | demand key => do let _ ← Secrets.demand key
  | validate keys => Secrets.validate keys
  | masterKey => do let _ ← Secrets.masterKey
  | resolve key configured => do let _ ← Secrets.resolve key configured
  | decrypt value key => do let _ ← Secrets.decryptValue value key
  | encrypt plain key => do let _ ← Secrets.encryptValue plain key
  | trail c => c.act

/-- The properties in a file, which must be a text of properties from one end to the other. -/
def parseAt (d : Disk) (p : Path) : Except Failure Properties := do Properties.parseFile (← d.read p)

/-- The entries of the file of secrets: all of them, or none. -/
def fileEntries (d : Disk) (p : Option Path) : Properties :=
  match p.map (parseAt d) with
  | some (.ok found) => found
  | _ => []

/-- What is remembered of the surroundings by a call: those of the last load, until what it loaded is forgotten. A
load that fails loads nothing. -/
def Call.remembered (c : Call) (w : World) (last : Option Site) : Option Site :=
  match c with
  | load => if Secrets.load.Returns w then some w.site else last
  | clear => none
  | _ => last

/-- The surroundings at the last load of a session that nothing has cleared. -/
def lastLoad : List (Turn Call) → World → (last : Option Site) → Option Site
  | [], _, last => last
  | t :: rest, w, last => lastLoad rest (t.take Call.act w) (t.call.remembered (t.before w) last)

/-- The sources of a session: the environment as it is now, and what there was to load when it was last loaded. -/
def Sources.ofSession (config : Config.SecretsSettings) (now : Site) (last : Option Site) : Sources where
  live := now.environment.values
  snapshot := last.elim [] fun site =>
    site.environment.values.filter fun (name, _) => config.envNamespace.isPrefixOf name
  file := last.elim [] fun site => fileEntries site.disk config.secretsFile

variable {config : Config.SecretsSettings} {last : Option Site} {w : World}

private theorem parseAt_of_absent {d : Disk} {p : Path} (h : d.pathExists p = .ok false) :
    ∃ e, parseAt d p = .error e := by
  unfold Disk.pathExists Disk.check at h
  cases hs : d.stat p with
  | ok n =>
    rw [hs] at h
    cases h
  | error e =>
    have hread : d.read p = .error e := Failure.bind_eq_error.2 (Or.inl hs)
    exact ⟨e, Failure.bind_eq_error.2 (Or.inl hread)⟩

/-- The file is read as a whole or not at all. -/
theorem readFile_eq {file : Properties} {w' : World} (h : readFile w = .ok file w') :
    file = fileEntries w.site.disk w.secrets.config.secretsFile := by
  unfold readFile at h
  rw [get_bind] at h
  cases hp : w.secrets.config.secretsFile with
  | none =>
    rw [hp] at h
    cases h
    rfl
  | some p =>
    rw [hp] at h
    dsimp only at h
    rw [fileEntries, Option.map_some]
    cases hx : w.site.disk.pathExists p with
    | error e =>
      rw [hx, bind_of_error (require_error e w)] at h
      cases h
    | ok present =>
      rw [hx, bind_of_ok (require_ok present w)] at h
      cases present with
      | false =>
        obtain ⟨e, he⟩ := parseAt_of_absent hx
        rw [he]
        cases h
        rfl
      | true =>
        rw [if_pos rfl] at h
        cases hparse : parseAt w.site.disk p with
        | ok found =>
          unfold parseAt at hparse
          rw [hparse] at h
          cases h
          rfl
        | error e =>
          unfold parseAt at hparse
          rw [hparse] at h
          dsimp only at h
          split at h
          · cases h
            rfl
          · cases h

/-- What a resolver has loaded is what there was to load at some time. -/
structure Loaded (config : Config.SecretsSettings) (last : Option Site) (r : Resolver) : Prop where
  settings : r.config = config
  sources : ∀ now : Site, ⟨now.environment.values, r.snapshot, r.file⟩ = Sources.ofSession config now last

theorem loaded_load (h : w.secrets.config = config) (hload : load.Returns w) :
    Loaded config (some w.site) (load.after w).secrets := by
  obtain ⟨u, w', hload⟩ := hload
  have hstill := still_readFile w
  rw [after_of_ok hload]
  unfold load at hload
  rw [get_bind] at hload
  cases hr : readFile w with
  | error f w₁ =>
    rw [bind_of_error hr] at hload
    cases hload
  | ok file w₁ =>
    rw [after_of_ok hr] at hstill
    rw [bind_of_ok hr] at hload
    cases hload
    refine ⟨(congrArg Resolver.config hstill.secrets).trans h, fun now => ?_⟩
    rw [← h, readFile_eq hr]
    rfl

def Settled (w w' : World) : Prop := w'.secrets = w.secrets

instance : IsPreorder World Settled where
  refl _ := rfl
  trans _ _ _ h h' := h'.trans h

/-- A call that neither loads nor forgets leaves the secrets alone. -/
theorem Call.settled {c : Call} (hload : c ≠ .load) (hclear : c ≠ .clear) : c.act.Keeps Settled := by
  have hlog : ∀ r, (Audit.log r).Keeps Settled := fun r w => (Audit.log_comes r w).secrets
  have thenDone : ∀ {α : Type} {a : Act α}, a.Keeps Settled → (do let _ ← a : Act Unit).Keeps Settled :=
    fun ha => .bind ha fun _ => .pure _
  cases c with
  | load => exact absurd rfl hload
  | clear => exact absurd rfl hclear
  | get key => exact thenDone (keeps_get? key)
  | demand key => exact thenDone (keeps_demand key)
  | validate keys => exact keeps_validate keys
  | masterKey => exact thenDone keeps_masterKey
  | resolve key configured =>
    exact thenDone (keeps_resolve (fun _ _ => hlog _) (fun _ _ _ _ _ => rfl) configured)
  | decrypt value key => exact thenDone (keeps_decryptValue (fun _ _ => hlog _) value)
  | encrypt plain key => exact thenDone (keeps_encryptValue (fun _ _ => hlog _) plain)
  | trail c => exact fun w => (c.comes w).secrets

/-- A call keeps what is loaded and what is remembered of it together. -/
theorem Call.loaded (c : Call) (h : Loaded config last w.secrets) :
    Loaded config (c.remembered w last) (c.act.after w).secrets := by
  by_cases hload : c = .load
  · subst hload
    by_cases hr : Secrets.load.Returns w
    · rw [remembered, if_pos hr]
      exact loaded_load h.settings hr
    · have hkept : (Secrets.load.after w).secrets = w.secrets := by
        rcases load_cases w with ⟨s, w', hok, -⟩ | ⟨f, w', herror, hstill⟩
        · exact absurd (returns_of_ok hok) hr
        · rw [after_of_error herror, hstill.secrets]
      rw [remembered, if_neg hr]
      exact hkept ▸ h
  by_cases hclear : c = .clear
  · subst hclear
    exact ⟨h.settings, fun _ => rfl⟩
  have hlast : c.remembered w last = last := by
    cases c <;> first | rfl | contradiction
  rw [hlast, Call.settled hload hclear w]
  exact h

/-- After a session the resolver holds what there was to load at the last load. -/
theorem loaded_run {turns : List (Turn Call)} (h : Loaded config last w.secrets) :
    Loaded config (lastLoad turns w last) (run Call.act turns w).secrets := by
  induction turns generalizing w last with
  | nil => exact h
  | cons t rest ih => exact ih (t.call.loaded (w := t.before w) h)

def withMasterKey (name : Text) (w : World) : World :=
  { w with secrets := { w.secrets with config := { w.secrets.config with masterKeyVar := name } } }

/-- A key can be asked for, and where a value has to be decrypted, so can the master key, and the trail takes the
report on it. -/
structure Askable (s : Sources) (w : World) (key : Text) (configured : Option Text) : Prop where
  admits : w.site.environment.Admits key
  decrypts : s.Decrypts w.secrets.config key configured →
    w.site.environment.Admits w.secrets.config.masterKeyVar ∧ Heard w

/-- What lookups owe to the sources. A key has the secret that the order of the sources gives it; unless something has
to be decrypted this leaves nothing behind but a warning and needs no master key; a key that is missing is one that
no source has and for which the configuration says nothing, or the master key's own; and several keys are all there
just when each one is, or else those that are not are named in order. -/
structure Ordered (s : Sources) (w : World) : Prop where
  resolves : ∀ key configured, Askable s w key configured →
    (resolve key configured).result w = s.resolution w.secrets.config key configured
  quiet : ∀ key configured, w.site.environment.Admits key → ¬s.Decrypts w.secrets.config key configured →
    (∃ records, (resolve key configured).after w = { w with site := { w.site with records } }) ∧
      ∀ name, (resolve key configured).result (withMasterKey name w) = (resolve key configured).result w
  missing : ∀ key configured, Askable s w key configured →
    ((resolve key configured).result w = .error (.missingSecrets [key]) ↔ s.value? key = none ∧
      (configured.getD [] = [] ∨
        w.secrets.config.encryptedPrefix <+: configured.getD [] ∧ key = w.secrets.config.masterKeyVar))
  demands : ∀ key, w.site.environment.Admits key → ((demand key).Returns w ↔ s.value? key ≠ none)
  validates : ∀ keys, (validate keys).Returns w ↔ ∀ key ∈ keys, (demand key).Returns w
  names : ∀ keys, (∀ key ∈ keys, w.site.environment.Admits key) → ¬(validate keys).Returns w →
    (validate keys).result w = .error (.missingSecrets (keys.filter fun key => ¬(demand key).Returns w))

theorem ordered (w : World) : Ordered (sources w) w where
  resolves _ _ h := resolve_result h.admits h.decrypts
  quiet key configured h hd := by
    refine ⟨resolve_quiet h hd, fun name => ?_⟩
    have hd' : ¬(sources (withMasterKey name w)).Decrypts (withMasterKey name w).secrets.config key configured :=
      fun hn => hd ⟨hn.unsupplied, hn.nonempty, hn.marked⟩
    have hsame := Sources.resolution_withMasterKey hd name
    rw [resolve_result h fun hn => absurd hn hd, resolve_result (w := withMasterKey name w) h fun hn => absurd hn hd']
    exact hsame
  missing _ _ h := by rw [resolve_result h.admits h.decrypts, Sources.resolution_eq_missing]
  demands _ h := demand_returns.trans (and_iff_right h)
  validates _ := validate_returns
  names keys h hfails := by
    have heq := validate_eq h
    split at heq
    · exact absurd (returns_of_ok heq) hfails
    · exact result_of_error heq

/-- However a session went, a lookup after it follows the order of the sources: the environment as it is, the
environment and the file as they were at the last load that nothing has cleared, and then the configuration. -/
theorem session_keeps_order (config : Config.SecretsSettings) (audited : Bool) (trail : Audit.Trail) (site : Site)
    (turns : List (Turn Call)) (meanwhile : Site → Site) :
    let w := ⟨site, trail, { config, audited }⟩
    let v := run Call.act turns w
    Ordered (.ofSession config (meanwhile v.site) (lastLoad turns w none)) { v with site := meanwhile v.site } := by
  intro w v
  have hloaded : Loaded config (lastLoad turns w none) v.secrets := loaded_run ⟨rfl, fun _ => rfl⟩
  have hsources := hloaded.sources (meanwhile v.site)
  exact hsources ▸ ordered { v with site := meanwhile v.site }

/-- Three lookups go another way. The master key asked for under its own encryption is missing although the
configuration is not empty; a trail that cannot be opened refuses a decryption, whatever its end would be; and a
process cannot be asked for a key without an encoding. -/
theorem order_has_exceptions :
    let own : World := ⟨bareSite, { config := {} }, { config := {} }⟩
    let refusing : World := ⟨{ bareSite with
        environment := ⟨false, [("MAIL_FACTORY_MASTER_KEY", "correct horse")]⟩
        refusals := { openings := [some .permission] } }, { config := {} }, { config := {}, audited := true }⟩
    let process : World := ⟨{ bareSite with environment := ⟨true, []⟩ }, { config := {} }, { config := {} }⟩
    let key : Text := "MAIL_FACTORY_MASTER_KEY"
    let lone : Text := [⟨0xD800, by decide⟩]
    (resolve key (some "encrypted:x")).result own = .error (.missingSecrets [key]) ∧
    (resolve "db" (some "encrypted:x")).result refusing = .error (.auditStorage "logs/audit") ∧
    (sources refusing).resolution {} "db" (some "encrypted:x") = .error (.payload (.fieldCount 1)) ∧
    (resolve lone none).result process = .error .surrogate ∧
    (sources process).resolution {} lone none = .error (.missingSecrets [lone]) := by
  decide +kernel

end Custody.Secrets
