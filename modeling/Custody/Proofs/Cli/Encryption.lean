import Custody.Cli.Run
import Custody.Proofs.Secrets.Encrypted
import Custody.Proofs.Turns

/-! What the program prints when it encrypts a text stands for the text. -/
namespace Custody.Cli
open Secrets

/-- The program gets as far as an encryption: it is asked to encrypt a text, its settings can be read, and its secrets
can be loaded. -/
structure Encrypts (args : List Text) (input : Text) (site : Site) (plain : Text) (s : Config.Settings) (w : World) :
    Prop where
  request : ∃ config value, Request.read args = .ok ⟨false, config, some (.encrypt value)⟩ ∧
    value.getD (valueOf input) = plain ∧ settings site ⟨false, config, some (.encrypt value)⟩ = .ok s
  level : ∃ least, threshold s.logging.level = .ok least
  loads : load { site, trail := { config := s.audit }, secrets := { config := s.secrets } } = .ok () w

variable {args : List Text} {input plain passphrase : Text} {site : Site} {s : Config.Settings} {w : World}

private theorem run_of_encrypts (h : Encrypts args input site plain s w) :
    (∀ {value w'}, encryptValue plain "cli" w = .ok value w' →
      (run args input site).out = value ++ "\n" ∧ (run args input site).status = .ok 0) ∧
    (∀ {f w'}, encryptValue plain "cli" w = .error f w' → (run args input site).status ≠ .ok 0) := by
  obtain ⟨config, value, hread, hplain, hsettings⟩ := h.request
  obtain ⟨least, hlevel⟩ := h.level
  have hrun : run args input site = (Command.encrypt value).run input site s := by
    rw [run, hread]
    dsimp only
    rw [Request.run, hsettings]
    rfl
  rw [hrun, Command.run, hlevel]
  dsimp only
  rw [Command.act, hplain, sealValue, Act.bind_of_ok h.loads]
  constructor
  · intro value w' hok
    rw [hok]
    exact ⟨rfl, rfl⟩
  · intro f w' herror
    rw [herror]
    dsimp only
    intro h
    split at h <;> cases h

/-- An argument can carry any text to be encrypted. -/
theorem read_encrypt (plain : Text) :
    Request.read ["encrypt", "--value=" ++ plain] = .ok ⟨false, none, some (.encrypt (some plain))⟩ := by
  -- The whole program leaves the second argument to the command, whatever it takes it for.
  have hprogram : program.find ["encrypt", "--value=" ++ plain] =
      .ok { operands := some ["encrypt", "--value=" ++ plain] } := by
    obtain ⟨m, hmarks⟩ : ∃ m, program.marks ["encrypt", "--value=" ++ plain] =
        .ok [("encrypt", .operand), ("--value=" ++ plain, m)] := ⟨_, rfl⟩
    rw [Grammar.find, hmarks]
    change (program.search [("encrypt", .operand), ("--value=" ++ plain, m)] {} >>= _) = _
    rw [Grammar.search]
    rfl
  have hcommand : Verb.encrypt.grammar.find ["--value=" ++ plain] = .ok { given := [(valueFlag, plain)] } := by
    have hmarks : Verb.encrypt.grammar.marks ["--value=" ++ plain] =
        .ok [("--value=" ++ plain, .flag valueFlag (some (true, plain)))] := rfl
    rw [Grammar.find, hmarks]
    change (Verb.encrypt.grammar.search [("--value=" ++ plain, .flag valueFlag (some (true, plain)))] {} >>= _) = _
    rw [Grammar.search]
    dsimp only
    rw [if_pos (show valueFlag.takesValue = true from rfl), Grammar.search]
    rfl
  have hread : Command.read ["encrypt", "--value=" ++ plain] = .ok (some (.encrypt (some plain)), []) := by
    change (Verb.encrypt.grammar.find ["--value=" ++ plain] >>= _) = _
    rw [hcommand]
    rfl
  rw [Request.read, hprogram]
  change (Command.read ["encrypt", "--value=" ++ plain] >>= _) = _
  rw [hread]
  rfl

/-- What has been encrypted under the master key comes back: every text without surrogates can be encrypted, by a
resolver and by the program, just when the environment can be asked for the master key and an attached trail takes the
report; and the value stands for the text. The program attaches no trail. -/
theorem encryption_comes_back {plain passphrase : Text} (hne : plain ≠ []) (hplain : plain.isScalar = true)
    (usable : Vault.Usable passphrase) :
    (∀ (w : World) (name : Text), w.site.entropy.WellSized → Found passphrase w →
      ((∃ value w', encryptValue plain name w = .ok value w' ∧ StandsFor w.secrets.config passphrase value plain) ↔
        w.site.environment.Admits w.secrets.config.masterKeyVar ∧ Heard w)) ∧
    (∀ args input site s w, Encrypts args input site plain s w → site.entropy.WellSized → Found passphrase w →
      ((∃ value, (run args input site).out = value ++ "\n" ∧ (run args input site).status = .ok 0 ∧
        StandsFor s.secrets passphrase value plain) ↔ w.site.environment.Admits s.secrets.masterKeyVar)) ∧
    Request.read ["encrypt", "--value=" ++ plain] = .ok ⟨false, none, some (.encrypt (some plain))⟩ := by
  refine ⟨fun w name sized hfound => encryptValue_iff sized hne hplain usable hfound name, ?_, read_encrypt plain⟩
  intro args input site s w hencrypts sized hfound
  obtain ⟨hentropy, hconfig, haudited⟩ := load_keeps hencrypts.loads
  obtain ⟨hprints, hfails⟩ := run_of_encrypts hencrypts
  have heard : Heard w := fun h => by rw [haudited] at h; cases h
  have hiff := encryptValue_iff (hentropy ▸ sized) hne hplain usable hfound "cli"
  rw [and_iff_left heard, show w.secrets.config = s.secrets from hconfig] at hiff
  rw [← hiff]
  constructor
  · rintro ⟨value, hout, hstatus, hstands⟩
    cases h : encryptValue plain "cli" w with
    | error f w' => exact absurd hstatus (hfails h)
    | ok printed w' =>
      have hvalue : printed = value := List.append_cancel_right ((hprints h).1.symm.trans hout)
      exact ⟨printed, w', rfl, hvalue ▸ hstands⟩
  · rintro ⟨value, w', h, hstands⟩
    exact ⟨value, (hprints h).1, (hprints h).2, hstands⟩

section Runs

def keyedSite (ofProcess : Bool) : Site :=
  { bareSite with
    environment := ⟨ofProcess, [("MAIL_FACTORY_MASTER_KEY", "correct horse")]⟩
    entropy := ⟨List.replicate 16 7, List.replicate 12 9⟩ }

/-- With the usual settings the program prints such a value. -/
theorem encryption_comes_back_of_word :
    ∃ value, (run ["encrypt", "--value=swordfish"] [] (keyedSite false)).out = value ++ "\n" ∧
      (run ["encrypt", "--value=swordfish"] [] (keyedSite false)).status = .ok 0 ∧
      StandsFor {} "correct horse" value "swordfish" := by
  have hread : (settings (keyedSite false) ⟨false, none, some (.encrypt (some "swordfish"))⟩).map
      (fun s => (s.secrets, s.logging)) = .ok ({}, {}) := by decide +kernel
  cases hsettings : settings (keyedSite false) ⟨false, none, some (.encrypt (some "swordfish"))⟩ with
  | error f =>
    rw [hsettings] at hread
    cases hread
  | ok s =>
    rw [hsettings] at hread
    obtain ⟨audit, secrets, logging⟩ := s
    cases hread
    have hrequest : Request.read ["encrypt", "--value=swordfish"] =
        .ok ⟨false, none, some (.encrypt (some "swordfish"))⟩ := read_encrypt "swordfish"
    have hlevel : threshold "INFO" = .ok 20 := by decide +kernel
    let loaded : Resolver := { config := {}, snapshot := (keyedSite false).environment.values, loaded := true }
    have hencrypts : Encrypts ["encrypt", "--value=swordfish"] [] (keyedSite false) "swordfish" ⟨audit, {}, {}⟩
        ⟨keyedSite false, { config := audit }, loaded⟩ :=
      ⟨⟨none, some "swordfish", hrequest, rfl, hsettings⟩, ⟨20, hlevel⟩, by rfl⟩
    have hfound : Found "correct horse" ⟨keyedSite false, { config := audit }, loaded⟩ := ⟨.environment, by rfl⟩
    have hplain : Text.isScalar "swordfish" = true := by decide +kernel
    have usable : Vault.Usable "correct horse" := ⟨by decide, by decide +kernel⟩
    have hprints := (encryption_comes_back (by decide) hplain usable).2.1 _ _ _ _ _ hencrypts
      ⟨by decide, by decide⟩ hfound
    exact hprints.2 fun h => by cases h

/-- An encrypted value does not come back for a key that the environment of a process cannot be asked for. -/
theorem not_resolved_without_encoding :
    let w : World := ⟨keyedSite true, { config := {} }, { config := {} }⟩
    let key : Text := [⟨0xD800, by decide⟩]
    ∃ value w', encryptValue "swordfish" "config" w = .ok value w' ∧
      (decryptValue value "config").result w = .ok "swordfish" ∧ (sources w).value? key = none ∧
      (resolve key (some value)).result w = .error .surrogate := by
  intro w key
  have hfound : Found "correct horse" w := ⟨.environment, by rfl⟩
  have heard : Heard w := fun h => by cases h
  have hmaster : w.site.environment.Admits w.secrets.config.masterKeyVar := fun _ => by decide +kernel
  have hkey : ¬w.site.environment.Admits key := fun h => by
    have hencodable := h rfl
    revert hencodable
    decide +kernel
  obtain ⟨value, w', h, hstands⟩ : ∃ value w', encryptValue "swordfish" "config" w = .ok value w' ∧
      StandsFor {} "correct horse" value "swordfish" :=
    (encryptValue_iff ⟨by decide, by decide⟩ (by decide) (by decide +kernel) ⟨by decide, by decide +kernel⟩ hfound
      "config").2 ⟨hmaster, heard⟩
  exact ⟨value, w', h, (hstands.decrypts w "config" rfl hfound).2 ⟨hmaster, heard⟩, by rfl,
    Act.result_of_error (Act.bind_of_error (lookup_of_not_admits hkey))⟩

end Runs

end Custody.Cli
