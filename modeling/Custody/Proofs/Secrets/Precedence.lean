import Custody.Proofs.Audit.Reporting
import Custody.Proofs.Secrets.Lookup
import Custody.Proofs.Vault
import Mathlib.Logic.Basic

/-! The order of the sources: which value a key has, and when the configuration is asked for one. -/
namespace Custody

namespace Environment

/-- A name that can be asked for: the environment of a process refuses those without an encoding. -/
def Admits (e : Environment) (name : Text) : Prop := e.ofProcess = true → isEncodable name = true

theorem get?_of_admits {e : Environment} {name : Text} (h : e.Admits name) :
    e.get? name = .ok (e.values.lookup name) := by
  unfold get?
  cases hp : e.ofProcess with
  | false => rfl
  | true => rw [h hp]; rfl

theorem get?_of_not_admits {e : Environment} {name : Text} (h : ¬e.Admits name) :
    e.get? name = .error .surrogate := by
  unfold Admits at h
  rw [Classical.not_imp, Bool.not_eq_true] at h
  rw [get?, h.1, h.2]
  rfl

end Environment

namespace Secrets
open Act World Environment

/-- Whatever secrets are taken from: the environment as it is, and what was loaded. -/
structure Sources where
  live : List (Text × Text)
  snapshot : List (Text × Text)
  file : Properties

namespace Sources
variable (s : Sources) (config : Config.SecretsSettings)

/-- The values that a key has under its names, those that come first before the others. -/
def candidates (key : Text) : List (Text × Source) :=
  [(s.live, Source.environment), (s.snapshot, .environment), (s.file, .secretsFile)].flatMap fun (values, source) =>
    (namesOf key).filterMap fun name => (values.lookup name).map (·, source)

/-- The first value for a key that is not empty. -/
def value? (key : Text) : Option (Text × Source) := (s.candidates key).find? fun c => c.1 ≠ []

/-- What a value of the configuration holds under the master key. -/
def decryption (value : Text) : Except Failure Text :=
  match s.value? config.masterKeyVar with
  | none => .error (.missingSecrets [config.masterKeyVar])
  | some (passphrase, _) => Vault.decrypt ((Text.dropPrefix? config.encryptedPrefix value).getD value) passphrase

/-- The secret for a key: the first value that the sources have, and only without one what the configuration says. -/
def resolution (key : Text) (configured : Option Text) : Except Failure Credential :=
  match s.value? key, configured.getD [] with
  | some (value, source), _ => .ok ⟨key, value, source⟩
  | none, [] => .error (.missingSecrets [key])
  | none, value => if config.encryptedPrefix <+: value then
      (s.decryption config value).map (⟨key, ·, .encryptedConfig⟩)
    else .ok ⟨key, value, .plaintextConfig⟩

/-- Whether the configuration is decrypted: no source has a value, and what it says is marked as encrypted. -/
structure Decrypts (key : Text) (configured : Option Text) : Prop where
  unsupplied : s.value? key = none
  nonempty : configured.getD [] ≠ []
  marked : config.encryptedPrefix <+: configured.getD []

/-- Where the secret for a key comes from. -/
inductive Origin (key : Text) : (configured : Option Text) → Prop where
  | source {configured : Option Text} (value : Text) (source : Source) (found : s.value? key = some (value, source)) :
      Origin key configured
  | nowhere {configured : Option Text} (unsupplied : s.value? key = none) (absent : configured.getD [] = []) :
      Origin key configured
  | marked (value : Text) (unsupplied : s.value? key = none) (nonempty : value ≠ [])
      (marked : config.encryptedPrefix <+: value) : Origin key (some value)
  | plain (value : Text) (unsupplied : s.value? key = none) (nonempty : value ≠ [])
      (unmarked : ¬config.encryptedPrefix <+: value) : Origin key (some value)

theorem origin (key : Text) (configured : Option Text) : s.Origin config key configured := by
  cases hv : s.value? key with
  | some found => exact .source found.1 found.2 hv
  | none =>
    cases configured with
    | none => exact .nowhere hv rfl
    | some value =>
      by_cases hempty : value = []
      · exact .nowhere hv hempty
      · by_cases hmarked : config.encryptedPrefix <+: value
        · exact .marked value hv hempty hmarked
        · exact .plain value hv hempty hmarked

variable {s config} {key value : Text} {configured : Option Text}

theorem resolution_of_source {source : Source} (h : s.value? key = some (value, source)) :
    s.resolution config key configured = .ok ⟨key, value, source⟩ := by
  rw [resolution, h]

theorem resolution_of_nowhere (hnone : s.value? key = none) (habsent : configured.getD [] = []) :
    s.resolution config key configured = .error (.missingSecrets [key]) := by
  rw [resolution, hnone, habsent]

theorem resolution_of_configured (hnone : s.value? key = none) (hne : value ≠ []) :
    s.resolution config key (some value) =
      if config.encryptedPrefix <+: value then (s.decryption config value).map (⟨key, ·, .encryptedConfig⟩)
      else .ok ⟨key, value, .plaintextConfig⟩ := by
  rw [resolution, hnone]
  cases value with
  | nil => exact absurd rfl hne
  | cons c rest => rfl

theorem resolution_withMasterKey (hd : ¬s.Decrypts config key configured) (name : Text) :
    s.resolution { config with masterKeyVar := name } key configured = s.resolution config key configured := by
  cases s.origin config key configured with
  | source value source found => rw [resolution_of_source found, resolution_of_source found]
  | nowhere hnone habsent => rw [resolution_of_nowhere hnone habsent, resolution_of_nowhere hnone habsent]
  | marked value hnone hne hmarked => exact absurd ⟨hnone, hne, hmarked⟩ hd
  | plain value hnone hne hplain =>
    rw [resolution_of_configured hnone hne, resolution_of_configured hnone hne, if_neg hplain, if_neg hplain]

private theorem decryption_eq_missing {names : List Text} :
    s.decryption config value = .error (.missingSecrets names) ↔
      s.value? config.masterKeyVar = none ∧ [config.masterKeyVar] = names := by
  rw [decryption]
  cases h : s.value? config.masterKeyVar with
  | none => simp
  | some found => exact iff_of_false (Vault.decrypt_ne_missing _ _) fun hn => nomatch hn.1

/-- A key counts as missing just when no source has a value for it and the configuration says nothing, or when the
master key itself is asked for under its own encryption. -/
theorem resolution_eq_missing :
    s.resolution config key configured = .error (.missingSecrets [key]) ↔ s.value? key = none ∧
      (configured.getD [] = [] ∨ config.encryptedPrefix <+: configured.getD [] ∧ key = config.masterKeyVar) := by
  cases s.origin config key configured with
  | source value source found => simp [resolution_of_source found, found]
  | nowhere hnone habsent => simp [resolution_of_nowhere hnone habsent, hnone, habsent]
  | plain value hnone hne hplain => simp [resolution_of_configured hnone hne, hne, hplain]
  | marked value hnone hne hmarked =>
    rw [resolution_of_configured hnone hne, if_pos hmarked, Failure.map_eq_error, decryption_eq_missing]
    constructor
    · rintro ⟨-, hkey⟩
      exact ⟨hnone, Or.inr ⟨hmarked, (List.singleton_inj.1 hkey).symm⟩⟩
    · rintro ⟨-, hnil | ⟨-, rfl⟩⟩
      · exact absurd hnil hne
      · exact ⟨hnone, rfl⟩

end Sources

def sources (w : World) : Sources := ⟨w.site.environment.values, w.secrets.snapshot, w.secrets.file⟩

/-- The other names of keys can be asked for. -/
theorem admits_of_mem_namesOf {e : Environment} {key name : Text} (h : e.Admits key) (hname : name ∈ namesOf key) :
    e.Admits name := by
  rcases List.mem_cons.1 hname with rfl | halias
  · exact h
  · obtain ⟨before, rest, hknown, -⟩ := List.lookup_eq_some_iff.1 (Option.mem_toList.1 halias)
    -- The other name of a key is one of the library's own, whatever the key is.
    have hall : ∀ k ∈ wellKnown, isEncodable k.2 = true := by decide
    exact fun _ => hall (key, name) (hknown ▸ List.mem_append_right before List.mem_cons_self)

theorem firstLive_eq {e : Environment} {names : List Text} (h : ∀ name ∈ names, e.Admits name) :
    firstLive e names = .ok (firstIn e.values names) := by
  induction names with
  | nil => rfl
  | cons name rest ih =>
    have hrest := ih fun n hn => h n (List.mem_cons_of_mem _ hn)
    rw [firstLive, get?_of_admits (h name List.mem_cons_self), firstIn, List.findSome?_cons]
    dsimp only [bind, Except.bind]
    cases (e.values.lookup name).filter (· ≠ []) with
    | some v => rfl
    | none => exact hrest

private theorem find?_values (values : List (Text × Text)) (source : Source) (names : List Text) :
    ((names.filterMap fun name => (values.lookup name).map (·, source)).find? fun c => c.1 ≠ []) =
      (firstIn values names).map (·, source) := by
  induction names with
  | nil => rfl
  | cons name rest ih =>
    rw [firstIn, List.findSome?_cons, List.filterMap_cons]
    cases values.lookup name with
    | none => exact ih
    | some v =>
      by_cases hv : v = []
      · rw [hv]
        exact ih
      · simp [hv, Option.filter]

theorem isEncrypted_some {lead value : Text} :
    isEncrypted lead (some value) = true ↔ value ≠ [] ∧ lead <+: value := by
  rw [isEncrypted, Bool.and_eq_true, decide_eq_true_eq, List.isPrefixOf_iff_prefix]

/-- A value is found where the order of the sources puts it, if its name can be asked for at all. -/
theorem find_eq {e : Environment} {r : Resolver} {key : Text} (h : e.Admits key) :
    find e r key = .ok ((Sources.mk e.values r.snapshot r.file).value? key) := by
  have hlive := firstLive_eq fun name hname => admits_of_mem_namesOf h hname
  rw [Sources.value?, Sources.candidates, List.find?_flatMap]
  simp only [List.findSome?_cons, List.findSome?_nil, find?_values]
  rw [find, hlive]
  dsimp only [bind, Except.bind]
  cases firstIn e.values (namesOf key) with
  | some v => rfl
  | none =>
    cases firstIn r.snapshot (namesOf key) with
    | some v => rfl
    | none => cases firstIn r.file (namesOf key) <;> rfl

private theorem find_of_not_admits {e : Environment} {r : Resolver} {key : Text} (h : ¬e.Admits key) :
    find e r key = .error .surrogate := by
  rw [find, namesOf, firstLive, get?_of_not_admits h]
  rfl

variable {w : World} {key : Text}

theorem lookup_eq (h : w.site.environment.Admits key) : lookup key w = .ok ((sources w).value? key) w := by
  rw [lookup, get_bind, find_eq h]
  rfl

theorem lookup_of_not_admits (h : ¬w.site.environment.Admits key) : lookup key w = .error .surrogate w := by
  rw [lookup, get_bind, find_of_not_admits h]
  rfl

theorem get?_eq (h : w.site.environment.Admits key) :
    get? key w = .ok (((sources w).value? key).map Prod.fst) w := by
  rw [get?, bind_of_ok (lookup_eq h)]
  rfl

theorem demand_of_none (h : w.site.environment.Admits key) (hnone : (sources w).value? key = none) :
    demand key w = .error (.missingSecrets [key]) w := by
  rw [demand, bind_of_ok (get?_eq h), hnone]
  rfl

theorem demand_of_some {value : Text} {source : Source} (h : w.site.environment.Admits key)
    (hsome : (sources w).value? key = some (value, source)) : demand key w = .ok value w := by
  rw [demand, bind_of_ok (get?_eq h), hsome]
  rfl

theorem demand_of_not_admits (h : ¬w.site.environment.Admits key) : demand key w = .error .surrogate w :=
  bind_of_error (bind_of_error (lookup_of_not_admits h))

theorem demand_cases (key : Text) (w : World) :
    (∃ value, demand key w = .ok value w) ∨ ∃ f, demand key w = .error f w := by
  by_cases h : w.site.environment.Admits key
  · cases hv : (sources w).value? key with
    | none => exact Or.inr ⟨_, demand_of_none h hv⟩
    | some found => exact Or.inl ⟨_, demand_of_some h hv⟩
  · exact Or.inr ⟨_, demand_of_not_admits h⟩

theorem demand_returns : (demand key).Returns w ↔ w.site.environment.Admits key ∧ (sources w).value? key ≠ none := by
  by_cases h : w.site.environment.Admits key
  · cases hv : (sources w).value? key with
    | none => exact iff_of_false (not_returns_of_error (demand_of_none h hv)) fun hr => hr.2 rfl
    | some found => exact iff_of_true (returns_of_ok (demand_of_some h hv)) ⟨h, Option.some_ne_none found⟩
  · exact iff_of_false (not_returns_of_error (demand_of_not_admits h)) fun hr => h hr.1

/-- The keys that have no secret are those that cannot be demanded. -/
theorem missing_eq {keys : List Text} (h : ∀ k ∈ keys, w.site.environment.Admits k) :
    missing keys w = .ok (keys.filter fun k => ¬(demand k).Returns w) w := by
  have hnone : missing keys w = .ok (keys.filter fun k => ((sources w).value? k).isNone) w := by
    induction keys with
    | nil => rfl
    | cons k rest ih =>
      have hrest := ih fun n hn => h n (List.mem_cons_of_mem _ hn)
      rw [missing, bind_of_ok (get?_eq (h k List.mem_cons_self)), bind_of_ok hrest, List.filter_cons]
      cases (sources w).value? k <;> rfl
  rw [hnone]
  congr 1
  refine List.filter_congr fun k hk => ?_
  rw [Bool.eq_iff_iff, decide_eq_true_eq, demand_returns, Option.isNone_iff_eq_none]
  exact ⟨fun hv hr => hr.2 hv, fun hr => not_not.1 fun hv => hr ⟨h k hk, hv⟩⟩

private theorem missing_of_not_admits {keys : List Text} (h : ∃ k ∈ keys, ¬w.site.environment.Admits k) :
    missing keys w = .error .surrogate w := by
  induction keys with
  | nil =>
    obtain ⟨k, hk, -⟩ := h
    cases hk
  | cons k rest ih =>
    rw [missing]
    by_cases hk : w.site.environment.Admits k
    · obtain ⟨bad, hbad, hnot⟩ := h
      have hrest : bad ∈ rest := (List.mem_cons.1 hbad).resolve_left fun heq => hnot (heq ▸ hk)
      rw [bind_of_ok (get?_eq hk)]
      exact bind_of_error (ih ⟨bad, hrest, hnot⟩)
    · exact bind_of_error (bind_of_error (lookup_of_not_admits hk))

theorem validate_eq {keys : List Text} (h : ∀ k ∈ keys, w.site.environment.Admits k) :
    validate keys w = match keys.filter fun k => ¬(demand k).Returns w with
      | [] => .ok () w
      | names => .error (.missingSecrets names) w := by
  rw [validate, bind_of_ok (missing_eq h)]
  cases keys.filter fun k => ¬(demand k).Returns w with
  | nil => rfl
  | cons k rest => rfl

theorem validate_returns {keys : List Text} : (validate keys).Returns w ↔ ∀ k ∈ keys, (demand k).Returns w := by
  by_cases h : ∀ k ∈ keys, w.site.environment.Admits k
  · have hfilter : (keys.filter fun k => ¬(demand k).Returns w) = [] ↔ ∀ k ∈ keys, (demand k).Returns w := by
      rw [List.filter_eq_nil_iff]
      simp only [decide_eq_true_eq, not_not]
    rw [← hfilter]
    have heq := validate_eq h
    split at heq
    · next hnil => exact iff_of_true (returns_of_ok heq) hnil
    · next hne => exact iff_of_false (not_returns_of_error heq) hne
  · obtain ⟨k, hk, hnot⟩ : ∃ k ∈ keys, ¬w.site.environment.Admits k := by
      simpa only [not_forall, exists_prop] using h
    refine iff_of_false (not_returns_of_error (bind_of_error (missing_of_not_admits ⟨k, hk, hnot⟩))) fun hall => ?_
    exact hnot (demand_returns.1 (hall k hk)).1

/-- A trail that has secrets reported to it takes the reports: the only one that may not is a trail that the first
report would have to open. -/
def Heard (w : World) : Prop :=
  w.secrets.audited = true → w.trail.phase = .fresh → Audit.start.Returns w

private theorem log_of_heard (heard : Heard w) (audited : w.secrets.audited = true)
    {r : Audit.Report} (told : r.Told) :
    ∃ w', Audit.log r w = .ok () w' := by
  rcases Audit.log_cases told w with h | ⟨f, w', fresh, hstart, -⟩
  · exact h
  · exact absurd (heard audited fresh) hstart

private theorem auditCipher_of_heard (heard : Heard w) (action : Audit.Action) (key : Text) (success : Bool) :
    ∃ w', auditCipher action key success w = .ok () w' := by
  rw [auditCipher, get_bind]
  split
  · next audited => exact log_of_heard heard audited (Audit.words_encryption action (.ofText key) success).told
  · exact ⟨w, rfl⟩

/-- A report changes nothing about the end of a cipher operation. -/
theorem audited_result (heard : Heard w) (action : Audit.Action) (key : Text) (r : Except Failure Text) :
    (audited action key r).result w = r := by
  unfold audited
  cases r with
  | ok t =>
    obtain ⟨w', h⟩ := auditCipher_of_heard heard action key true
    rw [result, bind_of_ok (orElse_of_ok (require_ok t w)), bind_of_ok h]
    rfl
  | error e =>
    have hfails : (require (Except.error e) : Act Text) w = .error e w := rfl
    cases hs : e.isSecurity with
    | false => exact result_of_error (bind_of_error (orElse_of_not_sort hfails hs))
    | true =>
      obtain ⟨w', h⟩ := auditCipher_of_heard heard action key false
      exact result_of_error (bind_of_error ((orElse_of_sort hfails hs).trans (bind_of_ok h)))

private theorem log_of_not_heard (h : ¬Heard w) (r : Audit.Report) : ∃ f w', Audit.log r w = .error f w' := by
  simp only [Heard, Classical.not_imp] at h
  obtain ⟨-, fresh, hstart⟩ := h
  cases hs : Audit.start w with
  | ok u w₁ => exact absurd (returns_of_ok hs) hstart
  | error f w₁ => exact ⟨f, w₁, Audit.log_of_error r hs⟩

theorem audited_of_not_heard (h : ¬Heard w) (action : Audit.Action) (key : Text) (r : Except Failure Text) :
    ∃ f w', audited action key r w = .error f w' := by
  have hcipher : ∀ success, ∃ f w', auditCipher action key success w = .error f w' := by
    intro success
    have haudited : w.secrets.audited = true := by
      by_contra hnot
      exact h fun h => absurd h hnot
    rw [auditCipher, get_bind, if_pos haudited]
    exact log_of_not_heard h _
  unfold audited
  cases r with
  | ok t =>
    obtain ⟨f, w', hfails⟩ := hcipher true
    exact ⟨f, w', (bind_of_ok (orElse_of_ok (require_ok t w))).trans (bind_of_error hfails)⟩
  | error e =>
    have hthrows : (require (Except.error e) : Act Text) w = .error e w := rfl
    cases hs : e.isSecurity with
    | false => exact ⟨e, w, bind_of_error (orElse_of_not_sort hthrows hs)⟩
    | true =>
      obtain ⟨f, w', hfails⟩ := hcipher false
      exact ⟨f, w', bind_of_error ((orElse_of_sort hthrows hs).trans (bind_of_error hfails))⟩

/-- A cipher operation succeeds just when it does by itself and the trail takes the report on it. -/
theorem audited_eq_ok {action : Audit.Action} {r : Except Failure Text} {t : Text} :
    (audited action key r).result w = .ok t ↔ r = .ok t ∧ Heard w := by
  by_cases heard : Heard w
  · rw [audited_result heard, and_iff_left heard]
  · obtain ⟨f, w', hfails⟩ := audited_of_not_heard heard action key r
    rw [result_of_error hfails]
    exact iff_of_false nofun fun h => heard h.2

section Resolving
variable {configured : Option Text}

theorem decryptValue_result (hmaster : w.site.environment.Admits w.secrets.config.masterKeyVar) (heard : Heard w)
    (value : Text) : (decryptValue value key).result w = (sources w).decryption w.secrets.config value := by
  rw [Sources.decryption]
  cases h : (sources w).value? w.secrets.config.masterKeyVar with
  | none =>
    have hkey : masterKey w = .error (.missingSecrets [w.secrets.config.masterKeyVar]) w := demand_of_none hmaster h
    rw [result, decryptValue, get_bind, bind_of_error hkey]
  | some found =>
    have hkey : masterKey w = .ok found.1 w := demand_of_some hmaster h
    have hrun : decryptValue value key w = audited .decrypt key (Vault.decrypt
        ((Text.dropPrefix? w.secrets.config.encryptedPrefix value).getD value) found.1) w := by
      rw [decryptValue, get_bind]
      exact bind_of_ok hkey
    rw [result, hrun]
    exact audited_result heard .decrypt key _

theorem resolve_of_some {value : Text} {source : Source} (h : w.site.environment.Admits key)
    (hsome : (sources w).value? key = some (value, source)) :
    resolve key configured w = .ok ⟨key, value, source⟩ w := by
  rw [resolve, bind_of_ok (lookup_eq h), hsome]
  rfl

theorem resolve_of_absent (h : w.site.environment.Admits key) (hnone : (sources w).value? key = none)
    (habsent : configured.getD [] = []) : resolve key configured w = .error (.missingSecrets [key]) w := by
  have hfilter : configured.filter (· ≠ []) = none := by
    cases configured with
    | none => rfl
    | some v => rw [show v = [] from habsent]; rfl
  rw [resolve, bind_of_ok (lookup_eq h), hnone]
  dsimp only
  rw [hfilter]
  rfl

theorem looksEncrypted_eq (w : World) (value : Option Text) :
    looksEncrypted value w = .ok (isEncrypted w.secrets.config.encryptedPrefix value) w := rfl

theorem resolve_of_marked {value : Text} (h : w.site.environment.Admits key) (hnone : (sources w).value? key = none)
    (hmarked : isEncrypted w.secrets.config.encryptedPrefix (some value) = true) :
    resolve key (some value) w = (do return ⟨key, ← decryptValue value key, .encryptedConfig⟩ : Act Credential) w := by
  have hfilter : (some value).filter (· ≠ []) = some value := by
    simp [Option.filter, (isEncrypted_some.1 hmarked).1]
  rw [resolve, bind_of_ok (lookup_eq h), hnone]
  dsimp only
  rw [hfilter]
  dsimp only
  rw [bind_of_ok (looksEncrypted_eq w _), if_pos hmarked]

theorem resolve_of_plain {value : Text} (h : w.site.environment.Admits key) (hnone : (sources w).value? key = none)
    (hne : value ≠ []) (hplain : ¬w.secrets.config.encryptedPrefix <+: value) :
    ∃ records, resolve key (some value) w =
      .ok ⟨key, value, .plaintextConfig⟩ { w with site := { w.site with records } } := by
  have hfilter : (some value).filter (· ≠ []) = some value := by simp [Option.filter, hne]
  rw [resolve, bind_of_ok (lookup_eq h), hnone]
  dsimp only
  rw [hfilter]
  dsimp only
  rw [bind_of_ok (looksEncrypted_eq w _), if_neg fun hm => hplain (isEncrypted_some.1 hm).2]
  exact ⟨_, rfl⟩

/-- A key has the secret that the order of the sources gives it. -/
theorem resolve_result (h : w.site.environment.Admits key)
    (hd : (sources w).Decrypts w.secrets.config key configured →
      w.site.environment.Admits w.secrets.config.masterKeyVar ∧ Heard w) :
    (resolve key configured).result w = (sources w).resolution w.secrets.config key configured := by
  cases (sources w).origin w.secrets.config key configured with
  | source value source found => rw [result_of_ok (resolve_of_some h found), Sources.resolution_of_source found]
  | nowhere hnone habsent =>
    rw [result_of_error (resolve_of_absent h hnone habsent), Sources.resolution_of_nowhere hnone habsent]
  | marked value hnone hne hmarked =>
    obtain ⟨hmaster, heard⟩ := hd ⟨hnone, hne, hmarked⟩
    have hrun := resolve_of_marked h hnone (isEncrypted_some.2 ⟨hne, hmarked⟩)
    rw [Sources.resolution_of_configured hnone hne, if_pos hmarked, ← decryptValue_result hmaster heard value,
      ← result_map, result, result, hrun]
  | plain value hnone hne hplain =>
    obtain ⟨records, hrun⟩ := resolve_of_plain h hnone hne hplain
    rw [Sources.resolution_of_configured hnone hne, if_neg hplain, result_of_ok hrun]

/-- What does not have to be decrypted is found without the master key, and nothing but a warning is left behind. -/
theorem resolve_quiet (h : w.site.environment.Admits key)
    (hd : ¬(sources w).Decrypts w.secrets.config key configured) :
    ∃ records, (resolve key configured).after w = { w with site := { w.site with records } } := by
  cases (sources w).origin w.secrets.config key configured with
  | source value source found => exact ⟨_, after_of_ok (resolve_of_some h found)⟩
  | nowhere hnone habsent => exact ⟨_, after_of_error (resolve_of_absent h hnone habsent)⟩
  | marked value hnone hne hmarked => exact absurd ⟨hnone, hne, hmarked⟩ hd
  | plain value hnone hne hplain =>
    obtain ⟨records, hrun⟩ := resolve_of_plain h hnone hne hplain
    exact ⟨records, after_of_ok hrun⟩

end Resolving

end Secrets

end Custody
