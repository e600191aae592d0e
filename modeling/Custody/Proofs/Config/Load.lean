import Custody.Proofs.Config.Environment
import Custody.Proofs.Data.Yaml

/-! How accepted settings are made: each section from what was given for it, from the environment, from both, or from
nothing. -/
namespace Custody.Config
open Yaml (PlainEntries)

theorem finish_ne_nil {α : Type} {r : Reading α} {others : Fields} {ps : List Problem}
    (h : finish r others = .error ps) : ps ≠ [] := by
  have hfinish : finish r others = if (r.run []).2 ++ unknown others = [] then .ok (r.run []).1
      else .error ((r.run []).2 ++ unknown others) := rfl
  rw [hfinish] at h
  split at h
  · cases h
  · next hsome =>
    cases h
    exact hsome

/-- Whatever a section is refused for, it is refused for something. -/
def Explains {α : Type} (read : Fields → Except (List Problem) α) : Prop :=
  ∀ fields ps, read fields = .error ps → ps ≠ []

theorem AuditSettings.explains_read (env : List (Text × Text)) : Explains (AuditSettings.read env) := by
  intro fields ps h
  unfold AuditSettings.read at h
  exact finish_ne_nil h

theorem SecretsSettings.explains_read (env : List (Text × Text)) : Explains (SecretsSettings.read env) := by
  intro fields ps h
  unfold SecretsSettings.read at h
  exact finish_ne_nil h

theorem LoggingSettings.explains_read : Explains LoggingSettings.read := fun _ _ h => finish_ne_nil h

section Yields
variable {α β : Type} {Q : α → Prop}

/-- A reading that may end at once has a result of a certain kind, unless it does end or finds something wrong. -/
def Yields (r : ExceptT Failure Reading α) (Q : α → Prop) : Prop := Reads r.run fun x => ∀ a, x = .ok a → Q a

theorem Yields.pure {a : α} (h : Q a) : Yields (pure a) Q := by
  apply Reads.pure
  rintro b ⟨⟩
  exact h

theorem Yields.throw (e : Failure) (Q : α → Prop) : Yields (throw e) Q := Reads.pure nofun

theorem Yields.bind {r : ExceptT Failure Reading α} {f : α → ExceptT Failure Reading β} {R : β → Prop}
    (hr : Yields r Q) (hf : ∀ a, Yields (f a) fun b => Q a → R b) : Yields (r >>= f) R := by
  unfold Yields
  rw [ExceptT.run_bind]
  refine Reads.bind hr fun x => ?_
  cases x with
  | error e => exact Reads.pure fun _ => nofun
  | ok a =>
    intro ps
    obtain ⟨more, hmore, hR⟩ := hf a ps
    exact ⟨more, hmore, fun hnone hQ b hb => hR hnone b hb (hQ a rfl)⟩

/-- A reading that finds something wrong may go on with anything. -/
theorem Yields.complain {ps : List Problem} (hps : ps ≠ []) (a : α) (Q : α → Prop) :
    Yields (do
      modify (· ++ ps)
      return a) Q :=
  fun _ => ⟨ps, rfl, fun h => absurd h hps⟩

theorem of_run {r : ExceptT Failure Reading α} (hr : Yields r Q) {result : Except Failure α} {problems : List Problem}
    (h : r.run.run [] = (result, problems)) (hnone : problems = []) {a : α} (ha : result = .ok a) : Q a := by
  obtain ⟨more, hmore, hQ⟩ := hr []
  rw [h, List.nil_append] at hmore
  rw [h] at hQ
  exact hQ (hmore.symm.trans hnone) a ha

end Yields

section Sections
variable {α : Type}

/-- The ways in which a section gets its value. -/
inductive SectionRead (given : Option Given) (env : Option Value) (ready : Given → Option α)
    (read : Fields → Except (List Problem) α) (a : α) : Prop where
  | ready (g : Given) (hgiven : given = some g) (hready : ready g = some a)
  | value (v : Value) (r : Fields) (hgiven : given = some (.value v)) (hrecord : env.elim v (overlay v) = .record r)
      (hread : read r = .ok a)
  | environment (r : Fields) (hgiven : given = none) (henv : env = some (.record r)) (hread : read r = .ok a)
  | usual (hgiven : given = none) (henv : env = none) (hread : read [] = .ok a)

namespace SectionRead
variable {env : Option Value} {ready? : Given → Option α} {read : Fields → Except (List Problem) α} {a b : α}

theorem of_ready {g : Given} (hready : ready? g = some b) (hvalue : ∀ v, ready? (.value v) = none)
    (h : SectionRead (some g) env ready? read a) : a = b := by
  cases h with
  | ready g' hg ha =>
    cases hg
    exact Option.some.inj (ha.symm.trans hready)
  | value v r hv =>
    cases hv
    rw [hvalue] at hready
    cases hready
  | environment r hg => cases hg
  | usual hg => cases hg

theorem of_value {v : Value} (hvalue : ready? (.value v) = none)
    (h : SectionRead (some (.value v)) env ready? read a) :
    ∃ r, env.elim v (overlay v) = .record r ∧ read r = .ok a := by
  cases h with
  | ready g hg ha =>
    cases hg
    rw [hvalue] at ha
    cases ha
  | value v' r hv hrecord hread =>
    cases hv
    exact ⟨r, hrecord, hread⟩
  | environment r hg => cases hg
  | usual hg => cases hg

/-- With nothing given a section is read from its environment, as if that said nothing where there is none. -/
theorem of_none {fields : Fields}
    (h : SectionRead none (if fields = [] then none else some (.record fields)) ready? read a) :
    read fields = .ok a := by
  cases h with
  | ready g hg => cases hg
  | value v r hv => cases hv
  | environment r _ henv hread =>
    split at henv
    · cases henv
    · cases henv
      exact hread
  | usual _ henv hread =>
    split at henv
    · next hnil => rwa [hnil]
    · cases henv

end SectionRead

/-- A section that is read from a value. Only a record has its fields. -/
def readValue (name : Text) (type : String) (read : Fields → Except (List Problem) α) (usual : α) :
    Value → ExceptT Failure Reading α
  | .record fields => match read fields with
    | .ok a => pure a
    | .error ps => do
      modify (· ++ within name ps)
      return usual
  | _ => do
    modify (· ++ [⟨[name], .sectionType type⟩])
    return usual

private theorem readValue_spec (name : Text) (type : String)
    {read : Fields → Except (List Problem) α} (explains : Explains read)
    (usual : α) {v : Value} {Q : α → Prop} (hQ : ∀ r a, v = .record r → read r = .ok a → Q a) :
    Yields (readValue name type read usual v) Q := by
  unfold readValue
  split
  · next r =>
    cases h : read r with
    | ok a => exact .pure (hQ r a rfl h)
    | error ps =>
      refine .complain (fun hnil => explains r ps h ?_) usual Q
      exact List.map_eq_nil_iff.1 hnil
  · exact .complain (List.cons_ne_nil _ _) usual Q

theorem readSection_spec (name : Text) (type : String) (given : Option Given) (env : Option Value)
    (ready : Given → Option α) {read : Fields → Except (List Problem) α} (explains : Explains read) (usual : α) :
    Yields (readSection name type given env ready read usual) (SectionRead given env ready read) := by
  unfold readSection
  cases given with
  | some g =>
    dsimp only
    cases hready : ready g with
    | some a => exact .pure (.ready g rfl hready)
    | none =>
      cases g with
      | value v =>
        have hvalue : ∀ r a, env.elim v (overlay v) = .record r → read r = .ok a →
            SectionRead (some (.value v)) env ready read a := fun r a => .value v r rfl
        cases env with
        | none => exact readValue_spec name type explains usual hvalue
        | some e => exact readValue_spec name type explains usual hvalue
      | audit s => exact .complain (List.cons_ne_nil _ _) usual _
      | secrets s => exact .complain (List.cons_ne_nil _ _) usual _
  | none =>
    cases env with
    | some v =>
      refine readValue_spec name type explains usual fun r a hrecord hread => ?_
      exact .environment r rfl (congrArg some hrecord) hread
    | none =>
      dsimp only
      cases h : read [] with
      | ok a => exact .pure (.usual rfl rfl h)
      | error ps => exact .throw _ _

/-- The section that is made of a given value, if it is one. -/
def Given.audit? : Given → Option AuditSettings
  | .audit s => some s
  | _ => none

def Given.secrets? : Given → Option SecretsSettings
  | .secrets s => some s
  | _ => none

/-- Accepted settings are made of their sections, each of which has been read. -/
structure SettingsRead (env : List (Text × Text)) (given : Text → Option Given) (s : Settings) : Prop where
  audit : ∃ own, sectionFromEnvironment env "audit" AuditSettings.fields = .ok own ∧
    SectionRead (given "audit") own Given.audit? (AuditSettings.read env) s.audit
  secrets : ∃ own, sectionFromEnvironment env "secrets" SecretsSettings.fields = .ok own ∧
    SectionRead (given "secrets") own Given.secrets? (SecretsSettings.read env) s.secrets
  logging : ∃ own, sectionFromEnvironment env "logging" LoggingSettings.fields = .ok own ∧
    SectionRead (given "logging") own (fun _ => none) LoggingSettings.read s.logging

theorem Settings.read_spec {env : List (Text × Text)} {given : List (Text × Given)} {s : Settings}
    (h : Settings.read env given = .ok s) :
    SettingsRead env (fun n => (settle sections given).1.lookup n) s := by
  unfold Settings.read at h
  obtain ⟨auditEnv, haudit, h⟩ := Failure.bind_eq_ok.1 h
  obtain ⟨secretsEnv, hsecrets, h⟩ := Failure.bind_eq_ok.1 h
  obtain ⟨loggingEnv, hlogging, h⟩ := Failure.bind_eq_ok.1 h
  generalize settle sections given = settled at h ⊢
  obtain ⟨known, others⟩ := settled
  dsimp only at h ⊢
  have hyields : Yields (do
      let audit ← readSection "audit" "AuditConfig" (known.lookup ("audit" : Text)) auditEnv
        (fun | .audit s => some s | _ => none) (AuditSettings.read env) {}
      let secrets ← readSection "secrets" "SecretsConfig" (known.lookup ("secrets" : Text)) secretsEnv
        (fun | .secrets s => some s | _ => none) (SecretsSettings.read env) {}
      let logging ← readSection "logging" "LoggingConfig" (known.lookup ("logging" : Text)) loggingEnv
        (fun _ => none) LoggingSettings.read {}
      return { audit, secrets, logging })
      (SettingsRead env fun n => known.lookup n) := by
    refine .bind (readSection_spec _ _ _ _ Given.audit? (AuditSettings.explains_read env) _) fun audit => ?_
    refine .bind (readSection_spec _ _ _ _ Given.secrets? (SecretsSettings.explains_read env) _) fun secrets => ?_
    refine .bind (readSection_spec _ _ _ _ _ LoggingSettings.explains_read _) fun logging => .pure ?_
    exact fun hl hs ha => ⟨⟨auditEnv, haudit, ha⟩, ⟨secretsEnv, hsecrets, hs⟩, ⟨loggingEnv, hlogging, hl⟩⟩
  split at h
  next result problems hrun =>
    cases result with
    | error e => cases h
    | ok s' =>
      dsimp only at h
      split at h
      · next hnone =>
        cases h
        exact of_run hyields hrun (List.append_eq_nil_iff.1 hnone).1 rfl
      · cases h

end Sections

section Files
variable {env : List (Text × Text)} {entries : List (Yaml.Tree × Yaml.Tree)} {s : Settings}

/-- The mapping that a file holds. The file has to be there. -/
def fileMapping (d : Disk) (path : Path) : Except Failure (List (Yaml.Tree × Yaml.Tree)) := do
  if ← d.pathExists path then
    let tree ← Yaml.read (← Properties.decodeFile (← d.read path))
    match if tree.truthy then tree else .map [] with
    | .map entries => return entries
    | _ => .error (.configNotMapping path.text)
  else .error (.configMissing path.text)

theorem Settings.ofFile_eq (env : List (Text × Text)) (d : Disk) (path : Path) :
    Settings.ofFile env d path = fileMapping d path >>= Settings.ofEntries env := by
  unfold Settings.ofFile Settings.ofText fileMapping
  cases d.pathExists path with
  | error e => rfl
  | ok here =>
    cases here with
    | false => rfl
    | true =>
      cases d.read path with
      | error e => rfl
      | ok bytes =>
        change (Properties.decodeFile bytes >>= _) = (Properties.decodeFile bytes >>= _) >>= _
        cases Properties.decodeFile bytes with
        | error e => rfl
        | ok t =>
          change (Yaml.read t >>= _) = (Yaml.read t >>= _) >>= _
          cases Yaml.read t with
          | error e => rfl
          | ok tree =>
            change (match if tree.truthy then tree else .map [] with
              | .map entries => Settings.ofEntries env entries
              | _ => .error (.configNotMapping path.text)) = (match if tree.truthy then tree else .map [] with
              | .map entries => Except.ok entries
              | _ => .error (.configNotMapping path.text)) >>= _
            split <;> rfl

theorem plain_fileMapping {d : Disk} {path : Path} (h : fileMapping d path = .ok entries) : PlainEntries entries := by
  obtain ⟨here, -, h⟩ := Failure.bind_eq_ok.1 h
  split at h
  · obtain ⟨bytes, -, h⟩ := Failure.bind_eq_ok.1 h
    obtain ⟨t, -, h⟩ := Failure.bind_eq_ok.1 h
    obtain ⟨tree, htree, h⟩ := Failure.bind_eq_ok.1 h
    split at h
    · next l hmap =>
      cases h
      split at hmap
      · exact Yaml.plain_read (htree.trans (congrArg _ hmap))
      · cases hmap
        exact .nil
    · cases h
  · cases h

def submapping (entries : List (Yaml.Tree × Yaml.Tree)) (name : Text) : Option (List (Yaml.Tree × Yaml.Tree)) :=
  match (Yaml.Tree.textEntries entries).lookup name with
  | some (.map m) => some m
  | _ => none

def overFile {α : Type} (entries : List (Yaml.Tree × Yaml.Tree)) (name : Text) (given : α → Given)
    (read : Fields → Except (List Problem) α) (own : Fields) : Except Failure (Option Given) :=
  match submapping entries name with
  | some m => (sectionOverFile read own m).map fun a => some (given a)
  | none => .ok none

theorem overFile_eq_ok {α : Type} {name : Text} {given : α → Given} {read : Fields → Except (List Problem) α}
    {own : Fields} {ready : Option Given} (h : overFile entries name given read own = .ok ready) :
    submapping entries name = none ∧ ready = none ∨
      ∃ m a, submapping entries name = some m ∧ sectionOverFile read own m = .ok a ∧ ready = some (given a) := by
  unfold overFile at h
  split at h
  · next m hm =>
    cases hread : sectionOverFile read own m with
    | error e =>
      rw [hread] at h
      cases h
    | ok a =>
      rw [hread] at h
      cases h
      exact Or.inr ⟨m, a, hm, hread, rfl⟩
  · next hm =>
    cases h
    exact Or.inl ⟨hm, rfl⟩

/-- The text keys of a mapping with what is given for each: the section that has been read for it, or its value. -/
def givenOf (audit secrets : Option Given) (entries : List (Yaml.Tree × Yaml.Tree)) : List (Text × Given) :=
  (Yaml.Tree.textEntries entries).map fun e =>
    (e.1, (if e.1 = ("audit" : Text) then audit else if e.1 = ("secrets" : Text) then secrets else none).getD
      (.value e.2.value))

theorem Settings.ofEntries_eq (env : List (Text × Text)) (entries : List (Yaml.Tree × Yaml.Tree)) :
    Settings.ofEntries env entries = (do
      let audit ← overFile entries "audit" .audit (AuditSettings.read env) (AuditSettings.environment env)
      let secrets ← overFile entries "secrets" .secrets (SecretsSettings.read env) (SecretsSettings.environment env)
      if !Yaml.Tree.hasTextKeys entries then .error .badType
      else Settings.read env (givenOf audit secrets entries)) := by
  have hmatch : ∀ (name : Text) {α : Type} (given : α → Given) (read : Fields → Except (List Problem) α) (own : Fields)
      (f : Option Given → Except Failure Settings), (match (Yaml.Tree.textEntries entries).lookup name with
        | some (.map m) => ((sectionOverFile read own m).map fun a => some (given a)) >>= f
        | _ => .ok none >>= f) = overFile entries name given read own >>= f := by
    intro name α given read own f
    unfold overFile submapping
    split <;> rfl
  let rest (audit secrets : Option Given) : Except Failure Settings :=
    if !Yaml.Tree.hasTextKeys entries then .error .badType
    else Settings.read env (givenOf audit secrets entries)
  have hsecrets (audit : Option Given) := hmatch "secrets" Given.secrets (SecretsSettings.read env)
    (SecretsSettings.environment env) (rest audit)
  have haudit := hmatch "audit" Given.audit (AuditSettings.read env) (AuditSettings.environment env) fun audit =>
    overFile entries "secrets" .secrets (SecretsSettings.read env) (SecretsSettings.environment env) >>= rest audit
  refine Eq.trans ?_ haudit
  simp only [← hsecrets]
  rfl

/-- All text keys of a mapping are in small letters. -/
def LowerKeys (entries : List (Yaml.Tree × Yaml.Tree)) : Prop := ∀ e ∈ Yaml.Tree.textEntries entries, e.1.lower = e.1

/-- The ways in which a section with variables of its own is made: over the mapping that a file has for it, or from the
environment alone. -/
inductive SectionMade {α : Type} (entries : List (Yaml.Tree × Yaml.Tree)) (name : Text) (own : Fields)
    (env : Option Value) (ready : Given → Option α) (read : Fields → Except (List Problem) α) (a : α) : Prop where
  | file (m : List (Yaml.Tree × Yaml.Tree)) (hfile : submapping entries name = some m)
      (hread : sectionOverFile read own m = .ok a)
  | environment (hfile : submapping entries name = none) (hread : SectionRead none env ready read a)

/-- Only a record can be laid over anything else to make a record. -/
theorem eq_record_of_overlay {env : Option Value} {v : Value} {r : Fields}
    (h : env.elim v (overlay v) = .record r) : ∃ new, v = .record new := by
  cases env with
  | none => exact ⟨r, h⟩
  | some e =>
    rw [Option.elim_some] at h
    unfold overlay at h
    split at h
    · next new _ => exact ⟨new, rfl⟩
    · exact ⟨r, h⟩

private theorem eq_map_of_value {t : Yaml.Tree} (plain : t.Plain) {r : Fields}
    (h : t.value = .record r) : ∃ m, t = .map m := by
  cases t with
  | leaf v => exact absurd (congrArg Yaml.Tree.leaf h) (plain r)
  | list items => cases h
  | map m => exact ⟨m, rfl⟩

theorem submapping_eq_some {name : Text} {m : List (Yaml.Tree × Yaml.Tree)} :
    submapping entries name = some m ↔ (Yaml.Tree.textEntries entries).lookup name = some (.map m) := by
  unfold submapping
  split
  · next l hl => rw [hl, Option.some.injEq, Option.some.injEq, Yaml.Tree.map.injEq]
  · next hnot => exact iff_of_false nofun (hnot m)

/-- Of what a mapping holds under a name only a mapping is read as a section. -/
theorem exists_map_of_read {α : Type} {name : Text} {t : Yaml.Tree} (plain : PlainEntries entries)
    (ht : (Yaml.Tree.textEntries entries).lookup name = some t) {ready? : Given → Option α}
    (hvalue : ∀ v, ready? (.value v) = none) {read : Fields → Except (List Problem) α} {env : Option Value} {a : α}
    (h : SectionRead (some (.value t.value)) env ready? read a) : ∃ m, t = .map m := by
  obtain ⟨r, hrecord, -⟩ := h.of_value (hvalue _)
  obtain ⟨new, hnew⟩ := eq_record_of_overlay hrecord
  obtain ⟨key, hmem⟩ := Yaml.Tree.mem_of_lookup_textEntries ht
  exact eq_map_of_value (plain _ hmem) hnew

private theorem sectionMade_of_read {α : Type} {name : Text} {given : α → Given} {ready? : Given → Option α}
    {read : Fields → Except (List Problem) α} {own : Fields} {ready : Option Given} {env : Option Value} {a : α}
    (hgiven : ∀ a, ready? (given a) = some a) (hvalue : ∀ v, ready? (.value v) = none) (plain : PlainEntries entries)
    (hover : overFile entries name given read own = .ok ready)
    (h : SectionRead (((Yaml.Tree.textEntries entries).lookup name).map fun t => ready.getD (.value t.value)) env ready?
      read a) : SectionMade entries name own env ready? read a := by
  rcases overFile_eq_ok hover with ⟨hnone, rfl⟩ | ⟨m, b, hm, hread, rfl⟩
  · cases hl : (Yaml.Tree.textEntries entries).lookup name with
    | none =>
      rw [hl] at h
      exact .environment hnone h
    | some t =>
      rw [hl] at h
      obtain ⟨m, rfl⟩ := exists_map_of_read plain hl hvalue h
      rw [submapping_eq_some.2 hl] at hnone
      cases hnone
  · rw [submapping_eq_some.1 hm] at h
    exact .file m hm (h.of_ready (hgiven b) hvalue ▸ hread)

theorem ofEntries_spec (plain : PlainEntries entries) (lower : LowerKeys entries)
    (h : Settings.ofEntries env entries = .ok s) :
    (∃ own, sectionFromEnvironment env "audit" AuditSettings.fields = .ok own ∧
      SectionMade entries "audit" (AuditSettings.environment env) own Given.audit? (AuditSettings.read env) s.audit) ∧
    (∃ own, sectionFromEnvironment env "secrets" SecretsSettings.fields = .ok own ∧
      SectionMade entries "secrets" (SecretsSettings.environment env) own Given.secrets? (SecretsSettings.read env)
        s.secrets) ∧
    ∃ own, sectionFromEnvironment env "logging" LoggingSettings.fields = .ok own ∧
      SectionRead (((Yaml.Tree.textEntries entries).lookup ("logging" : Text)).map fun t : Yaml.Tree => .value t.value)
        own (fun _ => none) LoggingSettings.read s.logging := by
  rw [Settings.ofEntries_eq] at h
  obtain ⟨audit, haudit, h⟩ := Failure.bind_eq_ok.1 h
  obtain ⟨secrets, hsecrets, h⟩ := Failure.bind_eq_ok.1 h
  split at h
  · cases h
  have hplain : Plain Settings.sections (givenOf audit secrets entries) := by
    apply plain_of_lower
    intro e he
    obtain ⟨e', he', rfl⟩ := List.mem_map.1 he
    exact lower e' he'
  have hgiven : ∀ n ∈ Settings.sections, (settle Settings.sections (givenOf audit secrets entries)).1.lookup n =
      ((Yaml.Tree.textEntries entries).lookup n).map fun t =>
        (if n = ("audit" : Text) then audit else if n = ("secrets" : Text) then secrets else none).getD
          (.value t.value) := by
    intro n hn
    rw [lookup_settle (by decide) hplain, if_pos hn]
    exact Value.lookup_map (fun k (t : Yaml.Tree) =>
      (if k = ("audit" : Text) then audit else if k = ("secrets" : Text) then secrets else none).getD
        (.value t.value)) _ n
  obtain ⟨⟨auditEnv, hauditEnv, ha⟩, ⟨secretsEnv, hsecretsEnv, hs⟩, ⟨loggingEnv, hloggingEnv, hl⟩⟩ :=
    Settings.read_spec h
  rw [hgiven _ (by decide)] at ha hs hl
  refine ⟨⟨auditEnv, hauditEnv, ?_⟩, ⟨secretsEnv, hsecretsEnv, ?_⟩, ⟨loggingEnv, hloggingEnv, ?_⟩⟩
  · exact sectionMade_of_read (fun _ => rfl) (fun _ => rfl) plain haudit ha
  · exact sectionMade_of_read (fun _ => rfl) (fun _ => rfl) plain hsecrets hs
  · exact hl

end Files

end Custody.Config
