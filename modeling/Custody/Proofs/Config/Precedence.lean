import Custody.Proofs.Config.Load

/-! Which source counts for a field: the variables of the environment, the file, or the default. -/
namespace Custody.Config

section Overlays

private theorem overlay_of_not_record {v : Value} (h : ∀ r, v ≠ .record r) (w : Value) : overlay v w = v := by
  unfold overlay
  split
  · next new _ => exact absurd rfl (h new)
  · rfl

/-- What has not become a record is what was laid over the rest. -/
theorem overlaid_of_not_record {old : Option Value} {v : Value} (h : ∀ r, old.elim v (overlay v) ≠ .record r) :
    old.elim v (overlay v) = v := by
  cases old with
  | none => rfl
  | some w =>
    apply overlay_of_not_record
    rintro r rfl
    rw [Option.elim_some] at h
    unfold overlay at h
    split at h
    · exact h _ rfl
    · exact h r rfl

/-- A field of two records, one over the other. -/
theorem lookup_overlayFields {new : Fields} (nodup : (new.map Prod.fst).Nodup) (old : Fields) (n : Text) :
    (overlayFields new old).lookup n = match new.lookup n with
      | some v => some ((old.lookup n).elim v (overlay v))
      | none => old.lookup n := by
  induction new generalizing old with
  | nil =>
    rw [overlayFields]
    rfl
  | cons e rest ih =>
    obtain ⟨k, v⟩ := e
    obtain ⟨hnot, hnodup⟩ := List.nodup_cons.1 nodup
    rw [overlayFields, ih hnodup, List.lookup_cons, Value.lookup_insertField]
    by_cases hn : n = k
    · rw [Value.lookup_of_not_mem (hn ▸ hnot), hn, beq_self_eq_true]
      dsimp only
      rw [if_pos rfl]
      cases old.lookup k <;> rfl
    · rw [beq_eq_false_iff_ne.2 hn, if_neg hn]

/-- A field of a record that may be laid over another. -/
theorem lookup_overlaid {new old r : Fields} (nodup : (new.map Prod.fst).Nodup)
    (h : (if old = [] then none else some (.record old)).elim (.record new) (overlay (.record new)) = .record r)
    (n : Text) : r.lookup n = match new.lookup n with
      | some v => some ((old.lookup n).elim v (overlay v))
      | none => old.lookup n := by
  split at h
  · next hnil =>
    cases h
    rw [hnil]
    cases new.lookup n <;> rfl
  · rw [Option.elim_some, overlay] at h
    cases h
    exact lookup_overlayFields nodup old n

end Overlays

section Slots
variable {σ : Type} {usual : σ} {slots : List (Slot σ)}

/-- No record is a value of the field. -/
def Slot.Scalar (slot : Slot σ) : Prop := ∀ r a, slot.read (.record r) ≠ .ok a

theorem Slot.Scalar.not_record {slot : Slot σ} (scalar : slot.Scalar) {value? : Option Value} {a : slot.α}
    (h : slot.valueOf usual value? = .ok a) (r : Fields) : value? ≠ some (.record r) := by
  rintro rfl
  exact scalar r a h

theorem AuditSettings.scalar_slots : ∀ slot ∈ AuditSettings.slots, slot.Scalar := by
  intro slot hslot r a
  simp only [slots, List.mem_cons, List.not_mem_nil, or_false] at hslot
  rcases hslot with rfl | rfl | rfl | rfl | rfl | rfl | rfl <;> rintro ⟨⟩

theorem SecretsSettings.scalar_slots : ∀ slot ∈ SecretsSettings.slots, slot.Scalar := by
  intro slot hslot r a
  simp only [slots, List.mem_cons, List.not_mem_nil, or_false] at hslot
  rcases hslot with rfl | rfl | rfl | rfl <;> rintro ⟨⟩

theorem LoggingSettings.scalar_slots : ∀ slot ∈ LoggingSettings.slots, slot.Scalar := by
  intro slot hslot r a
  rw [slots, List.mem_singleton] at hslot
  subst hslot
  rintro ⟨⟩

/-- What counts for a field may be told in another way that comes to the same for values that the field can have. -/
theorem Follows.congr {f g : Text → Option Value} {s : σ} (h : Follows usual slots f s)
    (hfg : ∀ slot ∈ slots, slot.valueOf usual (f slot.name) = .ok (slot.get s) → f slot.name = g slot.name) :
    Follows usual slots g s := by
  intro slot hslot
  rw [← hfg slot hslot (h slot hslot)]
  exact h slot hslot

end Slots

section Sections
variable {σ : Type} {usual : σ} {slots : List (Slot σ)} {names : List Text} {own : Fields}
  {read : Fields → Except (List Problem) σ} {env : List (Text × Text)} {entries m : List (Yaml.Tree × Yaml.Tree)}
  {name : Text} {s : σ}

/-- A section whose fields are what is given for them, or else what variables of the section's own say. -/
structure Reader (usual : σ) (slots : List (Slot σ)) (names : List Text) (own : Fields)
    (read : Fields → Except (List Problem) σ) : Prop where
  fieldNames : FieldNames names
  named : slots.map Slot.name = names
  scalar : ∀ slot ∈ slots, slot.Scalar
  ownNames : (own.map Prod.fst).Sublist names
  follows : ∀ given s, Plain names given → read given = .ok s →
    Follows usual slots (fun n => (given.lookup n).or (own.lookup n)) s

/-- As far as a record has a value for a field, that is what the variable says. -/
theorem Speaks.eq_set {fields : Fields} {n : Text} (h : Speaks env name n fields)
    (hvalue : ∀ r, fields.lookup n ≠ some (.record r)) : fields.lookup n = set? env (nestedName name n) := by
  cases hset : set? env (nestedName name n) with
  | some v => exact h.own v hset
  | none => exact (h.other hset).resolve_right fun ⟨r, hr⟩ => hvalue r hr

theorem sublist_fromEnvironment (lead : Text) (names : List Text) (env : List (Text × Text)) :
    ((fromEnvironment lead names env).map Prod.fst).Sublist names := by
  unfold fromEnvironment
  induction names with
  | nil => exact List.Sublist.slnil
  | cons name names ih =>
    rw [List.filterMap_cons]
    cases (lowered env).lookup (lead ++ name) with
    | none => exact ih.cons _
    | some v => exact ih.cons_cons _

namespace Reader

theorem name_mem (reader : Reader usual slots names own read) {slot : Slot σ} (h : slot ∈ slots) : slot.name ∈ names :=
  reader.named ▸ List.mem_map_of_mem h

theorem speaks (reader : Reader usual slots names own read) {slot : Slot σ} (h : slot ∈ slots)
    (env : List (Text × Text)) (name : Text) : Speaks env name slot.name (nestedFields env name) :=
  speaks_nestedFields env name (reader.fieldNames.single _ (reader.name_mem h))

/-- Over a file the section's own variables count first. -/
theorem over_file (reader : Reader usual slots names own read) (lower : LowerKeys m)
    (h : sectionOverFile read own m = .ok s) :
    Follows usual slots (fun n => (own.lookup n).or (((Yaml.Tree.textEntries m).lookup n).map Yaml.Tree.value)) s := by
  let file : Fields := (Yaml.Tree.textEntries m).map fun e => (e.1, e.2.value)
  have hread : read (Value.setAll file own) = .ok s := by
    unfold sectionOverFile at h
    split at h
    · cases h
    · split at h
      · cases h
      · dsimp only at h
        split at h
        · cases h
        · next a ha =>
          cases h
          exact ha
  have hnodup : (own.map Prod.fst).Nodup := reader.ownNames.nodup reader.fieldNames.nodup
  have hplain : Plain names (Value.setAll file own) := by
    apply plain_of_lower
    intro e he
    rcases Value.mem_map_fst_setAll.1 (List.mem_map_of_mem (f := Prod.fst) he) with hfile | hown
    · rw [List.map_map] at hfile
      obtain ⟨e', he', hkey⟩ := List.mem_map.1 hfile
      rw [← hkey]
      exact lower e' he'
    · exact reader.fieldNames.small _ (reader.ownNames.subset hown)
  refine (reader.follows _ s hplain hread).congr fun slot _ _ => ?_
  rw [Value.lookup_setAll, Value.lookup_reverse hnodup, Value.lookup_map (fun _ => Yaml.Tree.value)]
  cases own.lookup slot.name with
  | some v => rfl
  | none => simp

/-- Without a file the variables that name the section count first. -/
theorem over_environment (reader : Reader usual slots names own read) (hwhole : set? env (wholeName name) = none)
    {own? : Option Value} (hown : sectionFromEnvironment env name names = .ok own?) {ready? : Given → Option σ}
    (h : SectionRead none own? ready? read s) :
    Follows usual slots (fun n => (set? env (nestedName name n)).or (own.lookup n)) s := by
  cases hown.symm.trans (sectionFromEnvironment_eq reader.fieldNames hwhole)
  have hplain : Plain names (nestedFields env name) := plain_nestedFields reader.fieldNames
  refine (reader.follows _ s hplain h.of_none).congr fun slot hslot hvalue => ?_
  rw [(reader.speaks hslot env name).eq_set]
  rintro r hr
  refine (reader.scalar slot hslot).not_record hvalue r ?_
  rw [hr, Option.some_or]

/-- With and without a file. -/
theorem made (reader : Reader usual slots names own read) (hwhole : set? env (wholeName name) = none)
    (lower : ∀ m ∈ submapping entries name, LowerKeys m) {own? : Option Value}
    (hown : sectionFromEnvironment env name names = .ok own?) {ready? : Given → Option σ}
    (h : SectionMade entries name own own? ready? read s) :
    Follows usual slots (fun n => match submapping entries name with
      | some m => (own.lookup n).or (((Yaml.Tree.textEntries m).lookup n).map Yaml.Tree.value)
      | none => (set? env (nestedName name n)).or (own.lookup n)) s := by
  cases h with
  | file m hfile hread =>
    rw [hfile]
    exact reader.over_file (lower m hfile) hread
  | environment hfile hread =>
    rw [hfile]
    exact reader.over_environment hwhole hown hread

end Reader

end Sections

section Readers
variable {env : List (Text × Text)} {m : List (Yaml.Tree × Yaml.Tree)}

theorem AuditSettings.reader (env : List (Text × Text)) :
    Reader {} slots fields (environment env) (AuditSettings.read env) where
  fieldNames := by constructor <;> decide
  named := rfl
  scalar := scalar_slots
  ownNames := sublist_fromEnvironment _ _ env
  follows given s plain h := (follows_of_read h).congr fun slot hslot _ =>
    lookup_known (by decide) plain (List.mem_map_of_mem (f := Slot.name) hslot)

theorem SecretsSettings.reader (env : List (Text × Text)) :
    Reader {} slots fields (environment env) (SecretsSettings.read env) where
  fieldNames := by constructor <;> decide
  named := rfl
  scalar := scalar_slots
  ownNames := sublist_fromEnvironment _ _ env
  follows given s plain h := (follows_of_read h).congr fun slot hslot _ =>
    lookup_known (by decide) plain (List.mem_map_of_mem (f := Slot.name) hslot)

theorem LoggingSettings.reader : Reader {} slots fields [] LoggingSettings.read where
  fieldNames := by constructor <;> decide
  named := rfl
  scalar := scalar_slots
  ownNames := List.nil_sublist _
  follows given s plain h := (follows_of_read h).congr fun slot hslot _ => (Option.or_none).symm

namespace LoggingSettings

/-- What is merged into the logging section is over what the environment says. -/
theorem over_file {s : LoggingSettings} (hwhole : set? env (wholeName "logging") = none)
    {own? : Option Value} (hown : sectionFromEnvironment env "logging" fields = .ok own?)
    {ready? : Given → Option LoggingSettings} (hvalue : ∀ v, ready? (.value v) = none)
    (h : SectionRead (some (.value (Yaml.Tree.map m).value)) own? ready? LoggingSettings.read s) :
    Follows {} slots (fun n =>
      (((Yaml.Tree.textEntries m).lookup n).map Yaml.Tree.value).or (set? env (nestedName "logging" n))) s := by
  cases hown.symm.trans (sectionFromEnvironment_eq reader.fieldNames hwhole)
  obtain ⟨r, hrecord, hread⟩ := h.of_value (hvalue _)
  rw [Yaml.Tree.value_map] at hrecord
  have hnodup : (((Yaml.Tree.textEntries m).map fun e => (e.1, e.2.value)).map Prod.fst).Nodup := by
    rw [List.map_map]
    exact Yaml.Tree.nodup_textEntries m
  refine (follows_of_read hread).congr fun slot hslot hslotValue => ?_
  have hscalar := (scalar_slots slot hslot).not_record hslotValue
  rw [lookup_overlaid hnodup hrecord, Value.lookup_map (fun _ => Yaml.Tree.value)] at hscalar ⊢
  cases hl : (Yaml.Tree.textEntries m).lookup slot.name with
  | some t =>
    rw [hl] at hscalar
    rw [Option.map_some, Option.some_or]
    exact congrArg some (overlaid_of_not_record fun r h => hscalar r (congrArg some h))
  | none =>
    rw [hl] at hscalar
    exact (reader.speaks hslot env _).eq_set hscalar

end LoggingSettings

end Readers

section Settings
variable {env : List (Text × Text)} {entries : List (Yaml.Tree × Yaml.Tree)} {s : Settings}

/-- A field of a part is a field of the whole. -/
def Slot.within {σ τ : Type} (part : τ → σ) (slot : Slot σ) : Slot τ :=
  ⟨slot.name, slot.read, fun t => slot.get (part t)⟩

/-- A field of the settings: its section, and the variable that its section has for it, if there is one. -/
structure Field where
  section_ : Text
  own : Option Text
  slot : Slot Settings

namespace Field

def audit (slot : Slot AuditSettings) : Field :=
  ⟨"audit", some ("mail_factory_audit_log_" ++ slot.name), slot.within (·.audit)⟩

def secrets (slot : Slot SecretsSettings) : Field :=
  ⟨"secrets", some ("mail_factory_" ++ slot.name), slot.within (·.secrets)⟩

def logging (slot : Slot LoggingSettings) : Field := ⟨"logging", none, slot.within (·.logging)⟩

def all : List Field :=
  AuditSettings.slots.map audit ++ SecretsSettings.slots.map secrets ++ LoggingSettings.slots.map logging

variable (f : Field)

/-- What the section's own variable says. -/
def own? (env : List (Text × Text)) : Option Value := f.own.bind (set? env)

/-- What the variable says that names the section and the field. -/
def nested? (env : List (Text × Text)) : Option Value := set? env (nestedName f.section_ f.slot.name)

/-- What the file says. -/
def file? (entries : List (Yaml.Tree × Yaml.Tree)) : Option Value :=
  (submapping entries f.section_).bind fun m => ((Yaml.Tree.textEntries m).lookup f.slot.name).map Yaml.Tree.value

/-- What should count for a field: the environment, and after it the file. -/
def prescribed (env : List (Text × Text)) (entries : List (Yaml.Tree × Yaml.Tree)) : Option Value :=
  ((f.own? env).or (f.nested? env)).or (f.file? entries)

/-- What counts for a field. A section in the file keeps out the variables that name the section, or comes before them
if it has no variables of its own. -/
def effective (env : List (Text × Text)) (entries : List (Yaml.Tree × Yaml.Tree)) : Option Value :=
  match f.own, submapping entries f.section_ with
  | none, _ => (f.file? entries).or (f.nested? env)
  | some _, some _ => (f.own? env).or (f.file? entries)
  | some _, none => (f.nested? env).or (f.own? env)

/-- A variable that names the section is set, and does not count because of the file. -/
def Overlooked (env : List (Text × Text)) (entries : List (Yaml.Tree × Yaml.Tree)) : Prop :=
  f.nested? env ≠ none ∧
    match f.own with
    | none => f.file? entries ≠ none
    | some _ => submapping entries f.section_ ≠ none

end Field

/-- The names of sections and of their fields are in small letters. -/
def LowerNames (entries : List (Yaml.Tree × Yaml.Tree)) : Prop :=
  LowerKeys entries ∧ ∀ name ∈ Settings.sections, ∀ m ∈ submapping entries name, LowerKeys m

/-- A field has the value that a source gives it, or its default without one. -/
def Field.Has (f : Field) (s : Settings) (value? : Option Value) : Prop :=
  f.slot.valueOf {} value? = .ok (f.slot.get s)

private theorem effective_of_own {σ : Type} (section_ lead : Text) (part : Settings → σ)
    {slot : Slot σ} {names : List Text}
    (hslot : slot.name ∈ names) :
    Field.effective ⟨section_, some (lead ++ slot.name), slot.within part⟩ env entries =
      match submapping entries section_ with
      | some m => ((fromEnvironment lead names env).lookup slot.name).or
          (((Yaml.Tree.textEntries m).lookup slot.name).map Yaml.Tree.value)
      | none => (set? env (nestedName section_ slot.name)).or ((fromEnvironment lead names env).lookup slot.name) := by
  rw [lookup_fromEnvironment lead names env hslot]
  unfold Field.effective Field.file?
  dsimp only
  cases submapping entries section_ <;> rfl

theorem LoggingSettings.has_effective (plain : Yaml.PlainEntries entries)
    (hwhole : set? env (wholeName "logging") = none) {own? : Option Value}
    (hown : sectionFromEnvironment env "logging" fields = .ok own?)
    (h : SectionRead
      (((Yaml.Tree.textEntries entries).lookup ("logging" : Text)).map fun t : Yaml.Tree => .value t.value)
      own? (fun _ => none) LoggingSettings.read s.logging) {slot : Slot LoggingSettings} (hslot : slot ∈ slots) :
    (Field.logging slot).Has s ((Field.logging slot).effective env entries) := by
  unfold Field.effective Field.file?
  dsimp only [Field.logging]
  cases hl : (Yaml.Tree.textEntries entries).lookup ("logging" : Text) with
  | none =>
    rw [hl] at h
    have hnone : submapping entries "logging" = none := by
      unfold submapping
      rw [hl]
    have hvalue := reader.over_environment hwhole hown h slot hslot
    dsimp only at hvalue
    rw [List.lookup_nil, Option.or_none] at hvalue
    rw [hnone, Option.bind_none, Option.none_or]
    exact hvalue
  | some t =>
    rw [hl] at h
    obtain ⟨m, rfl⟩ := exists_map_of_read plain hl (fun _ => rfl) h
    rw [submapping_eq_some.2 hl, Option.bind_some]
    exact LoggingSettings.over_file hwhole hown (fun _ => rfl) h slot hslot

theorem has_effective (plain : Yaml.PlainEntries entries) (lower : LowerNames entries)
    (hwhole : ∀ name ∈ Settings.sections, set? env (wholeName name) = none) (h : Settings.ofEntries env entries = .ok s)
    {f : Field} (hf : f ∈ Field.all) : f.Has s (f.effective env entries) := by
  obtain ⟨⟨auditEnv, hauditEnv, ha⟩, ⟨secretsEnv, hsecretsEnv, hs⟩, ⟨loggingEnv, hloggingEnv, hl⟩⟩ :=
    ofEntries_spec plain lower.1 h
  simp only [Field.all, List.mem_append, List.mem_map] at hf
  rcases hf with (⟨slot, hslot, rfl⟩ | ⟨slot, hslot, rfl⟩) | ⟨slot, hslot, rfl⟩
  · have hreader := AuditSettings.reader env
    rw [Field.audit, effective_of_own _ _ _ (hreader.name_mem hslot)]
    exact hreader.made (hwhole _ (by decide)) (lower.2 _ (by decide)) hauditEnv ha slot hslot
  · have hreader := SecretsSettings.reader env
    rw [Field.secrets, effective_of_own _ _ _ (hreader.name_mem hslot)]
    exact hreader.made (hwhole _ (by decide)) (lower.2 _ (by decide)) hsecretsEnv hs slot hslot
  · exact LoggingSettings.has_effective plain (hwhole _ (by decide)) hloggingEnv hl hslot

variable {f : Field}

private theorem effective_of_overlooked (hown : f.own? env = none) (h : f.Overlooked env entries) :
    f.effective env entries = f.file? entries := by
  obtain ⟨-, h⟩ := h
  unfold Field.effective
  cases hf : f.own with
  | none =>
    rw [hf] at h
    obtain ⟨v, hv⟩ := Option.ne_none_iff_exists'.1 h
    dsimp only
    rw [hv, Option.some_or]
  | some name =>
    rw [hf] at h
    obtain ⟨m, hm⟩ := Option.ne_none_iff_exists'.1 h
    rw [hm, hown]
    exact Option.none_or

private theorem effective_of_not_overlooked (hone : f.own? env = none ∨ f.nested? env = none)
    (h : ¬f.Overlooked env entries) : f.effective env entries = f.prescribed env entries := by
  unfold Field.Overlooked at h
  unfold Field.effective Field.prescribed
  cases hf : f.own with
  | none =>
    have hown : f.own? env = none := by
      unfold Field.own?
      rw [hf, Option.bind_none]
    rw [hf] at h
    dsimp only at h ⊢
    rw [hown, Option.none_or]
    cases hnested : f.nested? env with
    | none => rw [Option.or_none, Option.none_or]
    | some v =>
      have hfile : f.file? entries = none := by simpa [hnested] using h
      rw [hfile, Option.or_none, Option.none_or]
  | some name =>
    rw [hf] at h
    cases hsub : submapping entries f.section_ with
    | none =>
      have hfile : f.file? entries = none := by
        unfold Field.file?
        rw [hsub, Option.bind_none]
      dsimp only
      rw [hfile, Option.or_none]
      rcases hone with hnone | hnone
      · rw [hnone, Option.or_none, Option.none_or]
      · rw [hnone, Option.or_none, Option.none_or]
    | some m =>
      have hnested : f.nested? env = none := by simpa [hsub] using h
      dsimp only
      rw [hnested, Option.or_none]

/-- Accepted settings follow the environment, and after it the file, in each field that the environment does not set
twice, unless a variable is overlooked that makes a difference. -/
theorem has_prescribed_iff {d : Disk} {path : Path} (hfile : fileMapping d path = .ok entries)
    (lower : LowerNames entries) (hwhole : ∀ name ∈ Settings.sections, set? env (wholeName name) = none)
    (h : Settings.ofFile env d path = .ok s) (hf : f ∈ Field.all) :
    f.Has s (f.effective env entries) ∧
      (f.own? env = none ∨ f.nested? env = none →
        (f.Has s (f.prescribed env entries) ↔
          (f.Overlooked env entries → f.slot.valueOf {} (f.nested? env) = f.slot.valueOf {} (f.file? entries)))) := by
  have hentries : Settings.ofEntries env entries = .ok s := by
    rw [Settings.ofFile_eq, hfile] at h
    exact h
  have heffective := has_effective (plain_fileMapping hfile) lower hwhole hentries hf
  refine ⟨heffective, fun hone => ?_⟩
  by_cases hover : f.Overlooked env entries
  · have hown : f.own? env = none := hone.resolve_right hover.1
    obtain ⟨v, hv⟩ := Option.ne_none_iff_exists'.1 hover.1
    have hprescribed : f.prescribed env entries = f.nested? env := by
      rw [Field.prescribed, hown, hv, Option.none_or, Option.some_or]
    rw [effective_of_overlooked hown hover] at heffective
    rw [hprescribed]
    unfold Field.Has at heffective ⊢
    rw [← heffective]
    exact ⟨fun heq _ => heq, fun heq => heq hover⟩
  · rw [effective_of_not_overlooked hone hover] at heffective
    exact iff_of_true heffective fun h => absurd h hover

def diskWith (content : Text) : Disk where
  nodes := [([], .directory 0o755), (["c.yaml"], .file ⟨0, (Utf8.encode? content).getD [], 0, 0o644⟩)]
  cwd := []
  nextSerial := 1
  time := 0
  nodup := by simp
  precedes := by simp [Node.Precedes]

def settingsFile : Path := Path.ofText "c.yaml"

def auditDisk : Disk := diskWith "audit:\n  retention_days: 50\n"

def loggingDisk : Disk := diskWith "logging:\n  level: DEBUG\n"

def retentionDays : Field := .audit AuditSettings.slots[2]

def level : Field := .logging LoggingSettings.slots[0]

theorem retentionDays_mem : retentionDays ∈ Field.all := by
  apply List.mem_append_left
  apply List.mem_append_left
  exact List.mem_map_of_mem (List.getElem_mem _)

theorem level_mem : level ∈ Field.all := by
  apply List.mem_append_right
  exact List.mem_map_of_mem (List.getElem_mem _)

instance (entries : List (Yaml.Tree × Yaml.Tree)) : Decidable (LowerNames entries) :=
  inferInstanceAs (Decidable ((∀ e ∈ _, _) ∧ ∀ name ∈ Settings.sections, ∀ m ∈ submapping entries name, ∀ e ∈ _, _))

theorem exists_of_any {ε α : Type} {x : Except ε α} {p : α → Bool} (h : x.toOption.any p = true) :
    ∃ a, x = .ok a ∧ p a = true := by
  cases x with
  | error e => cases h
  | ok a => exact ⟨a, rfl, h⟩

theorem lowerNames_of_any {d : Disk} (h : (fileMapping d settingsFile).toOption.any (LowerNames ·) = true) :
    ∃ entries, fileMapping d settingsFile = .ok entries ∧ LowerNames entries := by
  obtain ⟨entries, hentries, hlower⟩ := exists_of_any h
  exact ⟨entries, hentries, of_decide_eq_true hlower⟩

theorem has_prescribed_of_own : ∃ s, Settings.ofFile [("MAIL_FACTORY_AUDIT_LOG_RETENTION_DAYS", "7")] auditDisk
    settingsFile = .ok s ∧ s.audit.retentionDays = 7 := by
  let env : List (Text × Text) := [("MAIL_FACTORY_AUDIT_LOG_RETENTION_DAYS", "7")]
  obtain ⟨entries, hentries, hlower⟩ := lowerNames_of_any (d := auditDisk) (by decide +kernel)
  obtain ⟨s, hs, -⟩ := exists_of_any (x := Settings.ofFile env auditDisk settingsFile) (p := fun _ => true)
    (by decide +kernel)
  obtain ⟨-, hiff⟩ := has_prescribed_iff hentries hlower (by decide +kernel) hs retentionDays_mem
  have hown : retentionDays.own? env = some (.text "7") := by rfl
  have hnested : retentionDays.nested? env = none := by decide +kernel
  have hhas : retentionDays.Has s (retentionDays.prescribed env entries) :=
    (hiff (Or.inr hnested)).2 fun h => absurd hnested h.1
  rw [Field.prescribed, hown, Option.some_or, Option.some_or] at hhas
  have hseven : (.ok 7 : Except Mismatch Int) = .ok s.audit.retentionDays := hhas
  exact ⟨s, hs, (Except.ok.inj hseven).symm⟩

/-- In accepted settings a variable that names the section is all that sets a field, and the field does not have its
value. -/
def Overridden (env : List (Text × Text)) (d : Disk) (f : Field) : Prop :=
  ∃ entries s, fileMapping d settingsFile = .ok entries ∧ LowerNames entries ∧
    (∀ name ∈ Settings.sections, set? env (wholeName name) = none) ∧ Settings.ofFile env d settingsFile = .ok s ∧
    f ∈ Field.all ∧ f.own? env = none ∧ f.nested? env ≠ none ∧ ¬f.Has s (f.prescribed env entries)

theorem overridden : Overridden [("MAIL_FACTORY_AUDIT__RETENTION_DAYS", "7")] auditDisk retentionDays ∧
    Overridden [("MAIL_FACTORY_LOGGING__LEVEL", "ERROR")] loggingDisk level := by
  constructor
  · let env : List (Text × Text) := [("MAIL_FACTORY_AUDIT__RETENTION_DAYS", "7")]
    obtain ⟨entries, hentries, hlower⟩ := lowerNames_of_any (d := auditDisk) (by decide +kernel)
    obtain ⟨s, hs, hdays⟩ := exists_of_any (x := Settings.ofFile env auditDisk settingsFile)
      (p := fun s => s.audit.retentionDays = 50) (by decide +kernel)
    refine ⟨entries, s, hentries, hlower, by decide +kernel, hs, retentionDays_mem, by decide +kernel,
      by decide +kernel, ?_⟩
    have hown : retentionDays.own? env = none := by decide +kernel
    have hnested : retentionDays.nested? env = some (.text "7") := by rfl
    rw [Field.prescribed, hown, hnested, Option.none_or, Option.some_or]
    intro hhas
    have hseven : (.ok 7 : Except Mismatch Int) = .ok s.audit.retentionDays := hhas
    rw [of_decide_eq_true hdays] at hseven
    cases hseven
  · let env : List (Text × Text) := [("MAIL_FACTORY_LOGGING__LEVEL", "ERROR")]
    obtain ⟨entries, hentries, hlower⟩ := lowerNames_of_any (d := loggingDisk) (by decide +kernel)
    obtain ⟨s, hs, hlevel⟩ := exists_of_any (x := Settings.ofFile env loggingDisk settingsFile)
      (p := fun s => s.logging.level = ("DEBUG" : Text)) (by decide +kernel)
    refine ⟨entries, s, hentries, hlower, by decide +kernel, hs, level_mem, by decide +kernel, by decide +kernel, ?_⟩
    have hown : level.own? env = none := by decide +kernel
    have hnested : level.nested? env = some (.text "ERROR") := by rfl
    rw [Field.prescribed, hown, hnested, Option.none_or, Option.some_or]
    intro hhas
    have herror : (.ok "ERROR" : Except Mismatch Text) = .ok s.logging.level := hhas
    rw [of_decide_eq_true hlevel] at herror
    cases herror

end Settings

end Custody.Config
