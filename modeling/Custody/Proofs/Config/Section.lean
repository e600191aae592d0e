import Custody.Config.Section
import Custody.Proofs.Data.Fields
import Custody.Proofs.Text.Case

/-! What each field of a section is after the section has been read: what was given for it, or what the environment says
under the section's own names, or the default. -/
namespace Custody.Config

section Reading
variable {α β : Type} {P Q : α → Prop}

/-- What becomes of a field: a value is read, and without one it has its default. -/
def taken (usual : α) (read : Value → Except Mismatch α) : Option Value → Except Mismatch α
  | none => .ok usual
  | some v => read v

/-- Whatever a reading finds wrong is added to the problems, and if there is nothing its result is of a certain kind. -/
def Reads (r : Reading α) (Q : α → Prop) : Prop :=
  ∀ ps, ∃ more, (r.run ps).2 = ps ++ more ∧ (more = [] → Q (r.run ps).1)

theorem Reads.pure {a : α} (h : Q a) : Reads (pure a) Q := fun ps => ⟨[], (List.append_nil ps).symm, fun _ => h⟩

theorem Reads.bind {r : Reading α} {f : α → Reading β} {R : β → Prop} (hr : Reads r P)
    (hf : ∀ a, Reads (f a) fun b => P a → R b) : Reads (r >>= f) R := by
  intro ps
  obtain ⟨more, hmore, hP⟩ := hr ps
  obtain ⟨rest, hrest, hR⟩ := hf (r.run ps).1 (r.run ps).2
  refine ⟨more ++ rest, ?_, fun hnone => ?_⟩
  · change ((f (r.run ps).1).run (r.run ps).2).2 = _
    rw [hrest, hmore, List.append_assoc]
  · obtain ⟨hmore, hrest⟩ := List.append_eq_nil_iff.1 hnone
    exact hR hrest (hP hmore)

theorem reads_field (known : Fields) (name : Text) (usual : α) (read : Value → Except Mismatch α) :
    Reads (field known name usual read) fun a => taken usual read (known.lookup name) = .ok a := by
  intro ps
  unfold field
  cases known.lookup name with
  | none => exact ⟨[], (List.append_nil ps).symm, fun _ => rfl⟩
  | some v =>
    dsimp only
    cases hv : read v with
    | ok a => exact ⟨[], (List.append_nil ps).symm, fun _ => hv⟩
    | error m => exact ⟨[⟨[name], m⟩], rfl, fun h => absurd h (List.cons_ne_nil _ _)⟩

theorem of_finish {r : Reading α} {others : Fields} {a : α} (hr : Reads r Q) (h : finish r others = .ok a) : Q a := by
  obtain ⟨more, hmore, hQ⟩ := hr []
  have hfinish : finish r others = if (r.run []).2 ++ unknown others = [] then .ok (r.run []).1
      else .error ((r.run []).2 ++ unknown others) := rfl
  rw [hfinish] at h
  split at h
  · next hnone =>
    have hproblems := (List.append_eq_nil_iff.1 hnone).1
    rw [hmore, List.nil_append] at hproblems
    exact Except.ok.inj h ▸ hQ hproblems
  · exact nomatch h

end Reading

section Names
variable {α : Type}

/-- Among some names of values there is none that differs from the name of a field by case alone. -/
def Plain (names : List Text) (given : List (Text × α)) : Prop := ∀ e ∈ given, ∀ n ∈ names, e.1.lower = n → e.1 = n

theorem plain_of_lower {given : List (Text × α)} (h : ∀ e ∈ given, e.1.lower = e.1) (names : List Text) :
    Plain names given := by
  intro e he n _ hn
  rwa [h e he] at hn

private theorem find?_name (name : Text) (given : List (Text × α)) :
    (given.find? fun e => e.1 = name) = (given.lookup name).map fun v => (name, v) := by
  induction given with
  | nil => rfl
  | cons e rest ih =>
    obtain ⟨k, v⟩ := e
    rw [List.find?_cons, List.lookup_cons, beq_eq_decide]
    by_cases hk : k = name
    · simp [hk]
    · simpa [hk, Ne.symm hk] using ih

private theorem pick_eq {names : List Text} {given : List (Text × α)} (plain : Plain names given)
    {name : Text}
    (hname : name ∈ names) : pick name given = (given.lookup name).map fun v => (name, v) := by
  unfold pick
  rw [find?_name name given]
  cases hv : given.lookup name with
  | some v => rfl
  | none =>
    dsimp only [Option.map_none]
    rw [List.find?_eq_none]
    intro e he hlower
    have hsame : e.1 = name := plain e he name hname (of_decide_eq_true hlower)
    have hexact := find?_name name given
    rw [hv, Option.map_none, List.find?_eq_none] at hexact
    exact hexact e he (decide_eq_true hsame)

private theorem lookup_filter_ne {k n : Text} (h : n ≠ k) (given : List (Text × α)) :
    (given.filter fun e => e.1 ≠ k).lookup n = given.lookup n := by
  induction given with
  | nil => rfl
  | cons e rest ih =>
    obtain ⟨j, v⟩ := e
    rw [List.filter_cons, List.lookup_cons]
    by_cases hj : j = k
    · have hnj : (n == j) = false := by simp [hj, h]
      rw [if_neg (by simp [hj]), hnj]
      exact ih
    · rw [if_pos (by simpa using hj), List.lookup_cons, ih]

/-- Settled under the names of fields, a value is found where it was given. -/
theorem lookup_settle {names : List Text} (nodup : names.Nodup) {given : List (Text × α)} (plain : Plain names given)
    (n : Text) : (settle names given).1.lookup n = if n ∈ names then given.lookup n else none := by
  induction names generalizing given with
  | nil => simp [settle]
  | cons name names ih =>
    obtain ⟨hnot, hnodup⟩ := List.nodup_cons.1 nodup
    have hplain : Plain names given := fun e he n hn => plain e he n (List.mem_cons_of_mem _ hn)
    unfold settle
    rw [pick_eq plain List.mem_cons_self]
    cases hv : given.lookup name with
    | none =>
      dsimp only [Option.map_none]
      rw [ih hnodup hplain]
      by_cases hn : n = name
      · rw [hn, if_neg hnot, if_pos List.mem_cons_self, hv]
      · simp [hn]
    | some v =>
      dsimp only [Option.map_some]
      have hrest : Plain names (given.filter fun e => e.1 ≠ name) :=
        fun e he n hn => hplain e (List.mem_filter.1 he).1 n hn
      rw [List.lookup_cons, ih hnodup hrest, beq_eq_decide]
      by_cases hn : n = name
      · simp [hn, hv]
      · rw [lookup_filter_ne hn]
        simp [hn]

end Names

section Slots

/-- A field of a section: its name, how its value is read, and where it is. -/
structure Slot (σ : Type) where
  {α : Type}
  name : Text
  read : Value → Except Mismatch α
  get : σ → α

/-- What a field becomes with a value for it, or without one. -/
def Slot.valueOf {σ : Type} (usual : σ) (slot : Slot σ) : Option Value → Except Mismatch slot.α :=
  taken (slot.get usual) slot.read

/-- All fields of a section are what becomes of certain values for them. -/
def Follows {σ : Type} (usual : σ) (slots : List (Slot σ)) (value? : Text → Option Value) (s : σ) : Prop :=
  ∀ slot ∈ slots, slot.valueOf usual (value? slot.name) = .ok (slot.get s)

def AuditSettings.slots : List (Slot AuditSettings) :=
  [⟨"dir", path, (·.dir)⟩,
   ⟨"max_size", ruled positive positiveRule number, (·.maxSize)⟩,
   ⟨"retention_days", ruled (fun n : Int => 1 ≤ n) "retention_days must be >= 1" integer, (·.retentionDays)⟩,
   ⟨"flush_interval", ruled positive positiveRule number, (·.flushInterval)⟩,
   ⟨"cleanup_interval", ruled positive positiveRule number, (·.cleanupInterval)⟩,
   ⟨"cleanup_delay", ruled (fun x : Float => !(x < 0.0)) "cleanup_delay must be >= 0" number, (·.cleanupDelay)⟩,
   ⟨"shutdown_timeout", ruled positive positiveRule number, (·.shutdownTimeout)⟩]

def SecretsSettings.slots : List (Slot SecretsSettings) :=
  [⟨"secrets_file", optionalPath, (·.secretsFile)⟩,
   ⟨"env_namespace", text, (·.envNamespace)⟩,
   ⟨"master_key_var", notBlank, (·.masterKeyVar)⟩,
   ⟨"encrypted_prefix", notBlank, (·.encryptedPrefix)⟩]

def LoggingSettings.slots : List (Slot LoggingSettings) := [⟨"level", text, (·.level)⟩]

variable {env : List (Text × Text)} {given : Fields}

/-- The fields that are known when a section is read: those given, over those of the section's own environment. -/
def known (names : List Text) (own given : Fields) : Fields := (settle names given).1 ++ own

theorem AuditSettings.follows_of_read {s : AuditSettings} (h : AuditSettings.read env given = .ok s) :
    Follows {} slots (fun n => (known fields (environment env) given).lookup n) s := by
  unfold AuditSettings.read at h
  unfold known
  generalize settle fields given = settled at h
  refine of_finish (Q := Follows {} slots fun n => (settled.1 ++ environment env).lookup n) ?_ h
  refine .bind (reads_field _ _ _ _) fun dir => .bind (reads_field _ _ _ _) fun maxSize =>
    .bind (reads_field _ _ _ _) fun retentionDays => .bind (reads_field _ _ _ _) fun flushInterval =>
    .bind (reads_field _ _ _ _) fun cleanupInterval => .bind (reads_field _ _ _ _) fun cleanupDelay =>
    .bind (reads_field _ _ _ _) fun shutdownTimeout => .pure ?_
  intro h₇ h₆ h₅ h₄ h₃ h₂ h₁ slot hslot
  simp only [slots, List.mem_cons, List.not_mem_nil, or_false] at hslot
  rcases hslot with rfl | rfl | rfl | rfl | rfl | rfl | rfl
  · exact h₁
  · exact h₂
  · exact h₃
  · exact h₄
  · exact h₅
  · exact h₆
  · exact h₇

theorem SecretsSettings.follows_of_read {s : SecretsSettings} (h : SecretsSettings.read env given = .ok s) :
    Follows {} slots (fun n => (known fields (environment env) given).lookup n) s := by
  unfold SecretsSettings.read at h
  unfold known
  generalize settle fields given = settled at h
  refine of_finish (Q := Follows {} slots fun n => (settled.1 ++ environment env).lookup n) ?_ h
  refine .bind (reads_field _ _ _ _) fun secretsFile => .bind (reads_field _ _ _ _) fun envNamespace =>
    .bind (reads_field _ _ _ _) fun masterKeyVar => .bind (reads_field _ _ _ _) fun encryptedPrefix => .pure ?_
  intro h₄ h₃ h₂ h₁ slot hslot
  simp only [slots, List.mem_cons, List.not_mem_nil, or_false] at hslot
  rcases hslot with rfl | rfl | rfl | rfl
  · exact h₁
  · exact h₂
  · exact h₃
  · exact h₄

theorem LoggingSettings.follows_of_read {s : LoggingSettings} (h : LoggingSettings.read given = .ok s) :
    Follows {} slots (fun n => given.lookup n) s := by
  unfold LoggingSettings.read at h
  refine of_finish (Q := Follows {} slots fun n => given.lookup n) ?_ h
  refine .bind (reads_field _ _ _ _) fun level => .pure ?_
  intro h₁ slot hslot
  rw [slots, List.mem_singleton] at hslot
  rw [hslot]
  exact h₁

/-- What the environment says about a field under a lead text. -/
theorem lookup_fromEnvironment (lead : Text) (names : List Text) (env : List (Text × Text)) {n : Text} (hn : n ∈ names) :
    (fromEnvironment lead names env).lookup n = ((lowered env).lookup (lead ++ n)).map Value.text := by
  have hall : (fromEnvironment lead names env).lookup n =
      if n ∈ names then ((lowered env).lookup (lead ++ n)).map Value.text else none := by
    clear hn
    unfold fromEnvironment
    induction names with
    | nil => rfl
    | cons name names ih =>
      rw [List.filterMap_cons]
      by_cases hname : n = name
      · subst hname
        cases hv : (lowered env).lookup (lead ++ n) with
        | none =>
          dsimp only [Option.map_none] at ih ⊢
          rw [ih, hv]
          simp
        | some v => simp
      · cases (lowered env).lookup (lead ++ name) with
        | none =>
          dsimp only [Option.map_none] at ih ⊢
          rw [ih]
          simp [hname]
        | some v =>
          dsimp only [Option.map_some] at ih ⊢
          rw [List.lookup_cons, ih, beq_eq_decide]
          simp [hname]
  rw [hall, if_pos hn]

theorem lookup_known {names : List Text} (nodup : names.Nodup) {own : Fields} (plain : Plain names given) {n : Text}
    (hn : n ∈ names) : (known names own given).lookup n = (given.lookup n).or (own.lookup n) := by
  rw [known, Value.lookup_append, lookup_settle nodup plain, if_pos hn]

end Slots

end Custody.Config
