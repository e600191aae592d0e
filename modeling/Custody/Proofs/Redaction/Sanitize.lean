import Custody.Proofs.Data.Value
import Custody.Redaction.Sanitize
import Mathlib.Data.List.Forall2

/-! What is left of a value after it has been made fit for a log: its shape and its redacted texts, and nothing of
what stands in its sensitive fields. A place within a value is named by the numbers of the parts on the way to it. -/
namespace Custody

namespace Value

/-- A value with nothing in its parts: a list of the same length, a record of the same names in the same order, or the
value itself. -/
def top : Value → Value
  | list items => list (items.map fun _ => null)
  | record fields => record (fields.map fun f => (f.1, null))
  | v => v

/-- A value with other parts. -/
def fill : Value → List (Option Text × Value) → Value
  | list _, ps => list (ps.map Prod.snd)
  | record _, ps => record (ps.map fun p => (p.1.getD [], p.2))
  | v, _ => v

variable {v w : Value}

private theorem fill_top_parts (v : Value) : v.top.fill v.parts = v := by
  cases v with
  | list items => simp [top, fill, parts, Function.comp_def]
  | record fields => simp [top, fill, parts, Function.comp_def]
  | _ => rfl

theorem eq_of_top_of_parts (htop : v.top = w.top) (hparts : v.parts = w.parts) : v = w := by
  rw [← fill_top_parts v, htop, hparts, fill_top_parts]

theorem names_top (v : Value) : v.top.parts.map Prod.fst = v.parts.map Prod.fst := by
  cases v with
  | list items => simp [top, parts, Function.comp_def]
  | record fields => simp [top, parts, Function.comp_def]
  | _ => rfl

end Value

namespace Redaction
open Value

/-- A name of a secret: without regard to case, and with low lines for hyphens, it is one of the listed names, or ends
in one of two ways. -/
def Sensitive (name : Text) : Prop :=
  let key : Text := name.lower.map fun c : CodePoint => if c = '-' then '_' else c
  key ∈ sensitiveNames ∨ Text.ofString "_password" <:+ key ∨ Text.ofString "_secret" <:+ key

theorem isSensitive_iff (name : Text) : isSensitive name = true ↔ Sensitive name := by
  simp only [isSensitive, normalizeName, Sensitive, Bool.or_eq_true, List.contains_iff_mem, List.isSuffixOf_iff_suffix,
    or_assoc]

instance (name : Text) : Decidable (Sensitive name) := decidable_of_iff _ (isSensitive_iff name)

/-- Parts that stand under the name of a secret. -/
def Hidden : Option Text → Prop
  | some name => Sensitive name
  | none => False

instance : ∀ name, Decidable (Hidden name)
  | some name => inferInstanceAs (Decidable (Sensitive name))
  | none => isFalse id

/-- The value at a place, unless a sensitive name lies on the way. -/
def outside? : Value → List Nat → Option Value
  | v, [] => some v
  | v, i :: path => v.parts[i]?.bind fun p => if Hidden p.1 then none else outside? p.2 path

/-- Two values differ in nothing but what stands in their sensitive fields. -/
def AlikeOutside (v w : Value) : Prop := ∀ path, (outside? v path).map top = (outside? w path).map top

/-- Texts are redacted, and all other values stay as they are. -/
def redactText : Value → Value
  | .text t => .text (redact t)
  | v => v

/-- A part as it is shown. -/
def shown (p : Option Text × Value) : Option Text × Value := (p.1, if Hidden p.1 then .text mark else sanitize p.2)

section Sanitize
variable {v w : Value} {path : List Nat}

theorem sanitizeItems_eq (items : List Value) : sanitizeItems items = items.map sanitize := by
  induction items with
  | nil => rw [sanitizeItems, List.map_nil]
  | cons v rest ih => rw [sanitizeItems, ih, List.map_cons]

theorem sanitizeFields_eq (fields : List (Text × Value)) : sanitizeFields fields =
    fields.map fun f => (f.1, if Sensitive f.1 then .text mark else sanitize f.2) := by
  induction fields with
  | nil => rw [sanitizeFields, List.map_nil]
  | cons f rest ih => rw [sanitizeFields, ih, List.map_cons, ite_congr (propext (isSensitive_iff f.1)) (fun _ => rfl) fun _ => rfl]

/-- The parts of what is shown are the parts as they are shown. -/
theorem parts_sanitize (v : Value) : (sanitize v).parts = v.parts.map shown := by
  cases v with
  | list items =>
    rw [sanitize, sanitizeItems_eq, parts, parts, List.map_map, List.map_map]
    rfl
  | record fields =>
    rw [sanitize, sanitizeFields_eq, parts, parts, List.map_map, List.map_map]
    rfl
  | _ => rfl

theorem top_sanitize (v : Value) : (sanitize v).top = redactText v.top := by
  cases v with
  | list items =>
    rw [sanitize, sanitizeItems_eq, top, top, List.map_map]
    rfl
  | record fields =>
    rw [sanitize, sanitizeFields_eq, top, top, List.map_map]
    rfl
  | _ => rfl

/-- Showing a value shows the value at every place outside of the sensitive fields. -/
theorem outside?_sanitize (v : Value) (path : List Nat) : outside? (sanitize v) path = (outside? v path).map sanitize := by
  induction path generalizing v with
  | nil => rfl
  | cons i path ih =>
    rw [outside?, outside?, parts_sanitize, List.getElem?_map]
    cases v.parts[i]? with
    | none => rfl
    | some p =>
      simp only [Option.map_some, Option.bind_some, shown]
      by_cases hp : Hidden p.1
      · rw [if_pos hp, if_pos hp]
        rfl
      · rw [if_neg hp, if_neg hp, if_neg hp, ih]

theorem AlikeOutside.refl (v : Value) : AlikeOutside v v := fun _ => rfl

private theorem outside?_cons {i : Nat} (h : i < v.parts.length) (path : List Nat) : outside? v (i :: path) =
    if Hidden v.parts[i].1 then none else outside? v.parts[i].2 path := by
  rw [outside?, List.getElem?_eq_getElem h, Option.bind_some]

/-- Two values are alike if and only if they are of one shape, and their parts are alike or stand under the name of a
secret. -/
theorem alikeOutside_iff : AlikeOutside v w ↔ v.top = w.top ∧
    List.Forall₂ (fun p q => p.1 = q.1 ∧ (Hidden p.1 ∨ AlikeOutside p.2 q.2)) v.parts w.parts := by
  constructor
  · intro h
    have htop : v.top = w.top := Option.some.inj (h [])
    have hnames : v.parts.map Prod.fst = w.parts.map Prod.fst := by rw [← names_top v, htop, names_top]
    have hlength : v.parts.length = w.parts.length := by simpa using congrArg List.length hnames
    refine ⟨htop, List.forall₂_iff_get.2 ⟨hlength, fun i hv hw => ?_⟩⟩
    simp only [List.get_eq_getElem]
    have hname : v.parts[i].1 = w.parts[i].1 := by
      simpa [hv, hw] using congrArg (fun names : List (Option Text) => names[i]?) hnames
    refine ⟨hname, or_iff_not_imp_left.2 fun hshown path => ?_⟩
    have hplace := h (i :: path)
    rwa [outside?_cons hv, outside?_cons hw, ← hname, if_neg hshown, if_neg hshown] at hplace
  · rintro ⟨htop, hparts⟩ path
    obtain ⟨hlength, hget⟩ := List.forall₂_iff_get.1 hparts
    cases path with
    | nil => exact congrArg some htop
    | cons i path =>
      by_cases hv : i < v.parts.length
      · have hw : i < w.parts.length := hlength ▸ hv
        obtain ⟨hname, halike⟩ := hget i hv hw
        rw [List.get_eq_getElem, List.get_eq_getElem] at hname
        rw [outside?_cons hv, outside?_cons hw, ← hname]
        split
        · rfl
        · next hshown => exact halike.resolve_left hshown path
      · have hw : ¬i < w.parts.length := hlength ▸ hv
        rw [outside?, outside?, List.getElem?_eq_none (Nat.not_lt.1 hv), List.getElem?_eq_none (Nat.not_lt.1 hw)]

/-- Values that are alike are shown as one. -/
theorem AlikeOutside.sanitize_eq (h : AlikeOutside v w) : sanitize v = sanitize w := by
  induction v using induction_parts generalizing w with
  | step v ih =>
    obtain ⟨htop, hparts⟩ := alikeOutside_iff.1 h
    obtain ⟨hlength, hget⟩ := List.forall₂_iff_get.1 hparts
    simp only [List.get_eq_getElem] at hget
    refine eq_of_top_of_parts ?_ ?_
    · rw [top_sanitize, top_sanitize, htop]
    · rw [parts_sanitize, parts_sanitize]
      -- Part by part: under the name of a secret there is a mark on either side, and elsewhere the parts are alike.
      refine List.ext_getElem (by simpa using hlength) fun i hv hw => ?_
      rw [List.length_map] at hv hw
      obtain ⟨hname, halike⟩ := hget i hv hw
      rw [List.getElem_map, List.getElem_map, shown, shown, ← hname]
      split
      · rfl
      · next hshown => rw [ih _ (List.getElem_mem hv) (halike.resolve_left hshown)]

/-- What stands in a sensitive field makes no difference to what is shown. Elsewhere the shape of the value is shown with
its names in their order, its texts redacted and all else as it is; and in a sensitive field there is a mark. -/
theorem sanitize_hides_sensitive (v : Value) :
    (∀ w, AlikeOutside v w → sanitize v = sanitize w) ∧
    (∀ path, (outside? (sanitize v) path).map top = (outside? v path).map fun u => redactText u.top) ∧
    ∀ path u name part, outside? (sanitize v) path = some u → (some name, part) ∈ u.parts → Sensitive name →
      part = .text mark := by
  refine ⟨fun w h => h.sanitize_eq, fun path => ?_, fun path u name part hu hpart hname => ?_⟩
  · rw [outside?_sanitize, Option.map_map]
    exact congrArg (fun f => (outside? v path).map f) (funext top_sanitize)
  · rw [outside?_sanitize] at hu
    obtain ⟨u, -, rfl⟩ := Option.map_eq_some_iff.1 hu
    rw [parts_sanitize] at hpart
    obtain ⟨p, -, hp⟩ := List.mem_map.1 hpart
    obtain ⟨hfirst, rfl⟩ := Prod.mk.inj hp
    have hhidden : Hidden p.1 := hfirst ▸ hname
    exact if_pos hhidden

/-- Two jobs that log in with different secrets are shown as one. -/
theorem sanitize_hides_sensitive_of_jobs :
    let step (token : Text) : Value := .record [("Auth", .record [("bearer", .text token)]), ("count", .int 2)]
    let job (password token : Text) : Value :=
      .record [("user", .text "bob"), ("DB-Password", .text password), ("steps", .list [step token])]
    AlikeOutside (job "swordfish" "a") (job "hunter2" "b") ∧
      sanitize (job "swordfish" "a") = sanitize (job "hunter2" "b") := by
  intro step job
  have hpassword : Sensitive "DB-Password" := by decide +kernel
  have hauth : Sensitive "Auth" := by decide +kernel
  have hstep : AlikeOutside (step "a") (step "b") :=
    alikeOutside_iff.2 ⟨rfl, .cons ⟨rfl, .inl hauth⟩ (.cons ⟨rfl, .inr (.refl _)⟩ .nil)⟩
  have hsteps : AlikeOutside (.list [step "a"]) (.list [step "b"]) :=
    alikeOutside_iff.2 ⟨rfl, .cons ⟨rfl, .inr hstep⟩ .nil⟩
  have halike : AlikeOutside (job "swordfish" "a") (job "hunter2" "b") :=
    alikeOutside_iff.2 ⟨rfl, .cons ⟨rfl, .inr (.refl _)⟩ (.cons ⟨rfl, .inl hpassword⟩ (.cons ⟨rfl, .inr hsteps⟩ .nil))⟩
  exact ⟨halike, (sanitize_hides_sensitive _).1 _ halike⟩

end Sanitize

end Redaction

end Custody
