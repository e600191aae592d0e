import Custody.Proofs.Data.Json.RoundTrip
import Custody.Proofs.Properties.Lines
import Custody.Text.Utf8

/-! Entries in which everything is escaped, each unit of sixteen bits by four hexadecimal digits. They are read unit by
unit, so that they are read back exactly when no character takes two units. -/
namespace Custody.Properties

section Units

theorem highSurrogate_lt (c : CodePoint) : 0xD800 + (c.val - 0x10000) / 0x400 < 0x110000 := by
  have := c.val_lt
  omega

private theorem lowSurrogate_lt (c : CodePoint) : 0xDC00 + (c.val - 0x10000) % 0x400 < 0x110000 := by
  omega

/-- The units of a character: itself, or a pair of surrogates if it needs more than sixteen bits. -/
def units (c : CodePoint) : Text :=
  if c.val < 0x10000 then [c]
  else [⟨0xD800 + (c.val - 0x10000) / 0x400, highSurrogate_lt c⟩, ⟨0xDC00 + (c.val - 0x10000) % 0x400, lowSurrogate_lt c⟩]

def unitsOf (t : Text) : Text := t.flatMap units

variable {c : CodePoint}

theorem units_of_narrow (h : c.val < 0x10000) : units c = [c] := if_pos h

theorem length_units_of_wide (h : ¬c.val < 0x10000) : (units c).length = 2 := by
  rw [units, if_neg h]
  rfl

private theorem length_le_unitsOf (t : Text) : t.length ≤ (unitsOf t).length := by
  induction t with
  | nil => exact Nat.le_refl 0
  | cons c t ih =>
    have hc : 1 ≤ (units c).length := by
      by_cases h : c.val < 0x10000
      · rw [units_of_narrow h]
        exact Nat.le_refl 1
      · rw [length_units_of_wide h]
        exact Nat.le_succ 1
    rw [unitsOf, List.flatMap_cons, List.length_append, List.length_cons, Nat.add_comm]
    exact Nat.add_le_add hc ih

theorem unitsOf_eq_self {t : Text} (h : ∀ c ∈ t, c.val < 0x10000) : unitsOf t = t := by
  induction t with
  | nil => rfl
  | cons c t ih =>
    have hrest : t.flatMap units = t := ih fun d hd => h d (List.mem_cons_of_mem c hd)
    rw [unitsOf, List.flatMap_cons, units_of_narrow (h c List.mem_cons_self), hrest]
    rfl

/-- A text is its own units exactly when none of its characters takes two. -/
theorem unitsOf_eq_self_iff {t : Text} : unitsOf t = t ↔ ∀ c ∈ t, c.val < 0x10000 := by
  refine ⟨fun h => ?_, unitsOf_eq_self⟩
  induction t with
  | nil => exact fun c hc => absurd hc List.not_mem_nil
  | cons c t ih =>
    rw [unitsOf, List.flatMap_cons] at h
    by_cases hc : c.val < 0x10000
    · rw [units_of_narrow hc] at h
      exact List.forall_mem_cons.2 ⟨hc, ih (List.cons.inj h).2⟩
    · have hlength := congrArg List.length h
      have hrest : t.length ≤ (t.flatMap units).length := length_le_unitsOf t
      rw [List.length_append, length_units_of_wide hc, List.length_cons] at hlength
      omega

theorem val_of_mem_units {u : CodePoint} (h : u ∈ units c) : u.val < 0x10000 := by
  have hlt := c.val_lt
  unfold units at h
  split at h
  · rwa [List.mem_singleton.1 h]
  · simp only [List.mem_cons, List.not_mem_nil, or_false] at h
    rcases h with rfl | rfl <;> dsimp only <;> omega

/-- The units of characters can be encoded exactly when each of these takes one. -/
theorem isScalar_unitsOf_iff {t : Text} (ht : t.isScalar = true) :
    (unitsOf t).isScalar = true ↔ ∀ c ∈ t, c.val < 0x10000 := by
  refine ⟨fun h c hc => ?_, fun h => (unitsOf_eq_self h).symm ▸ ht⟩
  by_contra hwide
  have hmem : (⟨0xD800 + (c.val - 0x10000) / 0x400, highSurrogate_lt c⟩ : CodePoint) ∈ unitsOf t := by
    refine List.mem_flatMap.2 ⟨c, hc, ?_⟩
    rw [units, if_neg hwide]
    exact List.mem_cons_self
  have hscalar := List.all_eq_true.1 h _ hmem
  have hlt := c.val_lt
  simp only [CodePoint.isSurrogate, Bool.not_eq_true', Bool.and_eq_false_iff, decide_eq_false_iff_not] at hscalar
  omega

end Units

section Spelling

/-- Four hexadecimal digits, of either case, of a number. -/
def IsHex (digits : Text) (n : Nat) : Prop :=
  List.Forall₂ (fun d value => d.hexValue? = some value) digits [n / 4096, n / 256 % 16, n / 16 % 16, n % 16]

/-- A text in which every unit is written as an escape. -/
inductive Spells : Text → Text → Prop
  | nil : Spells [] []
  | cons (digits : Text) {t us : Text} {u : CodePoint} (hex : IsHex digits u.val) (rest : Spells t us) :
      Spells (('\\' : CodePoint) :: ('u' : CodePoint) :: (digits ++ t)) (u :: us)

/-- The spelling with small letters for digits. -/
def spell (us : Text) : Text := us.flatMap fun u => ('\\' : CodePoint) :: ('u' : CodePoint) :: Text.hex 4 u.val

private theorem isHex_hex {n : Nat} (h : n < 0x10000) : IsHex (Text.hex 4 n) n := by
  have hdigits : Text.hex 4 n = [.hexDigit (n / 16 / 16 / 16 % 16), .hexDigit (n / 16 / 16 % 16),
      .hexDigit (n / 16 % 16), .hexDigit (n % 16)] := rfl
  have hvalue (k : Nat) : (CodePoint.hexDigit (k % 16)).hexValue? = some (k % 16) :=
    Json.hexValue?_hexDigit (Nat.mod_lt k (by omega))
  have hfirst : n / 16 / 16 / 16 % 16 = n / 4096 := by omega
  have hsecond : n / 16 / 16 = n / 256 := by omega
  rw [hdigits]
  exact .cons (hfirst ▸ hvalue _) (.cons (hsecond ▸ hvalue _) (.cons (hvalue _) (.cons (hvalue _) .nil)))

/-- Every text has a spelling. -/
theorem spells_unitsOf (t : Text) : Spells (spell (unitsOf t)) (unitsOf t) := by
  have hnarrow : ∀ u ∈ unitsOf t, u.val < 0x10000 := by
    intro u hu
    obtain ⟨c, -, hc⟩ := List.mem_flatMap.1 hu
    exact val_of_mem_units hc
  generalize unitsOf t = us at hnarrow
  induction us with
  | nil => exact .nil
  | cons u us ih =>
    exact .cons _ (isHex_hex (hnarrow u List.mem_cons_self)) (ih fun d hd => hnarrow d (List.mem_cons_of_mem u hd))

theorem IsHex.alnum {digits : Text} {n : Nat} (h : IsHex digits n) : ∀ d ∈ digits, d.isAsciiAlnum = true := by
  have hdigit : ∀ (d : CodePoint) (value : Nat), d.hexValue? = some value → d.isAsciiAlnum = true := by
    intro d value hd
    unfold CodePoint.hexValue? at hd
    simp only [CodePoint.isAsciiAlnum, CodePoint.isDigit, CodePoint.isUpper, CodePoint.isLower, Bool.or_eq_true,
      Bool.and_eq_true, decide_eq_true_eq] at hd ⊢
    split_ifs at hd <;> omega
  intro d hd
  obtain ⟨i, hi, rfl⟩ := List.mem_iff_getElem.1 hd
  exact hdigit _ _ ((List.forall₂_iff_get.1 h).2 i hi ((List.Forall₂.length_eq h) ▸ hi))

theorem IsHex.value {digits : Text} {u : CodePoint} (h : IsHex digits u.val) :
    ∃ a b c d, digits = [a, b, c, d] ∧ unicodeEscape? a b c d = some u := by
  cases h with
  | cons ha h => cases h with
  | cons hb h => cases h with
  | cons hc h => cases h with
  | cons hd h =>
    cases h
    refine ⟨_, _, _, _, rfl, ?_⟩
    have hn : ((u.val / 4096 * 16 + u.val / 256 % 16) * 16 + u.val / 16 % 16) * 16 + u.val % 16 = u.val := by omega
    simp only [unicodeEscape?, ha, hb, hc, hd, Option.bind_eq_bind, Option.bind_some]
    rw [hn]
    exact dif_pos u.val_lt

end Spelling

section Reading
variable {t us : Text}

/-- Escapes are resolved one at a time: each gives its unit. -/
theorem Spells.unescape (h : Spells t us) : Properties.unescape t = .ok us := by
  induction h with
  | nil => rfl
  | cons _ hex _ ih =>
    obtain ⟨a, b, c, d, rfl, hvalue⟩ := hex.value
    rw [Properties.unescape.eq_def]
    dsimp only
    rw [if_pos rfl, if_pos rfl]
    simp only [List.cons_append, List.nil_append, hvalue, ih]
    rfl

private theorem splitKey_alnum_append {digits : Text} (h : ∀ d ∈ digits, d.isAsciiAlnum = true)
    {t key after : Text}
    (ht : splitKey t = (key, after)) : splitKey (digits ++ t) = (digits ++ key, after) := by
  induction digits with
  | nil => exact ht
  | cons d digits ih =>
    exact splitKey_alnum (h d List.mem_cons_self) (ih fun e he => h e (List.mem_cons_of_mem d he))

theorem Spells.splitKey (h : Spells t us) (rest : Text) :
    Properties.splitKey (t ++ ('=' : CodePoint) :: rest) = (t, ('=' : CodePoint) :: rest) := by
  induction h with
  | nil => exact splitKey_separator (by decide) rfl rest
  | cons _ hex _ ih =>
    rw [List.cons_append, List.cons_append, List.append_assoc]
    exact splitKey_escape 'u' (splitKey_alnum_append hex.alnum ih)

theorem Spells.unbroken (h : Spells t us) : Unbroken t := by
  induction h with
  | nil => exact fun c hc => absurd hc List.not_mem_nil
  | cons _ hex _ ih =>
    intro c hc
    rcases List.mem_cons.1 hc with rfl | hc
    · exact ⟨by decide, by decide⟩
    rcases List.mem_cons.1 hc with rfl | hc
    · exact ⟨by decide, by decide⟩
    rcases List.mem_append.1 hc with hc | hc
    · exact ⟨ne_of_isAsciiAlnum (hex.alnum c hc) (by decide), ne_of_isAsciiAlnum (hex.alnum c hc) (by decide)⟩
    · exact ih c hc

theorem Spells.continues (h : Spells t us) : Properties.continues t = false := by
  induction h with
  | nil => rfl
  | cons _ hex _ ih =>
    obtain ⟨a, b, c, d, rfl, -⟩ := hex.value
    have hd : d ≠ '\\' := ne_of_isAsciiAlnum (hex.alnum d (by simp)) (by decide)
    have hend : Properties.continues ([('\\' : CodePoint), 'u', a, b, c] ++ [d]) = false := continues_concat hd
    exact (continues_append hend _).trans ih

theorem Spells.head (h : Spells t us) : ∀ c ∈ t.head?, c = ('\\' : CodePoint) := by
  cases h with
  | nil => exact fun c hc => absurd hc (by simp)
  | cons => exact fun c hc => (Option.some.inj hc).symm

theorem Spells.leads (h : Spells t us) (rest : Text) : ∃ d s, t ++ ('=' : CodePoint) :: rest = d :: s ∧ Leads d := by
  cases t with
  | nil => exact ⟨'=', rest, rfl, Or.inl rfl⟩
  | cons d t => exact ⟨d, t ++ ('=' : CodePoint) :: rest, rfl, Or.inr (Or.inl (h.head d rfl))⟩

theorem Spells.dropSeparator (h : Spells t us) : Properties.dropSeparator (('=' : CodePoint) :: t) = t := by
  have hstripped : t.dropWhile isBlank = t := by
    cases t with
    | nil => rfl
    | cons d t => rw [List.dropWhile_cons, h.head d rfl]; rfl
  exact hstripped

/-- A key and a value that are spelled are read as the units that they spell. -/
theorem parse_spelled {k v tk tv : Text} (hk : Spells tk k) (hv : Spells tv v) :
    parse (tk ++ ('=' : CodePoint) :: tv) = .ok [(k, v)] := by
  have hunbroken : Unbroken (tk ++ ('=' : CodePoint) :: tv) := by
    intro c hc
    rcases List.mem_append.1 hc with hc | hc
    · exact hk.unbroken c hc
    rcases List.mem_cons.1 hc with rfl | hc
    · exact ⟨by decide, by decide⟩
    · exact hv.unbroken c hc
  have hends : continues (tk ++ ('=' : CodePoint) :: tv) = false := by
    have hsign : continues [('=' : CodePoint)] = false := by decide
    exact (continues_append hk.continues _).trans ((continues_append hsign tv).trans hv.continues)
  have hself : SelfContained (tk ++ ('=' : CodePoint) :: tv) := selfContained_of_leads (hk.leads tv) hends
  have hlines : logicalLines (tk ++ ('=' : CodePoint) :: tv) = [tk ++ ('=' : CodePoint) :: tv] := by
    rw [logicalLines, naturalLines_of_unbroken hunbroken]
    exact joinLines_of_selfContained (List.forall_mem_singleton.2 hself)
  have hentry : entry (tk ++ ('=' : CodePoint) :: tv) = .ok (k, v) := by
    rw [entry, hk.splitKey]
    dsimp only
    rw [hk.unescape, hv.dropSeparator, hv.unescape]
    rfl
  rw [parse, hlines]
  exact ofLines_eq (.cons hentry .nil)

end Reading

private theorem isSome_encode? (t : Text) : (Utf8.encode? t).isSome = t.isScalar := by
  unfold Utf8.encode?
  split <;> simp_all

/-- A key and a value of characters, with every unit written as an escape. What is read is their units. So they are read
back, and what is read can be encoded, exactly when none of their characters takes two units. -/
theorem spelled_is_read_back_iff {k v tk tv : Text} (hk : k.isScalar = true) (hv : v.isScalar = true)
    (hsk : Spells tk (unitsOf k)) (hsv : Spells tv (unitsOf v)) :
    parse (tk ++ ('=' : CodePoint) :: tv) = .ok [(unitsOf k, unitsOf v)] ∧
    (parse (tk ++ ('=' : CodePoint) :: tv) = .ok [(k, v)] ↔ ∀ c ∈ k ++ v, c.val < 0x10000) ∧
    ((Utf8.encode? (unitsOf k)).isSome ∧ (Utf8.encode? (unitsOf v)).isSome ↔ ∀ c ∈ k ++ v, c.val < 0x10000) := by
  have hread := parse_spelled hsk hsv
  refine ⟨hread, ?_, ?_⟩
  · rw [hread, Except.ok.injEq, List.singleton_inj, Prod.mk.injEq, unitsOf_eq_self_iff, unitsOf_eq_self_iff,
      List.forall_mem_append]
  · rw [isSome_encode?, isSome_encode?, isScalar_unitsOf_iff hk, isScalar_unitsOf_iff hv, List.forall_mem_append]

/-- Accents and a currency sign, in digits of both cases. -/
theorem spelled_is_read_back_of_accents :
    let k := Text.ofString "clé"
    let v := Text.ofString "5€"
    let tk := Text.ofString "\\u0063\\u006C\\u00e9"
    let tv := Text.ofString "\\u0035\\u20aC"
    k.isScalar = true ∧ v.isScalar = true ∧ Spells tk (unitsOf k) ∧ Spells tv (unitsOf v) ∧
    parse (tk ++ ('=' : CodePoint) :: tv) = .ok [(k, v)] := by
  intro k v tk tv
  have hk : k.isScalar = true := by decide
  have hv : v.isScalar = true := by decide
  have hsk : Spells tk (unitsOf k) := by
    refine .cons "0063" ?_ (.cons "006C" ?_ (.cons "00e9" ?_ .nil))
    all_goals exact .cons rfl (.cons rfl (.cons rfl (.cons rfl .nil)))
  have hsv : Spells tv (unitsOf v) := by
    refine .cons "0035" ?_ (.cons "20aC" ?_ .nil)
    all_goals exact .cons rfl (.cons rfl (.cons rfl (.cons rfl .nil)))
  exact ⟨hk, hv, hsk, hsv, (spelled_is_read_back_iff hk hv hsk hsv).2.1.2 (by decide)⟩

/-- A character that takes two units is read as two surrogates, which have no encoding. -/
theorem not_read_back_of_pair :
    let k := Text.ofString "k"
    let v := Text.ofString "😀"
    let tk := Text.ofString "\\u006b"
    let tv := Text.ofString "\\ud83d\\ude00"
    k ≠ [] ∧ k.isScalar = true ∧ v.isScalar = true ∧ Spells tk (unitsOf k) ∧ Spells tv (unitsOf v) ∧
    parse (tk ++ ('=' : CodePoint) :: tv) ≠ .ok [(k, v)] ∧
    ∃ p, parse (tk ++ ('=' : CodePoint) :: tv) = .ok [(k, p)] ∧ p.map CodePoint.val = [0xD83D, 0xDE00] ∧
      Utf8.encode? p = none := by
  intro k v tk tv
  have htk : tk = spell (unitsOf k) := by decide +kernel
  have htv : tv = spell (unitsOf v) := by decide +kernel
  have hread : parse (tk ++ ('=' : CodePoint) :: tv) = .ok [(k, unitsOf v)] := by decide +kernel
  refine ⟨by decide, by decide, by decide, ?_, ?_, ?_, unitsOf v, hread, by decide +kernel, by decide +kernel⟩
  · rw [htk]
    exact spells_unitsOf k
  · rw [htv]
    exact spells_unitsOf v
  · rw [hread]
    decide +kernel

end Custody.Properties
