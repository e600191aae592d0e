import Custody.Data.Json.Reader
import Custody.Proofs.Data.Fields
import Custody.Proofs.Data.Json
import Custody.Proofs.Text.Splitting

/-! Records of texts, at any depth, are read back from the JSON that is written for them. -/
namespace Custody

/-- A text without surrogates, or a record of such texts and records in which no name is repeated. -/
inductive Value.Textual : Value → Prop
  | text {t : Text} (scalar : t.isScalar = true) : Textual (.text t)
  | record {fields : List (Text × Value)} (names : (fields.map Prod.fst).Nodup)
      (scalar : ∀ f ∈ fields, f.1.isScalar = true) (values : ∀ f ∈ fields, Textual f.2) : Textual (.record fields)

namespace Json

section Strings

theorem hexValue?_hexDigit {n : Nat} (h : n < 16) : (CodePoint.hexDigit n).hexValue? = some n := by
  have hall : ∀ k < 16, (CodePoint.hexDigit k).hexValue? = some k := by decide
  exact hall n h

/-- Four digits of a number are read as that number. -/
theorem unit?_hex {n : Nat} (h : n < 0x10000) (t : Text) : unit? (Text.hex 4 n ++ t) = some (n, t) := by
  have hdigits : Text.hex 4 n = [.hexDigit (n / 16 / 16 / 16 % 16), .hexDigit (n / 16 / 16 % 16),
      .hexDigit (n / 16 % 16), .hexDigit (n % 16)] := rfl
  have hvalue (k : Nat) : (CodePoint.hexDigit (k % 16)).hexValue? = some (k % 16) :=
    hexValue?_hexDigit (Nat.mod_lt k (by omega))
  have hn : ((n / 16 / 16 / 16 % 16 * 16 + n / 16 / 16 % 16) * 16 + n / 16 % 16) * 16 + n % 16 = n := by omega
  rw [hdigits]
  simp only [List.cons_append, List.nil_append, unit?, hvalue, Option.bind_eq_bind, Option.bind_some]
  rw [hn]
  rfl

theorem point_val (c : CodePoint) : point c.val = c := by
  rw [point, CodePoint.ofNat?, dif_pos c.val_lt]
  rfl

/-- A unit that is no surrogate stands for itself, whatever follows it. -/
theorem units?_single {c : CodePoint} (hc : c.isSurrogate = false) (h : c.val < 0x10000) (t : Text) :
    units? (Text.hex 4 c.val ++ t) = some (c, t) := by
  simp only [CodePoint.isSurrogate, Bool.and_eq_false_iff, decide_eq_false_iff_not] at hc
  have hhigh : ¬(0xD800 ≤ c.val ∧ c.val ≤ 0xDBFF) := by omega
  rw [units?, unit?_hex h, Option.bind_eq_bind, Option.bind_some]
  dsimp only
  rw [if_neg hhigh, point_val]
  rfl

/-- Two units that are a pair of surrogates stand for one code point. -/
theorem units?_pair {c : CodePoint} {high low : Nat} (hhigh : 0xD800 ≤ high ∧ high ≤ 0xDBFF)
    (hlow : 0xDC00 ≤ low ∧ low ≤ 0xDFFF) (hc : 0x10000 + (high - 0xD800) * 0x400 + (low - 0xDC00) = c.val) (t : Text) :
    units? (Text.hex 4 high ++ ("\\u" ++ (Text.hex 4 low ++ t))) = some (c, t) := by
  have hmark : Text.dropPrefix? "\\u" (("\\u" : Text) ++ (Text.hex 4 low ++ t)) = some (Text.hex 4 low ++ t) :=
    Text.dropPrefix?_eq_some.2 rfl
  rw [units?, unit?_hex (by omega)]
  simp only [hmark, unit?_hex (n := low) (by omega), Option.bind_eq_bind, Option.bind_some, if_pos hhigh, if_pos hlow,
    hc, point_val]
  rfl

/-- What is written for a character is read as that character. -/
theorem string?_escape {c : CodePoint} (hc : c.isSurrogate = false) (fuel : Nat) (acc t : Text) :
    string? (fuel + 1) acc (escape c ++ t) = string? fuel (c :: acc) t := by
  have hlt := c.val_lt
  have hshort {x : CodePoint} {u v : Text} (h : escaped? u = some (x, v)) :
      string? (fuel + 1) acc (('\\' : CodePoint) :: u) = string? fuel (x :: acc) v := by
    rw [string?, if_neg (by decide), if_pos rfl, h]
    rfl
  unfold escape
  split
  iterate 7
    next h =>
      have hval : c = ⟨_, h ▸ hlt⟩ := by
        cases c
        cases h
        rfl
      rw [hval]
      exact hshort rfl
  split
  · next hquote hslash _ _ _ _ _ hplain =>
    have hne : ∀ d : CodePoint, c = d → c.val = d.val := fun d h => congrArg _ h
    rw [List.singleton_append, string?, if_neg fun h => hquote (hne _ h), if_neg fun h => hslash (hne _ h),
      if_neg (Nat.not_lt.2 hplain.1)]
  · unfold escapeUnits
    split
    · next h => exact hshort (units?_single hc h t)
    · next h =>
      simp only [List.append_assoc]
      exact hshort (units?_pair (by omega) (by omega) (by omega) t)

private theorem escape_ne_nil (c : CodePoint) : escape c ≠ [] := by
  unfold escape
  split
  iterate 7 exact List.cons_ne_nil _ _
  split
  · exact List.cons_ne_nil _ _
  · unfold escapeUnits
    split <;> exact List.cons_ne_nil _ _

/-- What is written for a text is read as that text, up to the quote behind it. -/
theorem string?_quote {s : Text} (hs : s.isScalar = true) {fuel : Nat} (acc t : Text)
    (h : (s.flatMap escape).length < fuel) :
    string? fuel acc (s.flatMap escape ++ ('"' : CodePoint) :: t) = some (acc.reverse ++ s, t) := by
  induction s generalizing fuel acc with
  | nil =>
    obtain ⟨fuel, rfl⟩ : ∃ k, fuel = k + 1 := ⟨fuel - 1, by simp at h; omega⟩
    rw [List.flatMap_nil, List.nil_append, string?, if_pos rfl, List.append_nil]
  | cons c s ih =>
    rw [Text.isScalar, List.all_cons, Bool.and_eq_true, Bool.not_eq_true'] at hs
    rw [List.flatMap_cons, List.length_append] at h
    have hpos : 0 < (escape c).length := List.length_pos_of_ne_nil (escape_ne_nil c)
    obtain ⟨fuel, rfl⟩ : ∃ k, fuel = k + 1 := ⟨fuel - 1, by omega⟩
    rw [List.flatMap_cons, List.append_assoc, string?_escape hs.1, ih hs.2 _ (by omega), List.reverse_cons,
      List.append_assoc]
    rfl

end Strings

section Values

theorem skipBlank_cons {c : CodePoint} (h : isBlank c = false) (t : Text) : skipBlank (c :: t) = c :: t :=
  List.dropWhile_cons_of_neg (by simp [h])

/-- A value is read back if it is written, and its text is read as the value, whatever follows it. -/
def ReadsBack (v : Value) : Prop :=
  ∃ c t, write v = .ok (c :: t) ∧ isBlank c = false ∧
    ∀ fuel rest, t.length < fuel → value? fuel (c :: t ++ rest) = some (v, rest)

theorem readsBack_text {t : Text} (h : t.isScalar = true) : ReadsBack (.text t) := by
  refine ⟨'"', t.flatMap escape ++ "\"", rfl, rfl, fun fuel rest hfuel => ?_⟩
  obtain ⟨fuel, rfl⟩ : ∃ k, fuel = k + 1 := ⟨fuel - 1, by omega⟩
  have hquote : t.flatMap escape ++ "\"" ++ rest = t.flatMap escape ++ ('"' : CodePoint) :: rest := by
    rw [List.append_assoc]
    rfl
  have hlength : (t.flatMap escape).length < (t.flatMap escape ++ ('"' : CodePoint) :: rest).length + 1 := by
    rw [List.length_append]
    omega
  rw [List.cons_append, hquote, value?, if_pos rfl, string?_quote h [] rest hlength]
  rfl

/-- A field is read as its name and its value, up to what follows the value. -/
theorem fields?_cons {k : Text} {v : Value} {c : CodePoint} {t u : Text} {d : CodePoint} {fuel : Nat} (hk : k.isScalar = true)
    (hc : isBlank c = false) (hd : isBlank d = false) (hv : value? fuel (c :: t ++ d :: u) = some (v, d :: u))
    (acc : List (Text × Value)) :
    fields? (fuel + 1) acc (quote k ++ ":" ++ (c :: t) ++ d :: u) =
      if d = ',' then fields? fuel ((k, v) :: acc) (skipBlank u)
      else if d = '\x7d' then some (.record (Value.recordOf ((k, v) :: acc).reverse), u)
      else none := by
  have hshape : quote k ++ ":" ++ (c :: t) ++ d :: u =
      ('"' : CodePoint) :: (k.flatMap escape ++ ('"' : CodePoint) :: (':' : CodePoint) :: (c :: t ++ d :: u)) := by
    simp only [quote, List.append_assoc]
    rfl
  have hlength : (k.flatMap escape).length <
      (k.flatMap escape ++ ('"' : CodePoint) :: (':' : CodePoint) :: (c :: t ++ d :: u)).length + 1 := by
    rw [List.length_append]
    omega
  have hafter : skipBlank (c :: t ++ d :: u) = c :: t ++ d :: u := skipBlank_cons hc _
  rw [hshape, fields?, if_neg (by simp), string?_quote hk [] _ hlength]
  simp only [Option.bind_eq_bind, Option.bind_some, skipBlank_cons (c := (':' : CodePoint)) rfl, hafter, hv, skipBlank_cons hd]
  rfl

/-- Fields are read back in their order, behind those that were read before them. -/
theorem readsBack_fields : ∀ {l : List (Text × Value)}, l ≠ [] → (∀ f ∈ l, f.1.isScalar = true) →
    (∀ f ∈ l, ReadsBack f.2) → ∃ t, writeFields l = .ok (('"' : CodePoint) :: t) ∧
      ∀ fuel acc rest, t.length + 1 < fuel → fields? fuel acc (('"' : CodePoint) :: t ++ ('\x7d' : CodePoint) :: rest) =
        some (.record (Value.recordOf (acc.reverse ++ l)), rest)
  | [], hl, _, _ => absurd rfl hl
  | [(k, v)], _, hscalar, hvalues => by
    obtain ⟨c, t, hw, hc, hread⟩ := hvalues _ List.mem_cons_self
    refine ⟨k.flatMap escape ++ "\"" ++ ":" ++ (c :: t), ?_, fun fuel acc rest hfuel => ?_⟩
    · rw [writeFields, hw]
      rfl
    · obtain ⟨fuel, rfl⟩ : ∃ n, fuel = n + 1 := ⟨fuel - 1, by omega⟩
      simp only [List.length_append, List.length_cons] at hfuel
      have hv := hread fuel (('\x7d' : CodePoint) :: rest) (by omega)
      refine (fields?_cons (hscalar _ List.mem_cons_self) hc rfl hv acc).trans ?_
      rw [if_neg (by decide), if_pos rfl, List.reverse_cons]
  | (k, v) :: f :: rest, _, hscalar, hvalues => by
    obtain ⟨c, t, hw, hc, hread⟩ := hvalues _ List.mem_cons_self
    obtain ⟨u, hwrite, hothers⟩ := readsBack_fields (List.cons_ne_nil f rest)
      (fun g hg => hscalar g (List.mem_cons_of_mem _ hg)) fun g hg => hvalues g (List.mem_cons_of_mem _ hg)
    refine ⟨k.flatMap escape ++ "\"" ++ ":" ++ (c :: t) ++ "," ++ ('"' : CodePoint) :: u, ?_, fun fuel acc after hfuel => ?_⟩
    · rw [writeFields, hw, hwrite]
      rfl
    · obtain ⟨fuel, rfl⟩ : ∃ n, fuel = n + 1 := ⟨fuel - 1, by omega⟩
      simp only [List.length_append, List.length_cons] at hfuel
      have hv := hread fuel ((',' : CodePoint) :: (('"' : CodePoint) :: u ++ ('\x7d' : CodePoint) :: after)) (by omega)
      have hshape : ('"' : CodePoint) :: (k.flatMap escape ++ "\"" ++ ":" ++ (c :: t) ++ "," ++ ('"' : CodePoint) :: u) ++
          ('\x7d' : CodePoint) :: after = quote k ++ ":" ++ (c :: t) ++
            (',' : CodePoint) :: (('"' : CodePoint) :: u ++ ('\x7d' : CodePoint) :: after) := by
        simp only [quote, List.append_assoc, List.cons_append]
        rfl
      rw [hshape, fields?_cons (hscalar _ List.mem_cons_self) hc rfl hv, if_pos rfl, List.cons_append,
        skipBlank_cons rfl, ← List.cons_append, hothers fuel _ after (by omega), List.reverse_cons, List.append_assoc]
      rfl

private theorem readsBack_textual {v : Value} (h : v.Textual) : ReadsBack v := by
  induction h with
  | text scalar => exact readsBack_text scalar
  | @record fields names scalar values ih =>
    by_cases hempty : fields = []
    · subst hempty
      refine ⟨'\x7b', "\x7d", rfl, rfl, fun fuel rest hfuel => ?_⟩
      obtain ⟨fuel, rfl⟩ : ∃ n, fuel = n + 1 := ⟨fuel - 1, by omega⟩
      rfl
    · obtain ⟨t, hw, hread⟩ := readsBack_fields hempty scalar ih
      refine ⟨'\x7b', ('"' : CodePoint) :: t ++ "\x7d", ?_, rfl, fun fuel rest hfuel => ?_⟩
      · rw [write, hw]
        rfl
      · obtain ⟨fuel, rfl⟩ : ∃ n, fuel = n + 1 := ⟨fuel - 1, by omega⟩
        have hbrace : List.length ("\x7d" : Text) = 1 := rfl
        rw [List.length_append, List.length_cons, hbrace] at hfuel
        have hbody := hread fuel [] rest (by omega)
        have hshape : ('"' : CodePoint) :: t ++ "\x7d" ++ rest = ('"' : CodePoint) :: (t ++ ('\x7d' : CodePoint) :: rest) := by
          simp only [List.append_assoc, List.cons_append]
          rfl
        rw [List.cons_append, hshape, value?, if_neg (by decide), if_neg (by decide), if_pos rfl, skipBlank_cons rfl]
        dsimp only
        rw [if_neg (by decide), ← List.cons_append, hbody, List.reverse_nil, List.nil_append,
          Value.recordOf_of_nodup names]

/-- Reading is the inverse of writing on records of texts. -/
theorem read?_write {v : Value} (h : v.Textual) : ∃ t, write v = .ok t ∧ read? t = some v := by
  obtain ⟨c, t, hw, hc, hread⟩ := readsBack_textual h
  refine ⟨c :: t, hw, ?_⟩
  have hfuel : t.length < 2 * (c :: t).length + 2 := by
    rw [List.length_cons]
    omega
  have hv := hread _ [] hfuel
  rw [List.append_nil] at hv
  rw [read?, skipBlank_cons hc, hv]
  rfl

end Values

end Json

end Custody
