import Custody.Proofs.Properties.Merging

/-! Every backslash of a logical line has a character behind it to escape, in the line and in the two parts that its
entry is read from. So it does not matter what a backslash without such a character would stand for. -/
namespace Custody.Properties

section Pairs

/-- A text made of characters that stand for themselves and of backslashes with a character behind each. -/
inductive Paired : Text → Prop
  | nil : Paired []
  | plain {c : CodePoint} {rest : Text} (hc : c ≠ '\\') (h : Paired rest) : Paired (c :: rest)
  | escape (e : CodePoint) {rest : Text} (h : Paired rest) : Paired (('\\' : CodePoint) :: e :: rest)

/-- A text is taken apart from the front; a backslash may be left over in the end. -/
theorem pairs_induction {P : Text → Prop} (nil : P [])
    (plain : ∀ (c : CodePoint) rest, c ≠ '\\' → P rest → P (c :: rest))
    (escape : ∀ e rest, P rest → P (('\\' : CodePoint) :: e :: rest)) (stray : P [('\\' : CodePoint)]) : ∀ t, P t
  | [] => nil
  | [c] => by
    by_cases hc : c = '\\'
    · rw [hc]
      exact stray
    · exact plain c [] hc nil
  | c :: e :: rest => by
    by_cases hc : c = '\\'
    · rw [hc]
      exact escape e rest (pairs_induction nil plain escape stray rest)
    · exact plain c (e :: rest) hc (pairs_induction nil plain escape stray (e :: rest))

variable {c : CodePoint} {t rest : Text}

theorem continues_cons (hc : c ≠ '\\') (rest : Text) : continues (c :: rest) = continues rest := by
  have hfirst : continues [c] = false := by simp [continues, trailingBackslashes, hc]
  exact continues_append hfirst rest

theorem continues_escape (e : CodePoint) (rest : Text) :
    continues (('\\' : CodePoint) :: e :: rest) = continues rest := by
  have hempty : continues [] = false := rfl
  exact continues_append (continues_append_escape hempty e) rest

/-- The backslashes of a text have their characters exactly if an even number of backslashes ends it. -/
theorem paired_iff : Paired t ↔ continues t = false := by
  constructor
  · intro h
    induction h with
    | nil => rfl
    | plain hc _ ih => rw [continues_cons hc, ih]
    | escape e _ ih => rw [continues_escape, ih]
  · induction t using pairs_induction with
    | nil => exact fun _ => .nil
    | plain c rest hc ih =>
      intro h
      rw [continues_cons hc] at h
      exact .plain hc (ih h)
    | escape e rest ih =>
      intro h
      rw [continues_escape] at h
      exact .escape e (ih h)
    | stray => exact fun h => absurd h (by decide)

theorem Paired.tail (hc : c ≠ '\\') (h : Paired (c :: rest)) : Paired rest :=
  paired_iff.2 ((continues_cons hc rest).symm.trans (paired_iff.1 h))

theorem paired_iff_even : Paired t ↔ trailingBackslashes t % 2 = 0 := by
  rw [paired_iff, continues, decide_eq_false_iff_not]
  omega

end Pairs

section Joining

/-- What a line leaves open has its backslashes in pairs, as the last one of the line is taken away. -/
theorem continues_dropLast {line : Text} (h : continues line = true) : continues line.dropLast = false := by
  induction line using List.reverseRecOn with
  | nil => cases h
  | append_singleton line c _ =>
    rw [List.dropLast_concat]
    by_cases hc : c = '\\'
    · rwa [hc, continues_concat_slash, Bool.not_eq_true'] at h
    · rw [continues_concat hc] at h
      cases h

private theorem paired_of_mem_joinLines {pending : Option Text} {naturals : List Text}
    (hpending : ∀ p ∈ pending, Paired p) : ∀ line ∈ joinLines pending naturals, Paired line := by
  -- Behind an open text with its backslashes in pairs only the line itself says whether one is left over.
  have hopen : continues (pending.getD []) = false := by
    cases pending with
    | none => rfl
    | some p => exact paired_iff.1 (hpending p rfl)
  induction naturals generalizing pending with
  | nil =>
    cases pending with
    | none => exact fun line hline => absurd hline List.not_mem_nil
    | some p => exact List.forall_mem_singleton.2 (hpending p rfl)
  | cons natural rest ih =>
    have hrest : ∀ line ∈ joinLines none rest, Paired line := ih (by simp) rfl
    rw [joinLines]
    split_ifs with _ hcontinues
    · exact hrest
    · have hjoined : continues (pending.getD [] ++ (natural.dropWhile isBlank).dropLast) = false :=
        (continues_append hopen _).trans (continues_dropLast hcontinues)
      refine ih (fun p hp => ?_) hjoined
      cases hp
      exact paired_iff.2 hjoined
    · refine List.forall_mem_cons.2 ⟨paired_iff.2 ?_, hrest⟩
      rw [continues_append hopen]
      exact Bool.not_eq_true _ ▸ hcontinues

/-- What lines are joined to has no backslash left over. -/
theorem paired_of_mem_logicalLines {t line : Text} (h : line ∈ logicalLines t) : Paired line :=
  paired_of_mem_joinLines (by simp) line h

end Joining

section Splitting
variable {line t : Text}

/-- How far the search for the end of the key comes: to a separator or a blank, or to the end. It goes past a backslash
and the place behind it at once, whether or not there is a character in that place. -/
def keyEnd : Text → Nat
  | [] => 0
  | c :: rest =>
    if c = '\\' then
      match rest with
      | [] => 2
      | _ :: rest => keyEnd rest + 2
    else if isSeparator c || isBlank c then 0
    else keyEnd rest + 1

theorem keyEnd_plain {c : CodePoint} (hc : c ≠ '\\') (rest : Text) :
    keyEnd (c :: rest) = if isSeparator c || isBlank c then 0 else keyEnd rest + 1 := by
  rw [keyEnd.eq_def]
  exact if_neg hc

theorem keyEnd_escape (e : CodePoint) (rest : Text) : keyEnd (('\\' : CodePoint) :: e :: rest) = keyEnd rest + 2 := by
  rw [keyEnd.eq_def]
  exact if_pos rfl

/-- The key of a line is what the search has passed, as far as the line goes. -/
theorem splitKey_eq (line : Text) : splitKey line = (line.take (keyEnd line), line.drop (keyEnd line)) := by
  induction line using pairs_induction with
  | nil => rfl
  | plain c rest hc ih =>
    rw [keyEnd_plain hc]
    split_ifs with hsep
    · exact splitKey_separator hc hsep rest
    · rw [splitKey_cons hc (Bool.not_eq_true _ ▸ hsep) ih, List.take_succ_cons, List.drop_succ_cons]
  | escape e rest ih =>
    rw [splitKey_escape e ih, keyEnd_escape, List.take_succ_cons, List.take_succ_cons, List.drop_succ_cons,
      List.drop_succ_cons]
  | stray => rfl

/-- The search comes to the end of a line at most, if its backslashes have their characters. -/
theorem keyEnd_le (h : Paired line) : keyEnd line ≤ line.length := by
  induction h with
  | nil => exact Nat.le_refl 0
  | plain hc _ ih =>
    rw [keyEnd_plain hc]
    split_ifs
    · exact Nat.zero_le _
    · exact Nat.succ_le_succ ih
  | escape e _ ih =>
    rw [keyEnd_escape]
    exact Nat.succ_le_succ (Nat.succ_le_succ ih)

/-- A backslash without a character takes the search past the end. -/
example : keyEnd "k\\" = 3 := rfl

theorem paired_splitKey (h : Paired line) : Paired (splitKey line).1 ∧ Paired (splitKey line).2 := by
  induction h with
  | nil => exact ⟨.nil, .nil⟩
  | @plain c rest hc h ih =>
    by_cases hsep : (isSeparator c || isBlank c) = true
    · rw [splitKey_separator hc hsep]
      exact ⟨.nil, .plain hc h⟩
    · rw [splitKey_cons hc (Bool.not_eq_true _ ▸ hsep) rfl]
      exact ⟨.plain hc ih.1, ih.2⟩
  | escape e _ ih =>
    rw [splitKey_escape e rfl]
    exact ⟨.escape e ih.1, ih.2⟩

private theorem paired_dropBlanks (h : Paired t) : Paired (t.dropWhile isBlank) := by
  rw [paired_iff, continues_dropWhile]
  exact paired_iff.1 h

theorem paired_dropSeparator (h : Paired t) : Paired (dropSeparator t) := by
  have hblanks := paired_dropBlanks h
  unfold dropSeparator
  split
  · exact .nil
  · next c rest heq =>
    rw [heq] at hblanks
    split_ifs with hsep
    · have hc : c ≠ '\\' := by
        rintro rfl
        exact absurd hsep (by decide)
      exact paired_dropBlanks (hblanks.tail hc)
    · exact hblanks

/-- The two parts of a line that an entry is read from: the key and the value, as they are written. -/
def parts (line : Text) : List Text := [(splitKey line).1, dropSeparator (splitKey line).2]

theorem paired_of_mem_parts {part : Text} (h : Paired line) (hpart : part ∈ parts line) : Paired part := by
  obtain ⟨hkey, hafter⟩ := paired_splitKey h
  rcases List.mem_cons.1 hpart with rfl | hpart
  · exact hkey
  · rw [List.mem_singleton.1 hpart]
    exact paired_dropSeparator hafter

end Splitting

section Strays

/-- Resolves escapes with any other outcome in the place of the one for a backslash at the very end. -/
def unescapeOr (stray : Except Failure Text) : Text → Except Failure Text
  | [] => .ok []
  | c :: rest =>
    if c = '\\' then
      match rest with
      | [] => stray
      | e :: rest =>
        if e = 'u' then
          match rest with
          | x :: y :: z :: w :: rest => do
            let some p := unicodeEscape? x y z w | .error .malformedEscape
            return p :: (← unescapeOr stray rest)
          | _ => .error .malformedEscape
        else do return escapeMeaning e :: (← unescapeOr stray rest)
    else do return c :: (← unescapeOr stray rest)

def entryOr (stray : Except Failure Text) (line : Text) : Except Failure (Text × Text) := do
  let (key, after) := splitKey line
  let k ← unescapeOr stray key
  let v ← unescapeOr stray (dropSeparator after)
  return (k, v)

/-- What a text is read as, with another outcome for a backslash at the very end of a key or a value. -/
def parseOr (stray : Except Failure Text) (t : Text) : Except Failure Properties :=
  ((logicalLines t).mapM (entryOr stray)).map (Value.setAll [])

private theorem continues_unicode {x y z w p : CodePoint} (h : unicodeEscape? x y z w = some p)
    (rest : Text) :
    continues (('\\' : CodePoint) :: ('u' : CodePoint) :: x :: y :: z :: w :: rest) = continues rest := by
  have hdigit : ∀ {d : CodePoint} {n : Nat}, d.hexValue? = some n → d ≠ '\\' := by
    rintro d n hd rfl
    have hnone : ('\\' : CodePoint).hexValue? = none := by decide
    rw [hnone] at hd
    cases hd
  simp only [unicodeEscape?, Option.bind_eq_bind, Option.bind_eq_some_iff] at h
  obtain ⟨_, hx, _, hy, _, hz, _, hw, -⟩ := h
  rw [continues_escape, continues_cons (hdigit hx), continues_cons (hdigit hy), continues_cons (hdigit hz),
    continues_cons (hdigit hw)]

/-- What comes behind a text: the outcome for a backslash at the very end if one is left over, and else nothing. -/
def outcomeBehind (stray : Except Failure Text) (t : Text) : Except Failure Text :=
  if continues t then stray else .ok []

/-- The other outcome comes behind what is resolved before it, if it comes. -/
theorem unescapeOr_eq (stray : Except Failure Text) (t : Text) :
    unescapeOr stray t = do return (← unescape t) ++ (← outcomeBehind stray t) := by
  have hcons (p : CodePoint) (x y : Except Failure Text) : (do return p :: (← (do return (← x) ++ (← y)))) =
      (do return (← (do return p :: (← x) : Except Failure Text)) ++ (← y)) := by
    cases x with
    | error f => rfl
    | ok s => cases y <;> rfl
  fun_induction unescape t with
  | case1 => rfl
  | case2 => cases stray <;> rfl
  | case3 x y z w rest p hp ih =>
    rw [unescapeOr.eq_def, outcomeBehind, continues_unicode hp, ← outcomeBehind, ← hcons, ← ih]
    simp only [if_true, hp]
  | case4 x y z w rest hp =>
    have hnone : unicodeEscape? x y z w = none := Option.eq_none_iff_forall_ne_some.2 hp
    rw [unescapeOr.eq_def]
    simp only [if_true, hnone]
    rfl
  | case5 rest h =>
    rw [unescapeOr.eq_def]
    simp only [if_true]
    rfl
  | case6 e rest he ih =>
    rw [unescapeOr.eq_def, outcomeBehind, continues_escape, ← outcomeBehind, ← hcons, ← ih]
    simp only [if_true, if_neg he]
  | case7 c rest hc ih =>
    rw [unescapeOr.eq_def, outcomeBehind, continues_cons hc, ← outcomeBehind, ← hcons, ← ih]
    simp only [if_neg hc]

theorem unescapeOr_nil (t : Text) : unescapeOr (.ok []) t = unescape t := by
  have hnothing : outcomeBehind (.ok []) t = .ok [] := ite_self _
  rw [unescapeOr_eq, hnothing]
  cases unescape t with
  | error f => rfl
  | ok s => exact congrArg Except.ok (List.append_nil s)

theorem unescapeOr_of_paired {t : Text} (h : Paired t) (stray : Except Failure Text) :
    unescapeOr stray t = unescape t := by
  rw [← unescapeOr_nil, unescapeOr_eq, unescapeOr_eq, outcomeBehind, outcomeBehind, paired_iff.1 h]
  rfl

/-- The outcome for a backslash at the very end does not matter to a text exactly if the text has none left over, or has
a malformed escape before it. -/
theorem unescapeOr_eq_iff {t : Text} :
    (∀ stray, unescapeOr stray t = unescape t) ↔ Paired t ∨ unescape t = .error .malformedEscape := by
  constructor
  · intro h
    cases hends : continues t with
    | false => exact Or.inl (paired_iff.2 hends)
    | true =>
      have hrefused := h (.error .notUtf8)
      rw [unescapeOr_eq, outcomeBehind, hends] at hrefused
      cases ht : unescape t with
      | error f => exact Or.inr (congrArg Except.error (unescape_error ht))
      | ok s =>
        rw [ht] at hrefused
        cases hrefused
  · rintro (h | h) stray
    · exact unescapeOr_of_paired h stray
    · rw [unescapeOr_eq, h]
      rfl

private theorem entryOr_eq {line : Text} (h : Paired line) (stray : Except Failure Text) :
    entryOr stray line = entry line := by
  obtain ⟨hkey, hafter⟩ := paired_splitKey h
  rw [entryOr, entry]
  simp only [unescapeOr_of_paired hkey, unescapeOr_of_paired (paired_dropSeparator hafter)]

theorem parseOr_eq (stray : Except Failure Text) (t : Text) : parseOr stray t = parse t := by
  have hlines (lines : List Text) (h : ∀ line ∈ lines, Paired line) :
      lines.mapM (entryOr stray) = lines.mapM entry := by
    induction lines with
    | nil => rfl
    | cons line rest ih =>
      rw [List.mapM_cons, List.mapM_cons, entryOr_eq (h line List.mem_cons_self),
        ih fun line hline => h line (List.mem_cons_of_mem _ hline)]
  rw [parseOr, hlines _ fun line => paired_of_mem_logicalLines, parse_eq_map, entries]

end Strays

/-- An even number of backslashes ends each logical line of a text. The search for the end of its key does not go beyond
the line, and an even number of backslashes ends the key and the value, as they are written. So a backslash is never
left over where their escapes are resolved: whatever its outcome there would be, it shows neither in the key and the
value nor in what the text is read as. Where the escapes of a whole text are resolved, it shows if a backslash is left
over and nothing before it is malformed; the outcome is nothing then. -/
theorem no_backslash_is_left_over (t : Text) :
    (∀ line ∈ logicalLines t, trailingBackslashes line % 2 = 0 ∧
      splitKey line = (line.take (keyEnd line), line.drop (keyEnd line)) ∧ keyEnd line ≤ line.length ∧
      ∀ part ∈ parts line, trailingBackslashes part % 2 = 0 ∧ ∀ stray, unescapeOr stray part = unescape part) ∧
    (∀ stray, parseOr stray t = parse t) ∧
    unescapeOr (.ok []) t = unescape t ∧
    ((∀ stray, unescapeOr stray t = unescape t) ↔
      trailingBackslashes t % 2 = 0 ∨ unescape t = .error .malformedEscape) := by
  refine ⟨fun line hline => ?_, fun stray => parseOr_eq stray t, unescapeOr_nil t, ?_⟩
  · have hpaired := paired_of_mem_logicalLines hline
    refine ⟨paired_iff_even.1 hpaired, splitKey_eq line, keyEnd_le hpaired, fun part hpart => ?_⟩
    have hpart' := paired_of_mem_parts hpaired hpart
    exact ⟨paired_iff_even.1 hpart', unescapeOr_of_paired hpart'⟩
  · rw [unescapeOr_eq_iff, paired_iff_even]

/-- A line that is continued behind an escaped backslash, in whose key a separator is escaped, and a line that is left
open at the end of the text. -/
theorem no_backslash_is_left_over_of_open_line :
    let t := Text.ofString "a\\\\\\\n  \\=b=c\\\\\n!\\\nd\\"
    let line := Text.ofString "a\\\\\\=b=c\\\\"
    line ∈ logicalLines t ∧ trailingBackslashes line % 2 = 0 ∧ keyEnd line ≤ line.length ∧
    parts line = [Text.ofString "a\\\\\\=b", Text.ofString "c\\\\"] ∧
    (∀ part ∈ parts line, ∀ stray, unescapeOr stray part = unescape part) ∧
    parse t = .ok [(Text.ofString "a\\=b", Text.ofString "c\\"), (Text.ofString "d", [])] := by
  intro t line
  have hline : line ∈ logicalLines t := by decide +kernel
  obtain ⟨heven, -, hle, hparts⟩ := (no_backslash_is_left_over t).1 line hline
  exact ⟨hline, heven, hle, by decide +kernel, fun part hpart => (hparts part hpart).2, by decide +kernel⟩

end Custody.Properties
