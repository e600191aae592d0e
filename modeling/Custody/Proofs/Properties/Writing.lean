import Custody.Properties.Basic
import Custody.Proofs.Act
import Custody.Proofs.Data.Fields
import Mathlib.Data.List.Forall2

/-! A writer for properties texts: what it writes for any pairs, in lines with any breaks, is read back as these pairs. -/
namespace Custody.Properties

section Writer

/-- A character as it is written: the four that break or blank a line by their letters, letters and digits as they are,
and any other behind a backslash. -/
def writePoint (c : CodePoint) : Text :=
  if c = '\t' then "\\t" else if c = '\n' then "\\n" else if c = '\r' then "\\r"
  else if c.val = 0x0C then "\\f" else if c.isAsciiAlnum then [c] else ['\\', c]

def write (t : Text) : Text := t.flatMap writePoint

def writeLine (pair : Text × Text) : Text := write pair.1 ++ ('=' : CodePoint) :: write pair.2

inductive LineBreak where
  | lf
  | cr
  | crlf

def LineBreak.text : LineBreak → Text
  | lf => "\n"
  | cr => "\r"
  | crlf => "\r\n"

/-- Lines with breaks between them: `breaks n` stands before the last `n` lines. -/
def joinBy (breaks : Nat → LineBreak) : List Text → Text
  | [] => []
  | [line] => line
  | line :: next :: rest => line ++ (breaks (rest.length + 1)).text ++ joinBy breaks (next :: rest)

end Writer

section Characters
variable {c d : CodePoint}

theorem ne_of_isAsciiAlnum (hc : c.isAsciiAlnum = true) (hd : d.isAsciiAlnum = false) : c ≠ d := by
  rintro rfl
  rw [hc] at hd
  cases hd

/-- A written character is a letter or digit, or a backslash and a character that stands for it and is no break. -/
theorem writePoint_cases (c : CodePoint) : (writePoint c = [c] ∧ c.isAsciiAlnum = true) ∨
    ∃ e : CodePoint, writePoint c = [('\\' : CodePoint), e] ∧ escapeMeaning e = c ∧ e ≠ 'u' ∧ e ≠ '\n' ∧ e ≠ '\r' := by
  unfold writePoint
  split_ifs with htab hlf hcr hff halnum
  · exact Or.inr ⟨'t', rfl, htab.symm, by decide, by decide, by decide⟩
  · exact Or.inr ⟨'n', rfl, hlf.symm, by decide, by decide, by decide⟩
  · exact Or.inr ⟨'r', rfl, hcr.symm, by decide, by decide, by decide⟩
  · have hc : c = ⟨0x0C, by omega⟩ := by
      cases c
      cases hff
      rfl
    exact Or.inr ⟨'f', rfl, hc.symm, by decide, by decide, by decide⟩
  · exact Or.inl ⟨rfl, halnum⟩
  · have hletter : ∀ d : CodePoint, d.isAsciiAlnum = true → c ≠ d := by
      rintro d hd rfl
      exact halnum hd
    refine Or.inr ⟨c, rfl, ?_, hletter _ (by decide), hlf, hcr⟩
    unfold escapeMeaning
    rw [if_neg (hletter _ (by decide)), if_neg (hletter _ (by decide)), if_neg (hletter _ (by decide)),
      if_neg (hletter _ (by decide))]

def Leads (c : CodePoint) : Prop := c = '=' ∨ c = '\\' ∨ c.isAsciiAlnum = true

theorem Leads.ne (h : Leads c) (hd : d.isAsciiAlnum = false) (heq : d ≠ '=') (hslash : d ≠ '\\') : c ≠ d := by
  rcases h with rfl | rfl | h
  · exact heq.symm
  · exact hslash.symm
  · exact ne_of_isAsciiAlnum h hd

theorem Leads.not_isBlank (h : Leads c) : isBlank c = false := by
  have hff : c ≠ ⟨0x0C, by omega⟩ := h.ne (by decide) (by decide) (by decide)
  have hval : c.val ≠ 0x0C := by
    intro hv
    apply hff
    cases c
    cases hv
    rfl
  simp [isBlank, h.ne (d := ' ') (by decide) (by decide) (by decide),
    h.ne (d := '\t') (by decide) (by decide) (by decide), hval]

theorem leads_write (c : CodePoint) (t : Text) : ∃ d rest, write (c :: t) = d :: rest ∧ Leads d := by
  rw [write, List.flatMap_cons]
  rcases writePoint_cases c with ⟨h, halnum⟩ | ⟨e, h, -⟩
  · exact ⟨c, t.flatMap writePoint, by rw [h]; rfl, Or.inr (Or.inr halnum)⟩
  · exact ⟨'\\', e :: t.flatMap writePoint, by rw [h]; rfl, Or.inr (Or.inl rfl)⟩

theorem leads_writeLine (pair : Text × Text) : ∃ d rest, writeLine pair = d :: rest ∧ Leads d := by
  obtain ⟨k, v⟩ := pair
  cases k with
  | nil => exact ⟨'=', write v, rfl, Or.inl rfl⟩
  | cons c t =>
    obtain ⟨d, rest, h, hd⟩ := leads_write c t
    exact ⟨d, rest ++ ('=' : CodePoint) :: write v, by rw [writeLine, h]; rfl, hd⟩

end Characters

section Lines

def Unbroken (line : Text) : Prop := ∀ c ∈ line, c ≠ ('\n' : CodePoint) ∧ c ≠ ('\r' : CodePoint)

theorem naturalLines_lf (t : Text) : naturalLines (('\n' : CodePoint) :: t) = [] :: naturalLines t := by
  rw [naturalLines.eq_def]
  exact if_pos rfl

theorem naturalLines_cr {t : Text} (ht : t.head? ≠ some ('\n' : CodePoint)) :
    naturalLines (('\r' : CodePoint) :: t) = [] :: naturalLines t := by
  rw [naturalLines.eq_def]
  dsimp only
  rw [if_neg (by decide), if_pos rfl]
  cases t with
  | nil => simp [naturalLines]
  | cons d rest => exact if_neg fun hd => ht (congrArg some hd)

theorem naturalLines_crlf (t : Text) :
    naturalLines (('\r' : CodePoint) :: ('\n' : CodePoint) :: t) = [] :: naturalLines t := by
  rw [naturalLines.eq_def]
  dsimp only
  rw [if_neg (by decide), if_pos rfl, if_pos rfl]

theorem naturalLines_cons {c : CodePoint} (h : c ≠ '\n' ∧ c ≠ '\r') {t line : Text} {lines : List Text}
    (ht : naturalLines t = line :: lines) : naturalLines (c :: t) = (c :: line) :: lines := by
  rw [naturalLines.eq_def]
  dsimp only
  rw [if_neg h.1, if_neg h.2, ht]

theorem naturalLines_of_unbroken {line : Text} (h : Unbroken line) : naturalLines line = [line] := by
  induction line with
  | nil => simp [naturalLines]
  | cons c rest ih =>
    apply naturalLines_cons (h c List.mem_cons_self)
    exact ih fun d hd => h d (List.mem_cons_of_mem _ hd)

/-- A break ends a line, if what follows a carriage return does not begin with a line feed. -/
theorem naturalLines_append {line : Text} (h : Unbroken line) (b : LineBreak) {t : Text}
    (ht : b = .cr → t.head? ≠ some ('\n' : CodePoint)) : naturalLines (line ++ b.text ++ t) = line :: naturalLines t := by
  induction line with
  | nil =>
    cases b with
    | lf => exact naturalLines_lf t
    | cr => exact naturalLines_cr (ht rfl)
    | crlf => exact naturalLines_crlf t
  | cons c rest ih =>
    apply naturalLines_cons (h c List.mem_cons_self)
    exact ih fun d hd => h d (List.mem_cons_of_mem _ hd)

theorem naturalLines_joinBy (breaks : Nat → LineBreak) {lines : List Text}
    (h : ∀ line ∈ lines, Unbroken line ∧ line ≠ []) :
    naturalLines (joinBy breaks lines) = if lines = [] then [[]] else lines := by
  induction lines with
  | nil => rfl
  | cons line rest ih =>
    have hline := (h line List.mem_cons_self).1
    rw [if_neg (List.cons_ne_nil _ _)]
    cases rest with
    | nil => exact naturalLines_of_unbroken hline
    | cons next rest =>
      have hnext := h next (by simp)
      have hhead : (joinBy breaks (next :: rest)).head? ≠ some ('\n' : CodePoint) := by
        have hfirst : (joinBy breaks (next :: rest)).head? = next.head? := by
          cases rest with
          | nil => rfl
          | cons => rw [joinBy, List.append_assoc, List.head?_append, Option.or_of_isSome (by simpa using hnext.2)]
        rw [hfirst]
        intro hc
        exact (hnext.1 _ (List.mem_of_mem_head? hc)).1 rfl
      rw [joinBy, naturalLines_append hline _ fun _ => hhead, ih fun l hl => h l (List.mem_cons_of_mem _ hl),
        if_neg (List.cons_ne_nil _ _)]

theorem trailingBackslashes_concat (line : Text) (c : CodePoint) :
    trailingBackslashes (line ++ [c]) = if c = '\\' then trailingBackslashes line + 1 else 0 := by
  unfold trailingBackslashes
  rw [List.reverse_concat, List.takeWhile_cons]
  by_cases hc : c = '\\' <;> simp [hc]

theorem continues_concat {line : Text} {c : CodePoint} (hc : c ≠ '\\') : continues (line ++ [c]) = false := by
  rw [continues, trailingBackslashes_concat, if_neg hc]
  rfl

/-- An escaped character does not change whether a line goes on. -/
theorem continues_append_escape {line : Text} (h : continues line = false) (e : CodePoint) :
    continues (line ++ [('\\' : CodePoint), e]) = false := by
  have hsplit : line ++ [('\\' : CodePoint), e] = line ++ [('\\' : CodePoint)] ++ [e] := by simp
  by_cases he : e = '\\'
  · rw [continues, decide_eq_false_iff_not] at h ⊢
    rw [hsplit, trailingBackslashes_concat, if_pos he, trailingBackslashes_concat, if_pos rfl]
    omega
  · rw [hsplit]
    exact continues_concat he

theorem continues_append_write {line : Text} (h : continues line = false) (t : Text) :
    continues (line ++ write t) = false := by
  induction t generalizing line with
  | nil => rwa [write, List.flatMap_nil, List.append_nil]
  | cons c t ih =>
    rw [write, List.flatMap_cons, ← List.append_assoc]
    apply ih
    rcases writePoint_cases c with ⟨hc, halnum⟩ | ⟨e, hc, -⟩
    · rw [hc]
      exact continues_concat (ne_of_isAsciiAlnum halnum (by decide))
    · rw [hc]
      exact continues_append_escape h e

/-- A line that stands for itself: it begins with something that is neither blank nor the mark of a comment, and
does not go on. -/
structure SelfContained (line : Text) : Prop where
  stripped : line.dropWhile isBlank = line
  audible : isSilent line = false
  ends : continues line = false

theorem joinLines_of_selfContained {lines : List Text} (h : ∀ line ∈ lines, SelfContained line) :
    joinLines none lines = lines := by
  induction lines with
  | nil => rfl
  | cons line rest ih =>
    have hline := h line List.mem_cons_self
    have hrest := ih fun l hl => h l (List.mem_cons_of_mem _ hl)
    simp [joinLines, hline.stripped, hline.audible, hline.ends, hrest]

theorem selfContained_of_leads {line : Text} (h : ∃ d rest, line = d :: rest ∧ Leads d) (hends : continues line = false) :
    SelfContained line := by
  obtain ⟨d, rest, rfl, hd⟩ := h
  refine ⟨?_, ?_, hends⟩
  · rw [List.dropWhile_cons, hd.not_isBlank]
    rfl
  · have hhash : d ≠ '#' := hd.ne (by decide) (by decide) (by decide)
    have hbang : d ≠ '!' := hd.ne (by decide) (by decide) (by decide)
    simp [isSilent, hhash, hbang]

theorem selfContained_writeLine (pair : Text × Text) : SelfContained (writeLine pair) := by
  have hsplit : writeLine pair = write pair.1 ++ [('=' : CodePoint)] ++ write pair.2 := by simp [writeLine]
  apply selfContained_of_leads (leads_writeLine pair)
  rw [hsplit]
  apply continues_append_write
  exact continues_concat (by decide)

private theorem unbroken_write (t : Text) : Unbroken (write t) := by
  intro d hd
  obtain ⟨c, -, hd⟩ := List.mem_flatMap.1 hd
  rcases writePoint_cases c with ⟨hc, halnum⟩ | ⟨e, hc, -, -, hlf, hcr⟩
  · rw [hc, List.mem_singleton] at hd
    rw [hd]
    exact ⟨ne_of_isAsciiAlnum halnum (by decide), ne_of_isAsciiAlnum halnum (by decide)⟩
  · rw [hc] at hd
    rcases List.mem_cons.1 hd with rfl | hd
    · exact ⟨by decide, by decide⟩
    · rw [List.mem_singleton.1 hd]
      exact ⟨hlf, hcr⟩

private theorem unbroken_writeLine (pair : Text × Text) : Unbroken (writeLine pair) := by
  intro c hc
  rcases List.mem_append.1 hc with hc | hc
  · exact unbroken_write _ c hc
  · rcases List.mem_cons.1 hc with rfl | hc
    · exact ⟨by decide, by decide⟩
    · exact unbroken_write _ c hc

theorem logicalLines_joinBy (breaks : Nat → LineBreak) (pairs : List (Text × Text)) :
    logicalLines (joinBy breaks (pairs.map writeLine)) = pairs.map writeLine := by
  have hlines : ∀ line ∈ pairs.map writeLine, Unbroken line ∧ line ≠ [] := by
    intro line hline
    obtain ⟨pair, -, rfl⟩ := List.mem_map.1 hline
    obtain ⟨d, rest, h, -⟩ := leads_writeLine pair
    exact ⟨unbroken_writeLine pair, by rw [h]; exact List.cons_ne_nil _ _⟩
  rw [logicalLines, naturalLines_joinBy breaks hlines]
  split
  · next h => rw [h]; rfl
  · apply joinLines_of_selfContained
    intro line hline
    obtain ⟨pair, -, rfl⟩ := List.mem_map.1 hline
    exact selfContained_writeLine pair

end Lines

section Entries

private theorem unescape_cons {c : CodePoint} (hc : c ≠ '\\') {t s : Text} (h : unescape t = .ok s) :
    unescape (c :: t) = .ok (c :: s) := by
  rw [unescape.eq_def]
  dsimp only
  rw [if_neg hc, h]
  rfl

private theorem unescape_escape {e : CodePoint} (he : e ≠ 'u') {t s : Text} (h : unescape t = .ok s) :
    unescape (('\\' : CodePoint) :: e :: t) = .ok (escapeMeaning e :: s) := by
  rw [unescape.eq_def]
  dsimp only
  rw [if_pos rfl, if_neg he, h]
  rfl

theorem unescape_write (t : Text) : unescape (write t) = .ok t := by
  induction t with
  | nil => rfl
  | cons c t ih =>
    rw [write, List.flatMap_cons]
    rcases writePoint_cases c with ⟨hc, halnum⟩ | ⟨e, hc, hmeaning, hu, -⟩
    · rw [hc]
      exact unescape_cons (ne_of_isAsciiAlnum halnum (by decide)) ih
    · rw [hc, ← hmeaning]
      exact unescape_escape hu ih

theorem splitKey_separator {c : CodePoint} (hc : c ≠ '\\') (h : (isSeparator c || isBlank c) = true) (t : Text) :
    splitKey (c :: t) = ([], c :: t) := by
  rw [splitKey.eq_def]
  dsimp only
  rw [if_neg hc, if_pos h]

theorem splitKey_cons {c : CodePoint} (hc : c ≠ '\\') (h : (isSeparator c || isBlank c) = false) {t key after : Text}
    (ht : splitKey t = (key, after)) : splitKey (c :: t) = (c :: key, after) := by
  rw [splitKey.eq_def]
  dsimp only
  rw [if_neg hc, if_neg (by simp [h]), ht]

theorem splitKey_escape (e : CodePoint) {t key after : Text} (ht : splitKey t = (key, after)) :
    splitKey (('\\' : CodePoint) :: e :: t) = (('\\' : CodePoint) :: e :: key, after) := by
  rw [splitKey.eq_def]
  dsimp only
  rw [if_pos rfl, ht]

theorem splitKey_alnum {c : CodePoint} (hc : c.isAsciiAlnum = true) {t key after : Text}
    (ht : splitKey t = (key, after)) : splitKey (c :: t) = (c :: key, after) := by
  have hsep : isSeparator c = false := by
    simp [isSeparator, ne_of_isAsciiAlnum (d := '=') hc (by decide), ne_of_isAsciiAlnum (d := ':') hc (by decide)]
  have hblank : isBlank c = false := Leads.not_isBlank (Or.inr (Or.inr hc))
  exact splitKey_cons (ne_of_isAsciiAlnum hc (by decide)) (by rw [hsep, hblank]; rfl) ht

/-- The key of a line ends at the first separator that is not part of it. -/
theorem splitKey_write (k rest : Text) :
    splitKey (write k ++ ('=' : CodePoint) :: rest) = (write k, ('=' : CodePoint) :: rest) := by
  induction k with
  | nil => exact splitKey_separator (by decide) rfl rest
  | cons c k ih =>
    rw [write, List.flatMap_cons, List.append_assoc]
    rcases writePoint_cases c with ⟨hc, halnum⟩ | ⟨e, hc, -⟩
    · rw [hc]
      exact splitKey_alnum halnum ih
    · rw [hc]
      exact splitKey_escape e ih

private theorem dropSeparator_write (v : Text) : dropSeparator (('=' : CodePoint) :: write v) = write v := by
  have hstripped : (write v).dropWhile isBlank = write v := by
    cases v with
    | nil => rfl
    | cons c t =>
      obtain ⟨d, rest, h, hd⟩ := leads_write c t
      rw [h, List.dropWhile_cons, hd.not_isBlank]
      rfl
  exact hstripped

theorem entry_writeLine (pair : Text × Text) : entry (writeLine pair) = .ok pair := by
  rw [entry, writeLine, splitKey_write]
  dsimp only
  rw [unescape_write, dropSeparator_write, unescape_write]
  rfl

/-- Lines that all have an entry set one after the other what they say. -/
theorem ofLines_eq {lines : List Text} {pairs before : Properties}
    (h : List.Forall₂ (fun line pair => entry line = .ok pair) lines pairs) :
    ofLines before lines = .ok (Value.setAll before pairs) := by
  induction h generalizing before with
  | nil => rfl
  | cons hline _ ih =>
    rw [ofLines, hline]
    exact ih

end Entries

/-- Every list of pairs can be written: read back, it is the dictionary in which each key stands where it occurs first
and has the value that it has last. -/
theorem parse_written (breaks : Nat → LineBreak) (pairs : List (Text × Text)) :
    ∃ p, parse (joinBy breaks (pairs.map writeLine)) = .ok p ∧
      p.map Prod.fst = (pairs.map Prod.fst).eraseDups ∧ ∀ k, p.lookup k = pairs.reverse.lookup k := by
  have hentries : List.Forall₂ (fun line pair => entry line = .ok pair) (pairs.map writeLine) pairs := by
    rw [List.forall₂_map_left_iff]
    exact List.forall₂_same.2 fun pair _ => entry_writeLine pair
  refine ⟨Value.setAll [] pairs, ?_, Value.map_fst_setAll pairs, fun k => ?_⟩
  · rw [parse, logicalLines_joinBy]
    exact ofLines_eq hentries
  · rw [Value.lookup_setAll]
    simp

/-- A key with a separator, a blank and a line break in it, a value that is a backslash, and nothing under an empty key. -/
example : parse (joinBy (fun _ => .crlf) [writeLine ("a= \n", "\\"), writeLine ("", "")]) =
    .ok [(Text.ofString "a= \n", Text.ofString "\\"), ([], [])] := by
  decide +kernel

end Custody.Properties
