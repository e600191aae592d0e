import Custody.Shell.Quoted

/-! How a POSIX shell reads a command line: its words, and the operators between them. A quoted word is read
back as it was, whatever it holds. -/
namespace Custody.Shell

inductive Token where
  | word (t : Text)
  | operator (o : Text)
deriving DecidableEq, Repr

def operators : List Text :=
  ["|", "||", "&", "&&", ";", ";;", "(", ")", "<", ">", "<<", ">>", "<&", ">&", "<>", "<<-", ">|", "\n"]

def blanks : List CodePoint := [' ', '\t']

def quotes : List CodePoint := ['\'', '"', '\\']

def backtick : CodePoint := ⟨0x60, by omega⟩

/-- Characters that begin an expansion, within double quotes too. -/
def expanding : List CodePoint := ['$', backtick]

/-- Characters that begin a pattern, a home directory or a comment where nothing quotes them. -/
def matching : List CodePoint := ['*', '?', '[', '~', '#']

inductive Place where
  | plain
  | operator (o : Text)
  | escape
  | single
  | double
  | doubleEscape
deriving DecidableEq, Repr

/-- A reader of a command line: where it is, and the word that has begun. -/
structure Reader where
  place : Place := .plain
  word : Option Text := none
deriving DecidableEq, Repr

namespace Reader

def add (word : Option Text) (place : Place) (c : CodePoint) : Reader := ⟨place, some (word.getD [] ++ [c])⟩

def ended (word : Option Text) : List Token := (word.map .word).toList

/-- One character outside of quotes. There is no reading of what the shell would replace by something else. -/
def stepPlain (word : Option Text) (c : CodePoint) : Option (List Token × Reader) :=
  if c ∈ blanks then some (ended word, {})
  else if [c] ∈ operators then some (ended word, ⟨.operator [c], none⟩)
  -- Quotes begin a word even if there is nothing between them.
  else if c = '\'' then some ([], ⟨.single, some (word.getD [])⟩)
  else if c = '"' then some ([], ⟨.double, some (word.getD [])⟩)
  else if c = '\\' then some ([], ⟨.escape, word⟩)
  else if c ∈ expanding ∨ c ∈ matching then none
  else some ([], add word .plain c)

def step (r : Reader) (c : CodePoint) : Option (List Token × Reader) :=
  match r.place with
  | .plain => stepPlain r.word c
  | .operator o =>
    -- Of several operators that fit, the longest is read.
    if o ++ [c] ∈ operators then some ([], ⟨.operator (o ++ [c]), none⟩)
    else (stepPlain none c).map fun (done, r) => (.operator o :: done, r)
  -- A line feed behind a backslash is no part of the line.
  | .escape => some ([], if c = '\n' then ⟨.plain, r.word⟩ else add r.word .plain c)
  | .single => some ([], if c = '\'' then ⟨.plain, r.word⟩ else add r.word .single c)
  | .double =>
    if c = '"' then some ([], ⟨.plain, r.word⟩)
    else if c = '\\' then some ([], ⟨.doubleEscape, r.word⟩)
    else if c ∈ expanding then none
    else some ([], add r.word .double c)
  | .doubleEscape =>
    some ([], if c = '\n' then ⟨.double, r.word⟩
      else if c = '"' ∨ c = '\\' ∨ c ∈ expanding then add r.word .double c
      -- Before most characters a backslash stands for itself here.
      else add (some (r.word.getD [] ++ [('\\' : CodePoint)])) .double c)

/-- What is read of a text, and the reader after it. -/
def run : Reader → Text → Option (List Token × Reader)
  | r, [] => some ([], r)
  | r, c :: rest => do
    let (done, r) ← r.step c
    let (more, r) ← run r rest
    return (done ++ more, r)

/-- The last token of a line, unless a quote is still open. -/
def finish (r : Reader) : Option (List Token) :=
  match r.place with
  | .plain => some (ended r.word)
  | .operator o => some [.operator o]
  | _ => none

end Reader

/-- The tokens of a command line that the shell takes as it stands. -/
def read? (line : Text) : Option (List Token) := do
  let (done, r) ← Reader.run {} line
  return done ++ (← r.finish)

/-- Commands, given as lists of words, of which each feeds the next. -/
def pipeline (commands : List (List Text)) : List Token :=
  [Token.operator "|"].intercalate (commands.map (·.map .word))

example : read? "cat 'a b'\"c'\" >>d||e\\ f" = some [.word "cat", .word "a bc'", .operator ">>", .word "d",
    .operator "||", .word "e f"] := by decide +kernel

namespace Reader
variable {r r' r'' : Reader} {s t : Text} {done more : List Token}

theorem run_append (h : run r s = some (done, r')) (h' : run r' t = some (more, r'')) :
    run r (s ++ t) = some (done ++ more, r'') := by
  induction s generalizing r done with
  | nil =>
    cases h
    exact h'
  | cons c s ih =>
    obtain ⟨⟨first, r₁⟩, hc, h⟩ := Option.bind_eq_some_iff.1 h
    obtain ⟨⟨later, r₂⟩, hs, h⟩ := Option.bind_eq_some_iff.1 h
    cases h
    have hrest : run r₁ (s ++ t) = some (later ++ more, r'') := ih hs
    rw [List.cons_append, run, hc]
    change (run r₁ (s ++ t) >>= _) = _
    rw [hrest, List.append_assoc]
    rfl

theorem run_cons {c : CodePoint} (hc : r.step c = some (done, r')) (h : run r' t = some (more, r'')) :
    run r (c :: t) = some (done ++ more, r'') := by
  have hone : run r [c] = some (done, r') := by
    rw [run, hc]
    change some (done ++ [], r') = _
    rw [List.append_nil]
  exact run_append hone h

/-- No character that needs no quotes means anything to the shell. -/
theorem step_of_isPlain {c : CodePoint} (h : isPlain c = true) (word : Option Text) :
    step ⟨.plain, word⟩ c = some ([], add word .plain c) := by
  have hmeaning : ∀ d ∈ blanks ++ quotes ++ expanding ++ matching, isPlain d = false := by decide
  have hoperator : ∀ o ∈ operators, o.head?.any isPlain = false := by decide
  have hnot : c ∉ blanks ++ quotes ++ expanding ++ matching := by
    intro hc
    rw [hmeaning c hc] at h
    cases h
  have hnone : [c] ∉ operators := by
    intro hc
    have hfalse : isPlain c = false := hoperator [c] hc
    rw [hfalse] at h
    cases h
  simp only [quotes, List.mem_append, List.mem_cons, List.not_mem_nil, not_or, or_false] at hnot
  obtain ⟨⟨⟨hblank, hsingle, hdouble, hescape⟩, hexpanding⟩, hmatching⟩ := hnot
  change stepPlain word c = _
  rw [stepPlain, if_neg hblank, if_neg hnone, if_neg hsingle, if_neg hdouble, if_neg hescape,
    if_neg (not_or.2 ⟨hexpanding, hmatching⟩)]

private theorem run_of_isPlain (ht : t.all isPlain = true) (word : Text) :
    run ⟨.plain, some word⟩ t = some ([], ⟨.plain, some (word ++ t)⟩) := by
  induction t generalizing word with
  | nil => rw [List.append_nil, run]
  | cons c t ih =>
    rw [List.all_cons, Bool.and_eq_true] at ht
    have hrest := ih ht.2 (word ++ [c])
    rw [List.append_assoc] at hrest
    exact run_cons (step_of_isPlain ht.1 (some word)) hrest

theorem run_quotedPoints (t word : Text) :
    run ⟨.single, some word⟩ (t.flatMap quotedPoint) = some ([], ⟨.single, some (word ++ t)⟩) := by
  induction t generalizing word with
  | nil => rw [List.append_nil, List.flatMap_nil, run]
  | cons c t ih =>
    have hpoint : run ⟨.single, some word⟩ (quotedPoint c) = some ([], ⟨.single, some (word ++ [c])⟩) := by
      by_cases hc : c = '\''
      · rw [hc]
        rfl
      · rw [quotedPoint, if_neg hc]
        have hstep : step ⟨.single, some word⟩ c = some ([], add (some word) .single c) := by
          change some ([], if c = '\'' then _ else _) = _
          rw [if_neg hc]
        exact run_cons hstep rfl
    have hrest := ih (word ++ [c])
    rw [List.append_assoc] at hrest
    rw [List.flatMap_cons]
    exact run_append hpoint hrest

/-- A quoted text is read as one word, which is the text. -/
theorem run_quote (t : Text) : run {} (quote t) = some ([], ⟨.plain, some t⟩) := by
  rw [quote]
  split
  · next hnil =>
    rw [hnil]
    rfl
  · next hne =>
    split
    · next hplain =>
      cases t with
      | nil => exact absurd rfl hne
      | cons c t =>
        rw [List.all_cons, Bool.and_eq_true] at hplain
        exact run_cons (step_of_isPlain hplain.1 none) (run_of_isPlain hplain.2 [c])
    · have hopen : run {} "'" = some ([], ⟨.single, some []⟩) := by decide +kernel
      have hclose : run ⟨.single, some t⟩ "'" = some ([], ⟨.plain, some t⟩) := rfl
      have hquoted : run {} ("'" ++ t.flatMap quotedPoint) = some ([], ⟨.single, some t⟩) :=
        run_append hopen (run_quotedPoints t [])
      exact run_append hquoted hclose

end Reader

end Custody.Shell
