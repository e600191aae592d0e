import Custody.Proofs.Data.Json.RoundTrip
import Custody.Proofs.Docker.Redacted
import Custody.Proofs.Docker.RoundTrip
import Custody.Proofs.Docker.Tasks

/-! Which names get through to a remote host: those of two grammars, and those with one line feed behind them. -/
namespace Custody

namespace Text

/-- A text of a certain kind, with a line feed behind it. -/
def BeforeLineFeed (P : Text → Prop) (t : Text) : Prop := ∃ name, P name ∧ t = name ++ [('\n' : CodePoint)]

private theorem dropFinalLineFeed_append (t : Text) : dropFinalLineFeed (t ++ [('\n' : CodePoint)]) = t := by
  rw [dropFinalLineFeed, List.getLast?_concat, if_pos rfl, List.dropLast_concat]

/-- Where no text of a kind holds a line feed, a check that drops one lets a second kind of text pass. -/
theorem dropFinalLineFeed_iff {P : Text → Prop} (hP : ∀ t, P t → ('\n' : CodePoint) ∉ t) (t : Text) :
    P (dropFinalLineFeed t) ↔ P t ∨ BeforeLineFeed P t := by
  by_cases hlast : t.getLast? = some ('\n' : CodePoint)
  · obtain ⟨name, rfl⟩ := List.getLast?_eq_some_iff.1 hlast
    have hnot : ¬P (name ++ [('\n' : CodePoint)]) := fun h => hP _ h (by simp)
    have hname : BeforeLineFeed P (name ++ [('\n' : CodePoint)]) ↔ P name := by
      constructor
      · rintro ⟨name', h, hsame⟩
        rwa [List.append_cancel_right hsame]
      · exact fun h => ⟨name, h, rfl⟩
    rw [dropFinalLineFeed_append, hname]
    exact (or_iff_right hnot).symm
  · have hnot : ¬BeforeLineFeed P t := by
      rintro ⟨name, -, rfl⟩
      exact hlast List.getLast?_concat
    rw [dropFinalLineFeed, if_neg hlast]
    exact (or_iff_left hnot).symm

theorem BeforeLineFeed.not_self {P : Text → Prop} (hP : ∀ t, P t → ('\n' : CodePoint) ∉ t) {t : Text}
    (h : BeforeLineFeed P t) : ¬P t := by
  obtain ⟨name, -, rfl⟩ := h
  exact fun h => hP _ h (by simp)

/-- What follows from a check that lets a line feed pass: its texts are of the kind if and only if they have none. -/
theorem of_accepted_iff {P : Text → Prop} (hP : ∀ t, P t → ('\n' : CodePoint) ∉ t) {t : Text} {accepted : Prop}
    (h : accepted ↔ P t ∨ BeforeLineFeed P t) : (accepted → P t) ↔ ¬BeforeLineFeed P t := by
  constructor
  · exact fun hholds hline => hline.not_self hP (hholds (h.2 (Or.inr hline)))
  · exact fun hline haccepted => (h.1 haccepted).resolve_right hline

end Text

namespace Json
variable {text : Text}

/-- A character that a text in quotes shows as it is. -/
def Bare (c : CodePoint) : Prop := c ≠ '"' ∧ c ≠ '\\' ∧ 0x20 ≤ c.val

theorem string?_of_bare (h : ∀ c ∈ text, Bare c) (fuel : Nat) (acc rest : Text) :
    string? (text.length + fuel) acc (text ++ rest) = string? fuel (text.reverse ++ acc) rest := by
  induction text generalizing acc with
  | nil => rw [List.length_nil, Nat.zero_add]; rfl
  | cons c text ih =>
    rw [List.forall_mem_cons] at h
    obtain ⟨⟨hquote, hescape, hcontrol⟩, hrest⟩ := h
    rw [List.length_cons, Nat.succ_add, List.cons_append, string?, if_neg hquote, if_neg hescape,
      if_neg (Nat.not_lt.2 hcontrol), ih hrest, List.reverse_cons, List.append_assoc]
    rfl

theorem string?_closed (h : ∀ c ∈ text, Bare c) {fuel : Nat} (hfuel : text.length < fuel) (rest : Text) :
    string? fuel [] (text ++ ('"' : CodePoint) :: rest) = some (text, rest) := by
  obtain ⟨k, rfl⟩ : ∃ k, fuel = text.length + (k + 1) := ⟨fuel - text.length - 1, by omega⟩
  rw [string?_of_bare h, string?, if_pos rfl, List.append_nil, List.reverse_reverse]

/-- A line feed within quotes is an error. -/
theorem string?_broken (h : ∀ c ∈ text, Bare c) {fuel : Nat} (hfuel : text.length < fuel) (rest : Text) :
    string? fuel [] (text ++ ('\n' : CodePoint) :: rest) = none := by
  obtain ⟨k, rfl⟩ : ∃ k, fuel = text.length + (k + 1) := ⟨fuel - text.length - 1, by omega⟩
  rw [string?_of_bare h, string?, if_neg (by decide), if_neg (by decide), if_pos (by decide)]

end Json

namespace Docker
open Act World Shell

/-- A user name of the grammar: a letter or a digit of ASCII, and then letters, digits and some marks. -/
structure IsName (t : Text) : Prop where
  length : 1 ≤ t.length ∧ t.length ≤ 255
  first : ∀ c ∈ t.head?, c.isAsciiAlnum = true
  chars : ∀ c ∈ t, c.isAsciiAlnum = true ∨ c ∈ (['.', '_', '@', '-'] : Text)

/-- A credential helper of the grammar: letters and digits of ASCII, and hyphens. -/
structure IsHelper (t : Text) : Prop where
  ne : t ≠ []
  chars : ∀ c ∈ t, c.isAsciiAlnum = true ∨ c = '-'

section Grammars

theorem IsName.not_mem_lineFeed (t : Text) (h : IsName t) : ('\n' : CodePoint) ∉ t := by
  intro hmem
  have hmark := h.chars _ hmem
  exact absurd hmark (by decide)

theorem IsHelper.not_mem_lineFeed (t : Text) (h : IsHelper t) : ('\n' : CodePoint) ∉ t := by
  intro hmem
  have hmark := h.chars _ hmem
  exact absurd hmark (by decide)

private theorem isNameChar_iff (c : CodePoint) :
    isNameChar c = true ↔ c.isAsciiAlnum = true ∨ c ∈ (['.', '_', '@', '-'] : Text) := by
  simp only [isNameChar, Bool.or_eq_true, decide_eq_true_eq, or_assoc, List.mem_cons, List.not_mem_nil, or_false]

theorem isUsername_iff (t : Text) : isUsername t = true ↔ IsName t ∨ Text.BeforeLineFeed IsName t := by
  rw [← Text.dropFinalLineFeed_iff IsName.not_mem_lineFeed, isUsername]
  generalize Text.dropFinalLineFeed t = name
  cases name with
  | nil => exact iff_of_false Bool.false_ne_true fun h => absurd h.length.1 (by simp)
  | cons c rest =>
    simp only [Bool.and_eq_true, List.all_eq_true, isNameChar_iff]
    constructor
    · rintro ⟨⟨hfirst, hrest⟩, hlength⟩
      refine ⟨⟨Nat.succ_pos _, of_decide_eq_true hlength⟩, ?_, List.forall_mem_cons.2 ⟨Or.inl hfirst, hrest⟩⟩
      rintro _ ⟨⟩
      exact hfirst
    · intro h
      exact ⟨⟨h.first c rfl, fun d hd => h.chars d (List.mem_cons_of_mem _ hd)⟩, decide_eq_true h.length.2⟩

theorem isHelperName_iff (t : Text) : isHelperName t = true ↔ IsHelper t ∨ Text.BeforeLineFeed IsHelper t := by
  rw [← Text.dropFinalLineFeed_iff IsHelper.not_mem_lineFeed, isHelperName]
  generalize Text.dropFinalLineFeed t = name
  simp only [Bool.and_eq_true, Bool.not_eq_true', List.isEmpty_eq_false_iff, List.all_eq_true, Bool.or_eq_true,
    decide_eq_true_eq]
  exact ⟨fun h => ⟨h.1, h.2⟩, fun h => ⟨h.ne, h.chars⟩⟩

/-- The check names the user name as the reason exactly where it is none that gets through. -/
theorem reason_check_iff (username password : Text) :
    (check username password).reason = "Invalid username" ↔ isUsername username = false := by
  have hothers : ∀ v : Verdict, v.reason = "Invalid username" → v = .badUsername := by
    intro v h
    cases v
    case badUsername => rfl
    all_goals exact absurd h (by decide +kernel)
  constructor
  · intro h
    have hverdict := hothers _ h
    unfold check at hverdict
    split at hverdict
    · next hname => simpa using hname
    · split at hverdict
      · cases hverdict
      · split at hverdict <;> cases hverdict
  · intro h
    rw [check, if_pos (by simp [h])]
    rfl

end Grammars

/-- The commands that an act sends, the latest first. -/
def sends {α : Type} (a : Act α) (w : World) : List Text :=
  (a.after w).site.sent.take ((a.after w).site.sent.length - w.site.sent.length)

def SendsOnly (S : Text → Prop) (w w' : World) : Prop :=
  ∃ later, w'.site.sent = later ++ w.site.sent ∧ ∀ command ∈ later, S command

section Sends
variable {α : Type} {a : Act α} {S : Text → Prop} {remote : Remote} {w w' : World} {command helper : Text} {later : List Text}

theorem sends_of_append (h : (a.after w).site.sent = later ++ w.site.sent) : sends a w = later := by
  rw [sends, h, List.length_append, Nat.add_sub_cancel, List.take_left]

instance : IsPreorder World (SendsOnly S) where
  refl w := ⟨[], rfl, fun _ h => absurd h List.not_mem_nil⟩
  trans := by
    rintro w w' w'' ⟨first, hfirst, hS⟩ ⟨later, hlater, hS'⟩
    refine ⟨later ++ first, ?_, fun command h => (List.mem_append.1 h).elim (hS' command) (hS command)⟩
    rw [hlater, hfirst, List.append_assoc]

theorem Mute.sendsOnly (h : Mute w w') : SendsOnly S w w' := ⟨[], h, fun _ h => absurd h List.not_mem_nil⟩

theorem sends_of_sendsOnly (h : a.Keeps (SendsOnly S)) : ∀ command ∈ sends a w, S command := by
  obtain ⟨later, hlater, hS⟩ := h w
  rwa [sends_of_append hlater]

theorem sends_of_mute (h : Mute w (a.after w)) : sends a w = [] := sends_of_append h

theorem sendsOnly_execute (h : S command) : (execute remote command).Keeps (SendsOnly S) := by
  intro w
  rw [after_execute]
  exact ⟨[command], rfl, List.forall_mem_singleton.2 h⟩

theorem sendsOnly_executeAll {commands : List Text} (h : ∀ command ∈ commands, S command) :
    (executeAll remote commands).Keeps (SendsOnly S) := by
  induction commands with
  | nil => exact .pure ()
  | cons command rest ih =>
    rw [List.forall_mem_cons] at h
    exact .bind (sendsOnly_execute h.1) fun _ => ih h.2

theorem mute_tell (level : Level) (message : String) (fields : List (Text × Value)) :
    (tell level message fields).Keeps Mute := fun _ => rfl

theorem sendsOnly_tell (level : Level) (message : String) (fields : List (Text × Value)) :
    (tell level message fields).Keeps (SendsOnly S) := (mute_tell level message fields).mono Mute.sendsOnly

/-- Whatever the host replies, no other commands are sent for a helper. -/
theorem sendsOnly_configureHelper (remote : Remote) (helper : Text) :
    (configureHelper remote helper).Keeps (SendsOnly (· ∈ findHelper helper :: helperCommands helper)) := by
  have huse : (useHelper remote helper).Keeps (SendsOnly (· ∈ findHelper helper :: helperCommands helper)) := by
    refine .bind (sendsOnly_execute List.mem_cons_self) fun found => ?_
    split
    · exact .bind (sendsOnly_tell _ _ _) fun _ => .pure false
    · exact .bind (sendsOnly_executeAll fun _ h => List.mem_cons_of_mem _ h) fun _ => .pure true
  unfold configureHelper
  split
  · exact .bind (sendsOnly_tell _ _ _) fun _ => .pure false
  · refine .bind (.orElse (.bind huse fun _ => .pure _) fun _ => .bind (sendsOnly_tell _ _ _) fun _ => .pure none)
      fun used => ?_
    split
    · exact .bind ((mute_log _).mono Mute.sendsOnly) fun _ => .pure true
    · exact .pure false

theorem sends_configureHelper_of_refused (h : isHelperName helper = false) (remote : Remote) (w : World) :
    sends (configureHelper remote helper) w = [] := by
  refine sends_of_mute ?_
  rw [configureHelper, if_pos (by simp [h])]
  rfl

private theorem reached_eq_some {message : String} {x : α}
    (h : reached a message w = .ok (some x) w') : a w = .ok x w' := by
  cases ha : a w with
  | ok y v =>
    rw [reached_of_ok ha] at h
    cases h
    rfl
  | error f v =>
    -- A failure leaves no answer behind, or goes on.
    rcases reached_of_error message ha with ⟨u, hr⟩ | ⟨u, hr⟩
    · rw [hr] at h
      cases h
    · rw [hr] at h
      cases h

/-- Once a helper is in use, all commands for that have been sent. -/
theorem sends_configureHelper (h : (configureHelper remote helper).result w = .ok true) :
    sends (configureHelper remote helper) w = (helperCommands helper).reverse ++ [findHelper helper] := by
  obtain ⟨w', hrun⟩ := result_eq_ok.1 h
  refine sends_of_append ?_
  rw [after_of_ok hrun, List.append_assoc]
  unfold configureHelper at hrun
  split at hrun
  · cases hrun
  · obtain ⟨used, v, hreached, hrest⟩ := of_bind_eq_ok hrun
    split at hrest
    · next hused =>
      subst hused
      obtain ⟨u, v', hlog, hreturn⟩ := of_bind_eq_ok hrest
      cases hreturn
      have hmute := mute_log (.configurationChange (.text "system") (.text "docker_config")
        (.text ("Configured credential helper: " ++ helper))) v
      rw [after_of_ok hlog] at hmute
      exact hmute.trans (useHelper_eq_ok (reached_eq_some hreached))
    · cases hrest

theorem sends_login_of_refused {c : Credentials} (h : isUsername c.username = false) (remote : Remote) (w : World) :
    sends (login remote c) w = [] := by
  have haudit : ((do
      tell .error "docker_username_invalid" []
      auditLogin c.username false "Invalid username"
      return false : Act Bool)).Keeps Mute :=
    .bind (mute_tell _ _ _) fun _ => .bind (mute_log _) fun _ => .pure false
  refine sends_of_mute ?_
  rw [login, after_bind_of_ok (tell_eq _ _ _ _), if_pos (by simp [h])]
  exact haudit _

end Sends

/-- The text that makes a credential helper the store of all credentials. -/
def storeText (helper : Text) : Text := "\x7b\"credsStore\": \"" ++ helper ++ "\"\x7d"

/-- A command that writes a text to the file of the credentials: the shell is to print a word and a line feed to it. -/
def Writes (command text : Text) : Prop :=
  ∃ line body, command = line ++ configFile ∧ text = body ++ [('\n' : CodePoint)] ∧
    read? line = some [.word "printf", .word "%s\\n", .word body, .operator ">"]

/-- A text is JSON of an object that names the store of the credentials. -/
def Stores (text helper : Text) : Prop :=
  ∃ fields, Json.read? text = some (.record fields) ∧ fields.lookup ("credsStore" : Text) = some (.text helper)

section Stored
variable {helper command text body : Text}

/-- The shell reads what is in single quotes as one word, and the operator behind it. -/
theorem read_printed (h : ('\'' : CodePoint) ∉ body) : read? ("printf '%s\\n' '" ++ body ++ "' > ") =
    some [.word "printf", .word "%s\\n", .word body, .operator ">"] := by
  have hopen : Reader.run {} "printf '%s\\n' '" = some ([.word "printf", .word "%s\\n"], ⟨.single, some []⟩) := by
    decide +kernel
  have hbody : body.flatMap quotedPoint = body := by
    have hpoint : ∀ c ∈ body, quotedPoint c = [c] := fun c hc => if_neg (ne_of_mem_of_not_mem hc h)
    exact (List.flatMap_congr hpoint).trans (List.flatMap_singleton' body)
  have hword := Reader.run_quotedPoints body []
  rw [hbody, List.nil_append] at hword
  have hclose : Reader.run ⟨.single, some body⟩ "' > " = some ([.word body, .operator ">"], {}) := rfl
  rw [read?, Reader.run_append (Reader.run_append hopen hword) hclose]
  rfl

theorem IsHelper.bare (h : IsHelper helper) : ∀ c ∈ helper, Json.Bare c := by
  intro c hc
  rcases h.chars c hc with halnum | rfl
  · have hval : 0x30 ≤ c.val ∧ c.val ≠ 0x5C := by
      simp only [CodePoint.isAsciiAlnum, CodePoint.isDigit, CodePoint.isUpper, CodePoint.isLower, Bool.or_eq_true,
        Bool.and_eq_true, decide_eq_true_eq] at halnum
      omega
    refine ⟨?_, ?_, by omega⟩
    · rintro rfl
      exact absurd hval (by decide)
    · rintro rfl
      exact absurd hval (by decide)
  · exact ⟨by decide, by decide, by decide⟩

/-- What the reader makes of the object depends on what is behind the quote that opens the name of the helper. -/
theorem value?_store (fuel : Nat) (t : Text) : Json.value? (fuel + 3) ("\x7b\"credsStore\": \"" ++ t) =
    (Json.string? (t.length + 1) [] t).bind fun found =>
      match Json.skipBlank found.2 with
      | c :: rest =>
        if c = ',' then Json.fields? (fuel + 1) [("credsStore", .text found.1)] (Json.skipBlank rest)
        else if c = '\x7d' then some (.record [("credsStore", .text found.1)], rest)
        else none
      | [] => none := by
  have hkey : Json.string? (("credsStore\": \"" ++ t : Text).length + 1) [] ("credsStore\": \"" ++ t) =
      some (Text.ofString "credsStore", ": \"" ++ t) := rfl
  have hshape : ("\x7b\"credsStore\": \"" ++ t : Text) =
      ('\x7b' : CodePoint) :: ('"' : CodePoint) :: ("credsStore\": \"" ++ t) := rfl
  have hvalue : Json.value? (fuel + 1) (('"' : CodePoint) :: t) =
      (Json.string? (t.length + 1) [] t).map fun found => (.text found.1, found.2) := by
    rw [Json.value?, if_pos rfl]
  rw [hshape, Json.value?, if_neg (by decide), if_neg (by decide), if_pos rfl, Json.skipBlank_cons rfl]
  dsimp only
  rw [if_neg (by decide), Json.fields?, if_neg (by simp), hkey]
  have hcolon : Json.skipBlank (": \"" ++ t) = (':' : CodePoint) :: (' ' : CodePoint) :: ('"' : CodePoint) :: t := rfl
  have hblank : Json.skipBlank ((' ' : CodePoint) :: ('"' : CodePoint) :: t) = ('"' : CodePoint) :: t := rfl
  simp only [Option.bind_eq_bind, Option.bind_some, hcolon, hblank, hvalue]
  rw [if_neg (by simp), Option.bind_map]
  rfl

theorem read?_store (t : Text) : ∃ fuel, Json.read? ("\x7b\"credsStore\": \"" ++ t) =
    (Json.value? (fuel + 3) ("\x7b\"credsStore\": \"" ++ t)).bind fun found =>
      if Json.skipBlank found.2 = [] then some found.1 else none := by
  have hlength : 1 ≤ ("\x7b\"credsStore\": \"" ++ t : Text).length := Nat.succ_pos _
  obtain ⟨fuel, hfuel⟩ : ∃ k, 2 * ("\x7b\"credsStore\": \"" ++ t : Text).length + 2 = k + 3 :=
    ⟨2 * ("\x7b\"credsStore\": \"" ++ t : Text).length - 1, by omega⟩
  have hblank : Json.skipBlank ("\x7b\"credsStore\": \"" ++ t) = "\x7b\"credsStore\": \"" ++ t := rfl
  refine ⟨fuel, ?_⟩
  rw [Json.read?, hfuel, hblank]
  rfl

/-- The text names a helper of the grammar as the store. -/
theorem IsHelper.stores (h : IsHelper helper) : Stores (storeText helper ++ [('\n' : CodePoint)]) helper := by
  have hshape : storeText helper ++ [('\n' : CodePoint)] =
      "\x7b\"credsStore\": \"" ++ (helper ++ ('"' : CodePoint) :: "\x7d\n") := by
    simp only [storeText, List.append_assoc]
    rfl
  have hlength : helper.length < (helper ++ ('"' : CodePoint) :: "\x7d\n").length + 1 := by
    rw [List.length_append]
    omega
  obtain ⟨fuel, hread⟩ := read?_store (helper ++ ('"' : CodePoint) :: "\x7d\n")
  refine ⟨[("credsStore", .text helper)], ?_, rfl⟩
  rw [hshape, hread, value?_store, Json.string?_closed h.bare hlength]
  rfl

/-- With a line feed behind the helper, the text is no JSON. -/
theorem IsHelper.not_stores (h : IsHelper helper) (name : Text) :
    ¬Stores (storeText (helper ++ [('\n' : CodePoint)]) ++ [('\n' : CodePoint)]) name := by
  have hshape : storeText (helper ++ [('\n' : CodePoint)]) ++ [('\n' : CodePoint)] =
      "\x7b\"credsStore\": \"" ++ (helper ++ ('\n' : CodePoint) :: "\"\x7d\n") := by
    simp only [storeText, List.append_assoc]
    rfl
  have hlength : helper.length < (helper ++ ('\n' : CodePoint) :: "\"\x7d\n").length + 1 := by
    rw [List.length_append]
    omega
  obtain ⟨fuel, hread⟩ := read?_store (helper ++ ('\n' : CodePoint) :: "\"\x7d\n")
  rintro ⟨fields, hfields, -⟩
  rw [hshape, hread, value?_store, Json.string?_broken h.bare hlength] at hfields
  cases hfields

/-- The command that writes the configuration, and around it two that do not. -/
theorem helperCommands_eq (helper : Text) : helperCommands helper =
    ["mkdir -p " ++ configDir ++ " && chmod 700 " ++ configDir,
      "printf '%s\\n' '" ++ storeText helper ++ "' > " ++ configFile, "chmod 600 " ++ configFile] := by
  have hshape : ("printf '%s\\n' '\x7b\"credsStore\": \"" ++ helper ++ "\"\x7d' > " ++ configFile : Text) =
      "printf '%s\\n' '" ++ storeText helper ++ "' > " ++ configFile := by
    simp only [storeText, List.append_assoc]
    rfl
  rw [helperCommands, hshape]

theorem not_mem_storeText (h : ('\'' : CodePoint) ∉ helper) : ('\'' : CodePoint) ∉ storeText helper := by
  have hframe : ('\'' : CodePoint) ∉ ("\x7b\"credsStore\": \"" : Text) ++ ("\"\x7d" : Text) := by decide +kernel
  rw [List.mem_append, not_or] at hframe
  simp only [storeText, List.mem_append, not_or]
  exact ⟨⟨hframe.1, h⟩, hframe.2⟩

/-- For a helper of the grammar, one command alone writes the configuration, and it writes this text. -/
theorem IsHelper.written (h : IsHelper helper) (hmem : command ∈ findHelper helper :: helperCommands helper)
    (hwrites : Writes command text) : text = storeText helper ++ [('\n' : CodePoint)] := by
  obtain ⟨line, body, hcommand, rfl, hread⟩ := hwrites
  have hquote : ('\'' : CodePoint) ∉ helper := fun hc => absurd (h.chars _ hc) (by decide)
  have hfile : configFile <:+ command := ⟨line, hcommand.symm⟩
  rw [helperCommands_eq] at hmem
  simp only [List.mem_cons, List.not_mem_nil, or_false] at hmem
  rcases hmem with rfl | rfl | rfl | rfl
  · -- The command that looks for the helper ends as the helper does.
    have hlast := congrArg List.getLast? hcommand
    rw [findHelper, List.getLast?_append_of_ne_nil _ h.ne,
      List.getLast?_append_of_ne_nil _ (by decide +kernel : configFile ≠ [])] at hlast
    have hmark := h.chars '"' (List.mem_of_getLast? (hlast.trans (by decide +kernel)))
    exact absurd hmark (by decide)
  · exact absurd hfile (by decide +kernel)
  · rw [← List.append_cancel_right hcommand, read_printed (not_mem_storeText hquote)] at hread
    cases hread
    rfl
  · have hchmod : read? "chmod 600 " = some [.word "chmod", .word "600"] := by decide +kernel
    rw [← List.append_cancel_right hcommand, hchmod] at hread
    cases hread

theorem writes_storeText (h : ('\'' : CodePoint) ∉ helper) :
    Writes ("printf '%s\\n' '" ++ storeText helper ++ "' > " ++ configFile) (storeText helper ++ [('\n' : CodePoint)]) :=
  ⟨_, storeText helper, rfl, rfl, read_printed (not_mem_storeText h)⟩

end Stored

section Accepted
variable {remote : Remote} {w : World} {c : Credentials} {helper : Text}

private theorem executeAll_of_succeeds (hremote : AlwaysSucceeds remote) (commands : List Text) (w : World) :
    ∃ w', executeAll remote commands w = .ok () w' := by
  induction commands generalizing w with
  | nil => exact ⟨w, rfl⟩
  | cons command rest ih =>
    obtain ⟨output, hanswer⟩ := hremote w.site.sent command
    rw [executeAll, bind_of_ok (execute_of_ok hanswer)]
    exact ih _

/-- On a host on which every command succeeds, a helper that passes the check is put to use. -/
theorem configureHelper_of_succeeds (hremote : AlwaysSucceeds remote) (hl : Audit.Listens w)
    (name : isHelperName helper = true) : (configureHelper remote helper).result w = .ok true := by
  obtain ⟨output, hfound⟩ := hremote w.site.sent (findHelper helper)
  obtain ⟨w₁, hall⟩ := executeAll_of_succeeds hremote (helperCommands helper) (w.sending (findHelper helper))
  have huse : useHelper remote helper w = .ok true w₁ := by
    rw [useHelper, bind_of_ok (execute_of_ok hfound), if_neg (by simp), bind_of_ok hall]
    rfl
  have hworks : Works (fun _ => True) w w₁ := by
    have hkeeps : (useHelper remote helper).Keeps (Works fun _ => True) := works_useHelper helper
    rw [← after_of_ok huse]
    exact hkeeps w
  obtain ⟨w₂, hlog⟩ := Audit.log_of_listens (hworks.listens hl) (Audit.words_configurationChange (.text "system")
    (.text "docker_config") (.text ("Configured credential helper: " ++ helper))).told
  refine result_eq_ok.2 ⟨w₂, ?_⟩
  rw [configureHelper, if_neg (by simp [name]), bind_of_ok (reached_of_ok huse), if_pos rfl, bind_of_ok hlog]
  rfl

theorem sends_login (name : isUsername c.username = true) (registry : c.registry ≠ []) (clear : IsClear w c.password)
    (remote : Remote) : sends (login remote c) w ≠ [] := by
  have opened : (clearPassword c).result w = .ok c.password := by
    have hrun : clearPassword c w = .ok c.password (w.told ⟨.warning, .docker, "docker_password_plaintext", []⟩) := by
      rw [clearPassword, bind_of_ok (Secrets.looksEncrypted_eq w _), clear.not_isEncrypted]
      rfl
    exact result_of_ok hrun
  obtain ⟨later, hlater⟩ := login_sends name registry opened clear.ne remote
  rw [← List.singleton_append, ← List.append_assoc] at hlater
  rw [sends_of_append hlater]
  exact List.append_ne_nil_of_right_ne_nil _ (List.cons_ne_nil _ _)

/-- A world in which a trail takes reports, and in which nothing marks a password. -/
def attended : World := ⟨bareSite, { config := {}, phase := .running }, { config := {} }⟩

theorem listens_attended : Audit.Listens attended := Audit.listens_of_running rfl

theorem alwaysSucceeds_const : AlwaysSucceeds fun _ _ => .ok ⟨true, []⟩ := fun _ _ => ⟨[], rfl⟩

/-- Some login with a user name sends commands exactly where the name passes the check. -/
theorem exists_sends_login_iff (t : Text) :
    (∃ remote c w, c.username = t ∧ sends (login remote c) w ≠ []) ↔ isUsername t = true := by
  constructor
  · rintro ⟨remote, c, w, rfl, hsends⟩
    by_contra hrefused
    exact hsends (sends_login_of_refused (Bool.eq_false_iff.2 hrefused) remote w)
  · intro name
    have hclear : IsClear attended "swordfish" := ⟨by decide +kernel, by decide +kernel⟩
    have registry : defaultRegistry ≠ [] := by decide +kernel
    exact ⟨fun _ _ => .ok ⟨true, []⟩, ⟨t, "swordfish", defaultRegistry⟩, attended, rfl,
      sends_login name registry hclear _⟩

theorem exists_sends_configureHelper_iff (t : Text) :
    (∃ remote w, sends (configureHelper remote t) w ≠ []) ↔ isHelperName t = true := by
  constructor
  · rintro ⟨remote, w, hsends⟩
    by_contra hrefused
    exact hsends (sends_configureHelper_of_refused (Bool.eq_false_iff.2 hrefused) remote w)
  · intro name
    refine ⟨fun _ _ => .ok ⟨true, []⟩, attended, ?_⟩
    rw [sends_configureHelper (configureHelper_of_succeeds alwaysSucceeds_const listens_attended name)]
    exact List.append_ne_nil_of_right_ne_nil _ (List.cons_ne_nil _ _)

/-- A helper in use has had its configuration written. -/
theorem exists_writes (h : (configureHelper remote helper).result w = .ok true) :
    Writes ("printf '%s\\n' '" ++ storeText helper ++ "' > " ++ configFile) (storeText helper ++ [('\n' : CodePoint)]) ∧
      ("printf '%s\\n' '" ++ storeText helper ++ "' > " ++ configFile) ∈ sends (configureHelper remote helper) w := by
  have hname : isHelperName helper = true := by
    by_contra hrefused
    have hnone := sends_configureHelper_of_refused (Bool.eq_false_iff.2 hrefused) remote w
    rw [sends_configureHelper h] at hnone
    exact absurd hnone (List.append_ne_nil_of_right_ne_nil _ (List.cons_ne_nil _ _))
  have hquote : ('\'' : CodePoint) ∉ helper := by
    have hnot : ∀ t, IsHelper t → ('\'' : CodePoint) ∉ t := fun t ht hc => absurd (ht.chars _ hc) (by decide)
    rcases (isHelperName_iff helper).1 hname with hh | ⟨name, hh, rfl⟩
    · exact hnot _ hh
    · rw [List.mem_append, not_or]
      exact ⟨hnot _ hh, by decide⟩
  refine ⟨writes_storeText hquote, ?_⟩
  rw [sends_configureHelper h, helperCommands_eq]
  simp

private theorem stores_iff (t : Text) :
    (∀ remote w, ∀ command ∈ sends (configureHelper remote t) w, ∀ text, Writes command text → Stores text t) ↔
      ¬Text.BeforeLineFeed IsHelper t := by
  constructor
  · rintro hall ⟨name, hname, rfl⟩
    have hpasses : isHelperName (name ++ [('\n' : CodePoint)]) = true :=
      (isHelperName_iff _).2 (Or.inr ⟨name, hname, rfl⟩)
    have hused := configureHelper_of_succeeds alwaysSucceeds_const listens_attended hpasses
    obtain ⟨hwrites, hsent⟩ := exists_writes hused
    exact hname.not_stores _ (hall _ attended _ hsent _ hwrites)
  · intro hline remote w command hmem text hwrites
    cases hpasses : isHelperName t with
    | false =>
      rw [sends_configureHelper_of_refused hpasses] at hmem
      exact absurd hmem List.not_mem_nil
    | true =>
      have hname := ((isHelperName_iff t).1 hpasses).resolve_right hline
      have hone := sends_of_sendsOnly (sendsOnly_configureHelper remote t) command hmem
      rw [hname.written hone hwrites]
      exact hname.stores

end Accepted

/-- Names that get through are of the grammar, unless there is one with a line feed behind it: the same holds for the
check, for logins and for helpers, and of what is written for a helper too. -/
theorem names_hold_iff (t : Text) :
    ((∀ password, (check t password).reason ≠ "Invalid username" → IsName t) ↔ ¬Text.BeforeLineFeed IsName t) ∧
    ((∀ remote c w, c.username = t → sends (login remote c) w ≠ [] → IsName t) ↔ ¬Text.BeforeLineFeed IsName t) ∧
    ((∀ remote w, sends (configureHelper remote t) w ≠ [] → IsHelper t) ↔ ¬Text.BeforeLineFeed IsHelper t) ∧
    ((∀ remote w, ∀ command ∈ sends (configureHelper remote t) w, ∀ text, Writes command text → Stores text t) ↔
      ¬Text.BeforeLineFeed IsHelper t) ∧
    ∀ remote w, (configureHelper remote t).result w = .ok true →
      ∃ command ∈ sends (configureHelper remote t) w, ∃ text, Writes command text := by
  have hname := Text.of_accepted_iff IsName.not_mem_lineFeed (isUsername_iff t)
  have hhelper := Text.of_accepted_iff IsHelper.not_mem_lineFeed (isHelperName_iff t)
  refine ⟨?_, ?_, ?_, stores_iff t, fun remote w h => ?_⟩
  · simp only [ne_eq, reason_check_iff, Bool.not_eq_false]
    exact (forall_const Text).trans hname
  · rw [← hname, ← exists_sends_login_iff t]
    simp only [forall_exists_index, and_imp]
  · rw [← hhelper, ← exists_sends_configureHelper_iff t]
    simp only [forall_exists_index]
  · obtain ⟨hwrites, hsent⟩ := exists_writes h
    exact ⟨_, hsent, _, hwrites⟩

/-- A helper of the grammar is put to use, and what is written for it names it as the store. -/
theorem names_hold_of_pass :
    let remote : Remote := fun _ _ => .ok ⟨true, []⟩
    ¬Text.BeforeLineFeed IsHelper "pass" ∧
      ∃ command ∈ sends (configureHelper remote "pass") attended, ∃ text, Writes command text ∧ Stores text "pass" := by
  intro remote
  have hpass : IsHelper "pass" := ⟨by decide +kernel, by decide +kernel⟩
  have hline : ¬Text.BeforeLineFeed IsHelper "pass" := fun h => h.not_self IsHelper.not_mem_lineFeed hpass
  have hused : (configureHelper remote "pass").result attended = .ok true :=
    configureHelper_of_succeeds alwaysSucceeds_const listens_attended (by decide +kernel)
  obtain ⟨-, -, -, hstores, hwrites⟩ := names_hold_iff "pass"
  obtain ⟨command, hsent, text, htext⟩ := hwrites remote attended hused
  exact ⟨hline, command, hsent, text, htext, hstores.2 hline remote attended command hsent text htext⟩

/-- Neither name is of its grammar, for each ends in a line feed, and both get through. -/
theorem names_before_line_feed :
    let u : Text := "bob\n"
    let h : Text := "pass\n"
    let remote : Remote := fun _ _ => .ok ⟨true, []⟩
    ¬IsName u ∧ check u "long-enough-pw" = .valid ∧
      sends (login remote ⟨u, "long-enough-pw", defaultRegistry⟩) attended ≠ [] ∧
      ¬IsHelper h ∧ sends (configureHelper remote h) attended ≠ [] ∧
      ∃ command ∈ sends (configureHelper remote h) attended, ∃ text, Writes command text ∧ ¬Stores text h := by
  intro u h remote
  have hclear : IsClear attended "long-enough-pw" := ⟨by decide +kernel, by decide +kernel⟩
  have hname : isUsername u = true := by decide +kernel
  have registry : defaultRegistry ≠ [] := by decide +kernel
  have hpass : IsHelper "pass" := ⟨by decide +kernel, by decide +kernel⟩
  have hused : (configureHelper remote h).result attended = .ok true :=
    configureHelper_of_succeeds alwaysSucceeds_const listens_attended (by decide +kernel)
  obtain ⟨hwrites, hsent⟩ := exists_writes hused
  refine ⟨fun hu => hu.not_mem_lineFeed _ (by decide +kernel), by decide +kernel, sends_login hname registry hclear _,
    fun hh => hh.not_mem_lineFeed _ (by decide +kernel), List.ne_nil_of_mem hsent, _, hsent, _, hwrites, hpass.not_stores _⟩

end Docker

end Custody
